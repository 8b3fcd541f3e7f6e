import BsaAcs.Smmu.Theorems.Hardware

namespace Smmu

open Heap (Frame Inside)

-- The entries of the streams, from the initialisation on.

section

variable {pf : Platform} {w w' : World} {smmu smmu' : SmmuDev} {d d' : Driver} {info : IovirtSmmuInfo}
variable {fuel status : Nat}

theorem shiftLeft_six {n : Nat} : 2 ^ (n + 6) = 64 * 2 ^ n := by
  rw [Nat.pow_add, Nat.mul_comm]

theorem strtabInitLinear_entries {j : Nat} (ha : pf.alloc.Sound) (hb : smmu.sidBits ≤ 24) (hj : j < 2 ^ smmu.sidBits)
    (h : smmuStrtabInitLinear pf smmu w = (true, smmu', w')) :
    entryAt w'.heap.mem (smmu'.strtabCfg.strtab64 + 64 * j) = .abort := by
  have hp : 2 ^ smmu.sidBits ≤ 2 ^ 24 := Nat.pow_le_pow_right two_pos hb
  have hsize := linearSize_eq hb
  have hlt : 2 * 2 ^ (smmu.sidBits + 6) < 2 ^ 32 := by
    rw [shiftLeft_six]
    omega
  simp only [smmuStrtabInitLinear] at h
  rw [hsize, Nat.mod_eq_of_lt hlt] at h
  split at h
  case isTrue => cases h
  case isFalse =>
    have hfit := World.alloc_fits (w := w) ha hlt
    simp only [Prod.mk.injEq, true_and] at h
    obtain ⟨hs, hm⟩ := h
    rw [← hs, ← hm]
    simp only [SmmuDev.setStrtab]
    have hcount : j < shl1 smmu.sidBits := by
      rw [shl1_eq (by omega)]
      exact hj
    rw [abortStes_entry hcount, ← Entry.write_none_zero]
    congr 1
    funext i
    obtain ⟨h₁, h₂⟩ := alignToSize_bounds hfit
    rw [shiftLeft_six] at h₁ h₂ hlt ⊢
    refine Memory.set_mem ?_ ?_
    · omega
    · rw [Nat.mod_eq_of_lt hlt]
      omega

-- The entries of a new SMMU, before and after its reset.
theorem setup_entries {sid : Nat} (ha : pf.alloc.Sound) (hw : w.heap.Laid) (hf : SizesFit smmu')
    (hl : smmu'.supported.stLevel2lvl = false) (hs : sid < 2 ^ smmu'.sidBits)
    (h : smmuSetup pf smmu w = (true, smmu', w')) :
    entryAt w'.heap.mem (smmu'.strtabCfg.strtab64 + 64 * sid) = .abort ∧
      ∀ x, Inside (smmu'.strtabCfg.strtabPtr, 2 * 2 ^ (smmu'.sidBits + 6)) x → ¬QueueWords smmu'.cmdq x := by
  simp only [smmuSetup] at h
  split at h
  case h_1 => cases h
  case h_2 hp =>
    split at h
    case h_1 => cases h
    case h_2 smmu₁ w₁ hq =>
      obtain ⟨hqueue, hbase, _⟩ := cmdQueueInit_placed ha hq
      have hi := strtabInit_placed ha h
      have hlaid : w₁.heap.Laid :=
        (cmdQueueInit_frame (S := fun _ => False) ha hq).laid (probe_heap hp ▸ hw)
      rw [hi.cmdq]
      rw [hi.bits] at hs ⊢
      rw [hi.level] at hl
      obtain ⟨hf₁, hf₂⟩ := hf
      rw [hi.level, hl, if_neg Bool.false_ne_true, hi.bits] at hf₂
      rw [hi.cmdq] at hf₁
      simp only [smmuStrtabInit, hl, Bool.false_eq_true, if_false] at h
      split at h
      case h_1 => cases h
      case h_2 smmu₂ w₂ he =>
        cases h
        have hentry := strtabInitLinear_entries ha hf₂ hs he
        refine ⟨hentry, fun x hx hqx => ?_⟩
        have hsize := linearSize_eq hf₂
        have hlt : 2 * 2 ^ (smmu₁.sidBits + 6) < 2 ^ 32 := by
          have hp : 2 ^ smmu₁.sidBits ≤ 2 ^ 24 := Nat.pow_le_pow_right two_pos hf₂
          rw [shiftLeft_six]
          omega
        have hnew : ∀ c ∈ w₁.heap.live, Heap.Apart (smmu₂.strtabCfg.strtabPtr, 2 * 2 ^ (smmu₁.sidBits + 6)) c := by
          simp only [smmuStrtabInitLinear] at he
          rw [hsize, Nat.mod_eq_of_lt hlt] at he
          split at he
          case isTrue => cases he
          case isFalse hz =>
            have hapart := (World.alloc_new ha hz).2
            rw [Nat.mod_eq_of_lt hlt] at hapart
            cases he
            exact hapart
        have hfits := hlaid.fits _ hqueue
        rw [(cmdqSize_fits hf₁).2] at hqueue hfits
        exact (hnew _ hqueue).not_inside hx (queueWords_inside hbase hf₁ hfits hqx)

-- All entries of an SMMU that was just initialised abort.
theorem init_entries {sid : Nat} (ha : pf.alloc.Sound) (hw : w.heap.Laid) (hz : ∀ j, smmu.strtabCfg.l1Desc j = .zero)
    (hf : SizesFit smmu') (hs : smmu'.HasSte sid) (h : smmuInit pf smmu fuel w = some (0, smmu', w')) :
    entryAt w'.heap.mem (smmuStrtabGetSteForSid smmu' sid) = .abort := by
  obtain ⟨_, w₁, hsetup, ret, hr⟩ := init_setup h
  obtain ⟨hlt, hptr⟩ := hs
  cases hl : smmu'.supported.stLevel2lvl
  case true =>
    have hnone := (init_configured ha hz h).2 (sid >>> strtabSplit)
    exact absurd (hnone ▸ rfl) (hptr hl)
  case false =>
    obtain ⟨hentry, hapart⟩ := setup_entries ha hw hf hl hlt hsetup
    have hbits := hf.2
    rw [hl, if_neg Bool.false_ne_true] at hbits
    have hsize : strtabSize smmu' = 2 ^ (smmu'.sidBits + 6) := by
      rw [strtabSize, hl]
      exact linearSize_eq hbits
    have hp : 2 ^ smmu'.sidBits ≤ 2 ^ 24 := Nat.pow_le_pow_right two_pos hbits
    have hpow := shiftLeft_six (n := smmu'.sidBits)
    have hlt32 : 2 * 2 ^ (smmu'.sidBits + 6) < 2 ^ 32 := by omega
    have hpl := setup_placed ha hz hsetup
    have hblock := hpl.strtab
    rw [hsize, Nat.mod_mod, Nat.mod_eq_of_lt hlt32] at hblock
    have hlaid := (setup_frame (S := fun _ => True) ha (fun _ => .inr fun _ => trivial) hsetup).laid hw
    have hloc : smmuStrtabGetSteForSid smmu' sid = smmu'.strtabCfg.strtab64 + 64 * sid := by
      rw [ste_offset hl (by omega) hbits, Nat.mul_comm]
    rw [hloc, ← hentry]
    refine entryAt_congr fun x hx => ?_
    have hin : Inside (smmu'.strtabCfg.strtabPtr, 2 * 2 ^ (smmu'.sidBits + 6)) x := by
      refine aligned_inside (hlaid.fits _ hblock) ?_
      rw [hpl.aligned, hsize] at hx
      obtain ⟨_, _⟩ := hx
      exact ⟨by simp only at *; omega, by simp only at *; omega⟩
    exact (reset_frame hr).mem _ hblock x hin (hapart x hin)

theorem initFrom_smmus {n i : Nat} (h : initFrom pf info fuel n i d = some (status, d')) :
    d'.numSmmus = d.numSmmus ∧ ∀ k < i, d'.smmus k = d.smmus k := by
  induction n generalizing i d
  case zero =>
    cases h
    exact ⟨rfl, fun _ _ => rfl⟩
  case succ n hi =>
    simp only [initFrom] at h
    have set {smmu : SmmuDev} {k : Nat} (hk : k < i) : (d.setSmmu i smmu).smmus k = d.smmus k :=
      if_neg (Nat.ne_of_lt hk)
    split at h
    case isTrue =>
      obtain ⟨hn, hs⟩ := hi h
      exact ⟨hn, fun k hk => hs k (by omega)⟩
    case isFalse =>
      split at h
      case h_1 => cases h
      case h_2 =>
        split at h
        case isTrue =>
          cases h
          exact ⟨rfl, fun k hk => set hk⟩
        case isFalse =>
          obtain ⟨hn, hs⟩ := hi h
          exact ⟨hn, fun k hk => (hs k (by omega)).trans (set hk)⟩

-- All entries abort.
def Driver.Fresh (d : Driver) : Prop :=
  ∀ k < d.numSmmus, (d.smmus k).base ≠ 0 → ∀ sid, (d.smmus k).HasSte sid →
    entryAt d.world.heap.mem (smmuStrtabGetSteForSid (d.smmus k) sid) = .abort

theorem Driver.Fresh.setSmmu {i : Nat} (hd : d.Fresh) (hp : d.Placed) (hf : d.Sized)
    (hw : Frame (fun _ => False) d.world.heap w.heap)
    (hs : smmu.base ≠ 0 → ∀ sid, smmu.HasSte sid → entryAt w.heap.mem (smmuStrtabGetSteForSid smmu sid) = .abort) :
    Driver.Fresh { d.setSmmu i smmu with world := w } := by
  intro k hk hb sid he
  have hset : (d.setSmmu i smmu).smmus k = if k = i then smmu else d.smmus k := rfl
  change ((d.setSmmu i smmu).smmus k).base ≠ 0 at hb
  change ((d.setSmmu i smmu).smmus k).HasSte sid at he
  change entryAt w.heap.mem (smmuStrtabGetSteForSid ((d.setSmmu i smmu).smmus k) sid) = .abort
  rw [hset] at hb he ⊢
  split at hb
  case isTrue hi =>
    rw [if_pos hi] at he ⊢
    exact hs hb sid he
  case isFalse hi =>
    rw [if_neg hi] at he ⊢
    rw [← hd k hk hb sid he]
    refine entryAt_congr fun x hx => ?_
    have ⟨_, size, hlive, hins⟩ := ste_in hp hk hb (hf k hk hb) he hx
    exact hw.mem _ hlive x hins fun hc => hc

theorem initFrom_fresh {n i : Nat} (ha : pf.alloc.Sound) (hp : d.Placed) (hm : d.masters = [])
    (hz : ∀ j, i ≤ j → d.smmus j = .zero) (hn : i + n ≤ d.numSmmus) (hd : d.Fresh) (hsized : d'.Sized)
    (h : initFrom pf info fuel n i d = some (status, d')) : d'.Fresh := by
  induction n generalizing i d
  case zero =>
    cases h
    exact hd
  case succ n hi =>
    have hz₀ : ∀ j, ({ d.smmus i with base := info.ctrlBase i } : SmmuDev).strtabCfg.l1Desc j = .zero := by
      intro j
      rw [hz i (Nat.le_refl i)]
      rfl
    have hfits : d.Sized := by
      obtain ⟨hnum, hsame⟩ := initFrom_smmus h
      intro k hk hb
      have hlt : k < i := by
        by_contra hc
        rw [hz k (Nat.le_of_not_lt hc)] at hb
        exact hb rfl
      rw [← hsame k hlt] at hb ⊢
      exact hsized k (hnum ▸ hk) hb
    simp only [initFrom] at h
    split at h
    case isTrue => exact hi hp hm (fun j hj => hz j (by omega)) (by omega) hd h
    case isFalse =>
      split at h
      case h_1 => cases h
      case h_2 status₁ smmu w he =>
        split at h
        case isTrue hs =>
          cases h
          have hf := init_frame (S := fun _ => False) ha hz₀ hp.laid (fun hc => absurd hc hs) he
          exact hd.setSmmu hp hfits hf fun hb => absurd rfl hb
        case isFalse hs =>
          rw [not_not.mp hs] at he
          obtain ⟨hnum, hsame⟩ := initFrom_smmus h
          have hi₀ : (d.setSmmu i smmu).smmus i = smmu := if_pos rfl
          have hbase : smmu.base ≠ 0 := by
            obtain ⟨hb, w₁, hsetup, _⟩ := init_setup he
            rw [(setup_prepares hsetup).base_eq]
            exact hb
          have hsmmu : SizesFit smmu := by
            have hfin := hsame i (Nat.lt_succ_self i)
            have hfin : d'.smmus i = smmu := hfin.trans hi₀
            rw [← hfin]
            refine hsized i ?_ (hfin ▸ hbase)
            rw [hnum]
            change i < d.numSmmus
            omega
          have hf := init_frame (S := fun _ => False) ha hz₀ hp.laid (fun _ => .inl hsmmu) he
          have hp' := hp.setSmmu (i := i) hm (fun _ => init_placed ha hz₀ he) hf.live (hf.laid hp.laid)
          refine hi hp' hm (fun j hj => ?_) ?_ ?_ h
          · have h₁ : (d.setSmmu i smmu).smmus j = if j = i then smmu else d.smmus j := rfl
            change (d.setSmmu i smmu).smmus j = .zero
            rw [h₁, if_neg (by omega)]
            exact hz j (by omega)
          · change i + 1 + n ≤ d.numSmmus
            omega
          · exact hd.setSmmu hp hfits hf fun _ sid hste => init_entries ha hp.laid hz₀ hsmmu hste he

theorem init_fresh (ha : pf.alloc.Sound) (hw : w.heap.Laid) (hsized : d.Sized)
    (h : valSmmuInit pf info fuel (.boot w) = some (status, d)) : d.Fresh := by
  have empty {w : World} {g num : Nat} (hw : w.heap.Laid) :
      Driver.Placed { world := w, gSmmu := g, numSmmus := num, smmus := fun _ => .zero, masters := [] } ∧
      Driver.Fresh { world := w, gSmmu := g, numSmmus := num, smmus := fun _ => .zero, masters := [] } :=
    ⟨⟨hw, fun _ _ hb => absurd rfl hb, fun _ hn => by cases hn⟩, fun _ _ hb => absurd rfl hb⟩
  have hf := World.alloc_frame (S := fun _ => False) (w := w) ha (sizeofSmmuDev * info.numCtrl)
  simp only [valSmmuInit] at h
  split at h
  case isTrue =>
    cases h
    exact (empty hw).2
  case isFalse =>
    split at h
    case isTrue =>
      cases h
      exact (empty (hf.laid hw)).2
    case isFalse =>
      exact initFrom_fresh ha (empty (hf.laid hw)).1 rfl (fun _ _ => rfl) (Nat.le_of_eq (Nat.zero_add _))
        (empty (hf.laid hw)).2 hsized h

end

-- What the calls do to the entries.

section

variable {pf : Platform} {attr : SmmuMasterAttributes} {pgt : PgtDescriptor} {d d' : Driver} {others : List Nat}
variable {status k sid : Nat}

theorem Driver.Fresh.entry_eq (hd : d.Fresh) (hk : k < d.numSmmus) (hb : (d.smmus k).base ≠ 0) : d.entry k sid = .abort := by
  rw [Driver.entry]
  split
  case isTrue he => exact hd k hk hb sid he
  case isFalse   => rfl

-- A map that fails changes no entry.
theorem Maps.failed_entry (ha : pf.alloc.Sound) (hs : d.Sane others) (hc : d.CallSafe pf (.map attr pgt))
    (hn : status ≠ 0) (hk : k < d.numSmmus) (hb : (d.smmus k).base ≠ 0) (h : Maps pf attr pgt d status d') :
    d'.entry k sid = d.entry k sid := by
  have hsame := (h.failed_frame ha hs hc hn).2 k
  rw [Driver.entry, Driver.entry]
  by_cases hold : (d.smmus k).HasSte sid
  case pos =>
    rw [if_pos hold, if_pos (hsame.ste hold).1, (hsame.ste hold).2]
    exact entryAt_congr (h.failed_stes ha hs hc hn hk hb hold).2
  case neg =>
    rw [if_neg hold]
    split
    case isFalse => rfl
    case isTrue he =>
      obtain ⟨_, hz, hptr⟩ := hsame.new_ste hold he
      obtain ⟨ht, hidx, hj, htwo, hr, _, d₁, w₁, hlook, hlevel, hlast⟩ := h.failed_new ha hs hc hn hz hptr
      subst hidx
      obtain ⟨hentry, b, hlive, hin⟩ := hs.level2_entries ha ht hlook htwo hr (hj ▸ hz) hlevel hj
      rw [← hentry]
      exact entryAt_congr fun x hx => hlast.mem b hlive x (hin x hx) fun hf => hf

theorem Lookup.entry {r : Option (Nat × Master)} {sid' : Nat} (ha : pf.alloc.Sound) (hs : d.Sane others)
    (hk : k < d.numSmmus) (hb : (d.smmus k).base ≠ 0) (h : Lookup pf sid' d r d') : d'.entry k sid = d.entry k sid := by
  rw [Driver.entry, Driver.entry, h.smmus_eq]
  split
  case isFalse => rfl
  case isTrue he =>
    refine entryAt_congr fun x hx => ?_
    obtain ⟨_, size, hlive, hins⟩ := ste_in hs.placed hk hb (hs.sized k hk hb) he hx
    exact (h.frame (S := fun _ => False) ha).mem _ hlive x hins fun hf => hf

-- An unmap makes the entry of its stream abort, and changes no other.
theorem Unmaps.entry_eq (ha : pf.alloc.Sound) (hs : d.Sane others) (hat : d.Attached)
    (hu : d.UnmapsLinear (.unmap attr)) (hk : k < d.numSmmus) (hb : (d.smmus k).base ≠ 0) (h : Unmaps pf attr d d') :
    d'.entry k sid =
      if (d.recordOf attr.streamid).smmu = some k ∧ sidInRange (d.smmus k) attr.streamid = true ∧ sid = attr.streamid
      then (d.entry k sid).write none else d.entry k sid := by
  cases h
  case noRecord hlook =>
    have hnone : (d.recordOf attr.streamid).smmu = none := by
      by_contra hc
      obtain ⟨_, hk⟩ := Option.ne_none_iff_exists'.mp hc
      obtain ⟨n, hn, _, hsid⟩ := recordOf_mem hk
      exact hlook.no_record.1 n hn hsid
    rw [if_neg (by simp [hnone])]
    exact hlook.entry ha hs hk hb
  case unused hm hlook =>
    rw [if_neg (by simp [hlook.recordOf_eq, hm])]
    exact hlook.entry ha hs hk hb
  case outOfRange k' hm hr hlook =>
    rw [if_neg ?_]
    · exact hlook.entry ha hs hk hb
    · rintro ⟨hc, hr', _⟩
      rw [hlook.recordOf_eq, hm] at hc
      cases hc
      rw [hr] at hr'
      cases hr'
  case done i m k' d₁ fuel timedOut w' hlook hm hr ht =>
    have hbound : (d.recordOf attr.streamid).smmu = some k' := hlook.recordOf_eq ▸ hm
    have hlin := hu k' hbound hr
    obtain ⟨hk', hb'⟩ := hat.recordOf hbound
    have hste' := linear_hasSte hlin hr
    rw [← linear_ste hlin] at ht
    have hsame : d₁ = d := by
      rcases hlook.record with ⟨he, _⟩ | ⟨_, he, _⟩
      case inl => exact he
      case inr =>
        rw [he] at hm
        cases hm
    subst hsame
    have hthat : ((d₁.recordOf attr.streamid).smmu = some k ∧ sidInRange (d₁.smmus k) attr.streamid = true ∧
        sid = attr.streamid) ↔ k = k' ∧ sid = attr.streamid := by
      rw [hbound]
      constructor
      · rintro ⟨hc, _, hsid⟩
        cases hc
        exact ⟨rfl, hsid⟩
      · rintro ⟨rfl, hsid⟩
        exact ⟨rfl, hr, hsid⟩
    simp only [hthat]
    rw [Driver.entry, Driver.entry]
    change (if (d₁.smmus k).HasSte sid then entryAt w'.heap.mem (smmuStrtabGetSteForSid (d₁.smmus k) sid) else .abort) = _
    by_cases he : (d₁.smmus k).HasSte sid
    case neg =>
      have hne : ¬(k = k' ∧ sid = attr.streamid) := by
        rintro ⟨rfl, rfl⟩
        exact he hste'
      rw [if_neg he, if_neg he, if_neg hne]
    case pos =>
      rw [if_pos he, if_pos he, ←hs.written_entry hk hb he hk' hb' hste']
      refine entryAt_congr fun x hx => ?_
      have hin := ste_in hs.placed hk hb (hs.sized k hk hb) he hx
      exact (tlbiCfgi_mem ht (hin.not_queue hs Driver.steHandle_ofStrtab hk' hb')).trans (congrFun cdtabFree_mem _)

end

end Smmu
