import BsaAcs.Pe.Registers
import BsaAcs.Pgt.Theorems.Regions
import BsaAcs.Pgt.Theorems.Destroy
import BsaAcs.Smmu.Theorems.Session

namespace Smmu

open Heap (Inside)

-- How the SMMU translates an address of a device, from its registers on.

-- The logarithm of the granule that the field TG0 names.
def granuleLog2 : Nat → Option Nat
  | 0 => some 12
  | 1 => some 16
  | 2 => some 14
  | _ => none

-- What a walk gives to the device: an address and its attributes, unless it ends in a fault.
def reached : Pgt.WalkResult → Option (Nat × Nat)
  | .mapped address attributes => some (address, attributes)
  | .invalid _                 => none

-- The walk that a context descriptor asks for. T0SZ is valid from 16 to 39. The limits of the output addresses are
-- left out.
def CdFields.translate (cd : CdFields) (mem : Memory) (va : Nat) : Option (Nat × Nat) :=
  (granuleLog2 cd.tg0).bind fun p =>
    let ias := 64 - cd.t0sz
    if 16 ≤ cd.t0sz ∧ cd.t0sz ≤ 39 ∧ va < 2 ^ ias then
      reached (Pgt.walk mem p (Pgt.rootHeight p ias) cd.ttb0 (Pgt.rootBits p ias) va)
    else none

-- Stage 1 of the translation for a stream and a substream: the output address and its attributes, if there is no fault.
-- What comes without a substream id is translated as substream 0.
def Driver.translate (d : Driver) (k sid ssid va : Nat) : Option (Nat × Nat) :=
  (d.hardwareSte k sid).bind fun ste => (lookupCd d.world.heap.mem ste ssid).bind fun cd =>
    if cdValid d.world.heap.mem cd then (cdFields d.world.heap.mem cd).translate d.world.heap.mem va else none

-- The last successful map or unmap of the stream is a map for stage 1.
def History.Staged (sid : Nat) : History → Prop
  | [] => False
  | (.map attr _, status) :: hist =>
    if status = 0 ∧ attr.streamid = sid then attr.stage2 = 0 else Staged sid hist
  | (.unmap attr, _) :: hist => attr.streamid ≠ sid ∧ Staged sid hist

-- The entry of a stream that is mapped for stage 1 leads to the tables in its record.
structure Driver.Reaches (d : Driver) (i sid : Nat) : Prop where
  bound : (d.recordOf sid).smmu = some i
  ste   : (d.smmus i).HasSte sid
  table : (d.recordOf sid).stage1.cdcfg.cdtabPtr ≠ 0
  entry : d.entry i sid 0 = steStage1Word0 (d.recordOf sid).stage1.cdcfg.cdtabPhys (d.recordOf sid).stage1.s1cdmax
    (d.recordOf sid).stage1.s1fmt

-- What holds along a session. Stream 0 is left out, since an unmap leaves records behind that carry its id.
structure Serving (others : List Nat) (i : Nat) (hist : History) (d : Driver) : Prop where
  carried    : Carried others i hist d
  linking    : Linking others hist d
  configured : ∀ k, (d.smmus k).base ≠ 0 → (d.smmus k).Configured
  staged     : ∀ sid ≠ 0, hist.Staged sid → d.Reaches i sid
  unstaged   : ∀ sid ≠ 0, ¬hist.Staged sid → (d.smmus i).base ≠ 0 → i < d.numSmmus →
    strtabSte0Config.get (d.entry i sid 0) ≠ strtabSte0ConfigS1Trans

section

variable {pf : Platform} {d d' : Driver} {attr : SmmuMasterAttributes} {pgt : PgtDescriptor} {others others' : List Nat}
variable {hist : History} {status i sid : Nat} {c : Call} {w w' : World} {T : Nat × Nat → Prop}

-- A map for a stream with a table does not move the table.
theorem mapStage1_format {cd2l ok : Bool} {ssid ssidBits : Nat} {cfg cfg' : Stage1Config} (hp : cfg.cdcfg.cdtabPtr ≠ 0)
    (hb : cfg.s1cdmax = ssidBits % 2 ^ 8) (h : mapStage1 pf cd2l ssid ssidBits pgt cfg w = (ok, cfg', w')) :
    cfg'.cdcfg.cdtabPtr = cfg.cdcfg.cdtabPtr ∧ cfg'.cdcfg.cdtabPhys = cfg.cdcfg.cdtabPhys ∧
      cfg'.s1cdmax = cfg.s1cdmax ∧ cfg'.s1fmt = cfg.s1fmt := by
  simp only [mapStage1, if_neg hp] at h
  obtain ⟨hfmt, hmax, _, hptr, _, hphys⟩ := cdtabWrite_format h
  exact ⟨hptr, hphys, hmax.trans hb.symm, hfmt⟩

theorem Driver.Reaches.of_record (h : d.Reaches i sid) (hr : d'.recordOf sid = d.recordOf sid)
    (hste : (d'.smmus i).HasSte sid) (he : d'.entry i sid = d.entry i sid) : d'.Reaches i sid where
  bound := hr ▸ h.bound
  ste   := hste
  table := hr ▸ h.table
  entry := by rw [hr, he]; exact h.entry

theorem Driver.Reaches.present (h : d.Reaches i sid) (hat : d.Attached) : i < d.numSmmus ∧ (d.smmus i).base ≠ 0 :=
  hat.recordOf h.bound

-- The first word of the entry, at its address.
theorem Driver.Reaches.ste_word (h : d.Reaches i sid) :
    d.world.heap.mem (smmuStrtabGetSteForSid (d.smmus i) sid) = steStage1Word0 (d.recordOf sid).stage1.cdcfg.cdtabPhys
      (d.recordOf sid).stage1.s1cdmax (d.recordOf sid).stage1.s1fmt := by
  have hword := h.entry
  rw [Driver.entry, if_pos h.ste] at hword
  exact hword

-- The failed map of a stream that is mapped.
theorem Maps.failed_reaches (ha : pf.alloc.Sound) (hs : d.Sane others) (hat : d.Attached)
    (hc : d.CallSafe pf (.map attr pgt)) (hn : status ≠ 0) (h : Maps pf attr pgt d status d')
    (hr : d.Reaches i attr.streamid) : d'.Reaches i attr.streamid := by
  obtain ⟨hi, hb⟩ := hr.present hat
  have he : d'.entry i attr.streamid = d.entry i attr.streamid := h.failed_entry ha hs hc hn hi hb
  have hste := ((h.failed_frame ha hs hc hn).2 i).ste hr.ste
  cases h
  case rejected => exact hr
  case done     => exact absurd rfl hn
  case noRecord hl =>
    have hz := Driver.recordOf_none hl.no_record.1
    have hbound := hr.bound
    rw [hz] at hbound
    cases hbound
  case failed idx m d₁ smmu' m' w' hg hk hbase hl hm =>
    obtain ⟨_, _, _, hsid⟩ := hl.listed
    have hkey : (m.bind attr).key = _ := bind_key hsid
    have hkey' := mapMaster_key hm
    have hsid' : m'.sid = attr.streamid := (congrArg Prod.fst hkey').trans (congrArg Prod.fst hkey)
    have hrec : d.recordOf attr.streamid = m := hl.recordOf_eq
    have hrec' : (d₁.mapped attr.smmuIndex idx smmu' m' w').recordOf attr.streamid = m' := (hl.mapped hsid').recordOf_eq
    have hbound : m.smmu = some i := hrec ▸ hr.bound
    have hbind : m.bind attr = m := by simp [Master.bind, hbound]
    have htable : m.stage1.cdcfg.cdtabPtr ≠ 0 := hrec ▸ hr.table
    obtain ⟨n, hlist, hmaster, _⟩ := recordOf_mem hr.bound
    have hbits : m.stage1.s1cdmax = m.ssidBits % 2 ^ 8 := by
      have hb := ((hs.kept.nodes n hlist).bound i (hmaster ▸ hr.bound)).bits (.inl (hmaster ▸ hr.table))
      rwa [hmaster, hrec] at hb
    have hsame : m'.stage1.cdcfg.cdtabPtr = m.stage1.cdcfg.cdtabPtr ∧
        m'.stage1.cdcfg.cdtabPhys = m.stage1.cdcfg.cdtabPhys ∧ m'.stage1.s1cdmax = m.stage1.s1cdmax ∧
        m'.stage1.s1fmt = m.stage1.s1fmt := by
      rw [hbind] at hm hkey
      rcases mapMaster_failing (congrArg Prod.fst hkey) hm with heq | ⟨_, _, _, _, htab⟩
      case inl =>
        rw [heq]
        exact ⟨rfl, rfl, rfl, rfl⟩
      case inr => exact mapStage1_format htable hbits htab
    obtain ⟨h₁, h₂, h₃, h₄⟩ := hsame
    refine ⟨?_, hste.1, ?_, ?_⟩
    · rw [hbind] at hkey'
      rw [hrec']
      exact (congrArg Prod.snd hkey').trans hbound
    · rw [hrec', h₁]
      exact htable
    · rw [hrec', he, hr.entry, hrec, h₂, h₃, h₄]

theorem Maps.reaches_other (ha : pf.alloc.Sound) (hs : d.Sane others) (hat : d.Attached)
    (hc : d.CallSafe pf (.map attr pgt)) (hb : d.NamesBound (.map attr pgt)) (h : Maps pf attr pgt d status d')
    (hne : sid ≠ attr.streamid) (hr : d.Reaches i sid) : d'.Reaches i sid := by
  obtain ⟨hi, hbase⟩ := hr.present hat
  have hsame := h.sameBut.2 i
  exact hr.of_record (h.recordOf_of_ne hne) (hsame.ste hr.ste).1
    ((h.confined ha hs hc hb).entries i hi hbase sid fun hc => hne (Prod.mk.inj hc).2)

-- An unmap leaves the record of another stream as it is, unless this is stream 0.
theorem Unmaps.recordOf_bound {k : Nat} (ha : pf.alloc.Sound) (hs : d.Sane others) (hb : d.NamesBound (.unmap attr))
    (h : Unmaps pf attr d d') (hne : sid ≠ attr.streamid) (hz : sid ≠ 0) (hk : (d.recordOf sid).smmu = some k) :
    d'.recordOf sid = d.recordOf sid := by
  refine (h.recordOf_of_ne hne).resolve_right fun he => ?_
  obtain ⟨n, hn, hmaster, hsid⟩ := recordOf_mem hk
  obtain ⟨idx, hidx⟩ := List.mem_iff_getElem?.mp hn
  obtain ⟨hmem, _⟩ := h.other ha hs hb hidx (hmaster ▸ hk) fun hc => hne (hsid.symm.trans (Prod.mk.inj hc).2)
  rw [Driver.recordOf] at he
  cases hf : d'.masters.find? (·.master.sid == sid)
  case none =>
    have hnot := List.find?_eq_none.mp hf n hmem
    exact hnot (beq_iff_eq.mpr hsid)
  case some n' =>
    have hsid' : (n'.master.sid == sid) = true := List.find?_some (p := fun n : Node => n.master.sid == sid) hf
    rw [hf] at he
    have he : n'.master = .zero := he
    rw [he] at hsid'
    exact hz (beq_iff_eq.mp hsid').symm

theorem Unmaps.reaches_other (ha : pf.alloc.Sound) (hs : d.Sane others) (hat : d.Attached)
    (hu : d.UnmapsLinear (.unmap attr)) (hb : d.NamesBound (.unmap attr)) (h : Unmaps pf attr d d')
    (hne : sid ≠ attr.streamid) (hz : sid ≠ 0) (hr : d.Reaches i sid) : d'.Reaches i sid := by
  obtain ⟨hi, hbase⟩ := hr.present hat
  refine hr.of_record (h.recordOf_bound ha hs hb hne hz hr.bound) ?_
    ((h.confined ha hs hat hu hb).entries i hi hbase sid fun hc => hne (Prod.mk.inj hc).2)
  rw [h.smmus_eq.2]
  exact hr.ste

-- A successful map.
theorem Mapping.reaches {d₁ : Driver} {idx : Nat} {m m' : Master} {smmu' : SmmuDev} {w₁ w₂ : World}
    (ha : pf.alloc.Sound) (hs : d.Sane others) (hc : d.CallSafe pf (.map attr pgt)) (hs' : d'.Sane others)
    (hb : d.NamesBound (.map attr pgt)) (h1 : attr.stage2 = 0)
    (h : Mapping pf attr pgt d d' d₁ idx m smmu' m' w₁ w₂ w') : d'.Reaches attr.smmuIndex attr.streamid := by
  obtain ⟨_, hk, hbase⟩ := h.takes
  have hrec : d'.recordOf attr.streamid = m' := h.found.recordOf_eq
  have hconfig : m'.steConfig = .stage1 m'.stage1.cdcfg.cdtabPhys m'.stage1.s1cdmax m'.stage1.s1fmt := by
    rcases h.tables with ⟨h2, _⟩ | ⟨_, _, _, he⟩
    case inl => exact absurd h1 h2
    case inr =>
      rw [he]
      rfl
  refine ⟨?_, ?_, ?_, ?_⟩
  · rw [hrec]
    exact h.smmu_eq hb
  · rw [h.smmus_eq, if_pos rfl]
    exact h.hasSte
  · rw [hrec]
    exact (h.hasCd hs hc h1).1
  · rw [h.entry_eq hs hc hs' ha hk hbase, if_pos ⟨rfl, rfl⟩, hconfig, hrec]
    rfl

end

section

variable {pf : Platform} {d d' : Driver} {attr : SmmuMasterAttributes} {pgt : PgtDescriptor} {others others' : List Nat}
variable {hist : History} {status i sid : Nat} {c : Call} {w' : World} {T : Nat × Nat → Prop}

theorem Serving.map (ha : pf.alloc.Sound) (hi : Serving others i hist d) (hk : Substreaming pf i hist d (.map attr pgt))
    (h : Maps pf attr pgt d status d') (hst : Step pf d (.map attr pgt) status d') :
    Serving others i ((.map attr pgt, status) :: hist) d' := by
  have hcarried := hi.carried.step ha hk hst
  obtain ⟨hc, hu, hidx, _⟩ := hk
  have hidx : attr.smmuIndex = i := hidx
  subst hidx
  have hs := hi.carried.sane
  have hat := hi.carried.attached
  have hb : d.NamesBound (.map attr pgt) := Driver.Sole.namesBound (c := .map attr pgt) hi.carried.sole
  obtain ⟨hnum, hsame⟩ := h.sameBut
  refine ⟨hcarried, hi.linking.step ha hc hu hst, ?_, ?_, ?_⟩
  · intro k hbase
    obtain ⟨_, _, heq⟩ := hsame k
    rw [heq] at hbase ⊢
    exact ⟨(hi.configured k hbase).base, (hi.configured k hbase).cfg⟩
  · intro sid hz hstaged
    rw [History.Staged] at hstaged
    by_cases hne : sid = attr.streamid
    case neg =>
      rw [if_neg fun hc => hne hc.2.symm] at hstaged
      exact h.reaches_other ha hs hat hc hb hne (hi.staged sid hz hstaged)
    case pos =>
      subst hne
      split at hstaged
      case isTrue hm =>
        obtain ⟨rfl, _⟩ := hm
        obtain ⟨_, _, _, _, _, _, _, _, hm⟩ := h.mapping
        exact hm.reaches ha hs hc (h.sane ha hs hc) hb hstaged
      case isFalse hn =>
        exact h.failed_reaches ha hs hat hc (fun hc => hn ⟨hc, rfl⟩) (hi.staged _ hz hstaged)
  · intro sid hz hstaged hbase hlt
    have hbase₀ : (d.smmus attr.smmuIndex).base ≠ 0 := by
      obtain ⟨_, _, heq⟩ := hsame attr.smmuIndex
      rw [heq] at hbase
      exact hbase
    have hlt₀ : attr.smmuIndex < d.numSmmus := hnum ▸ hlt
    rw [History.Staged] at hstaged
    by_cases hm : status = 0 ∧ attr.streamid = sid
    case neg =>
      rw [if_neg hm] at hstaged
      have hold := hi.unstaged sid hz hstaged hbase₀ hlt₀
      by_cases hstatus : status = 0
      case neg =>
        rw [h.failed_entry ha hs hc hstatus hlt₀ hbase₀]
        exact hold
      case pos =>
        subst hstatus
        obtain ⟨_, _, _, _, _, _, _, _, hmap⟩ := h.mapping
        rw [hmap.entry_eq hs hc (h.sane ha hs hc) ha hlt₀ hbase₀, if_neg fun hc => hm ⟨rfl, hc.2.symm⟩]
        exact hold
    case pos =>
      rw [if_pos hm] at hstaged
      obtain ⟨rfl, rfl⟩ := hm
      obtain ⟨_, _, _, _, _, _, _, _, hmap⟩ := h.mapping
      rw [hmap.entry_eq hs hc (h.sane ha hs hc) ha hlt₀ hbase₀, if_pos ⟨rfl, rfl⟩]
      rcases hmap.tables with ⟨_, _, he⟩ | ⟨h1, _⟩
      case inr => exact absurd h1 hstaged
      case inl =>
        rw [he]
        change strtabSte0Config.get steStage2Word0 ≠ strtabSte0ConfigS1Trans
        decide

theorem Serving.unmap (ha : pf.alloc.Sound) (hi : Serving others i hist d) (hk : Substreaming pf i hist d (.unmap attr))
    (h : Unmaps pf attr d d') (hst : Step pf d (.unmap attr) status d') :
    Serving others i ((.unmap attr, status) :: hist) d' := by
  have hcarried := hi.carried.step ha hk hst
  obtain ⟨hc, hu, hidx, _⟩ := hk
  have hidx : attr.smmuIndex = i := hidx
  subst hidx
  have hs := hi.carried.sane
  have hat := hi.carried.attached
  have hb : d.NamesBound (.unmap attr) := Driver.Sole.namesBound (c := .unmap attr) hi.carried.sole
  obtain ⟨hnum, hsmmus⟩ := h.smmus_eq
  refine ⟨hcarried, hi.linking.step ha hc hu hst, ?_, ?_, ?_⟩
  · rw [hsmmus]
    exact hi.configured
  · rintro sid hz ⟨hne, hstaged⟩
    exact h.reaches_other ha hs hat hu hb (Ne.symm hne) hz (hi.staged sid hz hstaged)
  · intro sid hz hstaged hbase hlt
    rw [hsmmus] at hbase
    rw [hnum] at hlt
    rw [h.entry_eq ha hs hat hu hlt hbase]
    split
    case isTrue =>
      change strtabSte0Config.get steAbort0 ≠ strtabSte0ConfigS1Trans
      decide
    case isFalse hn =>
      refine hi.unstaged sid hz (fun hc => hstaged ⟨?_, hc⟩) hbase hlt
      rintro rfl
      have hr := hi.staged attr.streamid hz hc
      exact hn ⟨hr.bound, sidInRange_iff.mpr hr.ste.1, rfl⟩

theorem Serving.step (ha : pf.alloc.Sound) (hi : Serving others i hist d) (hk : Substreaming pf i hist d c)
    (hst : Step pf d c status d') : Serving others i ((c, status) :: hist) d' := by
  have h := hst
  cases h
  case map h   => exact hi.map ha hk (map_cases h) hst
  case unmap h => exact hi.unmap ha hk (unmap_cases h) hst

end

section

variable {pf : Platform} {info : IovirtSmmuInfo} {fuel : Nat} {w₀ : World} {d d₀ : Driver}
variable {others others' : List Nat} {hist : History} {status i k sid : Nat} {w' : World} {T : Nat × Nat → Prop}

theorem Elsewhere.entry (h : Elsewhere T d others others' w') (hs : d.Sane others) (hk : k < d.numSmmus)
    (hb : (d.smmus k).base ≠ 0) : Driver.entry { d with world := w' } k sid = d.entry k sid := by
  rw [Driver.entry, Driver.entry]
  change (if (d.smmus k).HasSte sid then entryAt w'.heap.mem (smmuStrtabGetSteForSid (d.smmus k) sid) else .abort) = _
  by_cases he : (d.smmus k).HasSte sid
  case neg => rw [if_neg he, if_neg he]
  case pos =>
    rw [if_pos he, if_pos he]
    exact entryAt_congr fun x hx => h.mem_eq hs (ste_in hs.placed hk hb (hs.sized k hk hb) he hx)

theorem Carried.elsewhere (hi : Carried others i hist d) (h : Elsewhere T d others others' w') :
    Carried others' i hist { d with world := w' } := by
  refine ⟨h.sane hi.sane, hi.attached, ⟨hi.sole.bound, hi.sole.alone⟩, hi.range, fun sid hb => ?_⟩
  obtain ⟨k, hk⟩ := Option.ne_none_iff_exists'.mp hb
  obtain ⟨n, hn, hmaster, _⟩ := recordOf_mem (d := d) hk
  obtain ⟨idx, hidx⟩ := List.mem_iff_getElem?.mp hn
  refine (hi.holds sid hb).congr fun x hx => ?_
  obtain ⟨_, _, _, hin⟩ := hi.sane.word_in hidx (hmaster ▸ hk) (hmaster ▸ hx)
  exact h.mem_eq hi.sane hin

theorem Linking.elsewhere (hi : Linking others hist d) (h : Elsewhere T d others others' w') :
    Linking others' hist { d with world := w' } := by
  refine ⟨h.sane hi.sane, hi.attached, fun k hk hb j hj => ?_, hi.mapped⟩
  obtain ⟨_, _, _, htwo, hlt⟩ := (hi.sane.placed.smmus k hk hb).level2 j hj
  have hin := hi.sane.level1_in hk hb htwo hlt (i := 0) (by decide)
  exact (h.mem_eq hi.sane hin).trans (hi.linked k hk hb j hj)

theorem Serving.elsewhere (hi : Serving others i hist d) (h : Elsewhere T d others others' w') :
    Serving others' i hist { d with world := w' } := by
  have hs := hi.carried.sane
  refine ⟨hi.carried.elsewhere h, hi.linking.elsewhere h, hi.configured, ?_, ?_⟩
  · intro sid hz hstaged
    have hr := hi.staged sid hz hstaged
    obtain ⟨hk, hb⟩ := hr.present hi.carried.attached
    exact hr.of_record rfl hr.ste (h.entry hs hk hb)
  · intro sid hz hstaged hb hk
    rw [h.entry hs hk hb]
    exact hi.unstaged sid hz hstaged hb hk

theorem Serving.start (ha : pf.alloc.Sound) (ho : w₀.Owns others) (hw : w₀.heap.Laid)
    (hi : valSmmuInit pf info fuel (.boot w₀) = some (status, d₀)) (hz : d₀.Sized) : Serving others i [] d₀ := by
  have hnone := (init_driver_placed ha hw hi).2
  have hrec (sid : Nat) : d₀.recordOf sid = .zero := Driver.recordOf_none fun n hn => by
    rw [hnone] at hn
    cases hn
  have hlink : Linking others [] d₀ := .start ha ho hw hi hz
  refine ⟨⟨hlink.sane, hlink.attached, ⟨?_, ?_⟩, fun _ _ hc => absurd rfl hc, ?_⟩, hlink, ?_, fun _ _ hc => hc.elim, ?_⟩
  · intro n hn
    rw [hnone] at hn
    cases hn
  · intro j j' n n' hn
    rw [hnone] at hn
    cases hn
  · intro sid hb
    rw [hrec] at hb
    exact absurd rfl hb
  · exact fun k hb => (init_each (fun hz h => init_configured ha hz h) hi k hb).1
  · intro sid _ _ hb hk
    rw [(init_fresh ha hw hz hi).entry_eq hk hb]
    decide

-- What the SMMU finds for a stream that is mapped for stage 1.
theorem Serving.translate (hi : Serving others i hist d) (hal : (d.smmus i).Aligned) (hlow : (d.smmus i).Low)
    (hz : sid ≠ 0) (hstaged : hist.Staged sid) (ssid va : Nat) :
    d.translate i sid ssid va =
      (hist.substreams sid ssid).bind fun pgt => (pgtFields pgt).translate d.world.heap.mem va := by
  have hr := hi.staged sid hz hstaged
  have hs := hi.carried.sane
  obtain ⟨hk, hb⟩ := hr.present hi.carried.attached
  have hh := hi.carried.holds sid (by rw [hr.bound]; exact Option.some_ne_none i)
  obtain ⟨n, hn, hmaster, _⟩ := recordOf_mem hr.bound
  have hp := hs.placed.nodes n hn i (hmaster ▸ hr.bound)
  rw [hmaster] at hp
  have hlook := hh.lookup hp hs.placed.laid.fits hr.table hr.ste_word ssid
  rw [Driver.translate, hs.hardwareSte_eq hi.linking.linked hk hb (hi.configured i hb) hal hlow hr.ste,
    Option.bind_some]
  cases hsub : hist.substreams sid ssid
  case some pgt =>
    obtain ⟨hc, hv, hf⟩ := hh.mapped ssid pgt hsub
    rw [hlook.1 hc, Option.bind_some, if_pos hv, hf, Option.bind_some]
  case none =>
    rw [Option.bind_none]
    by_cases hc : (d.recordOf sid).stage1.HasCd ssid
    case neg => rw [hlook.2 hc, Option.bind_none]
    case pos => rw [hlook.1 hc, Option.bind_some, hh.unmapped ssid hsub hc, if_neg Bool.false_ne_true]

end

end Smmu
