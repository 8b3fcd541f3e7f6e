import BsaAcs.Smmu.Theorems.Frames
import BsaAcs.Smmu.Theorems.Stop

namespace Smmu

open Heap (Frame Inside)

-- The size that `smmu_strtab_init` computes.
def strtabSize (smmu : SmmuDev) : Nat :=
  if smmu.supported.stLevel2lvl then l1TblSize smmu else linearSize smmu

-- The blocks of an SMMU that is set up, and where its tables lie in them.
structure SmmuDev.Placed (live : List (Nat × Nat)) (smmu : SmmuDev) : Prop where
  queue   : (smmu.cmdq.basePtr, 2 * cmdqSize smmu % 2 ^ 64 % 2 ^ 32) ∈ live
  base    : smmu.cmdq.base = alignToSize smmu.cmdq.basePtr (cmdqSize smmu)
  strtab  : (smmu.strtabCfg.strtabPtr, 2 * strtabSize smmu % 2 ^ 32 % 2 ^ 32) ∈ live
  aligned : smmu.strtabCfg.strtab64 = alignToSize smmu.strtabCfg.strtabPtr (strtabSize smmu)
  phys    : smmu.strtabCfg.strtabPhys = smmu.strtabCfg.strtab64
  level2  : ∀ j, (smmu.strtabCfg.l1Desc j).l2ptr ≠ 0 →
    ((smmu.strtabCfg.l1Desc j).l2ptr, 2 * 2 ^ 14) ∈ live ∧
    (smmu.strtabCfg.l1Desc j).l2desc64 = alignToSize (smmu.strtabCfg.l1Desc j).l2ptr (2 ^ 14) ∧
    (smmu.strtabCfg.l1Desc j).l2descPhys = (smmu.strtabCfg.l1Desc j).l2desc64 ∧
    smmu.supported.stLevel2lvl = true ∧ j < smmu.strtabCfg.l1EntCount

theorem SmmuDev.Placed.mono {live live' : List (Nat × Nat)} {smmu : SmmuDev} (h : smmu.Placed live)
    (hl : ∀ b ∈ live, b ∈ live') : smmu.Placed live' :=
  ⟨hl _ h.queue, h.base, hl _ h.strtab, h.aligned, h.phys, fun j hj =>
    have ⟨h₁, h₂⟩ := h.level2 j hj
    ⟨hl _ h₁, h₂⟩⟩

-- The initialisation.

section

variable {pf : Platform} {w w' : World} {smmu smmu' : SmmuDev} {ok : Bool} {S : Nat → Prop}

theorem cmdQueueInit_placed (ha : pf.alloc.Sound) (h : smmuCmdQueueInit pf smmu w = (true, smmu', w')) :
    (smmu'.cmdq.basePtr, 2 * cmdqSize smmu' % 2 ^ 64 % 2 ^ 32) ∈ w'.heap.live ∧
      smmu'.cmdq.base = alignToSize smmu'.cmdq.basePtr (cmdqSize smmu') ∧
      (∀ c ∈ w.heap.live, Heap.Apart (smmu'.cmdq.basePtr, 2 * cmdqSize smmu' % 2 ^ 64 % 2 ^ 32) c) ∧
      smmu'.strtabCfg = smmu.strtabCfg := by
  simp only [smmuCmdQueueInit] at h
  split at h
  case isTrue => cases h
  case isFalse hp =>
    cases h
    have hnew := World.alloc_new ha hp
    exact ⟨hnew.1, rfl, hnew.2, rfl⟩

theorem cmdQueueInit_frame (ha : pf.alloc.Sound) (h : smmuCmdQueueInit pf smmu w = (ok, smmu', w')) :
    Frame S w.heap w'.heap := by
  simp only [smmuCmdQueueInit] at h
  split at h
  case isTrue =>
    cases h
    exact World.alloc_frame ha _
  case isFalse hp =>
    cases h
    have hnew := (World.alloc_new ha hp).2
    refine Frame.forget ?_ hnew
    refine (World.alloc_frame ha _).trans (World.memorySet_frame ?_)
    intro x h₁ h₂
    refine .inr ⟨h₁, ?_⟩
    rwa [Nat.mod_mod_of_dvd _ (by decide)]

theorem emptyL1_frame {strtab n : Nat} {w : World} (hs : ∀ x, Inside (strtab, 8 * n) x → S x) :
    Frame S w.heap (emptyL1 strtab n w).heap := by
  induction n generalizing strtab w
  case zero => exact .refl
  case succ n hi =>
    refine (World.store_frame (hs _ ⟨Nat.le_refl _, ?_⟩)).trans (hi fun x hx => hs x ?_)
    · simp only
      omega
    · have ⟨_, _⟩ := hx
      simp only [strtabL1DescSize] at *
      refine ⟨?_, ?_⟩ <;> simp only <;> omega

-- Only the new table is written if its size is right.
theorem strtabInitLinear_frame (ha : pf.alloc.Sound) (hb : ok = true → smmu.sidBits ≤ 24 ∨ ∀ x, S x)
    (h : smmuStrtabInitLinear pf smmu w = (ok, smmu', w')) : Frame S w.heap w'.heap := by
  simp only [smmuStrtabInitLinear] at h
  split at h
  case isTrue =>
    cases h
    exact World.alloc_frame ha _
  case isFalse hp =>
    simp only [Prod.mk.injEq] at h
    obtain ⟨hok, _, hw⟩ := h
    have hb := hb hok.symm
    have hnew := (World.alloc_new ha hp).2
    rw [← hw]
    refine Frame.forget ?_ hnew
    refine ((World.alloc_frame ha _).trans (World.memorySet_frame ?_)).trans (abortStes_frame ?_)
    · intro x h₁ h₂
      refine .inr ⟨h₁, ?_⟩
      rwa [Nat.mod_mod]
    · intro x hx
      rcases hb with hb | hb
      case inr => exact .inl (hb x)
      case inl =>
        have hk : 2 ^ (smmu.sidBits + 6) ≤ 2 ^ 30 := Nat.pow_le_pow_right two_pos (by omega)
        have hm : 2 * 2 ^ (smmu.sidBits + 6) % 2 ^ 32 = 2 * 2 ^ (smmu.sidBits + 6) := Nat.mod_eq_of_lt (by omega)
        have hfit := World.alloc_fits (w := w) ha (show 2 * 2 ^ (smmu.sidBits + 6) < 2 ^ 32 by omega)
        have he : 64 * shl1 smmu.sidBits = 2 ^ (smmu.sidBits + 6) := by
          rw [shl1_eq (by omega), Nat.pow_add, Nat.mul_comm]
        simp only [linearSize_eq hb, hm, he] at *
        exact .inr (aligned_inside hfit hx)

theorem strtabInit2level_frame (ha : pf.alloc.Sound) (hb : ok = true → smmu.sidBits ≤ 34 ∨ ∀ x, S x)
    (h : smmuStrtabInit2level pf smmu w = (ok, smmu', w')) : Frame S w.heap w'.heap := by
  simp only [smmuStrtabInit2level, smmuStrtabInitLevel1] at h
  split at h
  case isTrue =>
    cases h
    exact World.alloc_frame ha _
  case isFalse hp =>
    have hnew := (World.alloc_new ha hp).2
    split at h
    case h_1 hm =>
      cases h
      split at hm <;> cases hm
      exact alloc_free_frame ha hp rfl (World.alloc_frame ha _)
    case h_2 hm =>
      split at hm
      case isTrue => cases hm
      case isFalse =>
        cases hm
        simp only [Prod.mk.injEq] at h
        obtain ⟨hok, _, hw⟩ := h
        have hb := hb hok.symm
        rw [← hw]
        refine Frame.forget ?_ hnew
        refine ((World.alloc_frame ha _).trans (World.alloc_frame ha _)).trans (emptyL1_frame ?_)
        intro x hx
        rcases hb with hb | hb
        case inr => exact .inl (hb x)
        case inl =>
          have hk : 2 ^ (smmu.sidBits - 8 + 3) ≤ 2 ^ 29 := Nat.pow_le_pow_right two_pos (by omega)
          have hm : 2 * 2 ^ (smmu.sidBits - 8 + 3) % 2 ^ 32 = 2 * 2 ^ (smmu.sidBits - 8 + 3) :=
            Nat.mod_eq_of_lt (by omega)
          have hfit := World.alloc_fits (w := w) ha (show 2 * 2 ^ (smmu.sidBits - 8 + 3) < 2 ^ 32 by omega)
          have he : 8 * shl1 (smmu.sidBits - strtabSplit) = 2 ^ (smmu.sidBits - 8 + 3) := by
            rw [strtabSplit, shl1_eq (by omega), Nat.pow_add, Nat.mul_comm]
          simp only [SmmuDev.setStrtab, l1TblSize_eq hb, hm, he] at *
          exact .inr (aligned_inside hfit hx)

theorem strtabInit_frame (ha : pf.alloc.Sound)
    (hb : ok = true → (if smmu.supported.stLevel2lvl then smmu.sidBits ≤ 34 else smmu.sidBits ≤ 24) ∨ ∀ x, S x)
    (h : smmuStrtabInit pf smmu w = (ok, smmu', w')) : Frame S w.heap w'.heap := by
  have hi {smmu' : SmmuDev} {w' : World}
      (h : (if smmu.supported.stLevel2lvl then smmuStrtabInit2level pf smmu w else smmuStrtabInitLinear pf smmu w) =
        (ok, smmu', w')) : Frame S w.heap w'.heap := by
    split at h
    case isTrue hl  => exact strtabInit2level_frame ha (by simpa [hl] using hb) h
    case isFalse hl => exact strtabInitLinear_frame ha (by simpa [hl] using hb) h
  simp only [smmuStrtabInit] at h
  split at h
  all_goals
    rename_i he
    cases h
    exact hi he

-- What the stream table of a new SMMU looks like.
structure StrtabPlaced (live : List (Nat × Nat)) (smmu smmu' : SmmuDev) : Prop where
  strtab  : (smmu'.strtabCfg.strtabPtr, 2 * strtabSize smmu % 2 ^ 32 % 2 ^ 32) ∈ live
  aligned : smmu'.strtabCfg.strtab64 = alignToSize smmu'.strtabCfg.strtabPtr (strtabSize smmu)
  phys    : smmu'.strtabCfg.strtabPhys = smmu'.strtabCfg.strtab64
  empty   : (∀ j, smmu.strtabCfg.l1Desc j = .zero) → ∀ j, smmu'.strtabCfg.l1Desc j = .zero
  cmdq    : smmu'.cmdq = smmu.cmdq
  bits    : smmu'.sidBits = smmu.sidBits
  level   : smmu'.supported = smmu.supported

theorem strtabInitLinear_placed (ha : pf.alloc.Sound) (hl : smmu.supported.stLevel2lvl = false)
    (h : smmuStrtabInitLinear pf smmu w = (true, smmu', w')) : StrtabPlaced w'.heap.live smmu smmu' := by
  have hs : strtabSize smmu = linearSize smmu := by simp [strtabSize, hl]
  simp only [smmuStrtabInitLinear] at h
  split at h
  case isTrue => cases h
  case isFalse hp =>
    simp only [Prod.mk.injEq, true_and] at h
    obtain ⟨he, hw⟩ := h
    have hnew := (World.alloc_new ha hp).1
    have hlive : w'.heap.live = (w.valMemoryAlloc pf (2 * linearSize smmu % 2 ^ 32)).2.heap.live := by
      rw [← hw]
      exact abortStes_same.live.trans World.memorySet_same.live
    rw [← he]
    refine ⟨?_, ?_, rfl, fun hz => hz, rfl, rfl, rfl⟩
    · rw [hs, hlive]
      exact hnew
    · rw [hs]
      rfl

theorem strtabInit2level_placed (ha : pf.alloc.Sound) (hl : smmu.supported.stLevel2lvl = true)
    (h : smmuStrtabInit2level pf smmu w = (true, smmu', w')) : StrtabPlaced w'.heap.live smmu smmu' := by
  have hs : strtabSize smmu = l1TblSize smmu := by simp [strtabSize, hl]
  simp only [smmuStrtabInit2level, smmuStrtabInitLevel1] at h
  split at h
  case isTrue => cases h
  case isFalse hp =>
    have hnew := (World.alloc_new ha hp).1
    split at h
    case h_1 => cases h
    case h_2 hm =>
      split at hm
      case isTrue => cases hm
      case isFalse =>
        cases hm
        simp only [Prod.mk.injEq, true_and] at h
        obtain ⟨he, hw⟩ := h
        have hlive : ∀ b ∈ (w.valMemoryAlloc pf (2 * l1TblSize smmu % 2 ^ 32)).2.heap.live, b ∈ w'.heap.live := by
          intro b hb
          rw [← hw, emptyL1_same.live]
          exact (World.alloc_frame (S := fun _ => True) ha _).live b hb
        rw [← he]
        refine ⟨?_, ?_, rfl, fun _ _ => rfl, rfl, rfl, rfl⟩
        · rw [hs]
          exact hlive _ hnew
        · rw [hs]
          rfl

theorem strtabInit_placed (ha : pf.alloc.Sound) (h : smmuStrtabInit pf smmu w = (true, smmu', w')) :
    StrtabPlaced w'.heap.live smmu smmu' := by
  simp only [smmuStrtabInit] at h
  split at h
  case h_1 => cases h
  case h_2 smmu₁ w₁ he =>
    have hi : StrtabPlaced w₁.heap.live smmu smmu₁ := by
      split at he
      case isTrue hl  => exact strtabInit2level_placed ha hl he
      case isFalse hl => exact strtabInitLinear_placed ha (Bool.eq_false_of_not_eq_true hl) he
    cases h
    exact ⟨hi.strtab, hi.aligned, hi.phys, hi.empty, hi.cmdq, hi.bits, hi.level⟩

theorem setup_placed (ha : pf.alloc.Sound) (hz : ∀ j, smmu.strtabCfg.l1Desc j = .zero)
    (h : smmuSetup pf smmu w = (true, smmu', w')) : smmu'.Placed w'.heap.live := by
  simp only [smmuSetup] at h
  split at h
  case h_1 => cases h
  case h_2 hp =>
    split at h
    case h_1 => cases h
    case h_2 smmu₁ w₁ hq =>
      obtain ⟨h₁, h₂, _, h₃⟩ := cmdQueueInit_placed ha hq
      have hi := strtabInit_placed ha h
      have hlive : ∀ b ∈ w₁.heap.live, b ∈ w'.heap.live :=
        (strtabInit_frame (S := fun _ => True) ha (fun _ => .inr fun _ => trivial) h).live
      have hc : cmdqSize smmu' = cmdqSize smmu₁ := by rw [cmdqSize, cmdqSize, hi.cmdq]
      have hs : strtabSize smmu' = strtabSize smmu₁ := by
        rw [strtabSize, strtabSize, hi.level, l1TblSize, l1TblSize, linearSize, linearSize, hi.bits]
      have he : ∀ j, smmu'.strtabCfg.l1Desc j = .zero := by
        refine hi.empty fun j => ?_
        rw [h₃, (probe_probed hp).strtabCfg]
        exact hz j
      refine ⟨?_, ?_, ?_, ?_, hi.phys, fun j hj => absurd (by rw [he j]; rfl) hj⟩
      · rw [hc, hi.cmdq]
        exact hlive _ h₁
      · rw [hc, hi.cmdq]
        exact h₂
      · rw [hs]
        exact hi.strtab
      · rw [hs]
        exact hi.aligned

theorem probe_heap (h : smmuProbe pf smmu w = (ok, smmu', w')) : w'.heap = w.heap := by
  simp only [smmuProbe] at h
  split at h
  case h_1 => cases h; rfl
  case h_2 => split at h <;> cases h <;> rfl

theorem setup_frame (ha : pf.alloc.Sound) (hb : ok = true → SizesFit smmu' ∨ ∀ x, S x)
    (h : smmuSetup pf smmu w = (ok, smmu', w')) : Frame S w.heap w'.heap := by
  simp only [smmuSetup] at h
  split at h
  case h_1 hp =>
    cases h
    rw [probe_heap hp]
    exact .refl
  case h_2 hp =>
    rw [← probe_heap hp]
    split at h
    case h_1 hq =>
      cases h
      exact cmdQueueInit_frame ha hq
    case h_2 hq =>
      refine (cmdQueueInit_frame ha hq).trans (strtabInit_frame ha ?_ h)
      intro hok
      subst hok
      have hi := strtabInit_placed ha h
      refine (hb rfl).imp_left fun hf => ?_
      rw [← hi.level, ← hi.bits]
      exact hf.2

theorem waitAck_heap {val ackOff timeout : Nat} {w : World} : (waitAck pf smmu val ackOff timeout w).2.heap = w.heap := by
  induction timeout generalizing w
  case zero => rfl
  case succ timeout hi =>
    simp only [waitAck]
    split
    case isTrue  => rfl
    case isFalse => exact hi

theorem regWriteSync_heap {val regOff ackOff ret : Nat} (h : smmuRegWriteSync pf smmu val regOff ackOff w = (ret, w')) :
    w'.heap = w.heap := by
  have hw : (waitAck pf smmu val ackOff smmuRegTimeout (w.valMmioWrite (smmu.base + regOff) val)).2.heap = w.heap :=
    waitAck_heap
  rw [smmuRegWriteSync] at h
  split at h
  all_goals
    rename_i he
    cases h
    rwa [he] at hw

-- The reset writes only commands.
theorem reset_frame {fuel ret : Nat} (h : smmuReset pf smmu fuel w = some (ret, w')) :
    Frame (QueueWords smmu.cmdq) w.heap w'.heap := by
  have hr {w : World} : (resetRegisters smmu w).heap = w.heap := rfl
  rw [smmuReset] at h
  split at h
  case h_1 h₁ =>
    cases h
    rw [regWriteSync_heap h₁]
    exact .refl
  case h_2 h₁ =>
    split at h
    case h_1 h₂ =>
      cases h
      rw [regWriteSync_heap h₂, hr, regWriteSync_heap h₁]
      exact .refl
    case h_2 h₂ =>
      rw [← regWriteSync_heap h₁, ← hr, ← regWriteSync_heap h₂]
      split at h
      case h_1 => cases h
      case h_2 h₃ =>
        have hf := tlbiCfgi_frame h₃
        split at h
        all_goals
          rename_i h₄
          cases h
          rw [regWriteSync_heap h₄]
          exact hf

-- The commands are written to the queue.
theorem queueWords_inside (hp : smmu.cmdq.base = alignToSize smmu.cmdq.basePtr (cmdqSize smmu))
    (hq : smmu.cmdq.queue.log2nent ≤ 26) (hf : smmu.cmdq.basePtr + 2 * cmdqSize smmu ≤ 2 ^ 64) {x : Nat}
    (hx : QueueWords smmu.cmdq x) : Inside (smmu.cmdq.basePtr, 2 * cmdqSize smmu) x := by
  have ⟨prod, hx⟩ := hx
  have hs : (prod &&& (2 ^ smmu.cmdq.queue.log2nent - 1)) * 16 + 16 ≤ 2 ^ queueLog smmu := by
    have hm := Nat.mod_lt prod (Nat.two_pow_pos smmu.cmdq.queue.log2nent)
    rw [Nat.and_two_pow_sub_one_eq_mod, two_pow_queueLog]
    omega
  rw [cmdqSize_eq hq] at *
  have ⟨_, _⟩ : InBlock smmu.cmdq.basePtr (2 * 2 ^ queueLog smmu) (slot smmu.cmdq prod) 16 := by
    rw [slot, hp, Queue.indexMask, Nat.one_shiftLeft]
    exact inBlock_aligned hf hs
  rcases hx with rfl | rfl <;> constructor <;> simp only at * <;> omega

theorem cmdqSize_fits (hq : smmu.cmdq.queue.log2nent ≤ 26) :
    2 * cmdqSize smmu < 2 ^ 32 ∧ 2 * cmdqSize smmu % 2 ^ 64 % 2 ^ 32 = 2 * cmdqSize smmu := by
  have hk : queueLog smmu ≤ 30 := by
    rw [queueLog]
    omega
  have hp : 2 ^ queueLog smmu ≤ 2 ^ 30 := Nat.pow_le_pow_right two_pos hk
  rw [cmdqSize_eq hq]
  refine ⟨by omega, ?_⟩
  rw [Nat.mod_eq_of_lt (a := 2 * 2 ^ queueLog smmu) (b := 2 ^ 64) (by omega), Nat.mod_eq_of_lt (by omega)]

-- The queue is a new block.
theorem setup_queue (ha : pf.alloc.Sound) (h : smmuSetup pf smmu w = (true, smmu', w')) :
    ∀ c ∈ w.heap.live, Heap.Apart (smmu'.cmdq.basePtr, 2 * cmdqSize smmu' % 2 ^ 64 % 2 ^ 32) c := by
  simp only [smmuSetup] at h
  split at h
  case h_1 => cases h
  case h_2 hp =>
    split at h
    case h_1 => cases h
    case h_2 smmu₁ w₁ hq =>
      obtain ⟨_, _, h₁, _⟩ := cmdQueueInit_placed ha hq
      have hi := strtabInit_placed ha h
      have hc : cmdqSize smmu' = cmdqSize smmu₁ := by rw [cmdqSize, cmdqSize, hi.cmdq]
      rw [hc, hi.cmdq, ← probe_heap hp]
      exact h₁

theorem init_setup {fuel : Nat} (h : smmuInit pf smmu fuel w = some (0, smmu', w')) :
    smmu.base ≠ 0 ∧ ∃ w₁, smmuSetup pf smmu w = (true, smmu', w₁) ∧ ∃ ret, smmuReset pf smmu' fuel w₁ = some (ret, w') := by
  have he : acsStatusErr ≠ 0 := by decide
  simp only [smmuInit] at h
  split at h
  case isTrue =>
    simp only [Option.some.injEq, Prod.mk.injEq] at h
    exact absurd h.1 he
  case isFalse hb =>
    refine ⟨hb, ?_⟩
    split at h
    case h_1 hs =>
      simp only [Option.some.injEq, Prod.mk.injEq] at h
      exact absurd h.1 he
    case h_2 hs =>
      split at h
      case h_1 => cases h
      case h_2 hr =>
        simp only [Option.some.injEq, Prod.mk.injEq] at h
        obtain ⟨_, h₁, h₂⟩ := h
        subst h₁ h₂
        exact ⟨_, hs, _, hr⟩

theorem init_failed {fuel status : Nat} (hn : status ≠ 0) (h : smmuInit pf smmu fuel w = some (status, smmu', w')) :
    smmu.base = 0 ∧ smmu' = smmu ∧ w' = w ∨ smmuSetup pf smmu w = (false, smmu', w') := by
  simp only [smmuInit] at h
  split at h
  case isTrue hb =>
    cases h
    exact .inl ⟨hb, rfl, rfl⟩
  case isFalse hb =>
    split at h
    case h_1 hs =>
      cases h
      exact .inr hs
    case h_2 hs =>
      split at h
      case h_1 => cases h
      case h_2 hr =>
        simp only [Option.some.injEq, Prod.mk.injEq] at h
        rw [(reset_cases hr).1, if_neg Nat.one_ne_zero] at h
        exact absurd h.1.symm hn

theorem init_placed {fuel : Nat} (ha : pf.alloc.Sound) (hz : ∀ j, smmu.strtabCfg.l1Desc j = .zero)
    (h : smmuInit pf smmu fuel w = some (0, smmu', w')) : smmu'.Placed w'.heap.live := by
  have ⟨_, w₁, hs, ret, hr⟩ := init_setup h
  exact (setup_placed ha hz hs).mono (reset_frame hr).live

theorem init_frame {fuel status : Nat} (ha : pf.alloc.Sound) (hz : ∀ j, smmu.strtabCfg.l1Desc j = .zero)
    (hl : w.heap.Laid) (hb : status = 0 → SizesFit smmu' ∨ ∀ x, S x)
    (h : smmuInit pf smmu fuel w = some (status, smmu', w')) : Frame S w.heap w'.heap := by
  by_cases hn : status = 0
  case neg =>
    rcases init_failed hn h with ⟨_, _, rfl⟩ | hs
    case inl => exact .refl
    case inr => exact setup_frame ha (fun hc => by cases hc) hs
  case pos =>
    subst hn
    have ⟨_, w₁, hs, ret, hr⟩ := init_setup h
    have hp := setup_placed ha hz hs
    refine Frame.forget ?_ (setup_queue ha hs)
    refine (setup_frame ha ?_ hs).trans ((reset_frame hr).mono ?_)
    · exact fun _ => (hb rfl).imp_right fun ht x => .inl (ht x)
    · intro x hx
      rcases hb rfl with hf | ht
      case inr => exact .inl (ht x)
      case inl =>
        have ⟨_, he⟩ := cmdqSize_fits hf.1
        have hq := (setup_frame (S := fun _ => True) ha (fun _ => .inr fun _ => trivial) hs).laid hl
        have hb := hq.fits _ hp.queue
        rw [he] at hb ⊢
        exact .inr (queueWords_inside hp.base hf.1 hb hx)

end

-- The tables of context descriptors, and where they lie.
structure Stage1Config.Placed (cd2l : Bool) (live : List (Nat × Nat)) (cfg : Stage1Config) : Prop where
  table : cfg.cdcfg.cdtabPtr ≠ 0 →
    CdFits cd2l cfg.s1cdmax ∧ (cfg.cdcfg.cdtabPtr, 2 * 2 ^ cdtabLog cd2l cfg.s1cdmax) ∈ live ∧
    cfg.cdcfg.cdtab64 = alignToSize cfg.cdcfg.cdtabPtr (2 ^ cdtabLog cd2l cfg.s1cdmax) ∧
    cfg.cdcfg.cdtabPhys = cfg.cdcfg.cdtab64 ∧
    cfg.s1fmt = if twoLevel cd2l cfg.s1cdmax then strtabSte0S1fmt64kL2 else strtabSte0S1fmtLinear
  leaf  : ∀ j, (cfg.cdcfg.l1Desc j).l2ptr ≠ 0 →
    ((cfg.cdcfg.l1Desc j).l2ptr, 2 * 2 ^ 16) ∈ live ∧
    (cfg.cdcfg.l1Desc j).l2desc64 = alignToSize (cfg.cdcfg.l1Desc j).l2ptr (2 ^ 16) ∧
    (cfg.cdcfg.l1Desc j).l2descPhys = (cfg.cdcfg.l1Desc j).l2desc64

section

variable {pf : Platform} {w w' : World} {ok cd2l : Bool} {ssid ssidBits : Nat} {cfg cfg' : Stage1Config}
variable {live live' : List (Nat × Nat)}

theorem Stage1Config.Placed.mono (h : cfg.Placed cd2l live) (hl : ∀ b ∈ live, b ∈ live') : cfg.Placed cd2l live' where
  table := fun hp =>
    have ⟨h₁, h₂, h₃⟩ := h.table hp
    ⟨h₁, hl _ h₂, h₃⟩
  leaf  := fun j hj =>
    have ⟨h₁, h₂⟩ := h.leaf j hj
    ⟨hl _ h₁, h₂⟩

theorem Stage1Config.Placed.zero : Master.zero.stage1.Placed cd2l live :=
  ⟨fun h => absurd rfl h, fun _ h => absurd rfl h⟩

theorem cdtabAllocTable_placed {k : Nat} (ha : pf.alloc.Sound) (hk : 2 * 2 ^ k < 2 ^ 32)
    (h : cdtabAllocTable pf (2 ^ k) cfg w = (ok, cfg', w')) :
    (cfg'.cdcfg.cdtabPtr ≠ 0 → (cfg'.cdcfg.cdtabPtr, 2 * 2 ^ k) ∈ w'.heap.live ∧
      cfg'.cdcfg.cdtab64 = alignToSize cfg'.cdcfg.cdtabPtr (2 ^ k) ∧ cfg'.cdcfg.cdtabPhys = cfg'.cdcfg.cdtab64) ∧
    cfg'.cdcfg.l1Desc = cfg.cdcfg.l1Desc ∧ cfg'.s1fmt = cfg.s1fmt ∧ cfg'.s1cdmax = cfg.s1cdmax := by
  simp only [cdtabAllocTable, Nat.mul_comm (2 ^ k) 2] at h
  split at h
  case isTrue =>
    cases h
    exact ⟨fun hc => absurd rfl hc, rfl, rfl, rfl⟩
  case isFalse hp =>
    cases h
    have hnew := (World.alloc_new ha hp).1
    rw [Nat.mod_eq_of_lt hk] at hnew
    exact ⟨fun _ => ⟨hnew, rfl, rfl⟩, rfl, rfl, rfl⟩

theorem cdtabAlloc_placed (ha : pf.alloc.Sound) (hp : cfg.Placed cd2l w.heap.live) (hc : CdFits cd2l cfg.s1cdmax)
    (hz : cfg.cdcfg.cdtabPtr = 0) (h : smmuCdtabAlloc pf cd2l cfg w = (ok, cfg', w')) :
    cfg'.Placed cd2l w'.heap.live := by
  obtain ⟨he, hk⟩ := cdtabSize_eq hc
  have hlive := (cdtabAlloc_frame (S := fun _ => True) ha hc h).live
  simp only [smmuCdtabAlloc] at h
  rw [cdtabSize] at he
  split at h
  case isTrue ht =>
    rw [if_pos ht] at he
    split at h
    case isTrue =>
      cases h
      exact ⟨fun hn => absurd hz hn, (hp.mono hlive).leaf⟩
    case isFalse =>
      rw [he] at h
      obtain ⟨h₁, h₂, h₃, h₄⟩ := cdtabAllocTable_placed ha hk h
      refine ⟨fun hn => ?_, fun j hj => absurd ?_ hj⟩
      · obtain ⟨g₁, g₂, g₃⟩ := h₁ hn
        rw [h₄, h₃, if_pos ht]
        exact ⟨hc, g₁, g₂, g₃, rfl⟩
      · rw [h₂]
  case isFalse ht =>
    rw [if_neg ht] at he
    rw [he] at h
    obtain ⟨h₁, h₂, h₃, h₄⟩ := cdtabAllocTable_placed ha hk h
    refine ⟨fun hn => ?_, ?_⟩
    · obtain ⟨g₁, g₂, g₃⟩ := h₁ hn
      rw [h₄, h₃, if_neg ht]
      exact ⟨hc, g₁, g₂, g₃, rfl⟩
    · rw [h₂]
      exact (hp.mono hlive).leaf

theorem getCtxDesc_placed {r : Option Nat} {cdcfg' : CdtabConfig} (ha : pf.alloc.Sound) (hp : cfg.Placed cd2l w.heap.live)
    (h : smmuCdtabGetCtxDesc pf cfg.s1fmt ssid cfg.cdcfg w = (r, cdcfg', w')) :
    ({ cfg with cdcfg := cdcfg' } : Stage1Config).Placed cd2l w'.heap.live := by
  have hlive := (getCtxDesc_frame ha h).1.live
  have hsize : cdtabL2EntryCount * (cdtabCdDwords <<< 3) * 2 = 2 * 2 ^ 16 := rfl
  have halign : cdtabL2EntryCount * (cdtabCdDwords <<< 3) = 2 ^ 16 := rfl
  simp only [smmuCdtabGetCtxDesc] at h
  split at h
  case isTrue => cases h; exact hp
  case isFalse =>
    split at h
    case isTrue => cases h; exact hp
    case isFalse =>
      split at h
      case isTrue => cases h; exact hp
      case isFalse =>
        simp only [smmuCdtabAllocLeafTable, halign] at h
        split at h
        case h_1 he =>
          cases h
          split at he <;> cases he
          exact hp.mono hlive
        case h_2 he =>
          cases h
          split at he <;> cases he
          rename_i hn
          have hnew := (World.alloc_new ha hn).1
          refine ⟨(hp.mono hlive).table, ?_⟩
          intro j hj
          simp only [CdtabConfig.setL1Desc] at hj ⊢
          split at hj
          case isTrue hji =>
            rw [if_pos hji]
            exact ⟨hnew, rfl, rfl⟩
          case isFalse hji =>
            rw [if_neg hji]
            exact (hp.mono hlive).leaf j hj

theorem cdtabWrite_placed (ha : pf.alloc.Sound) (hp : cfg.Placed cd2l w.heap.live)
    (h : smmuCdtabWriteCtxDesc pf ssid cfg w = (ok, cfg', w')) : cfg'.Placed cd2l w'.heap.live := by
  simp only [smmuCdtabWriteCtxDesc] at h
  split at h
  case isTrue => cases h; exact hp
  case isFalse =>
    split at h
    case h_1 hg =>
      cases h
      exact getCtxDesc_placed ha hp hg
    case h_2 hg =>
      cases h
      exact (getCtxDesc_placed ha hp hg).mono writeCtxDesc_same.mem_live

theorem mapStage1_placed {pgt : PgtDescriptor} (ha : pf.alloc.Sound)
    (hc : cfg.cdcfg.cdtabPtr = 0 → CdFits cd2l (ssidBits % 2 ^ 8))
    (hb : cfg.cdcfg.cdtabPtr ≠ 0 → cfg.s1cdmax = ssidBits % 2 ^ 8) (hp : cfg.Placed cd2l w.heap.live)
    (h : mapStage1 pf cd2l ssid ssidBits pgt cfg w = (ok, cfg', w')) : cfg'.Placed cd2l w'.heap.live := by
  have hp₀ : ({ cfg with s1cdmax := ssidBits % 2 ^ 8 } : Stage1Config).Placed cd2l w.heap.live := by
    refine ⟨fun hn => ?_, hp.leaf⟩
    have ht := hp.table hn
    rw [hb hn] at ht
    exact ht
  simp only [mapStage1] at h
  split at h
  case h_1 he =>
    split at he
    case isTrue hz =>
      cases h
      exact cdtabAlloc_placed ha hp₀ (hc hz) hz he
    case isFalse => cases he
  case h_2 he =>
    split at he
    case isTrue hz =>
      have h₁ := cdtabAlloc_placed ha hp₀ (hc hz) hz he
      refine cdtabWrite_placed ha ?_ h
      exact ⟨h₁.table, h₁.leaf⟩
    case isFalse =>
      cases he
      refine cdtabWrite_placed ha ?_ h
      exact ⟨hp₀.table, hp₀.leaf⟩

end

section

variable {pf : Platform} {smmu smmu' : SmmuDev} {cd2l ok : Bool} {attr : SmmuMasterAttributes} {pgt : PgtDescriptor}
variable {m m' : Master} {w w' : World}

theorem initLevel2_placed {sid : Nat} (ha : pf.alloc.Sound) (hp : smmu.Placed w.heap.live)
    (hl : smmu.supported.stLevel2lvl = true) (hi : sid >>> strtabSplit < smmu.strtabCfg.l1EntCount)
    (h : smmuStrtabInitLevel2 pf smmu sid w = (ok, smmu', w')) : smmu'.Placed w'.heap.live := by
  have hsize : (1 <<< strtabSplit) * strtabSteDwords * bytesPerDword * 2 = 2 * 2 ^ 14 := rfl
  have hset : (1 <<< strtabSplit) * strtabSteDwords * bytesPerDword = 2 ^ 14 := rfl
  have hlive := (initLevel2_frame ha h).live
  have hmono := hp.mono hlive
  have update {a p b c : Nat} (hn : p ≠ 0 → (p, 2 * 2 ^ 14) ∈ w'.heap.live ∧ b = alignToSize p (2 ^ 14) ∧ c = b) :
      (smmu.setL1Desc (sid >>> strtabSplit) ⟨a, p, b, c⟩).Placed w'.heap.live := by
    refine ⟨hmono.queue, hmono.base, hmono.strtab, hmono.aligned, hmono.phys, ?_⟩
    intro j hj
    simp only [SmmuDev.setL1Desc, SmmuDev.setStrtab] at hj ⊢
    split at hj
    case isTrue hji =>
      rw [if_pos hji]
      obtain ⟨h₁, h₂, h₃⟩ := hn hj
      exact ⟨h₁, h₂, h₃, hl, hji ▸ hi⟩
    case isFalse hji =>
      rw [if_neg hji]
      exact hmono.level2 j hj
  simp only [smmuStrtabInitLevel2, hsize] at h
  split at h
  case isTrue =>
    simp only [Prod.mk.injEq] at h
    rw [← h.2.1]
    exact hmono
  case isFalse hn =>
    split at h
    case isTrue hz =>
      simp only [Prod.mk.injEq] at h
      rw [← h.2.1]
      exact update fun hc => absurd hz hc
    case isFalse hz =>
      simp only [Prod.mk.injEq] at h
      obtain ⟨_, hs, hw⟩ := h
      have hnew := (World.alloc_new ha hz).1
      rw [← hs]
      refine update fun _ => ⟨?_, ?_, rfl⟩
      · have hsame := (level2Table_same.trans_eq hw).live
        rw [hsame]
        exact hnew
      · rw [hset]

theorem mapTables_placed (ha : pf.alloc.Sound) (hp : smmu.Placed w.heap.live) (hq : m.stage1.Placed cd2l w.heap.live)
    (hc : m.stage = .s1 → m.stage1.cdcfg.cdtabPtr = 0 → CdFits cd2l (m.ssidBits % 2 ^ 8))
    (hb : m.stage1.cdcfg.cdtabPtr ≠ 0 → m.stage1.s1cdmax = m.ssidBits % 2 ^ 8)
    (hi : smmu.supported.stLevel2lvl = true → m.sid >>> strtabSplit < smmu.strtabCfg.l1EntCount)
    (h : mapTables pf smmu cd2l pgt m w = (ok, smmu', m', w')) :
    smmu'.Placed w'.heap.live ∧ m'.stage1.Placed cd2l w'.heap.live := by
  have level2 {ok : Bool} {smmu' : SmmuDev} {w' : World}
      (h : (if smmu.supported.stLevel2lvl then smmuStrtabInitLevel2 pf smmu m.sid w else (true, smmu, w)) =
        (ok, smmu', w')) : smmu'.Placed w'.heap.live ∧ m.stage1.Placed cd2l w'.heap.live := by
    split at h
    case isTrue hl => exact ⟨initLevel2_placed ha hp hl (hi hl) h, hq.mono (initLevel2_frame ha h).live⟩
    case isFalse =>
      cases h
      exact ⟨hp, hq⟩
  simp only [mapTables] at h
  split at h
  case h_1 he =>
    cases h
    exact level2 he
  case h_2 w₁ he =>
    obtain ⟨h₁, h₂⟩ := level2 he
    split at h
    case h_1 =>
      cases h
      exact ⟨h₁, h₂⟩
    case h_2 hst =>
      rcases hm : mapStage1 pf cd2l m.ssid m.ssidBits pgt m.stage1 w₁ with ⟨ok₁, cfg, w₂⟩
      rw [hm] at h
      cases h
      exact ⟨h₁.mono (mapStage1_frame ha (hc hst) hm).live, mapStage1_placed ha (hc hst) hb h₂ hm⟩

theorem mapMaster_placed (ha : pf.alloc.Sound) (hp : smmu.Placed w.heap.live) (hq : m.stage1.Placed cd2l w.heap.live)
    (hc : TableFits cd2l attr m) (hb : m.stage1.cdcfg.cdtabPtr ≠ 0 → m.stage1.s1cdmax = m.ssidBits % 2 ^ 8)
    (hi : MapOk smmu attr m) (hs : m.sid = attr.streamid)
    (h : mapMaster pf smmu cd2l attr pgt m w = (ok, smmu', m', w')) :
    smmu'.Placed w'.heap.live ∧ m'.stage1.Placed cd2l w'.heap.live := by
  simp only [mapMaster] at h
  split at h
  case h_1 =>
    cases h
    exact ⟨hp, hq⟩
  case h_2 m₁ hm =>
    obtain ⟨h₁, h₂, h₃⟩ := selectStage_kept hm
    have h₄ : m₁.sid = attr.streamid := hs ▸ congrArg Prod.fst (selectStage_key hm)
    rw [← h₁] at hq
    rw [← h₁, ← h₂] at hb
    split at h
    case isTrue hr =>
      have tables {ok : Bool} {smmu' : SmmuDev} {m' : Master} {w' : World}
          (ht : mapTables pf smmu cd2l pgt m₁ w = (ok, smmu', m', w')) :
          smmu'.Placed w'.heap.live ∧ m'.stage1.Placed cd2l w'.heap.live := by
        refine mapTables_placed ha hp hq ?_ hb (fun hl => h₄ ▸ hi.index hl hr) ht
        rw [h₁, h₂]
        exact fun hs => hc (h₃ hs).1
      split at h
      case h_1 ht =>
        cases h
        exact tables ht
      case h_2 ht =>
        cases h
        obtain ⟨g₁, g₂⟩ := tables ht
        exact ⟨g₁.mono writeSte_same.mem_live, g₂.mono writeSte_same.mem_live⟩
    case isFalse =>
      cases h
      exact ⟨hp, hq⟩

end

-- The driver.

structure Driver.Placed (d : Driver) : Prop where
  laid  : d.world.heap.Laid
  smmus : ∀ k < d.numSmmus, (d.smmus k).base ≠ 0 → (d.smmus k).Placed d.world.heap.live
  nodes : ∀ n ∈ d.masters, ∀ k, n.master.smmu = some k →
    n.master.stage1.Placed (d.smmus k).supported.cd2l d.world.heap.live

-- The sizes of new tables of context descriptors fit into 32 bits.
def Driver.TablesFit (d : Driver) : Call → Prop
  | .map attr _ =>
    d.Takes attr → TableFits (d.boundCd2l ((d.recordOf attr.streamid).bind attr) attr.smmuIndex) attr
      ((d.recordOf attr.streamid).bind attr)
  | .unmap _ => True

section

variable {pf : Platform} {d d' : Driver} {others : List Nat} {attr : SmmuMasterAttributes} {pgt : PgtDescriptor}

theorem Lookup.placed {sid : Nat} {r : Option (Nat × Master)} (ha : pf.alloc.Sound) (hp : d.Placed)
    (h : Lookup pf sid d r d') : d'.Placed := by
  have hf := h.frame (S := fun _ => True) ha
  refine ⟨hf.laid hp.laid, ?_, ?_⟩
  · intro k hk hb
    rw [h.smmus_eq] at hb ⊢
    rw [h.numSmmus_eq.1] at hk
    exact (hp.smmus k hk hb).mono hf.live
  · intro n hn k hk
    rw [h.smmus_eq]
    have old (hn : n ∈ d.masters) := (hp.nodes n hn k hk).mono hf.live
    cases h
    case found    => exact old hn
    case noNode   => exact old hn
    case noMaster => exact old hn
    case created =>
      rcases List.mem_cons.mp hn with rfl | hn
      case inl => cases hk
      case inr => exact old hn

theorem Driver.Placed.mapped {i k : Nat} {m' : Master} {smmu' : SmmuDev} {w' : World} (hd : d.Placed)
    (hs : (d.smmus k).SameBut smmu') (hl : ∀ b ∈ d.world.heap.live, b ∈ w'.heap.live) (hw : w'.heap.Laid)
    (hp : smmu'.Placed w'.heap.live)
    (hq : ∀ j, m'.smmu = some j → m'.stage1.Placed (d.smmus j).supported.cd2l w'.heap.live) :
    (d.mapped k i smmu' m' w').Placed := by
  have ⟨l1Desc, _, he⟩ := hs
  have h₁ (j : Nat) : (d.mapped k i smmu' m' w').smmus j = if j = k then smmu' else d.smmus j := rfl
  have h₂ (j : Nat) : ((d.mapped k i smmu' m' w').smmus j).supported.cd2l = (d.smmus j).supported.cd2l := by
    rw [h₁]
    split
    case isTrue hj =>
      rw [hj, he]
      rfl
    case isFalse => rfl
  refine ⟨hw, ?_, ?_⟩
  · intro j hj hb
    rw [h₁] at hb ⊢
    split at hb
    case isTrue hjk =>
      rw [if_pos hjk]
      exact hp
    case isFalse hjk =>
      rw [if_neg hjk]
      exact (hd.smmus j hj hb).mono hl
  · intro n hn j hj
    rw [h₂]
    rcases mem_modify hn with hn | ⟨n₁, _, rfl⟩
    case inl => exact (hd.nodes n hn j hj).mono hl
    case inr => exact hq j hj

-- What `val_smmu_map` writes and where its tables are, once it has a record.
theorem record_placed {i : Nat} {m m' : Master} {smmu' : SmmuDev} {w' : World} {d₁ : Driver} {ok : Bool}
    (ha : pf.alloc.Sound) (hd : d.Kept others) (hp : d.Placed) (ht : d.Takes attr)
    (hc : MapOk (d.smmus attr.smmuIndex) attr (d.recordOf attr.streamid)) (hf : d.TablesFit (.map attr pgt))
    (hl : Lookup pf attr.streamid d (some (i, m)) d₁)
    (hm : mapMaster pf (d.smmus attr.smmuIndex) (d₁.boundCd2l (m.bind attr) attr.smmuIndex) attr pgt (m.bind attr)
      d₁.world = (ok, smmu', m', w')) :
    (d₁.mapped attr.smmuIndex i smmu' m' w').Placed ∧
      Frame (MapWords (d.smmus attr.smmuIndex) smmu' ok m') d.world.heap w'.heap := by
  have hfit := hf ht
  obtain ⟨_, hk, hb⟩ := ht
  have hd₁ := hl.kept ha.fresh hd
  have hp₁ := hl.placed ha hp
  obtain ⟨n, hn, he, hsid⟩ := hl.listed
  have hmem := List.mem_of_getElem? hn
  have hsound := hd₁.nodes n hmem
  have hcd : d₁.boundCd2l (m.bind attr) attr.smmuIndex = d.boundCd2l (m.bind attr) attr.smmuIndex := by
    rw [Driver.boundCd2l, Driver.boundCd2l, hl.smmus_eq]
  rw [hl.recordOf_eq, ← hcd] at hfit
  rw [hl.recordOf_eq] at hc
  subst he
  have hkey : (n.master.bind attr).key = _ := bind_key hsid
  have hsome : (n.master.bind attr).smmu = some (n.master.smmu.getD attr.smmuIndex) := congrArg Prod.snd hkey
  have hsmmu : m'.smmu = (n.master.bind attr).smmu := congrArg Prod.snd (mapMaster_key hm)
  have hframe := mapMaster_frame ha hfit (congrArg Prod.fst hkey) hm
  have hok : MapOk (d.smmus attr.smmuIndex) attr (n.master.bind attr) :=
    ⟨by rw [bind_stage1]; exact hc.whole, hc.ssid, hc.index⟩
  have hsmmuPlaced : (d.smmus attr.smmuIndex).Placed d₁.world.heap.live :=
    (hp.smmus _ hk hb).mono (hl.frame (S := fun _ => True) ha).live
  have hcfg : (n.master.bind attr).stage1.Placed (d₁.boundCd2l (n.master.bind attr) attr.smmuIndex) d₁.world.heap.live := by
    rw [bind_stage1]
    cases hs : n.master.smmu
    case none =>
      rw [hsound.unused hs]
      exact .zero
    case some j =>
      have hbind : n.master.bind attr = n.master := by simp [Master.bind, hs]
      rw [hbind, Driver.boundCd2l, hs]
      exact hp₁.nodes n hmem j hs
  have hbits : (n.master.bind attr).stage1.cdcfg.cdtabPtr ≠ 0 →
      (n.master.bind attr).stage1.s1cdmax = (n.master.bind attr).ssidBits % 2 ^ 8 :=
    fun hz => (hsound.cdOk_bind (k := attr.smmuIndex)).bits (.inl hz)
  obtain ⟨g₁, g₂⟩ := mapMaster_placed ha hsmmuPlaced hcfg hfit hbits hok (congrArg Prod.fst hkey) hm
  have hsame : (d₁.smmus attr.smmuIndex).SameBut smmu' := by
    rw [hl.smmus_eq]
    exact mapMaster_sameBut hm
  refine ⟨hp₁.mapped hsame hframe.live (hframe.laid hp₁.laid) g₁ ?_, (hl.frame ha).trans hframe⟩
  intro j hj
  have hcd : d₁.boundCd2l (n.master.bind attr) attr.smmuIndex = (d₁.smmus j).supported.cd2l := by
    rw [Driver.boundCd2l, ← hsmmu, hj]
    rfl
  exact hcd ▸ g₂

theorem Maps.placed {status : Nat} (ha : pf.alloc.Sound) (hd : d.Kept others) (hp : d.Placed)
    (hc : d.CallOk (.map attr pgt)) (hf : d.TablesFit (.map attr pgt)) (h : Maps pf attr pgt d status d') :
    d'.Placed := by
  cases h
  case rejected          => exact hp
  case noRecord _ _ _ hl => exact hl.placed ha hp
  case failed hg hk hb hl hm =>
    exact (record_placed ha hd hp ⟨hg, hk, hb⟩ (hc ⟨hg, hk, hb⟩) hf hl hm).1
  case done hg hk hb hl hm ht =>
    have h₁ := (record_placed ha hd hp ⟨hg, hk, hb⟩ (hc ⟨hg, hk, hb⟩) hf hl hm).1
    have hq := tlbiCfgi_frame ht
    exact ⟨hq.laid h₁.laid, fun k hk hb => (h₁.smmus k hk hb).mono hq.live,
      fun n hn k hk => (h₁.nodes n hn k hk).mono hq.live⟩

-- A smaller heap, in which the blocks of the SMMU are still in use.
theorem SmmuDev.Placed.restrict {live live' : List (Nat × Nat)} {smmu : SmmuDev} (h : smmu.Placed live)
    (hb : smmu.base ≠ 0) (hl : ∀ b ∈ live, b.1 ∈ smmu.owned → b ∈ live') : smmu.Placed live' := by
  rw [SmmuDev.owned, if_neg hb, SmmuDev.tables] at hl
  refine ⟨hl _ h.queue (List.mem_cons_self ..), h.base, hl _ h.strtab ?_, h.aligned, h.phys, ?_⟩
  · split <;> simp
  · intro j hj
    obtain ⟨h₁, h₂, h₃, h₄, h₅⟩ := h.level2 j hj
    refine ⟨hl _ h₁ ?_, h₂, h₃, h₄, h₅⟩
    rw [if_pos h₄]
    refine List.mem_cons_of_mem _ (List.mem_append_left _ ?_)
    exact List.mem_map.mpr ⟨j, List.mem_range.mpr h₅, rfl⟩

theorem Stage1Config.Placed.restrict {live live' : List (Nat × Nat)} {cd2l : Bool} {ssidBits : Nat} {cfg : Stage1Config}
    (h : cfg.Placed cd2l live) (hk : CdOk cd2l ssidBits cfg) (hl : ∀ b ∈ live, b.1 ∈ cfg.blocks → b ∈ live') :
    cfg.Placed cd2l live' := by
  refine ⟨fun hp => ?_, fun j hj => ?_⟩
  · have ⟨h₁, h₂, h₃⟩ := h.table hp
    exact ⟨h₁, hl _ h₂ (List.mem_cons_self ..), h₃⟩
  · have ⟨h₁, h₂⟩ := h.leaf j hj
    refine ⟨hl _ h₁ (List.mem_cons_of_mem _ (List.mem_cons_of_mem _ ?_)), h₂⟩
    exact List.mem_map.mpr ⟨j, List.mem_range.mpr (hk.leaf j hj).2, rfl⟩

theorem Driver.mem_roots_smmu {k p : Nat} (hk : k < d.numSmmus) (hp : p ∈ (d.smmus k).owned) : p ∈ d.roots ++ others := by
  refine List.mem_append_left _ (List.mem_cons_of_mem _ (List.mem_append_left _ ?_))
  exact List.mem_flatMap.mpr ⟨k, List.mem_range.mpr hk, hp⟩

theorem Driver.mem_roots_node {n : Node} {p : Nat} (hn : n ∈ d.masters) (hp : p ∈ n.master.stage1.blocks) :
    p ∈ d.roots ++ others := by
  refine List.mem_append_left _ (List.mem_cons_of_mem _ (List.mem_append_right _ ?_))
  exact List.mem_flatMap.mpr ⟨n, hn, List.mem_cons_of_mem _ (List.mem_cons_of_mem _ hp)⟩

theorem foldl_free_sublist {ps : List Nat} {w : World} :
    (ps.foldl (fun w p => w.valMemoryFree p) w).heap.live.Sublist w.heap.live := by
  induction ps generalizing w
  case nil          => exact .refl _
  case cons p ps hi => exact hi.trans Heap.free_sublist

theorem cdtabFree_sublist {cd2l : Bool} {cfg : Stage1Config} {w : World} :
    (smmuCdtabFree cd2l cfg w).heap.live.Sublist w.heap.live := by
  simp only [smmuCdtabFree]
  refine Heap.free_sublist.trans ?_
  split
  case isTrue =>
    split
    case isTrue => exact .refl _
    case isFalse =>
      rw [freeLeaves_eq]
      exact Heap.free_sublist.trans foldl_free_sublist
  case isFalse => exact .refl _

theorem Unmaps.placed (ha : pf.alloc.Sound) (hd : d.Kept others) (hp : d.Placed) (hc : d.UnmapOk attr)
    (h : Unmaps pf attr d d') : d'.Placed := by
  have hd' := (h.kept ha.fresh hd hc).1
  cases h
  case noRecord hl       => exact hl.placed ha hp
  case unused _ hl       => exact hl.placed ha hp
  case outOfRange _ _ hl => exact hl.placed ha hp
  case done i m k d₁ fuel timedOut w' hl hs hr ht =>
    have hp₁ := hl.placed ha hp
    have hd₁ := hl.kept ha.fresh hd
    have hsub : w'.heap.live.Sublist d₁.world.heap.live := by
      rw [(tlbiCfgi_same ht).live, ← (writeSte_same (w := d₁.world)).live]
      exact cdtabFree_sublist
    have stay {b : Nat × Nat} (hb : b ∈ d₁.world.heap.live)
        (hr : b.1 ∈ Driver.roots { d₁.setMaster i .zero with world := w' } ++ others) : b ∈ w'.heap.live :=
      Heap.Owns.mem_live hd₁.owns hd'.owns hsub hb hr
    refine ⟨?_, ?_, ?_⟩
    · exact ⟨hp₁.laid.apart.sublist hsub, fun b hb => hp₁.laid.fits b (hsub.subset hb)⟩
    · intro j hj hbj
      exact (hp₁.smmus j hj hbj).restrict hbj fun b hb ho => stay hb (Driver.mem_roots_smmu hj ho)
    · intro n hn j hj
      have hn₀ := hn
      rcases mem_modify hn with hn | ⟨n₁, _, rfl⟩
      case inl =>
        refine (hp₁.nodes n hn j hj).restrict ((hd₁.nodes n hn).bound j hj) ?_
        exact fun b hb ho => stay hb (Driver.mem_roots_node hn₀ ho)
      case inr => cases hj

theorem Driver.Placed.setSmmu {i : Nat} {smmu : SmmuDev} {w : World} (hp : d.Placed) (hm : d.masters = [])
    (hs : smmu.base ≠ 0 → smmu.Placed w.heap.live) (hl : ∀ b ∈ d.world.heap.live, b ∈ w.heap.live) (hw : w.heap.Laid) :
    Driver.Placed { d.setSmmu i smmu with world := w } := by
  refine ⟨hw, ?_, ?_⟩
  · intro j hj hb
    have h₁ : (d.setSmmu i smmu).smmus j = if j = i then smmu else d.smmus j := rfl
    change ((d.setSmmu i smmu).smmus j).base ≠ 0 at hb
    change ((d.setSmmu i smmu).smmus j).Placed w.heap.live
    rw [h₁] at hb ⊢
    split at hb
    case isTrue hji =>
      rw [if_pos hji]
      exact hs hb
    case isFalse hji =>
      rw [if_neg hji]
      exact (hp.smmus j hj hb).mono hl
  · intro n hn
    change n ∈ d.masters at hn
    rw [hm] at hn
    cases hn

theorem initFrom_placed {info : IovirtSmmuInfo} {fuel n i status : Nat} (ha : pf.alloc.Sound) (hp : d.Placed)
    (hm : d.masters = []) (hz : ∀ j, i ≤ j → d.smmus j = .zero)
    (h : initFrom pf info fuel n i d = some (status, d')) : d'.Placed ∧ d'.masters = [] := by
  induction n generalizing i d
  case zero =>
    cases h
    exact ⟨hp, hm⟩
  case succ n hi =>
    have hz₀ : ∀ j, ({ d.smmus i with base := info.ctrlBase i } : SmmuDev).strtabCfg.l1Desc j = .zero := by
      intro j
      rw [hz i (Nat.le_refl i)]
      rfl
    simp only [initFrom] at h
    split at h
    case isTrue => exact hi hp hm (fun j hj => hz j (by omega)) h
    case isFalse =>
      split at h
      case h_1 => cases h
      case h_2 status₁ smmu w he =>
        have hf := init_frame (S := fun _ => True) ha hz₀ hp.laid (fun _ => .inr fun _ => trivial) he
        split at h
        case isTrue =>
          cases h
          exact ⟨hp.setSmmu hm (fun hc => absurd rfl hc) hf.live (hf.laid hp.laid), hm⟩
        case isFalse hs =>
          rw [not_not.mp hs] at he
          have hp' := hp.setSmmu (i := i) hm (fun _ => init_placed ha hz₀ he) hf.live (hf.laid hp.laid)
          refine hi hp' hm (fun j hj => ?_) h
          have h₁ : (d.setSmmu i smmu).smmus j = if j = i then smmu else d.smmus j := rfl
          change (d.setSmmu i smmu).smmus j = .zero
          rw [h₁, if_neg (by omega)]
          exact hz j (by omega)

theorem init_driver_placed {info : IovirtSmmuInfo} {fuel status : Nat} {w : World} (ha : pf.alloc.Sound)
    (hw : w.heap.Laid) (h : valSmmuInit pf info fuel (.boot w) = some (status, d)) : d.Placed ∧ d.masters = [] := by
  have empty {w : World} {g num : Nat} (hw : w.heap.Laid) : Driver.Placed
      { world := w, gSmmu := g, numSmmus := num, smmus := fun _ => .zero, masters := [] } :=
    ⟨hw, fun _ _ hb => absurd rfl hb, fun _ hn => by cases hn⟩
  have hf := World.alloc_frame (S := fun _ => True) (w := w) ha (sizeofSmmuDev * info.numCtrl)
  simp only [valSmmuInit] at h
  split at h
  case isTrue =>
    cases h
    exact ⟨empty hw, rfl⟩
  case isFalse =>
    split at h
    case isTrue =>
      cases h
      exact ⟨empty (hf.laid hw), rfl⟩
    case isFalse => exact initFrom_placed ha (empty (hf.laid hw)) rfl (fun _ _ => rfl) h

end

end Smmu
