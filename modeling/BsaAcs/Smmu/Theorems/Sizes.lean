import BsaAcs.Smmu.Theorems.Reset
import BsaAcs.Smmu.Theorems.Step
import BsaAcs.Lib.Bits

namespace Smmu

section

variable {addr k size : Nat}

-- The next multiple of the size, above the address.
theorem alignToSize_eq (h : addr + 2 * 2 ^ k ≤ 2 ^ 64) : alignToSize addr (2 ^ k) = (addr / 2 ^ k + 1) * 2 ^ k := by
  have hp := Nat.two_pow_pos k
  have hk : k < 64 := (Nat.pow_lt_pow_iff_right one_lt_two).mp (by omega)
  have hd := Nat.div_add_mod addr (2 ^ k)
  have hm := Nat.mod_lt addr hp
  have he : 2 ^ k - addr % 2 ^ k + addr = (addr / 2 ^ k + 1) * 2 ^ k := by
    rw [Nat.add_mul, Nat.one_mul, Nat.mul_comm]
    omega
  have hl : (addr / 2 ^ k + 1) * 2 ^ k < 2 ^ 64 := by
    rw [← he]
    omega
  rw [alignToSize, Nat.and_two_pow_sub_one_eq_mod, he, Nat.mod_eq_of_lt hl, Bits.and_two_pow_sub_two_pow hk]
  exact Bits.slice_eq_self (Nat.dvd_mul_left ..) hl (by omega)

theorem alignToSize_bounds (h : addr + 2 * 2 ^ k ≤ 2 ^ 64) :
    addr < alignToSize addr (2 ^ k) ∧ alignToSize addr (2 ^ k) ≤ addr + 2 ^ k := by
  have hd := Nat.div_add_mod addr (2 ^ k)
  have hm := Nat.mod_lt addr (Nat.two_pow_pos k)
  rw [alignToSize_eq h, Nat.add_mul, Nat.one_mul, Nat.mul_comm]
  omega

theorem shl1_eq {n : Nat} (h : n < 32) : shl1 n = 2 ^ n := by
  rw [shl1, Nat.mod_eq_of_lt h]

end

-- The `n` bytes from `a` on lie in the block of `size` bytes at `ptr`.
def InBlock (ptr size a n : Nat) : Prop :=
  ptr ≤ a ∧ a + n ≤ ptr + size

-- Blocks lie in the address space.
def Platform.Addressable (pf : Platform) : Prop :=
  ∀ n live size, size < 2 ^ 32 → pf.alloc n live size + size ≤ 2 ^ 64

-- The sizes that the architecture gives, with room to align the table. The source has a minimum for
-- the queue.

def queueBytes (smmu : SmmuDev) : Nat :=
  2 * max 32 (2 ^ smmu.cmdq.queue.log2nent * 16)

def linearBytes (smmu : SmmuDev) : Nat :=
  2 * (2 ^ smmu.sidBits * 64)

def level1Bytes (smmu : SmmuDev) : Nat :=
  2 * (2 ^ (smmu.sidBits - 8) * 8)

def level1ArrayBytes (smmu : SmmuDev) : Nat :=
  2 ^ (smmu.sidBits - 8) * sizeofStrtabL1Desc

def level2Bytes : Nat :=
  2 * (2 ^ strtabSplit * 64)

-- The queue of a probed SMMU: the shift is in range, the size that is requested is the right one, and
-- every slot lies in the block.
def QueueSized (smmu : SmmuDev) : Prop :=
  smmu.cmdq.queue.log2nent < 31 ∧
  ∀ pf w, pf.Addressable →
    let r := smmuCmdQueueInit pf smmu w
    r.2.2.heap.requests = queueBytes smmu :: w.heap.requests ∧
    (r.1 = true → ∀ prod, InBlock r.2.1.cmdq.basePtr (queueBytes smmu) (slot r.2.1.cmdq prod) 16)

-- Its linear stream table.
def LinearSized (smmu : SmmuDev) : Prop :=
  smmu.sidBits < 31 ∧
  ∀ pf w, pf.Addressable →
    let r := smmuStrtabInitLinear pf smmu w
    r.2.2.heap.requests = linearBytes smmu :: w.heap.requests ∧
    (r.1 = true → ∀ sid < 2 ^ smmu.sidBits,
      InBlock r.2.1.strtabCfg.strtabPtr (linearBytes smmu) (smmuStrtabGetSteForSid r.2.1 sid) 64)

-- Its two-level stream table, and the array of level-1 descriptors that belongs to it.
def Level2Sized (smmu : SmmuDev) : Prop :=
  smmu.sidBits - 8 < 31 ∧
  ∀ pf w, pf.Addressable →
    let r := smmuStrtabInit2level pf smmu w
    (∃ l, r.2.2.heap.requests = l ++ level1Bytes smmu :: w.heap.requests ∧ (l = [] ∨ l = [level1ArrayBytes smmu])) ∧
    (r.1 = true → ∀ sid < 2 ^ smmu.sidBits,
      InBlock r.2.1.strtabCfg.strtabPtr (level1Bytes smmu) (r.2.1.strtabCfg.strtab64 + (sid >>> strtabSplit) * 8) 8 ∧
      InBlock r.2.1.strtabCfg.l1Ptr (level1ArrayBytes smmu)
        (r.2.1.strtabCfg.l1Ptr + (sid >>> strtabSplit) * sizeofStrtabL1Desc) sizeofStrtabL1Desc ∧
      ∀ smmu₂ w₂, smmuStrtabInitLevel2 pf r.2.1 sid r.2.2 = (true, smmu₂, w₂) →
        InBlock (smmu₂.strtabCfg.l1Desc (sid >>> strtabSplit)).l2ptr level2Bytes
          (smmuStrtabGetSteForSid smmu₂ sid) 64)

-- `val_smmu_map` takes a stream id only if it is below the number of stream ids, and does not turn
-- such a stream id away.
def StreamIdsChecked (smmu : SmmuDev) : Prop :=
  ∀ sid, (sidInRange smmu sid = true ↔ sid < 2 ^ smmu.sidBits) ∧
    ∀ pf fuel pgt (attr : SmmuMasterAttributes) (d d' : Driver), attr.streamid = sid → d.smmus attr.smmuIndex = smmu →
      valSmmuMap pf fuel attr pgt d = some (0, d') → sid < 2 ^ smmu.sidBits

def SizesRight (smmu : SmmuDev) : Prop :=
  QueueSized smmu ∧ (if smmu.supported.stLevel2lvl then Level2Sized smmu else LinearSized smmu) ∧ StreamIdsChecked smmu

def SizesFit (smmu : SmmuDev) : Prop :=
  smmu.cmdq.queue.log2nent ≤ 26 ∧ if smmu.supported.stLevel2lvl then smmu.sidBits ≤ 34 else smmu.sidBits ≤ 24

section

variable {pf : Platform} {smmu : SmmuDev} {w : World}

theorem alloc_bound (ha : pf.Addressable) {size : Nat} (hs : size < 2 ^ 32) :
    (w.valMemoryAlloc pf size).1 + size ≤ 2 ^ 64 := by
  have h := ha w.heap.requests.length w.heap.live size hs
  rw [World.valMemoryAlloc, Nat.mod_eq_of_lt hs]
  exact h

theorem inBlock_aligned {ptr k off n : Nat} (h : ptr + 2 * 2 ^ k ≤ 2 ^ 64) (ho : off + n ≤ 2 ^ k) :
    InBlock ptr (2 * 2 ^ k) (alignToSize ptr (2 ^ k) + off) n := by
  have ⟨h₁, h₂⟩ := alignToSize_bounds h
  refine ⟨?_, ?_⟩ <;> omega

-- The exponent of the size of the queue.
def queueLog (smmu : SmmuDev) : Nat :=
  max 5 (smmu.cmdq.queue.log2nent + 4)

theorem two_pow_queueLog : 2 ^ queueLog smmu = max 32 (2 ^ smmu.cmdq.queue.log2nent * 16) := by
  have hm : Monotone (2 ^ · : Nat → Nat) := fun _ _ h => Nat.pow_le_pow_right two_pos h
  have hx := hm.map_max (a := 5) (b := smmu.cmdq.queue.log2nent + 4)
  simp only [Nat.pow_add] at hx
  exact hx

theorem cmdqSize_eq (h : smmu.cmdq.queue.log2nent ≤ 26) : cmdqSize smmu = 2 ^ queueLog smmu := by
  have hp : 2 ^ smmu.cmdq.queue.log2nent ≤ 2 ^ 26 := Nat.pow_le_pow_right two_pos h
  have hs : (shl1 smmu.cmdq.queue.log2nent * cmdqDwordsPerEnt) <<< 3 % 2 ^ 32 = 2 ^ smmu.cmdq.queue.log2nent * 16 := by
    rw [shl1_eq (by omega), Nat.shiftLeft_eq, cmdqDwordsPerEnt, Nat.mod_eq_of_lt (by omega)]
    omega
  have he : signExtend (2 ^ smmu.cmdq.queue.log2nent * 16) = 2 ^ smmu.cmdq.queue.log2nent * 16 := by
    rw [signExtend, if_pos (by omega)]
  simp only [cmdqSize, hs, he]
  rw [two_pow_queueLog]
  split <;> omega

-- The allocator that always succeeds.
def generous : Platform :=
  { mmio := fun _ => 0, alloc := fun _ _ _ => 0x1000 }

theorem generous_addressable : generous.Addressable := by
  intro n live size hs
  simp only [generous]
  omega

-- The size that reaches the allocator fits into 32 bits.
theorem cmdQueueInit_requests :
    (smmuCmdQueueInit pf smmu w).2.2.heap.requests = 2 * cmdqSize smmu % 2 ^ 64 % 2 ^ 32 :: w.heap.requests := by
  simp only [smmuCmdQueueInit]
  split <;> rfl

theorem queueSized_iff : QueueSized smmu ↔ smmu.cmdq.queue.log2nent ≤ 26 := by
  constructor
  case mp =>
    intro ⟨_, h⟩
    have hr := (h generous .start generous_addressable).1
    rw [cmdQueueInit_requests, List.cons.injEq] at hr
    have hlt : queueBytes smmu < 2 ^ 32 := by
      rw [← hr.1]
      exact Nat.mod_lt _ (by decide)
    by_contra hc
    have hp : 2 ^ 27 ≤ 2 ^ smmu.cmdq.queue.log2nent := Nat.pow_le_pow_right two_pos (by omega)
    rw [queueBytes] at hlt
    omega
  case mpr =>
    intro h
    have hk : queueLog smmu ≤ 30 := by
      rw [queueLog]
      omega
    have hp : 2 ^ queueLog smmu ≤ 2 ^ 30 := Nat.pow_le_pow_right two_pos hk
    have hb : queueBytes smmu = 2 * 2 ^ queueLog smmu := by
      rw [queueBytes, two_pow_queueLog]
    refine ⟨by omega, ?_⟩
    intro pf w ha
    refine ⟨?_, ?_⟩
    · rw [cmdQueueInit_requests, cmdqSize_eq h, hb, Nat.mod_eq_of_lt (by omega), Nat.mod_eq_of_lt (by omega)]
    · intro hok prod
      have hs : (prod &&& (2 ^ smmu.cmdq.queue.log2nent - 1)) * 16 + 16 ≤ 2 ^ queueLog smmu := by
        have hm := Nat.mod_lt prod (Nat.two_pow_pos smmu.cmdq.queue.log2nent)
        rw [Nat.and_two_pow_sub_one_eq_mod, two_pow_queueLog]
        omega
      have hbound := alloc_bound (w := w) ha (show 2 * 2 ^ queueLog smmu < 2 ^ 32 by omega)
      simp only [smmuCmdQueueInit, cmdqSize_eq h, Nat.mod_eq_of_lt (show 2 * 2 ^ queueLog smmu < 2 ^ 64 by omega)] at hok ⊢
      split at hok
      case isTrue => cases hok
      case isFalse hn =>
        rw [if_neg hn, hb]
        simp only [slot, Queue.indexMask, Nat.one_shiftLeft]
        exact inBlock_aligned hbound hs

theorem linearSize_eq (h : smmu.sidBits ≤ 24) : linearSize smmu = 2 ^ (smmu.sidBits + 6) := by
  have hp : 2 ^ smmu.sidBits ≤ 2 ^ 24 := Nat.pow_le_pow_right two_pos h
  have hd : strtabSteDwords <<< 3 = 2 ^ 6 := rfl
  rw [linearSize, shl1_eq (by omega), hd, Nat.mod_eq_of_lt (by omega), Nat.pow_add]

theorem abortStes_requests {ste n : Nat} {w : World} : (abortStes ste n w).heap.requests = w.heap.requests := by
  induction n generalizing ste w
  case zero      => rfl
  case succ n hi => exact hi

theorem strtabInitLinear_requests :
    (smmuStrtabInitLinear pf smmu w).2.2.heap.requests = 2 * linearSize smmu % 2 ^ 32 % 2 ^ 32 :: w.heap.requests := by
  simp only [smmuStrtabInitLinear]
  split
  case isTrue  => rfl
  case isFalse => exact abortStes_requests

theorem linearSized_iff (hl : smmu.supported.stLevel2lvl = false) : LinearSized smmu ↔ smmu.sidBits ≤ 24 := by
  constructor
  case mp =>
    intro ⟨_, h⟩
    have hr := (h generous .start generous_addressable).1
    rw [strtabInitLinear_requests, List.cons.injEq] at hr
    have hlt : linearBytes smmu < 2 ^ 32 := by
      rw [← hr.1]
      exact Nat.mod_lt _ (by decide)
    by_contra hc
    have hp : 2 ^ 25 ≤ 2 ^ smmu.sidBits := Nat.pow_le_pow_right two_pos (by omega)
    rw [linearBytes] at hlt
    omega
  case mpr =>
    intro h
    have hp : 2 ^ (smmu.sidBits + 6) ≤ 2 ^ 30 := Nat.pow_le_pow_right two_pos (by omega)
    have hb : linearBytes smmu = 2 * 2 ^ (smmu.sidBits + 6) := by
      rw [linearBytes, Nat.pow_add]
    refine ⟨by omega, ?_⟩
    intro pf w ha
    have hm : 2 * 2 ^ (smmu.sidBits + 6) % 2 ^ 32 = 2 * 2 ^ (smmu.sidBits + 6) := Nat.mod_eq_of_lt (by omega)
    refine ⟨?_, ?_⟩
    · rw [strtabInitLinear_requests, linearSize_eq h, hb, hm, hm]
    · intro hok sid hsid
      have ho : sid * strtabSteDwords % 2 ^ 32 * 8 + 64 ≤ 2 ^ (smmu.sidBits + 6) := by
        rw [Nat.pow_add] at hp ⊢
        rw [strtabSteDwords, Nat.mod_eq_of_lt (by omega)]
        omega
      have hbound := alloc_bound (w := w) ha (show 2 * 2 ^ (smmu.sidBits + 6) < 2 ^ 32 by omega)
      simp only [smmuStrtabInitLinear, linearSize_eq h, hm] at hok ⊢
      split at hok
      case isTrue => cases hok
      case isFalse hn =>
        rw [if_neg hn, hb]
        simp only [smmuStrtabGetSteForSid, SmmuDev.setStrtab, hl, Bool.false_eq_true, if_false]
        exact inBlock_aligned hbound ho

theorem emptyL1_requests {strtab n : Nat} {w : World} : (emptyL1 strtab n w).heap.requests = w.heap.requests := by
  induction n generalizing strtab w
  case zero      => rfl
  case succ n hi => exact hi

-- The second request of the two-level table is made only if the first one succeeds.
theorem strtabInit2level_requests :
    (smmuStrtabInit2level pf smmu w).2.2.heap.requests =
      (if (w.valMemoryAlloc pf (2 * l1TblSize smmu % 2 ^ 32)).1 = 0 then []
        else [sizeofStrtabL1Desc * shl1 (smmu.sidBits - strtabSplit) % 2 ^ 32]) ++
      2 * l1TblSize smmu % 2 ^ 32 % 2 ^ 32 :: w.heap.requests := by
  simp only [smmuStrtabInit2level]
  split
  case isTrue => rfl
  case isFalse =>
    simp only [smmuStrtabInitLevel1]
    split
    case h_1 he =>
      split at he <;> cases he
      exact Heap.free_requests
    case h_2 he =>
      split at he <;> cases he
      exact emptyL1_requests

theorem l1TblSize_eq (h : smmu.sidBits ≤ 34) : l1TblSize smmu = 2 ^ (smmu.sidBits - 8 + 3) := by
  have hp : 2 ^ (smmu.sidBits - 8) ≤ 2 ^ 26 := Nat.pow_le_pow_right two_pos (by omega)
  rw [l1TblSize, strtabSplit, strtabL1DescSize, shl1_eq (by omega), Nat.mod_eq_of_lt (by omega), Nat.pow_add]

-- The descriptors that a fresh two-level table has.
theorem strtabInit2level_some (h : (smmuStrtabInit2level pf smmu w).1 = true) :
    let ptr := (w.valMemoryAlloc pf (2 * l1TblSize smmu % 2 ^ 32)).1
    let cfg := (smmuStrtabInit2level pf smmu w).2.1.strtabCfg
    cfg.strtabPtr = ptr ∧ cfg.strtab64 = alignToSize ptr (l1TblSize smmu) ∧ (∀ i, cfg.l1Desc i = .zero) ∧
      (smmuStrtabInit2level pf smmu w).2.1.supported = smmu.supported := by
  simp only [smmuStrtabInit2level] at h ⊢
  split at h
  case isTrue => cases h
  case isFalse hn =>
    simp only [smmuStrtabInitLevel1] at h ⊢
    rw [if_neg hn]
    split at h
    case h_1 => cases h
    case h_2 he =>
      split at he <;> cases he
      rename_i hm
      simp only
      exact ⟨rfl, rfl, fun _ => rfl, rfl⟩

-- A level-2 table of the stream table has its entries in its block.
theorem initLevel2_inBlock {sid : Nat} {smmu' : SmmuDev} {w' : World} (ha : pf.Addressable)
    (hl : smmu.supported.stLevel2lvl = true) (hz : smmu.strtabCfg.l1Desc (sid >>> strtabSplit) = .zero)
    (h : smmuStrtabInitLevel2 pf smmu sid w = (true, smmu', w')) :
    InBlock (smmu'.strtabCfg.l1Desc (sid >>> strtabSplit)).l2ptr level2Bytes (smmuStrtabGetSteForSid smmu' sid) 64 := by
  have hbound := alloc_bound (w := w) ha (show 2 * 2 ^ 14 < 2 ^ 32 by decide)
  have hs : (1 <<< strtabSplit) * strtabSteDwords * bytesPerDword = 2 ^ 14 := rfl
  simp only [smmuStrtabInitLevel2, hz, StrtabL1Desc.zero, hs, Nat.mul_comm (2 ^ 14) 2] at h
  rw [if_neg (by simp)] at h
  split at h
  case isTrue => cases h
  case isFalse =>
    cases h
    have ho : (sid &&& ((1 <<< strtabSplit) - 1)) * strtabSteDwords * 8 + 64 ≤ 2 ^ 14 := by
      have hlt : sid &&& ((1 <<< strtabSplit) - 1) < 2 ^ 8 := Nat.and_lt_two_pow _ (by decide)
      rw [strtabSteDwords]
      omega
    simp only [smmuStrtabGetSteForSid, SmmuDev.setL1Desc, SmmuDev.setStrtab, hl, if_true, strtabL1DescDwords, mul_one]
    exact inBlock_aligned hbound ho

theorem level2Sized_iff (hl : smmu.supported.stLevel2lvl = true) (h₈ : 8 < smmu.sidBits) :
    Level2Sized smmu ↔ smmu.sidBits ≤ 34 := by
  constructor
  case mp =>
    rintro ⟨_, h⟩
    obtain ⟨l, hr, hc⟩ := (h generous .start generous_addressable).1
    have hn : (World.start.valMemoryAlloc generous (2 * l1TblSize smmu % 2 ^ 32)).1 ≠ 0 := by
      simp [World.valMemoryAlloc, Heap.alloc, generous]
    rw [strtabInit2level_requests, if_neg hn] at hr
    rcases hc with rfl | rfl
    case inl =>
      have hlen := congrArg List.length hr
      simp at hlen
    case inr =>
      rw [List.cons_append, List.cons_append, List.cons.injEq] at hr
      have hlt : level1ArrayBytes smmu < 2 ^ 32 := by
        rw [← hr.1]
        exact Nat.mod_lt _ (by decide)
      by_contra hn
      have hp : 2 ^ 27 ≤ 2 ^ (smmu.sidBits - 8) := Nat.pow_le_pow_right two_pos (by omega)
      rw [level1ArrayBytes, sizeofStrtabL1Desc] at hlt
      omega
  case mpr =>
    intro h
    have hp : 2 ^ (smmu.sidBits - 8 + 3) ≤ 2 ^ 29 := Nat.pow_le_pow_right two_pos (by omega)
    have hb : level1Bytes smmu = 2 * 2 ^ (smmu.sidBits - 8 + 3) := by
      rw [level1Bytes, Nat.pow_add]
    have hm : 2 * 2 ^ (smmu.sidBits - 8 + 3) % 2 ^ 32 = 2 * 2 ^ (smmu.sidBits - 8 + 3) := Nat.mod_eq_of_lt (by omega)
    have harr : sizeofStrtabL1Desc * shl1 (smmu.sidBits - strtabSplit) % 2 ^ 32 = level1ArrayBytes smmu := by
      rw [level1ArrayBytes, strtabSplit, sizeofStrtabL1Desc, shl1_eq (by omega), Nat.mul_comm, Nat.mod_eq_of_lt]
      rw [Nat.pow_add] at hp
      omega
    refine ⟨by omega, ?_⟩
    intro pf w ha
    refine ⟨?_, ?_⟩
    · rw [strtabInit2level_requests, harr, l1TblSize_eq h, hb, hm, hm]
      refine ⟨_, rfl, ?_⟩
      split
      case isTrue  => exact .inl rfl
      case isFalse => exact .inr rfl
    · intro hok sid hsid
      have hbound := alloc_bound (w := w) ha (show 2 * 2 ^ (smmu.sidBits - 8 + 3) < 2 ^ 32 by omega)
      obtain ⟨h₁, h₂, h₃, h₄⟩ := strtabInit2level_some hok
      rw [l1TblSize_eq h, hm] at h₁ h₂
      have hi : sid >>> strtabSplit < 2 ^ (smmu.sidBits - 8) := by
        rw [Nat.shiftRight_eq_div_pow, Nat.div_lt_iff_lt_mul (Nat.two_pow_pos _), strtabSplit, ← Nat.pow_add,
          Nat.sub_add_cancel (by omega)]
        exact hsid
      refine ⟨?_, ?_, ?_⟩
      · rw [h₁, h₂, hb]
        refine inBlock_aligned hbound ?_
        rw [Nat.pow_add]
        omega
      · refine ⟨Nat.le_add_right .., ?_⟩
        rw [level1ArrayBytes, sizeofStrtabL1Desc]
        omega
      · intro smmu₂ w₂ h₅
        exact initLevel2_inBlock ha (by rw [h₄, hl]) (h₃ _) h₅

theorem mapMaster_inRange {cd2l : Bool} {attr : SmmuMasterAttributes} {pgt : PgtDescriptor} {master : Master}
    (h : (mapMaster pf smmu cd2l attr pgt master w).1 = true) : sidInRange smmu attr.streamid = true := by
  simp only [mapMaster] at h
  split at h
  case h_1 => cases h
  case h_2 =>
    split at h
    case isTrue hs  => exact hs
    case isFalse => cases h

theorem sidInRange_iff {sid : Nat} : sidInRange smmu sid = true ↔ sid < 2 ^ smmu.sidBits := by
  rw [sidInRange, decide_eq_true_iff, Nat.one_shiftLeft]

theorem streamIdsChecked : StreamIdsChecked smmu := by
  intro sid
  refine ⟨sidInRange_iff, ?_⟩
  intro pf fuel pgt attr d d' ha hs h
  rw [← sidInRange_iff, ← ha, ← hs]
  cases map_cases h
  case done hm _ => exact mapMaster_inRange (congrArg Prod.fst hm)

-- The sizes of a probed SMMU are right exactly if they fit into 32 bits.
theorem smmu_sizes_right_iff {smmu' : SmmuDev} {w' : World} (h : smmuProbe pf smmu w = (true, smmu', w')) :
    SizesRight smmu' ↔ SizesFit smmu' := by
  rw [SizesRight, SizesFit, queueSized_iff]
  refine and_congr_right fun _ => ?_
  cases hl : smmu'.supported.stLevel2lvl
  case false =>
    simp only [Bool.false_eq_true, if_false]
    rw [linearSized_iff hl]
    exact and_iff_left streamIdsChecked
  case true =>
    simp only [if_true]
    rw [level2Sized_iff hl (probe_twoLevel h hl)]
    exact and_iff_left streamIdsChecked

end

def idrPlatform (idr0 idr1 : Nat) : Platform :=
  { mmio := fun n => [idr0, idr1, 5].getD n 0, alloc := fun _ _ _ => 0x1000 }

-- A two-level table for 2 ^ 16 stream ids.
def twoLevelIdr : Platform := idrPlatform 0x0800000A 0x01000010

theorem smmu_sizes_right_two_level :
    ∃ smmu' w', smmuProbe twoLevelIdr .zero .start = (true, smmu', w') ∧
      smmu'.sidBits = 16 ∧ smmu'.supported.stLevel2lvl = true ∧ SizesRight smmu' := by
  have h : smmuProbe twoLevelIdr .zero .start = (true, (smmuProbe twoLevelIdr .zero .start).2) := rfl
  refine ⟨_, _, h, rfl, rfl, ?_⟩
  exact (smmu_sizes_right_iff h).mpr ⟨by decide, by decide⟩

-- A linear table for 2 ^ 25 stream ids: no byte is requested for it.
def linearIdr : Platform := idrPlatform 0xA 0x01000019

theorem smmu_sizes_wrap :
    ∃ smmu' w', smmuProbe linearIdr .zero .start = (true, smmu', w') ∧ smmu'.sidBits = 25 ∧
      (smmuStrtabInitLinear linearIdr smmu' w').2.2.heap.requests = [0] ∧ ¬SizesRight smmu' := by
  refine ⟨_, _, rfl, rfl, ?_, ?_⟩
  · rw [strtabInitLinear_requests]
    rfl
  · intro ⟨_, hs, _⟩
    exact absurd ((linearSized_iff rfl).mp hs) (by decide)

end Smmu
