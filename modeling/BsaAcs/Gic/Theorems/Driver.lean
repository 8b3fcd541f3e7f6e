import BsaAcs.Gic.Distributor
import BsaAcs.Gic.Theorems.Isr

namespace Gic

open Sweep

section Bits

variable {value k : Nat}

theorem testBit_byteOf {i : Nat} : (GicState.byteOf value k).testBit i = (decide (i < 8) && value.testBit (8 * k + i)) := by
  rw [GicState.byteOf, Nat.testBit_mod_two_pow, Nat.testBit_div_two_pow, Nat.add_comm]

-- The bytes of a word that is put together from bytes.
theorem byteOf_getBytes {bytes : Nat → Nat} {first : Nat} (h : ∀ id, bytes id < 2 ^ 8) (hk : k < 4) :
    GicState.byteOf (GicState.getBytes bytes first) k = bytes (first + k) := by
  have h₀ := h first
  have h₁ := h (first + 1)
  have h₂ := h (first + 2)
  have h₃ := h (first + 3)
  rw [GicState.byteOf, GicState.getBytes]
  obtain rfl | rfl | rfl | rfl : k = 0 ∨ k = 1 ∨ k = 2 ∨ k = 3 := by omega
  · simp only [Nat.mul_zero, Nat.pow_zero, Nat.div_one, Nat.add_zero]
    omega
  · omega
  · omega
  · omega

-- One byte is replaced, the others are kept.
theorem byteOf_replace {n priority : Nat} (hn : n < 4) (hk : k < 4) (hp : priority < 2 ^ 8) :
    GicState.byteOf ((value &&& (2 ^ 32 - 1 - 0xFF <<< (n * 8))) ||| priority <<< (n * 8)) k =
      if k = n then priority else GicState.byteOf value k := by
  have hmask : 2 ^ 32 - 1 - 0xFF <<< (n * 8) = 2 ^ 32 - (0xFF <<< (n * 8) + 1) := by omega
  have hlt : 0xFF <<< (n * 8) < 2 ^ 32 := by
    obtain rfl | rfl | rfl | rfl : n = 0 ∨ n = 1 ∨ n = 2 ∨ n = 3 := by omega
    all_goals decide
  have hff (j : Nat) : (0xFF : Nat).testBit j = decide (j < 8) := by
    have h := @Nat.testBit_two_pow_sub_one 8 j
    exact h
  have hsmall {j : Nat} (hj : 8 ≤ j) : priority.testBit j = false :=
    Nat.testBit_lt_two_pow (hp.trans_le (Nat.pow_le_pow_right (by decide) hj))
  refine Nat.eq_of_testBit_eq fun i => ?_
  rw [testBit_byteOf, Nat.testBit_or, Nat.testBit_and, hmask, Nat.testBit_two_pow_sub_succ hlt, Nat.testBit_shiftLeft,
    Nat.testBit_shiftLeft, hff]
  by_cases hi : i < 8
  case neg =>
    have hz : (if k = n then priority else GicState.byteOf value k).testBit i = false := by
      split
      case isTrue  => exact hsmall (by omega)
      case isFalse => rw [testBit_byteOf, decide_eq_false hi, Bool.false_and]
    rw [hz, decide_eq_false hi, Bool.false_and]
  case pos =>
    have h32 : decide (8 * k + i < 32) = true := decide_eq_true (by omega)
    rw [decide_eq_true hi, h32, Bool.true_and, Bool.true_and]
    by_cases hkn : k = n
    case pos =>
      have hge : decide (8 * k + i ≥ n * 8) = true := decide_eq_true (by omega)
      have hsub : 8 * k + i - n * 8 = i := by omega
      rw [if_pos hkn, hge, hsub, decide_eq_true hi]
      simp
    case neg =>
      rw [if_neg hkn, testBit_byteOf, decide_eq_true hi, Bool.true_and]
      by_cases hge : 8 * k + i ≥ n * 8
      case pos =>
        have h8 : 8 ≤ 8 * k + i - n * 8 := by omega
        have hnl : decide (8 * k + i - n * 8 < 8) = false := decide_eq_false (by omega)
        rw [hsmall h8, hnl]
        simp
      case neg =>
        rw [decide_eq_false hge]
        simp

end Bits

namespace GicState

variable {s : GicState} {id value : Nat} {enable : Bool}

-- One bit of a register is written.
theorem setEnabled_single : s.setEnabled (32 * (id / 32)) (1 <<< (id % 32)) enable =
    { s with enabled := Function.update s.enabled id enable } := by
  rw [setEnabled]
  congr 1
  funext j
  have hiff : 32 * (id / 32) ≤ j ∧ j < 32 * (id / 32) + 32 ∧ (1 <<< (id % 32)).testBit (j - 32 * (id / 32)) = true ↔
      j = id := by
    rw [Nat.one_shiftLeft, Nat.testBit_two_pow, decide_eq_true_iff]
    omega
  by_cases hj : j = id
  case pos => rw [if_pos (hiff.mpr hj), hj, Function.update_self]
  case neg => rw [if_neg fun h => hj (hiff.mp h), Function.update_of_ne hj]

-- The byte of an interrupt is written and the other bytes of the register are written back.
theorem setBytes_single {bytes : Nat → Nat} {priority : Nat} (hb : ∀ id, bytes id < 2 ^ 8) (hp : priority < 2 ^ 8) :
    setBytes bytes (4 * (id / 4))
        ((getBytes bytes (4 * (id / 4)) &&& (2 ^ 32 - 1 - 0xFF <<< (id % 4 * 8))) ||| priority <<< (id % 4 * 8)) =
      Function.update bytes id priority := by
  funext j
  rw [setBytes]
  split
  case isTrue hj =>
    rw [byteOf_replace (Nat.mod_lt _ (by decide)) (by omega) hp, byteOf_getBytes hb (by omega)]
    by_cases he : j = id
    case pos => rw [he, if_pos (by omega), Function.update_self]
    case neg =>
      rw [if_neg (by omega), Function.update_of_ne he]
      congr 1
      omega
  case isFalse hj => rw [Function.update_of_ne (by omega)]

-- The registers that enable interrupts, and those that disable them.
def sourceBank (enable : Bool) : Nat :=
  if enable then gicdIsenabler else gicdIcenabler

theorem writeBank_source {lo hi : Nat} (hl : lo ≤ 32 * (id / 32)) (hh : 32 * (id / 32) < hi) (h1024 : id < 1024) :
    s.writeBank lo hi (sourceBank enable + 4 * (id / 32)) (1 <<< (id % 32)) =
      { s with enabled := Function.update s.enabled id enable } := by
  have hoff (bank : Nat) : 8 * (bank + 4 * (id / 32) - bank) = 32 * (id / 32) := by omega
  have hne : gicdIcenabler = gicdIsenabler + 0x80 := rfl
  cases enable
  case true =>
    rw [sourceBank, if_pos rfl, writeBank, if_pos (by omega), hoff]
    exact setEnabled_single
  case false =>
    rw [sourceBank, if_neg Bool.false_ne_true, writeBank, if_neg (by omega), if_pos (by omega), hoff]
    exact setEnabled_single

theorem writeBank_priority {lo hi : Nat} (hl : lo ≤ 4 * (id / 4)) (hh : 4 * (id / 4) < hi) :
    s.writeBank lo hi (gicdIpriorityr + 4 * (id / 4)) value =
      { s with priority := setBytes s.priority (4 * (id / 4)) value } := by
  have hoff : gicdIpriorityr + 4 * (id / 4) - gicdIpriorityr = 4 * (id / 4) := by omega
  have h₁ : gicdIpriorityr = 0x400 := rfl
  have h₂ : gicdIsenabler = 0x100 := rfl
  have h₃ : gicdIcenabler = 0x180 := rfl
  rw [writeBank, if_neg (by omega), if_neg (by omega), if_pos (by omega), hoff]

-- A register of interrupts that the bank does not have.
theorem writeBank_none {lo hi offset : Nat} (h₁ : ¬(0x100 ≤ offset ∧ offset < 0x180 ∧ lo ≤ 8 * (offset - 0x100) ∧
      8 * (offset - 0x100) < hi))
    (h₂ : ¬(0x180 ≤ offset ∧ offset < 0x200 ∧ lo ≤ 8 * (offset - 0x180) ∧ 8 * (offset - 0x180) < hi))
    (h₃ : ¬(0x400 + lo ≤ offset ∧ offset < 0x400 + hi)) : s.writeBank lo hi offset value = s := by
  have e₁ : gicdIpriorityr = 0x400 := rfl
  have e₂ : gicdIsenabler = 0x100 := rfl
  have e₃ : gicdIcenabler = 0x180 := rfl
  rw [writeBank, if_neg (by omega), if_neg (by omega), if_neg (by omega)]

end GicState

-- A GICv3 whose distributor is that of the table, and whose redistributor of the PE is the one that the driver
-- finds, if it finds any.
structure V3Map (map : GicMap) (m : Machine) (table : List GicInfoEntry) : Prop where
  v3    : map.v3 = true
  gicd  : map.gicd = valGetGicdBase table
  rd    : (valRdBase m table).1 = 0 ∨ (valRdBase m table).1 = map.rd
  apart : map.gicd + frameBytes ≤ map.rd ∨ map.rd + 2 * frameBytes ≤ map.gicd

-- The interrupts that the driver reaches.
def Reached (m : Machine) (table : List GicInfoEntry) (intId : Nat) : Prop :=
  (32 ≤ intId ∧ intId < 1020) ∨ (intId < 32 ∧ (valRdBase m table).1 ≠ 0)

instance (m : Machine) (table : List GicInfoEntry) : DecidablePred (Reached m table) :=
  fun _ => inferInstanceAs (Decidable (_ ∨ _))

section V3

variable {map : GicMap} {m : Machine} {table : List GicInfoEntry} {s : GicState} {intId offset value : Nat}

namespace V3Map

variable (h : V3Map map m table)

include h

theorem write_distributor (ho : offset < frameBytes) (hne : offset ≠ gicdCtlr) :
    (gicBus map).write s (valGetGicdBase table + offset) value = s.writeBank 32 1020 offset value := by
  have hoff : map.gicd + offset - map.gicd = offset := by omega
  simp only [gicBus, ← h.gicd, GicState.write]
  rw [if_pos (by omega), hoff, if_neg hne, if_neg (by simp [h.v3]), if_pos h.v3]

theorem write_redistributor (hf : (valRdBase m table).1 ≠ 0) (ho : offset < frameBytes) :
    (gicBus map).write s ((valRdBase m table).1 + gicrCtlrFrameSize + offset) value = s.writeBank 0 32 offset value := by
  have hrd : (valRdBase m table).1 = map.rd := h.rd.resolve_left hf
  have hsize : gicrCtlrFrameSize = frameBytes := rfl
  have hbytes : frameBytes = 0x10000 := rfl
  have hwaker : gicrWaker = 0x14 := rfl
  have hoff : map.rd + frameBytes + offset - (map.rd + frameBytes) = offset := by omega
  have ha := h.apart
  simp only [gicBus, hrd, hsize, GicState.write]
  rw [if_neg (by omega), if_neg (by omega), if_pos ⟨h.v3, by omega, by omega⟩, hoff]

-- The first frame of the redistributor has none of the registers but GICR_WAKER.
theorem write_firstFrame (hf : (valRdBase m table).1 ≠ 0) (ho : offset < frameBytes) (hne : offset ≠ gicrWaker) :
    (gicBus map).write s ((valRdBase m table).1 + offset) value = s := by
  have hrd : (valRdBase m table).1 = map.rd := h.rd.resolve_left hf
  have hbytes : frameBytes = 0x10000 := rfl
  have ha := h.apart
  simp only [gicBus, hrd, GicState.write]
  rw [if_neg (by omega), if_neg (by omega), if_neg (by omega), if_neg (by simp [h.v3])]

theorem read_firstFrame (hf : (valRdBase m table).1 ≠ 0) (ho : offset < frameBytes) (hne : offset ≠ gicrWaker) :
    (gicBus map).read s ((valRdBase m table).1 + offset) = (0, s) := by
  have hrd : (valRdBase m table).1 = map.rd := h.rd.resolve_left hf
  have hbytes : frameBytes = 0x10000 := rfl
  have ha := h.apart
  simp only [gicBus, hrd, GicState.read]
  rw [if_neg (by omega), if_neg (by omega)]

-- What is written for an interrupt that a distributor could have a bit for, or for an LPI that has an entry in the table
-- of handlers.
theorem source_eq (enable : Bool) (hi : intId < 1024 ∨ (lpiMinId ≤ intId ∧ intId < numArmMaxInterrupt)) :
    writeAll (gicBus map) (writeInterruptSource (GicState.sourceBank enable) (GicState.sourceBank enable) m table intId) s =
      if Reached m table intId then { s with enabled := Function.update s.enabled intId enable } else s := by
  have hbytes : frameBytes = 0x10000 := rfl
  have hlpi : lpiMinId = 8192 := rfl
  have hmax : numArmMaxInterrupt = 16384 := rfl
  have hctlr : gicdCtlr = 0 := rfl
  have hbank : GicState.sourceBank enable = 0x100 ∨ GicState.sourceBank enable = 0x180 := by
    cases enable
    case true  => exact .inl rfl
    case false => exact .inr rfl
  rw [writeInterruptSource]
  by_cases hs : isSpi intId = true
  case pos =>
    have hr : 32 ≤ intId ∧ intId < 1020 := of_decide_eq_true hs
    rw [if_pos hs, if_pos (.inl hr), writeAll, List.foldl_cons, List.foldl_nil, Nat.add_assoc]
    simp only
    rw [h.write_distributor (by omega) (by omega)]
    exact GicState.writeBank_source (by omega) (by omega) (by omega)
  case neg =>
    have hn : ¬(32 ≤ intId ∧ intId < 1020) := fun hr => hs (decide_eq_true hr)
    rw [if_neg hs]
    by_cases hf : (valRdBase m table).1 = 0
    case pos =>
      simp only [hf, if_true]
      rw [if_neg fun hr => hr.elim hn fun hr => hr.right hf]
      rfl
    case neg =>
      simp only [hf, if_false]
      rw [writeAll, List.foldl_cons, List.foldl_nil, Nat.add_assoc _ (GicState.sourceBank enable)]
      simp only
      rw [h.write_redistributor hf (by omega)]
      by_cases hp : intId < 32
      case pos =>
        rw [if_pos (.inr ⟨hp, hf⟩)]
        exact GicState.writeBank_source (by omega) (by omega) (by omega)
      case neg =>
        rw [if_neg fun hr => hr.elim hn fun hr => hp hr.left]
        exact GicState.writeBank_none (by omega) (by omega) (by omega)

-- Of the priorities, only those of the shared interrupts are reached.
theorem priority_eq (hb : ∀ id, s.priority id < 2 ^ 8) (hi : intId < 1024) {priority : Nat} (hp : priority < 2 ^ 8) :
    v3SetInterruptPriority (gicBus map) m table priority intId s =
      if 32 ≤ intId ∧ intId < 1020 then { s with priority := Function.update s.priority intId priority } else s := by
  have hbytes : frameBytes = 0x10000 := rfl
  have hctlr : gicdCtlr = 0 := rfl
  have hpr : gicdIpriorityr = 0x400 := rfl
  have hpr' : gicrIpriorityr = 0x400 := rfl
  have hwaker : gicrWaker = 0x14 := rfl
  rw [v3SetInterruptPriority]
  by_cases hs : isSpi intId = true
  case pos =>
    have hr : 32 ≤ intId ∧ intId < 1020 := of_decide_eq_true hs
    have hread : (gicBus map).read s (valGetGicdBase table + (gicdIpriorityr + 4 * (intId / 4))) =
        (GicState.getBytes s.priority (4 * (intId / 4)), s) := by
      have hoff : map.gicd + (gicdIpriorityr + 4 * (intId / 4)) - map.gicd = gicdIpriorityr + 4 * (intId / 4) := by omega
      have hoff' : gicdIpriorityr + 4 * (intId / 4) - gicdIpriorityr = 4 * (intId / 4) := by omega
      simp only [gicBus, ← h.gicd, GicState.read]
      rw [if_pos (by omega), hoff, if_neg (by omega), if_neg (by simp [h.v3]), if_pos (by omega), hoff']
    rw [if_pos hs, if_pos hr]
    simp only [setByte, Nat.add_assoc, hread]
    rw [h.write_distributor (by omega) (by omega), GicState.writeBank_priority (by omega) (by omega),
      GicState.setBytes_single hb hp]
  case neg =>
    have hn : ¬(32 ≤ intId ∧ intId < 1020) := fun hr => hs (decide_eq_true hr)
    rw [if_neg hs, if_neg hn]
    by_cases hf : (valRdBase m table).1 = 0
    case pos => simp only [hf, if_true]
    case neg =>
      have ho : gicrIpriorityr + 4 * (intId / 4) < frameBytes := by omega
      have hread := h.read_firstFrame (s := s) hf ho (by omega)
      have hwrite (value : Nat) : (gicBus map).write s ((valRdBase m table).1 + (gicrIpriorityr + 4 * (intId / 4))) value = s :=
        h.write_firstFrame hf ho (by omega)
      simp only [hf, if_false, setByte, Nat.add_assoc, hread, hwrite]

-- A private interrupt has no register here that routes it.
theorem write64_router {k : Nat} (hk : 32 + k < 1024) :
    (gicBus map).write64 s (valGetGicdBase table + gicdIroutern + k * 8) value =
      if 32 + k < 1020 then { s with router := Function.update s.router (32 + k) value } else s := by
  have hr : gicdIroutern = 0x6100 := rfl
  have hr' : gicdIrouter = 0x6000 := rfl
  have hoff : (map.gicd + 0x6100 + k * 8 - (map.gicd + 0x6000)) / 8 = 32 + k := by omega
  simp only [gicBus, ← h.gicd, GicState.write64, hr, hr', h.v3, true_and]
  by_cases hlt : 32 + k < 1020
  case pos => rw [if_pos (by omega), if_pos hlt, hoff]
  case neg => rw [if_neg (by omega), if_neg hlt]

theorem read_ctlr : (gicBus map).read s (valGetGicdBase table + gicdCtlr) = (s.ctlr, s) := by
  have hb : frameBytes = 0x10000 := rfl
  have hc : gicdCtlr = 0 := rfl
  simp only [gicBus, ← h.gicd, GicState.read, hc]
  rw [if_pos (by omega), if_pos (by omega)]

theorem write_ctlr : (gicBus map).write s (valGetGicdBase table + gicdCtlr) value = { s with ctlr := value } := by
  have hb : frameBytes = 0x10000 := rfl
  have hc : gicdCtlr = 0 := rfl
  simp only [gicBus, ← h.gicd, GicState.write, hc]
  rw [if_pos (by omega), if_pos (by omega)]

theorem setBitsOf_ctlr {bits : Nat} : setBitsOf (gicBus map) (valGetGicdBase table + gicdCtlr) bits s =
    { s with ctlr := s.ctlr ||| bits } := by
  simp only [setBitsOf, h.read_ctlr, h.write_ctlr]

section Waker

theorem read_waker (hf : (valRdBase m table).1 ≠ 0) : (gicBus map).read s ((valRdBase m table).1 + gicrWaker) =
    (s.processorSleep.toNat * 2 + (s.processorSleep || decide (0 < s.asleep)).toNat * 4,
      if s.processorSleep then s else { s with asleep := s.asleep - 1 }) := by
  have hrd : (valRdBase m table).1 = map.rd := h.rd.resolve_left hf
  have hb : frameBytes = 0x10000 := rfl
  have hw : gicrWaker = 0x14 := rfl
  have ha := h.apart
  simp only [gicBus, hrd, GicState.read]
  rw [if_neg (by omega), if_pos ⟨h.v3, trivial⟩]

theorem write_waker (hf : (valRdBase m table).1 ≠ 0) :
    (gicBus map).write s ((valRdBase m table).1 + gicrWaker) value =
      { s with processorSleep := (value >>> 1).testBit 0 } := by
  have hrd : (valRdBase m table).1 = map.rd := h.rd.resolve_left hf
  have hb : frameBytes = 0x10000 := rfl
  have hw : gicrWaker = 0x14 := rfl
  have ha := h.apart
  simp only [gicBus, hrd, GicState.write]
  rw [if_neg (by omega), if_pos ⟨h.v3, trivial⟩]

-- The loop ends with the first read that shows the children awake.
theorem wakeLoop_eq (hf : (valRdBase m table).1 ≠ 0) {fuel : Nat} (hs : s.processorSleep = false) :
    wakeLoop (gicBus map) ((valRdBase m table).1 + gicrWaker) fuel s =
      if s.asleep < fuel then some { s with asleep := 0 } else none := by
  induction fuel generalizing s
  case zero => rw [wakeLoop, if_neg (by omega)]
  case succ fuel hi =>
    simp only [wakeLoop, h.read_waker hf, hs, Bool.toNat_false, Bool.false_or, Nat.zero_mul, Nat.zero_add,
      Bool.false_eq_true, if_false]
    cases ha : s.asleep
    case zero => rw [if_pos (by decide), if_pos (by omega)]
    case succ k =>
      have hbit : ((decide (0 < k + 1)).toNat * 4) >>> 2 &&& 0x01 ≠ 0 := by
        rw [decide_eq_true (by omega)]
        decide
      rw [if_neg hbit, hi rfl, Nat.add_sub_cancel]
      simp only [Nat.add_lt_add_iff_right]

end Waker

end V3Map

-- How many reads of GICR_WAKER in the loop show the children asleep.
def GicState.sleepyReads (s : GicState) : Nat :=
  if s.processorSleep then s.asleep else s.asleep - 1

theorem V3Map.wakeUpRD_eq (h : V3Map map m table) {fuel : Nat} : wakeUpRD (gicBus map) m table fuel s =
    if (valRdBase m table).1 = 0 then some s
    else if s.sleepyReads < fuel then some { s with processorSleep := false, asleep := 0 } else none := by
  rw [wakeUpRD]
  by_cases hf : (valRdBase m table).1 = 0
  case pos => simp only [hf, if_true]
  case neg =>
    simp only [hf, if_false, h.read_waker hf]
    cases hs : s.processorSleep
    case false =>
      have hbit : ¬((false.toNat * 2 + (false || decide (0 < s.asleep)).toNat * 4) >>> 1 &&& 0x01 ≠ 0) := by
        cases decide (0 < s.asleep) <;> decide
      rw [if_neg hbit, if_neg Bool.false_ne_true, h.wakeLoop_eq hf rfl, GicState.sleepyReads, hs]
      simp only [Bool.false_eq_true, if_false]
    case true =>
      have hbit : (true.toNat * 2 + (true || decide (0 < s.asleep)).toNat * 4) >>> 1 &&& 0x01 ≠ 0 := by
        rw [Bool.true_or]
        decide
      have hclear : (((true.toNat * 2 + (true || decide (0 < s.asleep)).toNat * 4) &&& (2 ^ 32 - 1 - 0x02)) >>> 1).testBit 0 =
          false := by
        rw [Bool.true_or]
        decide
      rw [if_pos hbit, if_pos rfl, h.write_waker hf, hclear, h.wakeLoop_eq hf rfl, GicState.sleepyReads, hs]
      simp only [if_true]

theorem valGetMaxIntid_bounds : 32 ≤ valGetMaxIntid m table ∧ valGetMaxIntid m table ≤ 1024 := by
  have h : mmioRead32 m (valGetGicdBase table + gicdTyper) &&& 0x1F ≤ 0x1F := Nat.and_le_right
  rw [valGetMaxIntid]
  omega

namespace V3Map

variable (h : V3Map map m table) {max : Nat} (hm : max ≤ 1024)

include h hm

theorem sweep_disable : sweep (v3DisableSource (gicBus map) m table) max s =
    { s with enabled := filled 0 max (Reached m table) (fun _ => false) s.enabled } := by
  have hstep : ∀ i < max, ∀ f : Nat → Bool, True →
      v3DisableSource (gicBus map) m table i { s with enabled := f } =
        { s with enabled := if Reached m table (0 + i) then Function.update f (0 + i) false else f } := by
    intro i hi f _
    rw [Nat.zero_add, v3DisableSource]
    refine (h.source_eq false (.inl (hi.trans_le hm))).trans ?_
    split
    case isTrue  => rfl
    case isFalse => rfl
  exact (fill _ 0 (Reached m table) (fun _ => false) (fun f => { s with enabled := f }) (fun _ => True) trivial
    (fun _ _ _ _ => trivial) hstep).left

theorem sweep_priority (hb : ∀ id, s.priority id < 2 ^ 8) :
    sweep (v3SetInterruptPriority (gicBus map) m table gicDefaultPriority) max s =
        { s with priority := filled 0 max (fun id => 32 ≤ id ∧ id < 1020) (fun _ => gicDefaultPriority) s.priority } ∧
      ∀ id, filled 0 max (fun id => 32 ≤ id ∧ id < 1020) (fun _ => gicDefaultPriority) s.priority id < 2 ^ 8 := by
  have hp : gicDefaultPriority < 2 ^ 8 := by decide
  have hstep : ∀ i < max, ∀ f : Nat → Nat, (∀ id, f id < 2 ^ 8) →
      v3SetInterruptPriority (gicBus map) m table gicDefaultPriority i { s with priority := f } =
        { s with priority := if 32 ≤ 0 + i ∧ 0 + i < 1020 then Function.update f (0 + i) gicDefaultPriority else f } := by
    intro i hi f hf
    rw [Nat.zero_add, h.priority_eq hf (hi.trans_le hm) hp]
    split
    case isTrue  => rfl
    case isFalse => rfl
  refine fill _ 0 (fun id => 32 ≤ id ∧ id < 1020) (fun _ => gicDefaultPriority) (fun f => { s with priority := f })
    (fun f => ∀ id, f id < 2 ^ 8) hb ?_ hstep
  intro f j hf _ id
  rw [Function.update_apply]
  split
  case isTrue  => exact hp
  case isFalse => exact hf id

theorem sweep_router {value : Nat} :
    sweep (fun k s => (gicBus map).write64 s (valGetGicdBase table + gicdIroutern + k * 8) value) (max - 32) s =
      { s with router := filled 32 (max - 32) (· < 1020) (fun _ => value) s.router } := by
  have hstep : ∀ i < max - 32, ∀ f : Nat → Nat, True →
      (gicBus map).write64 { s with router := f } (valGetGicdBase table + gicdIroutern + i * 8) value =
        { s with router := if 32 + i < 1020 then Function.update f (32 + i) value else f } := by
    intro i hi f _
    rw [h.write64_router (by omega)]
    split
    case isTrue  => rfl
    case isFalse => rfl
  exact (fill (fun k s => (gicBus map).write64 s (valGetGicdBase table + gicdIroutern + k * 8) value) 32 (· < 1020)
    (fun _ => value) (fun f => { s with router := f }) (fun _ => True) trivial (fun _ _ _ _ => trivial) hstep).left

end V3Map

-- The GIC that the initialisation leaves.
def initialised (m : Machine) (table : List GicInfoEntry) (s : GicState) : GicState where
  enabled        := filled 0 (valGetMaxIntid m table) (Reached m table) (fun _ => false) s.enabled
  priority       := filled 0 (valGetMaxIntid m table) (fun id => 32 ≤ id ∧ id < 1020) (fun _ => gicDefaultPriority) s.priority
  router         := filled 32 (valGetMaxIntid m table - 32) (· < 1020) (fun _ => cpuTarget m) s.router
  targets        := s.targets
  ctlr           := s.ctlr ||| 0x12
  cpuif          := s.cpuif
  processorSleep := if (valRdBase m table).1 = 0 then s.processorSleep else false
  asleep         := if (valRdBase m table).1 = 0 then s.asleep else 0

theorem V3Map.v3Init_eq (h : V3Map map m table) (hb : ∀ id, s.priority id < 2 ^ 8) {fuel : Nat} :
    v3Init (gicBus map) m table fuel s =
      if (valRdBase m table).1 = 0 ∨ s.sleepyReads < fuel then some (initialised m table s) else none := by
  have hm : valGetMaxIntid m table ≤ 1024 := valGetMaxIntid_bounds.right
  have hor : s.ctlr ||| gicAreEnable ||| 0x2 = s.ctlr ||| 0x12 := by
    rw [Nat.or_assoc]
    rfl
  rw [v3Init, h.sweep_disable hm]
  dsimp only
  obtain ⟨he, hp⟩ := @sweep_priority _ _ _
    { s with enabled := filled 0 (valGetMaxIntid m table) (Reached m table) (fun _ => false) s.enabled } h _ hm hb
  rw [he, h.setBitsOf_ctlr, h.setBitsOf_ctlr, h.wakeUpRD_eq]
  dsimp only
  have hagain (s' : GicState) (hs : s'.priority = filled 0 (valGetMaxIntid m table) (fun id => 32 ≤ id ∧ id < 1020)
      (fun _ => gicDefaultPriority) s.priority) :
      sweep (v3SetInterruptPriority (gicBus map) m table gicDefaultPriority) (valGetMaxIntid m table) s' = s' := by
    rw [(h.sweep_priority hm (hs ▸ hp)).left]
    cases s'
    simp only at hs
    rw [hs, filled_filled]
  by_cases hf : (valRdBase m table).1 = 0
  case pos =>
    rw [if_pos hf, if_pos (.inl hf), Option.map_some, hagain _ rfl, h.sweep_router hm]
    simp only [initialised, if_pos hf, hor]
  case neg =>
    rw [if_neg hf]
    change Option.map _ (if s.sleepyReads < fuel then _ else _) = _
    by_cases ha : s.sleepyReads < fuel
    case pos =>
      rw [if_pos ha, if_pos (.inr ha), Option.map_some, hagain _ rfl, h.sweep_router hm]
      simp only [initialised, if_neg hf, hor]
    case neg => rw [if_neg ha, if_neg fun hc => hc.elim hf ha, Option.map_none]

-- The masks leave the lowest affinity level alone.
theorem cpuTarget_eq : cpuTarget m = m.mpidr &&& 0xFF := by
  rfl

-- After the initialisation no interrupt that the driver reaches is enabled. The shared interrupts have the default
-- priority and go to the PE that has the level-0 affinity alone; the private ones keep the priority that they had.
theorem v3_init_resets (h : V3Map map m table) (hb : ∀ id, s.priority id < 2 ^ 8) (fuel : Nat) :
    ((v3Init (gicBus map) m table fuel s).isSome = true ↔ (valRdBase m table).1 = 0 ∨ s.sleepyReads < fuel) ∧
      ∀ s', v3Init (gicBus map) m table fuel s = some s' →
        (∀ id < valGetMaxIntid m table, s'.enabled id = true ↔ s.enabled id = true ∧ ¬Reached m table id) ∧
        (∀ id, s'.priority id =
          if 32 ≤ id ∧ id < min (valGetMaxIntid m table) 1020 then gicDefaultPriority else s.priority id) ∧
        (∀ id, s'.router id =
          if 32 ≤ id ∧ id < min (valGetMaxIntid m table) 1020 then m.mpidr &&& 0xFF else s.router id) ∧
        s'.ctlr = s.ctlr ||| 0x12 ∧
        ((valRdBase m table).1 ≠ 0 → s'.processorSleep = false ∧ s'.asleep = 0) := by
  have hge : 32 ≤ valGetMaxIntid m table := valGetMaxIntid_bounds.left
  rw [h.v3Init_eq hb]
  refine ⟨?isSome, ?state⟩
  case isSome =>
    split
    case isTrue ht  => exact iff_of_true rfl ht
    case isFalse hf => exact iff_of_false Bool.false_ne_true hf
  case state =>
    intro s' hs
    split at hs
    case isFalse => cases hs
    case isTrue =>
      obtain rfl := Option.some.inj hs
      refine ⟨fun id hid => ?enabled, fun id => ?priority, fun id => ?router, rfl, fun hf => ⟨if_neg hf, if_neg hf⟩⟩
      case enabled =>
        change (if 0 ≤ id ∧ id < 0 + valGetMaxIntid m table ∧ Reached m table id then false else s.enabled id) = true ↔ _
        by_cases hr : Reached m table id
        case pos =>
          rw [if_pos ⟨Nat.zero_le _, by omega, hr⟩]
          exact iff_of_false Bool.false_ne_true fun hc => hc.right hr
        case neg =>
          rw [if_neg fun hc => hr hc.right.right]
          exact (and_iff_left hr).symm
      case priority => exact if_congr (by omega) rfl rfl
      case router   => exact if_congr (by omega) cpuTarget_eq rfl

-- A GICv3 of 64 interrupts, and its PE.
def smallTable : List GicInfoEntry :=
  [⟨entryTypeGicd, 0x2F000000, 0, 0⟩, ⟨entryTypeGiccGicrd, 0x2F100000, 0, 0⟩]

def smallMachine : Machine where
  mpidr := 0
  mmio  := fun addr => if addr = 0x2F000000 + gicdTyper then 1 else 0

def smallMap : GicMap where
  gicd  := 0x2F000000
  rd    := 0x2F100000
  cpuif := 0
  v3    := true

def asleepGic : GicState where
  enabled        := fun id => id == 40
  priority       := fun _ => 0
  router         := fun _ => 0
  targets        := fun _ => 0
  ctlr           := 0
  cpuif          := fun _ => 0
  processorSleep := true
  asleep         := 2

theorem smallMap_v3Map : V3Map smallMap smallMachine smallTable where
  v3    := rfl
  gicd  := rfl
  rd    := .inr (by decide)
  apart := .inl (by decide)

theorem small_init_resets :
    ∃ s', v3Init (gicBus smallMap) smallMachine smallTable 3 asleepGic = some s' ∧
      s'.enabled 40 = false ∧ s'.priority 40 = gicDefaultPriority ∧ s'.processorSleep = false := by
  obtain ⟨hsome, hall⟩ := v3_init_resets (s := asleepGic) smallMap_v3Map (fun _ => Nat.zero_lt_succ _) 3
  obtain ⟨s', hs⟩ := Option.isSome_iff_exists.mp (hsome.mpr (.inr (by decide)))
  obtain ⟨he, hp, _, _, hw⟩ := hall s' hs
  refine ⟨s', hs, ?enabled, ?priority, (hw (by decide)).left⟩
  case enabled =>
    have h40 := he 40 (by decide)
    exact Bool.eq_false_iff.mpr fun hc => (h40.mp hc).right (by decide)
  case priority => exact (hp 40).trans (if_pos (by decide))

end V3

-- A GICv2. What the driver has in 32 bits for the CPU interface is not in the distributor.
structure V2Map (map : GicMap) (table : List GicInfoEntry) : Prop where
  v2    : map.v3 = false
  gicd  : map.gicd = valGetGicdBase table
  apart : map.cpuif % 2 ^ 32 + 0x2000 ≤ map.gicd ∨ map.gicd + frameBytes ≤ map.cpuif % 2 ^ 32

section V2

variable {map : GicMap} {m : Machine} {table : List GicInfoEntry} {s : GicState} {intId offset value : Nat}

namespace V2Map

variable (h : V2Map map table)

include h

theorem write_distributor (ho : offset < frameBytes) (hne : offset ≠ gicdCtlr) (ht : offset < gicIcdiptr) :
    (gicBus map).write s (valGetGicdBase table + offset) value = s.writeBank 0 1024 offset value := by
  have hoff : map.gicd + offset - map.gicd = offset := by omega
  simp only [gicBus, ← h.gicd, GicState.write]
  rw [if_pos (by omega), hoff, if_neg hne, if_neg (by omega), if_neg (by simp [h.v2])]

theorem source_eq (enable : Bool) (hi : intId < 1024) :
    v2InterruptSource (gicBus map) table (GicState.sourceBank enable) intId s =
      { s with enabled := Function.update s.enabled intId enable } := by
  have hbytes : frameBytes = 0x10000 := rfl
  have hctlr : gicdCtlr = 0 := rfl
  have htgt : gicIcdiptr = 0x800 := rfl
  have hbank : GicState.sourceBank enable = 0x100 ∨ GicState.sourceBank enable = 0x180 := by
    cases enable
    case true  => exact .inl rfl
    case false => exact .inr rfl
  rw [v2InterruptSource, Nat.add_assoc, h.write_distributor (by omega) (by omega) (by omega)]
  exact GicState.writeBank_source (by omega) (by omega) hi

theorem priority_eq (hb : ∀ id, s.priority id < 2 ^ 8) (hi : intId < 1024) {priority : Nat} (hp : priority < 2 ^ 8) :
    setByte (gicBus map) (valGetGicdBase table + gicdIpriorityr) intId priority s =
      { s with priority := Function.update s.priority intId priority } := by
  have hbytes : frameBytes = 0x10000 := rfl
  have hctlr : gicdCtlr = 0 := rfl
  have htgt : gicIcdiptr = 0x800 := rfl
  have hpr : gicdIpriorityr = 0x400 := rfl
  have hread : (gicBus map).read s (valGetGicdBase table + (gicdIpriorityr + 4 * (intId / 4))) =
      (GicState.getBytes s.priority (4 * (intId / 4)), s) := by
    have hoff : map.gicd + (gicdIpriorityr + 4 * (intId / 4)) - map.gicd = gicdIpriorityr + 4 * (intId / 4) := by omega
    have hoff' : gicdIpriorityr + 4 * (intId / 4) - gicdIpriorityr = 4 * (intId / 4) := by omega
    have hv3 : map.v3 = true → 32 ≤ 4 * (intId / 4) := by simp [h.v2]
    simp only [gicBus, ← h.gicd, GicState.read]
    rw [if_pos (by omega), hoff, if_neg (by omega), if_neg (by omega), hoff', if_pos ⟨by omega, by omega, hv3⟩]
  simp only [setByte, Nat.add_assoc, hread]
  rw [h.write_distributor (by omega) (by omega) (by omega), GicState.writeBank_priority (by omega) (by omega),
    GicState.setBytes_single hb hp]

theorem read_targets : (gicBus map).read s (valGetGicdBase table + gicIcdiptr) = (GicState.getBytes s.targets 0, s) := by
  have hoff : map.gicd + 0x800 - map.gicd = 0x800 := by omega
  have hbytes : frameBytes = 0x10000 := rfl
  have hctlr : gicdCtlr = 0 := rfl
  have htgt : gicIcdiptr = 0x800 := rfl
  simp only [gicBus, ← h.gicd, GicState.read, htgt]
  rw [if_pos (by omega), hoff, if_neg (by omega), if_pos ⟨h.v2, by omega, by omega⟩]

theorem write_targets {k : Nat} (hk : 4 * (8 + k) < 1024) :
    (gicBus map).write s (valGetGicdBase table + gicIcdiptr + (8 + k) * 4) value =
      { s with targets := GicState.setBytes s.targets (4 * (8 + k)) value } := by
  have hoff : map.gicd + 0x800 + (8 + k) * 4 - map.gicd = 0x800 + 4 * (8 + k) := by omega
  have hoff' : 0x800 + 4 * (8 + k) - 0x800 = 4 * (8 + k) := by omega
  have hbytes : frameBytes = 0x10000 := rfl
  have hctlr : gicdCtlr = 0 := rfl
  have htgt : gicIcdiptr = 0x800 := rfl
  simp only [gicBus, ← h.gicd, GicState.write, htgt]
  rw [if_pos (by omega), hoff, if_neg (by omega), if_pos ⟨h.v2, by omega, by omega⟩, hoff']

theorem write_ctlr : (gicBus map).write s (valGetGicdBase table + gicdCtlr) value = { s with ctlr := value } := by
  have hb : frameBytes = 0x10000 := rfl
  have hc : gicdCtlr = 0 := rfl
  simp only [gicBus, ← h.gicd, GicState.write, hc]
  rw [if_pos (by omega), if_pos (by omega)]

-- The base is cut to 32 bits: a CPU interface above them is not written.
theorem write_cpuif (ho : offset < 0x1000) :
    (gicBus map).write s (map.cpuif % 2 ^ 32 + offset) value =
      if map.cpuif < 2 ^ 32 then { s with cpuif := Function.update s.cpuif offset value } else s := by
  have hb : frameBytes = 0x10000 := rfl
  have ha := h.apart
  have hmod : map.cpuif % 2 ^ 32 ≤ map.cpuif := Nat.mod_le _ _
  simp only [gicBus, GicState.write]
  rw [if_neg (by omega), if_neg (by simp [h.v2]), if_neg (by simp [h.v2])]
  by_cases hlt : map.cpuif < 2 ^ 32
  case pos =>
    have hself : map.cpuif % 2 ^ 32 = map.cpuif := Nat.mod_eq_of_lt hlt
    rw [if_pos ⟨h.v2, by omega, by omega⟩, if_pos hlt, hself, Nat.add_sub_cancel_left]
  case neg => rw [if_neg (by omega), if_neg hlt]

section Sweeps

variable {max : Nat} (hm : max ≤ 1024)

include hm

theorem sweep_disable : sweep (v2DisableInterruptSource (gicBus map) table) max s =
    { s with enabled := filled 0 max (fun _ => True) (fun _ => false) s.enabled } := by
  have hstep : ∀ i < max, ∀ f : Nat → Bool, True →
      v2DisableInterruptSource (gicBus map) table i { s with enabled := f } =
        { s with enabled := if True then Function.update f (0 + i) false else f } := by
    intro i hi f _
    rw [Nat.zero_add, if_pos trivial]
    exact h.source_eq false (hi.trans_le hm)
  exact (fill _ 0 (fun _ => True) (fun _ => false) (fun f => { s with enabled := f }) (fun _ => True) trivial
    (fun _ _ _ _ => trivial) hstep).left

theorem sweep_priority (hb : ∀ id, s.priority id < 2 ^ 8) :
    sweep (fun id => setByte (gicBus map) (valGetGicdBase table + gicdIpriorityr) id gicDefaultPriority) max s =
      { s with priority := filled 0 max (fun _ => True) (fun _ => gicDefaultPriority) s.priority } := by
  have hp : gicDefaultPriority < 2 ^ 8 := by decide
  have hstep : ∀ i < max, ∀ f : Nat → Nat, (∀ id, f id < 2 ^ 8) →
      setByte (gicBus map) (valGetGicdBase table + gicdIpriorityr) i gicDefaultPriority { s with priority := f } =
        { s with priority := if True then Function.update f (0 + i) gicDefaultPriority else f } := by
    intro i hi f hf
    rw [Nat.zero_add, if_pos trivial]
    exact h.priority_eq hf (hi.trans_le hm) hp
  refine (fill (fun id => setByte (gicBus map) (valGetGicdBase table + gicdIpriorityr) id gicDefaultPriority) 0
    (fun _ => True) (fun _ => gicDefaultPriority) (fun f => { s with priority := f }) (fun f => ∀ id, f id < 2 ^ 8) hb ?_
    hstep).left
  intro f j hf _ id
  rw [Function.update_apply]
  split
  case isTrue  => exact hp
  case isFalse => exact hf id

end Sweeps

-- Every word of the targets gets the word of the first four interrupts.
theorem sweep_targets {n : Nat} (hn : 4 * (8 + n) ≤ 1024) :
    sweep (fun k s => (gicBus map).write s (valGetGicdBase table + gicIcdiptr + (8 + k) * 4) value) n s =
      { s with targets := filled 32 (4 * n) (fun _ => True) (fun id => GicState.byteOf value (id % 4)) s.targets } := by
  induction n
  case zero =>
    rw [Nat.mul_zero, filled_zero]
    rfl
  case succ n hi =>
    rw [Sweep.succ, hi (by omega), h.write_targets (by omega)]
    congr 1
    funext id
    rw [GicState.setBytes]
    dsimp only
    rw [filled_apply, filled_apply]
    by_cases hw : 4 * (8 + n) ≤ id ∧ id < 4 * (8 + n) + 4
    case pos =>
      have hb : id - 4 * (8 + n) = id % 4 := by omega
      rw [if_pos hw, if_pos ⟨by omega, by omega, trivial⟩, hb]
    case neg =>
      rw [if_neg hw]
      refine if_congr ⟨?_, ?_⟩ rfl rfl
      · rintro ⟨hle, hlt, _⟩
        exact ⟨hle, by omega, trivial⟩
      · rintro ⟨hle, hlt, _⟩
        exact ⟨hle, by omega, trivial⟩

end V2Map

-- The CPU interface that the initialisation leaves.
def cpuifOn (regs : Nat → Nat) : Nat → Nat :=
  Function.update (Function.update (Function.update regs gicIccbpr 0x7) gicIccpmr 0xFF) gicIccicr 0x1

theorem V2Map.write_cpuif_on (h : V2Map map table) :
    (gicBus map).write ((gicBus map).write ((gicBus map).write s (map.cpuif % 2 ^ 32 + gicIccbpr) 0x7)
        (map.cpuif % 2 ^ 32 + gicIccpmr) 0xFF) (map.cpuif % 2 ^ 32 + gicIccicr) 0x1 =
      { s with cpuif := if map.cpuif < 2 ^ 32 then cpuifOn s.cpuif else s.cpuif } := by
  rw [h.write_cpuif (by decide), h.write_cpuif (by decide), h.write_cpuif (by decide)]
  by_cases hlt : map.cpuif < 2 ^ 32
  case pos => simp only [if_pos hlt, cpuifOn]
  case neg => simp only [if_neg hlt]

-- The GIC that the initialisation leaves.
def v2Initialised (m : Machine) (table : List GicInfoEntry) (cpuif : Nat) (s : GicState) : GicState :=
  let word := GicState.getBytes s.targets 0
  { s with
    enabled  := filled 0 (valGetMaxIntid m table) (fun _ => True) (fun _ => false) s.enabled
    priority := filled 0 (valGetMaxIntid m table) (fun _ => True) (fun _ => gicDefaultPriority) s.priority
    targets  :=
      if word = 0 then s.targets
      else filled 32 (4 * (valGetMaxIntid m table / 4 - 8)) (fun _ => True) (fun id => GicState.byteOf word (id % 4)) s.targets
    ctlr     := 0x1
    cpuif    := if cpuif < 2 ^ 32 then cpuifOn s.cpuif else s.cpuif }

theorem V2Map.v2Init_eq (h : V2Map map table) (hb : ∀ id, s.priority id < 2 ^ 8) :
    v2Init (gicBus map) m table map.cpuif s = v2Initialised m table map.cpuif s := by
  have hm : 32 ≤ valGetMaxIntid m table ∧ valGetMaxIntid m table ≤ 1024 := valGetMaxIntid_bounds
  have hpriority := @V2Map.sweep_priority map table
    { s with enabled := filled 0 (valGetMaxIntid m table) (fun _ => True) (fun _ => false) s.enabled } h _ hm.right hb
  simp only [v2Init, h.sweep_disable hm.right, hpriority, h.read_targets, h.write_cpuif_on, h.write_ctlr]
  by_cases hw : GicState.getBytes s.targets 0 = 0
  case pos => simp only [hw, v2Initialised, ne_eq, not_true_eq_false, if_false, if_true]
  case neg =>
    rw [if_pos hw, h.sweep_targets (by omega)]
    simp only [v2Initialised, if_neg hw]

theorem getBytes_eq_zero_iff {bytes : Nat → Nat} : GicState.getBytes bytes 0 = 0 ↔ ¬∃ k < 4, bytes k ≠ 0 := by
  simp only [GicState.getBytes, Nat.zero_add]
  constructor
  · rintro hz ⟨k, hk, hne⟩
    obtain rfl | rfl | rfl | rfl : k = 0 ∨ k = 1 ∨ k = 2 ∨ k = 3 := by omega
    all_goals omega
  · intro hall
    have hz {k : Nat} (hk : k < 4) : bytes k = 0 := by_contra fun hne => hall ⟨k, hk, hne⟩
    have h₀ := hz (k := 0) (by decide)
    have h₁ := hz (k := 1) (by decide)
    have h₂ := hz (k := 2) (by decide)
    have h₃ := hz (k := 3) (by decide)
    omega

-- After the initialisation no interrupt is enabled and all have the default priority. A shared interrupt goes to the
-- PEs that one of the first four goes to, if any of these goes to one. The CPU interface is on unless its registers
-- are above 32 bits.
theorem v2_init_resets (h : V2Map map table) (hb : ∀ id, s.priority id < 2 ^ 8) (ht : ∀ id, s.targets id < 2 ^ 8) :
    (∀ id < valGetMaxIntid m table, (v2Init (gicBus map) m table map.cpuif s).enabled id = false ∧
      (v2Init (gicBus map) m table map.cpuif s).priority id = gicDefaultPriority) ∧
    (∀ id, (v2Init (gicBus map) m table map.cpuif s).targets id =
      if 32 ≤ id ∧ id < valGetMaxIntid m table ∧ ∃ k < 4, s.targets k ≠ 0 then s.targets (id % 4) else s.targets id) ∧
    (v2Init (gicBus map) m table map.cpuif s).ctlr = 0x1 ∧
    (v2Init (gicBus map) m table map.cpuif s).cpuif = if map.cpuif < 2 ^ 32 then cpuifOn s.cpuif else s.cpuif := by
  have hge : 32 ≤ valGetMaxIntid m table := valGetMaxIntid_bounds.left
  have hmul : 4 * (valGetMaxIntid m table / 4) = valGetMaxIntid m table := by
    rw [valGetMaxIntid]
    omega
  rw [h.v2Init_eq hb]
  refine ⟨fun id hid => ⟨?enabled, ?priority⟩, fun id => ?targets, rfl, rfl⟩
  case enabled  => exact if_pos ⟨Nat.zero_le _, by omega, trivial⟩
  case priority => exact if_pos ⟨Nat.zero_le _, by omega, trivial⟩
  case targets =>
    rw [v2Initialised]
    dsimp only
    by_cases hw : GicState.getBytes s.targets 0 = 0
    case pos => rw [if_pos hw, if_neg fun hc => getBytes_eq_zero_iff.mp hw hc.right.right]
    case neg =>
      have hex : ∃ k < 4, s.targets k ≠ 0 := not_not.mp fun hc => hw (getBytes_eq_zero_iff.mpr hc)
      have hbyte : GicState.byteOf (GicState.getBytes s.targets 0) (id % 4) = s.targets (id % 4) := by
        rw [byteOf_getBytes ht (Nat.mod_lt _ (by decide)), Nat.zero_add]
      rw [if_neg hw, filled_apply, hbyte]
      by_cases hr : 32 ≤ id ∧ id < valGetMaxIntid m table
      case pos => rw [if_pos ⟨hr.left, by omega, trivial⟩, if_pos ⟨hr.left, hr.right, hex⟩]
      case neg => rw [if_neg fun hc => hr ⟨hc.left, by omega⟩, if_neg fun hc => hr ⟨hc.left, hc.right.left⟩]

-- The CPU interface is above 32 bits.
def highMap : GicMap where
  gicd  := 0x2F000000
  rd    := 0
  cpuif := 0x12C000000
  v3    := false

theorem highMap_v2Map : V2Map highMap smallTable where
  v2    := rfl
  gicd  := rfl
  apart := .inl (by decide)

-- The first interrupt goes to the second PE.
def routedGic : GicState :=
  { asleepGic with targets := fun id => if id = 0 then 2 else 1 }

theorem high_init_resets :
    (v2Init (gicBus highMap) smallMachine smallTable highMap.cpuif routedGic).enabled 40 = false ∧
    (v2Init (gicBus highMap) smallMachine smallTable highMap.cpuif routedGic).priority 40 = gicDefaultPriority ∧
    (v2Init (gicBus highMap) smallMachine smallTable highMap.cpuif routedGic).targets 40 = 2 ∧
    (v2Init (gicBus highMap) smallMachine smallTable highMap.cpuif routedGic).targets 1 = 1 ∧
    (v2Init (gicBus highMap) smallMachine smallTable highMap.cpuif routedGic).ctlr = 0x1 ∧
    (v2Init (gicBus highMap) smallMachine smallTable highMap.cpuif routedGic).cpuif gicIccpmr = 0 := by
  have hpriority : ∀ id, routedGic.priority id < 2 ^ 8 := fun _ => Nat.zero_lt_succ _
  have htargets : ∀ id, routedGic.targets id < 2 ^ 8 := fun id => by
    simp only [routedGic]
    split <;> decide
  obtain ⟨hid, ht, hctlr, hcpuif⟩ := v2_init_resets (m := smallMachine) highMap_v2Map hpriority htargets
  obtain ⟨henabled, hprio⟩ := hid 40 (by decide)
  refine ⟨henabled, hprio, ?_, ?_, hctlr, ?_⟩
  · rw [ht, if_pos ⟨by decide, by decide, 0, by decide, by decide⟩]
    rfl
  · rw [ht, if_neg (by decide)]
    rfl
  · rw [hcpuif, if_neg (by decide)]
    rfl

end V2

end Gic
