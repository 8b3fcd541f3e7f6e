import BsaAcs.Pcie.Bar
import BsaAcs.Pcie.Theorems.Search
import Mathlib.Tactic

namespace Pcie

-- A base address register, as the PCI specification lays it out in one or two slots.
inductive Bar
  | unimplemented
  | io (address : BitVec 30)
  | mem32 (address : BitVec 28) (prefetchable : Bool)
  | mem64 (upper : BitVec 32) (address : BitVec 28) (prefetchable : Bool)
deriving DecidableEq, Repr

namespace Bar

def ioWord (address : BitVec 30) : BitVec 32 := address ++ 0b01#2
def memWord (address : BitVec 28) (flags : BitVec 4) : BitVec 32 := address ++ flags
def memFlags (prefetchable : Bool) (type : BitVec 2) : BitVec 4 := BitVec.ofBool prefetchable ++ type ++ 0b0#1

def words : Bar → List (BitVec 32)
  | unimplemented                    => [0]
  | io address                       => [ioWord address]
  | mem32 address prefetchable       => [memWord address (memFlags prefetchable 0b00)]
  | mem64 upper address prefetchable => [memWord address (memFlags prefetchable 0b10), upper]

def base : Bar → Option (BitVec 64)
  | unimplemented | io _  => none
  | mem32 address _       => some (0#32 ++ memWord address 0)
  | mem64 upper address _ => some (upper ++ memWord address 0)

def isIo : Bar → Bool
  | io _ => true
  | _    => false

theorem words_io (address : BitVec 30) : (io address).words = [ioWord address] := rfl

theorem words_length_pos (bar : Bar) : 0 < bar.words.length := by
  cases bar <;> simp [words]

-- How the slots of a register that starts at `index` may be read.
def reads (index : Nat) : Bar → List BarRead
  | mem64 .. => [.low index, .high (index + 1)]
  | _        => [.low index]

end Bar

inductive HeaderLayout
  | type0
  | type1
deriving DecidableEq, Repr

namespace HeaderLayout

def slots : HeaderLayout → Nat
  | type0 => 6
  | type1 => 2

def code : HeaderLayout → BitVec 7
  | type0 => 0
  | type1 => 1

theorem slots_le (layout : HeaderLayout) : layout.slots ≤ type0MaxBars := by
  cases layout <;> decide

end HeaderLayout

def barReads : Nat → List Bar → List BarRead
  | _, []              => []
  | index, bar :: bars => bar.reads index ++ barReads (index + bar.words.length) bars

section

variable {S : Type} (hw : Mmio S) (table : PcieInfoTable) (s : S) (bdf : Nat)

-- The header of the function, of which the registers fill all slots for them.
structure HasBars (layout : HeaderLayout) (bars : List Bar) : Prop where
  header : ∃ w, valPcieReadCfg hw table s bdf type01Clsr = some w ∧ w.extractLsb' 16 7 = layout.code
  slots  : (bars.flatMap (·.words)).length = layout.slots
  read   : ∀ i < layout.slots,
    valPcieReadCfg hw table s bdf (type01Bar + i * 4) = (bars.flatMap (·.words))[i]?

end

-- The base address of the first memory BAR is written, and 0 only if there is none. No slot is taken for what
-- it is not.
structure FindsMemoryBar (bars : List Bar) (result : BarBase × List BarRead) : Prop where
  base  : result.1.2 ++ result.1.1 = (bars.findSome? (·.base)).getD 0
  none  : result.1.2 ++ result.1.1 = 0#64 ↔ ∀ bar ∈ bars, bar.base = none
  reads : ∀ read ∈ result.2, read ∈ barReads 0 bars

section Words

open Bar

variable {address : BitVec 28} {flags mask : BitVec 4} {shift : Nat}

theorem low_memWord : ((memWord address flags >>> barBaseShift) &&& barBaseMask) <<< barBaseShift =
    memWord address 0 := by
  have hm : barBaseMask = 0#4 ++ BitVec.allOnes 28 := by decide
  apply BitVec.eq_of_getLsbD_eq
  intro i hi
  simp only [memWord, hm, barBaseShift, BitVec.getLsbD_shiftLeft, BitVec.getLsbD_and, BitVec.getLsbD_ushiftRight,
    BitVec.getLsbD_append, BitVec.getLsbD_allOnes]
  by_cases h : i < 4
  case pos => simp [h]
  case neg =>
    have hu : i - 4 < 28 := by omega
    have he : 4 + (i - 4) = i := by omega
    simp [h, hi, hu, he]

-- A field of the flags, where the mask does not reach over them.
theorem flags_memWord (hs : shift ≤ 4) (hm : mask >>> (4 - shift) = 0) :
    (memWord address flags >>> shift) &&& mask.setWidth 32 = ((flags >>> shift) &&& mask).setWidth 32 := by
  apply BitVec.eq_of_getLsbD_eq
  intro i hi
  simp only [memWord, BitVec.getLsbD_and, BitVec.getLsbD_setWidth, BitVec.getLsbD_ushiftRight, BitVec.getLsbD_append, hi,
    decide_true, Bool.true_and]
  by_cases hl : shift + i < 4
  case pos => simp [hl]
  case neg =>
    have he : 4 - shift + (i - (4 - shift)) = i := by omega
    have hz : mask.getLsbD i = false := by
      rw [← he, ← BitVec.getLsbD_ushiftRight, hm]
      exact BitVec.getLsbD_zero
    simp [hz]

theorem mit_memWord : (memWord address flags >>> barMitShift) &&& barMitMask =
    (flags >>> barMitShift &&& 0x1#4).setWidth 32 :=
  @flags_memWord address flags 0x1 barMitShift (by decide) (by decide)

theorem mdt_memWord : (memWord address flags >>> barMdtShift) &&& barMdtMask =
    (flags >>> barMdtShift &&& 0x3#4).setWidth 32 :=
  @flags_memWord address flags 0x3 barMdtShift (by decide) (by decide)

theorem mit_ioWord (address : BitVec 30) :
    ¬(ioWord address >>> barMitShift) &&& barMitMask = mmio := by
  intro h
  have hb := congrArg (·.getLsbD 0) h
  simp only [ioWord, barMitShift, barMitMask, mmio, BitVec.getLsbD_and, BitVec.getLsbD_ushiftRight,
    BitVec.getLsbD_append] at hb
  simp at hb

end Words

-- What the loop makes of the registers from `index` on: it goes on at an I/O register and at no other.
open Bar in
def scanBars : Nat → List Bar → BarBase × List BarRead
  | _, []                             => ((0, 0), [])
  | index, .unimplemented :: _        => ((0, 0), [.low index])
  | index, .io _ :: bars              => ((scanBars (index + 1) bars).1, .low index :: (scanBars (index + 1) bars).2)
  | index, .mem32 address _ :: _      => ((memWord address 0, 0), [.low index])
  | index, .mem64 upper address _ :: _ => ((memWord address 0, upper), [.low index, .high (index + 1)])

section Scan

open Bar

variable {S : Type} {hw : Mmio S} {table : PcieInfoTable} {s : S} {unset : BarUnset} {bdf : Nat} {base : BarBase}
variable {layout : HeaderLayout} {bars : List Bar}

theorem headerType_eq {w u : BitVec 32} (hr : valPcieReadCfg hw table s bdf type01Clsr = some w)
    (hl : w.extractLsb' 16 7 = layout.code) :
    valPcieFunctionHeaderType hw table s u bdf = type1Header ↔ layout = .type1 := by
  have he : (w >>> 16 &&& 0xFF) &&& 0x7F = (w.extractLsb' 16 7).setWidth 32 := by
    have hm : (0xFF &&& 0x7F : BitVec 32) = 0#25 ++ BitVec.allOnes 7 := by decide
    rw [BitVec.and_assoc, hm]
    apply BitVec.eq_of_getLsbD_eq
    intro i hi
    simp only [BitVec.getLsbD_and, BitVec.getLsbD_ushiftRight, BitVec.getLsbD_append, BitVec.getLsbD_setWidth,
      BitVec.getLsbD_extractLsb', BitVec.getLsbD_allOnes]
    by_cases h : i < 7 <;> simp [h, hi]
  rw [valPcieFunctionHeaderType, hr, Option.getD_some, he, hl]
  cases layout <;> decide

-- The loop at the register that starts at `index`.
section Round

variable {fuel index : Nat} {word : BitVec 32}

theorem getMmioBarFrom_io {address : BitVec 30}
    (hr : valPcieReadCfg hw table s bdf (type01Bar + index * 4) = some (ioWord address)) :
    getMmioBarFrom hw table s unset bdf base (fuel + 1) index =
      if valPcieFunctionHeaderType hw table s unset.header bdf = type1Header ∧ index + 1 = type1MaxBars then
        ((0, 0), [.low index])
      else
        ((getMmioBarFrom hw table s unset bdf base fuel (index + 1)).1,
          .low index :: (getMmioBarFrom hw table s unset bdf base fuel (index + 1)).2) := by
  rw [getMmioBarFrom]
  simp only [hr, Option.getD_some, if_neg (mit_ioWord address)]

theorem getMmioBarFrom_mem32 {address : BitVec 28} {prefetchable : Bool}
    (hr : valPcieReadCfg hw table s bdf (type01Bar + index * 4) =
      some (memWord address (memFlags prefetchable 0b00))) :
    getMmioBarFrom hw table s unset bdf base (fuel + 1) index = ((memWord address 0, 0), [.low index]) := by
  have hm : (memFlags prefetchable 0b00 >>> barMitShift &&& 0x1#4).setWidth 32 = mmio := by
    cases prefetchable <;> decide
  have ht : (memFlags prefetchable 0b00 >>> barMdtShift &&& 0x3#4).setWidth 32 = bits32 := by
    cases prefetchable <;> decide
  have hne : ¬bits32 = bits64 := by decide
  rw [getMmioBarFrom]
  simp only [hr, Option.getD_some, mit_memWord, mdt_memWord, low_memWord, hm, ht, if_true, if_neg hne]

theorem getMmioBarFrom_mem64 {address : BitVec 28} {upper : BitVec 32} {prefetchable : Bool}
    (hr : valPcieReadCfg hw table s bdf (type01Bar + index * 4) =
      some (memWord address (memFlags prefetchable 0b10)))
    (hu : valPcieReadCfg hw table s bdf (type01Bar + (index + 1) * 4) = some upper) :
    getMmioBarFrom hw table s unset bdf base (fuel + 1) index =
      ((memWord address 0, upper), [.low index, .high (index + 1)]) := by
  have hm : (memFlags prefetchable 0b10 >>> barMitShift &&& 0x1#4).setWidth 32 = mmio := by
    cases prefetchable <;> decide
  have ht : (memFlags prefetchable 0b10 >>> barMdtShift &&& 0x3#4).setWidth 32 = bits64 := by
    cases prefetchable <;> decide
  rw [getMmioBarFrom]
  simp only [hr, hu, Option.getD_some, mit_memWord, mdt_memWord, low_memWord, hm, ht, if_true]

-- An unimplemented register reads as a memory BAR for 32 bits at 0.
theorem getMmioBarFrom_unimplemented (hr : valPcieReadCfg hw table s bdf (type01Bar + index * 4) = some 0) :
    getMmioBarFrom hw table s unset bdf base (fuel + 1) index = ((0, 0), [.low index]) :=
  @getMmioBarFrom_mem32 _ _ _ _ unset _ base _ _ 0 false hr

end Round

theorem eq_nil_of_words (h : (bars.flatMap (·.words)).length = 0) : bars = [] := by
  cases bars
  case nil => rfl
  case cons bar bars =>
    have := bar.words_length_pos
    simp only [List.flatMap_cons, List.length_append] at h
    omega

theorem getMmioBarFrom_eq {fuel index : Nat} (hf : fuel + index = type0MaxBars) (hn : bars = [] → layout = .type0)
    (ht : valPcieFunctionHeaderType hw table s unset.header bdf = type1Header ↔ layout = .type1)
    (hl : index + (bars.flatMap (·.words)).length = layout.slots)
    (hr : ∀ i < (bars.flatMap (·.words)).length,
      valPcieReadCfg hw table s bdf (type01Bar + (index + i) * 4) = (bars.flatMap (·.words))[i]?) :
    getMmioBarFrom hw table s unset bdf base fuel index = scanBars index bars := by
  induction bars generalizing fuel index
  case nil =>
    obtain rfl := hn rfl
    obtain rfl : fuel = 0 := by
      simp only [HeaderLayout.slots, type0MaxBars, List.flatMap_nil, List.length_nil] at hl hf
      omega
    rfl
  case cons bar bars hi =>
    simp only [List.flatMap_cons, List.length_append] at hl hr
    have hw : 0 < bar.words.length := bar.words_length_pos
    have hs := layout.slots_le
    obtain ⟨fuel, rfl⟩ : ∃ n, fuel = n + 1 := Nat.exists_eq_add_one.mpr (by omega)
    have h₀ := hr 0 (by omega)
    rw [Nat.add_zero] at h₀
    cases bar
    case unimplemented => exact getMmioBarFrom_unimplemented h₀
    case mem32 => exact getMmioBarFrom_mem32 h₀
    case mem64 => exact getMmioBarFrom_mem64 h₀ (hr 1 (Nat.lt_add_right _ Nat.one_lt_two))
    case io =>
      simp only [words_io, List.length_singleton] at hl hr
      have hn' : index + 1 = type1MaxBars ∧ layout = .type1 → bars = [] := by
        intro ⟨hx, hb⟩
        apply eq_nil_of_words
        rw [type1MaxBars] at hx
        rw [hb, HeaderLayout.slots] at hl
        omega
      rw [getMmioBarFrom_io h₀]
      split
      case isTrue h =>
        rw [hn' ⟨h.right, ht.mp h.left⟩]
        rfl
      case isFalse h =>
        rw [hi (by omega), scanBars]
        · intro hb
          subst hb
          cases layout
          case type0 => rfl
          case type1 => exact absurd ⟨ht.mpr rfl, hl⟩ h
        · rw [Nat.add_assoc]
          exact hl
        · intro i hi
          rw [Nat.add_assoc, Nat.add_comm 1]
          exact hr (i + 1) (by omega)

theorem valPcieGetMmioBar_eq (h : HasBars hw table s bdf layout bars) :
    valPcieGetMmioBar hw table s unset bdf base = scanBars 0 bars := by
  have ⟨w, hr, hl⟩ := h.header
  apply getMmioBarFrom_eq rfl ?_ (headerType_eq hr hl)
  · simpa using h.slots
  · intro i hi
    rw [Nat.zero_add]
    exact h.read i (h.slots ▸ hi)
  · intro hb
    have := h.slots
    rw [hb] at this
    cases layout <;> cases this

-- The loop finds the first memory BAR, unless it takes an unimplemented one for it.
theorem scanBars_of_none {index : Nat} (h : ∀ bar ∈ bars, bar.base = none) : (scanBars index bars).1 = (0, 0) := by
  induction bars generalizing index
  case nil => rfl
  case cons bar bars hi =>
    rw [List.forall_mem_cons] at h
    cases bar
    case unimplemented => rfl
    case io => exact hi h.right
    case mem32 => cases h.left
    case mem64 => cases h.left

theorem scanBars_reads {index : Nat} : ∀ read ∈ (scanBars index bars).2, read ∈ barReads index bars := by
  induction bars generalizing index
  case nil => simp [scanBars]
  case cons bar bars hi =>
    intro read hr
    rw [barReads, List.mem_append]
    cases bar
    case io =>
      cases hr
      case head => exact .inl (List.mem_singleton_self _)
      case tail hr => exact .inr (hi read hr)
    all_goals exact .inl hr

-- The first register that is no I/O register decides.
theorem scanBars_of_find (index : Nat) {bar : Bar} (h : bars.find? (!·.isIo) = some bar) :
    (scanBars index bars).1.2 ++ (scanBars index bars).1.1 = bar.base.getD 0 ∧
      (bar.base ≠ none → bars.findSome? (·.base) = bar.base) := by
  induction bars generalizing index
  case nil => cases h
  case cons first bars hi =>
    cases first
    case io => exact hi _ h
    case unimplemented =>
      cases h
      have hz : 0#32 ++ 0#32 = 0#64 := by decide
      exact ⟨hz, fun hb => absurd rfl hb⟩
    case mem32 =>
      cases h
      exact ⟨rfl, fun _ => rfl⟩
    case mem64 =>
      cases h
      exact ⟨rfl, fun _ => rfl⟩

end Scan

-- Without a memory BAR there is nothing to find. Otherwise the first register that is no I/O register is a
-- memory BAR, and it has been given an address.
def Findable (bars : List Bar) : Prop :=
  (∀ bar ∈ bars, bar.base = none) ∨
    ∃ bar address, bars.find? (!·.isIo) = some bar ∧ bar.base = some address ∧ address ≠ 0

variable {S : Type} {hw : Mmio S} {table : PcieInfoTable} {s : S} {unset : BarUnset} {bdf : Nat} {base : BarBase}
variable {layout : HeaderLayout} {bars : List Bar}

theorem get_mmio_bar_iff (h : HasBars hw table s bdf layout bars) :
    FindsMemoryBar bars (valPcieGetMmioBar hw table s unset bdf base) ↔ Findable bars := by
  rw [valPcieGetMmioBar_eq h]
  by_cases hn : ∀ bar ∈ bars, bar.base = none
  case pos =>
    refine iff_of_true ⟨?_, iff_of_true ?_ hn, scanBars_reads⟩ (.inl hn)
    · rw [scanBars_of_none hn, List.findSome?_eq_none_iff.mpr hn]
      rfl
    · rw [scanBars_of_none hn]
      rfl
  case neg =>
    -- There is a register that is no I/O register.
    have ⟨bar, hf⟩ : ∃ bar, bars.find? (!·.isIo) = some bar := by
      apply Option.isSome_iff_exists.mp
      rw [List.find?_isSome]
      push Not at hn
      have ⟨bar, hm, hb⟩ := hn
      refine ⟨bar, hm, ?_⟩
      cases bar
      case io => exact absurd rfl hb
      all_goals rfl
    have ⟨hs, hb⟩ := scanBars_of_find 0 hf
    constructor
    · intro hp
      have hne : bar.base.getD 0 ≠ 0 := fun hz => hn (hp.none.mp (hs.trans hz))
      cases ha : bar.base
      case none => exact absurd (by rw [ha]; rfl) hne
      case some address =>
        rw [ha] at hne
        exact .inr ⟨bar, address, hf, ha, hne⟩
    · rintro (hc | ⟨bar', address, hf', ha, hne⟩)
      case inl => exact absurd hc hn
      case inr =>
        cases hf ▸ hf'
        rw [ha] at hs hb
        refine ⟨?_, iff_of_false ?_ hn, scanBars_reads⟩
        · rw [hs, hb (by simp)]
        · rw [hs]
          exact hne

-- A function of Type 0 on bus 0 with these registers.
def barMmio (bars : List Bar) : Mmio Unit where
  read _ addr := if 0x40000010 ≤ addr then ((bars.flatMap (·.words))[(addr - 0x40000010) / 4]?).getD 0 else 0
  write _ _ _ := ()

def ioThenMemory : List Bar :=
  [.io 0x400, .mem64 0x1 0x8000000 true, .unimplemented, .unimplemented, .unimplemented]

theorem ioThenMemory_hasBars : HasBars (barMmio ioThenMemory) firstBus () 0 .type0 ioThenMemory where
  header := ⟨0, by decide, rfl⟩
  slots  := rfl
  read   := by decide

theorem memory_bar_found :
    HasBars (barMmio ioThenMemory) firstBus () 0 .type0 ioThenMemory ∧
    FindsMemoryBar ioThenMemory (valPcieGetMmioBar (barMmio ioThenMemory) firstBus () ⟨0, 0, 0⟩ 0 (0, 0)) :=
  ⟨ioThenMemory_hasBars,
    (get_mmio_bar_iff ioThenMemory_hasBars).mpr (.inr ⟨_, 0x180000000, rfl, by decide, by decide⟩)⟩

-- A controller with its registers behind the last BAR only.
def lastBarOnly : List Bar :=
  [.unimplemented, .unimplemented, .unimplemented, .unimplemented, .unimplemented, .mem32 0x8000000 false]

theorem memory_bar_missed :
    HasBars (barMmio lastBarOnly) firstBus () 0 .type0 lastBarOnly ∧
    lastBarOnly.findSome? (·.base) = some 0x80000000 ∧
    (valPcieGetMmioBar (barMmio lastBarOnly) firstBus () ⟨0, 0, 0⟩ 0 (0, 0)).1 = (0, 0) ∧
    ¬FindsMemoryBar lastBarOnly (valPcieGetMmioBar (barMmio lastBarOnly) firstBus () ⟨0, 0, 0⟩ 0 (0, 0)) := by
  have hz : (valPcieGetMmioBar (barMmio lastBarOnly) firstBus () ⟨0, 0, 0⟩ 0 (0, 0)).1 = (0, 0) := by decide
  refine ⟨⟨⟨0, by decide, rfl⟩, rfl, by decide⟩, by decide, hz, fun h => ?_⟩
  have hb := h.base
  rw [hz] at hb
  exact absurd hb (by decide)

end Pcie
