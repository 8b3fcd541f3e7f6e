import BsaAcs.Pcie.Bitfield
import BsaAcs.Pcie.Theorems.Control
import BsaAcs.Pcie.Theorems.Search

namespace Pcie

-- A word of the config space: what is read after a write is what its bits make of the write.
def IsRegister {S : Type} (hw : Mmio S) (addr : Nat) (attr : Attr) : Prop :=
  ∀ s data, palMmioRead hw (hw.write s addr data) addr = attr.write (palMmioRead hw s addr) data

namespace PcieCfgregBitfieldEntry

variable (bfEntry : PcieCfgregBitfieldEntry)

def firstBit : Nat := 8 * (bfEntry.regOffset % 4) + bfEntry.start
def lastBit : Nat := 8 * (bfEntry.regOffset % 4) + bfEntry.endBit

def InField (i : Nat) : Prop :=
  bfEntry.firstBit ≤ i ∧ i ≤ bfEntry.lastBit

instance (i : Nat) : Decidable (bfEntry.InField i) :=
  inferInstanceAs (Decidable (_ ∧ _))

def fieldValue (w : BitVec 32) : BitVec 32 :=
  (w.extractLsb' bfEntry.firstBit (bfEntry.endBit - bfEntry.start + 1)).setWidth 32

-- What the attribute asks of a word with these bits.
def AttrHolds (attr : Attr) (w : BitVec 32) : Prop :=
  match bfEntry.attr with
  | .hwInit | .readOnly | .stickyRo => ∀ i < 32, bfEntry.InField i → attr.rw.getLsbD i = false
  | .readWrite | .stickyRw          => ∀ i < 32, bfEntry.InField i → attr.rw.getLsbD i = true
  | .rsvdpRo                        => bfEntry.fieldValue w = 0
  | .rsvdzRo                        =>
    ∀ zeroed : BitVec 32, (∀ i < 32, zeroed.getLsbD i = (w.getLsbD i && !decide (bfEntry.InField i))) →
      attr.write w zeroed = w
  | .other _                        => False

-- The field of the word, with all status that was pending in it cleared, is as the entry has it.
def Describes (attr : Attr) (w : BitVec 32) : Prop :=
  bfEntry.fieldValue (w &&& ~~~attr.w1c) = bfEntry.cfgValue ∧ bfEntry.AttrHolds attr (w &&& ~~~attr.w1c)

-- The register is in the header, or in a capability structure that is there.
def CapabilityAt {S : Type} (hw : Mmio S) (table : PcieInfoTable) (s : S) (bdf capBase : Nat) : Prop :=
  match bfEntry.regType with
  | .header   => capBase = 0
  | .pcieCap  => HasCapabilityAt hw table s bdf .pcieCap bfEntry.capId capBase
  | .pcieEcap => HasCapabilityAt hw table s bdf .pcieEcap bfEntry.ecapId capBase
  | .other _  => False

end PcieCfgregBitfieldEntry

section Mask

variable {endBit start shift i : Nat} {w : BitVec 32}

theorem getLsbD_lsl (hs : shift < 32) (hi : i < 32) :
    (lsl w shift).getLsbD i = (decide (shift ≤ i) && w.getLsbD (i - shift)) := by
  rw [lsl, Nat.mod_eq_of_lt hs, BitVec.getLsbD_shiftLeft]
  by_cases h : shift ≤ i
  case pos => simp [hi, h]
  case neg => simp [h, Nat.lt_of_not_le h]

theorem getLsbD_lsr (hs : shift < 32) : (lsr w shift).getLsbD i = w.getLsbD (shift + i) := by
  rw [lsr, Nat.mod_eq_of_lt hs, BitVec.getLsbD_ushiftRight]

theorem getLsbD_ones_below {n : Nat} (hn : n < 32) :
    (lsl 1 n - 1).getLsbD i = decide (i < n) := by
  have hlt : 2 ^ n < 2 ^ 32 := Nat.pow_lt_pow_right (by decide) hn
  have hpos : 0 < 2 ^ n := Nat.two_pow_pos n
  have hnat : (lsl 1 n - 1).toNat = 2 ^ n - 1 := by
    rw [lsl, Nat.mod_eq_of_lt hn, BitVec.toNat_sub]
    simp only [BitVec.ofNat_eq_ofNat, BitVec.toNat_shiftLeft, BitVec.toNat_ofNat]
    omega
  rw [BitVec.getLsbD, hnat, Nat.testBit_two_pow_sub_one]

-- The macro gives as many ones as the field has bits.
theorem getLsbD_regMask (h : start ≤ endBit) (he : endBit < 31) :
    (regMask endBit start).getLsbD i = decide (i ≤ endBit - start) := by
  rw [regMask, getLsbD_lsr (by omega), BitVec.getLsbD_and]
  by_cases hi : start + i < 32
  case pos =>
    rw [getLsbD_lsl (by omega) hi, getLsbD_ones_below (by omega)]
    have : (~~~0 : BitVec 32).getLsbD (start + i - start) = true := by
      rw [BitVec.getLsbD_not]
      simp
      omega
    rw [this]
    simp
    omega
  case neg =>
    rw [BitVec.getLsbD_of_ge _ _ (by omega)]
    simp
    omega

-- A field up to the last bit has no mask: the shift by the width of the word is a shift by 0.
theorem regMask_last : regMask 31 start = 0 := by
  have : lsl 1 (31 + 1) - 1 = 0 := by decide
  rw [regMask, this]
  simp [lsr]

end Mask

namespace PcieCfgregBitfieldEntry

variable {bfEntry : PcieCfgregBitfieldEntry}

theorem regShift_eq : regShift (bfEntry.regOffset % 4) bfEntry.start = bfEntry.firstBit := by
  simp only [regShift, bitsInByte, firstBit]
  omega

variable (h : bfEntry.start ≤ bfEntry.endBit) (hl : bfEntry.lastBit ≤ 31)
include h hl

theorem firstBit_lt : bfEntry.firstBit < 32 := by
  simp only [firstBit, lastBit] at hl ⊢
  omega

variable (he : bfEntry.endBit < 31)
include he

theorem getLsbD_fieldMask {i : Nat} (hi : i < 32) :
    (lsl (regMask bfEntry.endBit bfEntry.start) (regShift (bfEntry.regOffset % 4) bfEntry.start)).getLsbD i =
      decide (bfEntry.InField i) := by
  rw [regShift_eq, getLsbD_lsl (firstBit_lt h hl) hi, getLsbD_regMask h he, ← Bool.decide_and, decide_eq_decide]
  simp only [InField, firstBit, lastBit]
  omega

theorem lsr_and_regMask (w : BitVec 32) :
    lsr w (regShift (bfEntry.regOffset % 4) bfEntry.start) &&& regMask bfEntry.endBit bfEntry.start =
      bfEntry.fieldValue w := by
  apply BitVec.eq_of_getLsbD_eq
  intro i hi
  rw [BitVec.getLsbD_and, regShift_eq, getLsbD_lsr (firstBit_lt h hl), getLsbD_regMask h he, fieldValue, BitVec.getLsbD_setWidth,
    BitVec.getLsbD_extractLsb']
  by_cases hb : i ≤ bfEntry.endBit - bfEntry.start
  case pos => simp [hi, hb, Nat.lt_succ_of_le hb]
  case neg => simp [hb, show ¬i < bfEntry.endBit - bfEntry.start + 1 by omega]

end PcieCfgregBitfieldEntry

namespace Attr

variable {attr : Attr} {w m : BitVec 32}

theorem ext_iff_bits {v v' : BitVec 32} : v = v' ↔ ∀ i < 32, v.getLsbD i = v'.getLsbD i :=
  ⟨fun h _ _ => h ▸ rfl, BitVec.eq_of_getLsbD_eq⟩

-- Writing back what is read clears the status bits, and nothing else.
theorem write_read (w : BitVec 32) : attr.write w w = w &&& ~~~attr.w1c := by
  apply BitVec.eq_of_getLsbD_eq
  intro i hi
  have hd := attr.disjoint_bit i
  simp only [getLsbD_write hi, BitVec.getLsbD_and, BitVec.getLsbD_not, hi, decide_true, Bool.true_and]
  revert hd
  cases w.getLsbD i <;> cases attr.rw.getLsbD i <;> cases attr.w1c.getLsbD i <;> simp

variable (hc : w &&& attr.w1c = 0)
include hc

theorem cleared_bit {i : Nat} : (w.getLsbD i && attr.w1c.getLsbD i) = false := by
  simpa using congrArg (BitVec.getLsbD · i) hc

theorem write_self : attr.write w w = w := by
  rw [write_read]
  apply BitVec.eq_of_getLsbD_eq
  intro i hi
  have := @cleared_bit attr w hc i
  simp only [BitVec.getLsbD_and, BitVec.getLsbD_not, hi, decide_true, Bool.true_and]
  revert this
  cases w.getLsbD i <;> cases attr.w1c.getLsbD i <;> simp

-- With no status pending, the bits that change when they are toggled are those that can be written.
theorem getLsbD_write_toggle {i : Nat} (hi : i < 32) : (attr.write w (w ^^^ m)).getLsbD i =
    (w.getLsbD i ^^ (m.getLsbD i && attr.rw.getLsbD i)) := by
  have hd := attr.disjoint_bit i
  have hs := @cleared_bit attr w hc i
  simp only [getLsbD_write hi, BitVec.getLsbD_xor]
  revert hd hs
  cases w.getLsbD i <;> cases m.getLsbD i <;> cases attr.rw.getLsbD i <;> cases attr.w1c.getLsbD i <;> simp

theorem write_toggle_eq_iff :
    attr.write w (w ^^^ m) = w ↔ ∀ i < 32, m.getLsbD i = true → attr.rw.getLsbD i = false := by
  rw [ext_iff_bits]
  refine forall₂_congr ?_
  intro i hi
  rw [getLsbD_write_toggle hc hi]
  cases w.getLsbD i <;> cases m.getLsbD i <;> simp

theorem write_toggle_toggled_iff :
    w ^^^ m = attr.write w (w ^^^ m) ↔ ∀ i < 32, m.getLsbD i = true → attr.rw.getLsbD i = true := by
  rw [ext_iff_bits]
  refine forall₂_congr ?_
  intro i hi
  rw [getLsbD_write_toggle hc hi, BitVec.getLsbD_xor]
  cases w.getLsbD i <;> cases m.getLsbD i <;> simp

end Attr

-- The comparison at the end of the check, for a word with no status pending.
def AttrPasses (attr : Attr) (w mask : BitVec 32) (shift : Nat) : BitfieldAttrType → Prop
  | .hwInit | .readOnly | .stickyRo => attr.write w (w ^^^ lsl mask shift) = w
  | .rsvdpRo                        => lsr (attr.write w w) shift &&& mask = 0
  | .rsvdzRo                        => attr.write w (w &&& ~~~lsl mask shift) = w
  | .readWrite | .stickyRw          => w ^^^ lsl mask shift = attr.write w (w ^^^ lsl mask shift)
  | .other _                        => False

section Check

variable {S : Type} {hw : Mmio S} {table : PcieInfoTable} {s : S} {unset : BitfieldUnset} {attr : Attr}
  {bdf addr offset capBase : Nat} {bfEntry : PcieCfgregBitfieldEntry}

theorem mismatch_ne_zero {errStr : String} (h : isWarning errStr = false) : mismatch errStr ≠ 0 := by
  simp [mismatch, h]

theorem bitfieldAttrCheck_iff {mask regValue : BitVec 32} {shift : Nat} (ha : configAddr table bdf offset = some addr)
    (hr : IsRegister hw addr attr) (hv : palMmioRead hw s addr = regValue) (attrType : BitfieldAttrType) :
    (∃ r o s', bitfieldAttrCheck hw table s bdf offset mask shift regValue attrType = some (r, o, s') ∧ o = r) ↔
      AttrPasses attr regValue mask shift attrType := by
  cases attrType <;>
    simp [bitfieldAttrCheck, AttrPasses, valPcieReadCfg, valPcieWriteCfg, palMmioWrite, ha, hr _ _, hv]

-- The status tells whether the field reads as expected and the last comparison passes.
theorem bitfieldCheckAt_iff {alignmentByteCnt : Nat} (ha : configAddr table bdf offset = some addr)
    (hr : IsRegister hw addr attr) (hw₁ : isWarning bfEntry.errStr1 = false) (hw₂ : isWarning bfEntry.errStr2 = false) :
    (bitfieldCheckAt hw table s unset bdf offset alignmentByteCnt bfEntry).1 = 0 ↔
      lsr (palMmioRead hw s addr &&& ~~~attr.w1c) (regShift alignmentByteCnt bfEntry.start) &&&
          regMask bfEntry.endBit bfEntry.start = bfEntry.cfgValue ∧
        AttrPasses attr (palMmioRead hw s addr &&& ~~~attr.w1c) (regMask bfEntry.endBit bfEntry.start)
          (regShift alignmentByteCnt bfEntry.start) bfEntry.attr := by
  have hread : ∀ s, valPcieReadCfg hw table s bdf offset = some (palMmioRead hw s addr) := by
    simp [valPcieReadCfg, ha]
  have hwrite : ∀ s data, valPcieWriteCfg hw table s bdf offset data = hw.write s addr data := by
    simp [valPcieWriteCfg, palMmioWrite, ha]
  have hcleared := (hr s (palMmioRead hw s addr)).trans (Attr.write_read _)
  rw [← bitfieldAttrCheck_iff ha hr hcleared]
  simp only [bitfieldCheckAt, hread, hwrite, Option.getD_some, hcleared]
  split_ifs with hc
  · exact iff_of_false (mismatch_ne_zero hw₁) fun h => hc h.left
  · simp only [ne_eq, not_not] at hc
    cases hcheck : bitfieldAttrCheck hw table (hw.write s addr (palMmioRead hw s addr)) bdf offset
      (regMask bfEntry.endBit bfEntry.start) (regShift alignmentByteCnt bfEntry.start)
      (palMmioRead hw s addr &&& ~~~attr.w1c) bfEntry.attr
    case none => simp
    case some result =>
      obtain ⟨regValue, regOverwriteValue, s'⟩ := result
      by_cases ho : regOverwriteValue = regValue
      case pos =>
        refine iff_of_true ?_ ⟨hc, regValue, regOverwriteValue, s', rfl, ho⟩
        simp only [ne_eq, ho, not_true_eq_false, if_false]
      case neg =>
        refine iff_of_false ?_ ?_
        · simp only [ne_eq, ho, not_false_eq_true, if_true]
          exact mismatch_ne_zero hw₂
        · rintro ⟨_, r, o, s'', he, ho'⟩
          cases he
          exact ho ho'

-- Inside the word, each comparison is what the attribute asks for.
theorem attrPasses_iff (h : bfEntry.start ≤ bfEntry.endBit) (hl : bfEntry.lastBit ≤ 31) (he : bfEntry.endBit < 31)
    {w : BitVec 32} (hc : w &&& attr.w1c = 0) :
    AttrPasses attr w (regMask bfEntry.endBit bfEntry.start) (regShift (bfEntry.regOffset % 4) bfEntry.start)
      bfEntry.attr ↔ bfEntry.AttrHolds attr w := by
  have hmask := @PcieCfgregBitfieldEntry.getLsbD_fieldMask bfEntry h hl he
  have hzeroed : ∀ i < 32, (w &&& ~~~lsl (regMask bfEntry.endBit bfEntry.start)
      (regShift (bfEntry.regOffset % 4) bfEntry.start)).getLsbD i =
        (w.getLsbD i && !decide (bfEntry.InField i)) := by
    intro i hi
    simp only [BitVec.getLsbD_and, BitVec.getLsbD_not, hi, hmask hi, decide_true, Bool.true_and]
  have htoggled : ∀ b : Bool, (∀ i < 32, (lsl (regMask bfEntry.endBit bfEntry.start)
      (regShift (bfEntry.regOffset % 4) bfEntry.start)).getLsbD i = true → attr.rw.getLsbD i = b) ↔
        ∀ i < 32, bfEntry.InField i → attr.rw.getLsbD i = b := by
    refine fun b => forall₂_congr fun i hi => ?_
    rw [hmask hi, decide_eq_true_iff]
  cases ht : bfEntry.attr <;> simp only [AttrPasses, PcieCfgregBitfieldEntry.AttrHolds, ht]
  case hwInit    => rw [Attr.write_toggle_eq_iff hc, htoggled]
  case readOnly  => rw [Attr.write_toggle_eq_iff hc, htoggled]
  case stickyRo  => rw [Attr.write_toggle_eq_iff hc, htoggled]
  case readWrite => rw [Attr.write_toggle_toggled_iff hc, htoggled]
  case stickyRw  => rw [Attr.write_toggle_toggled_iff hc, htoggled]
  case rsvdpRo   => rw [Attr.write_self hc, PcieCfgregBitfieldEntry.lsr_and_regMask h hl he]
  case rsvdzRo =>
    constructor
    · intro hw zeroed hz
      rwa [BitVec.eq_of_getLsbD_eq fun i hi => (hz i hi).trans (hzeroed i hi).symm]
    · intro hw
      exact hw _ hzeroed

-- Without a mask, every comparison passes.
theorem attrPasses_zero {w : BitVec 32} {shift : Nat} {attrType : BitfieldAttrType} (hc : w &&& attr.w1c = 0)
    (ht : ∀ value, attrType ≠ .other value) : AttrPasses attr w 0 shift attrType := by
  have hz : lsl 0 shift = 0 := by simp [lsl]
  cases attrType <;> simp only [AttrPasses, hz]
  case hwInit      => simpa using Attr.write_self hc
  case readOnly    => simpa using Attr.write_self hc
  case stickyRo    => simpa using Attr.write_self hc
  case readWrite   => simpa using (Attr.write_self hc).symm
  case stickyRw    => simpa using (Attr.write_self hc).symm
  case rsvdpRo     => simp
  case rsvdzRo =>
    rw [BitVec.ofNat_eq_ofNat, BitVec.not_zero, BitVec.and_allOnes]
    exact Attr.write_self hc
  case other value => exact ht value rfl

theorem cleared_and_w1c (w : BitVec 32) : w &&& ~~~attr.w1c &&& attr.w1c = 0 := by
  rw [BitVec.and_assoc, BitVec.and_comm _ attr.w1c, BitVec.and_not_self]
  simp

-- The check gets to the register in the header or in the capability structure.
theorem valPcieBitfieldCheck_eq (hcap : bfEntry.CapabilityAt hw table s bdf capBase) :
    valPcieBitfieldCheck hw table s unset bdf bfEntry = some (bitfieldCheckAt hw table s unset bdf
      ((capBase + (bfEntry.regOffset - bfEntry.regOffset % 4)) % 2 ^ 32) (bfEntry.regOffset % 4) bfEntry) := by
  have halign : bfEntry.regOffset &&& wordAlignMask = bfEntry.regOffset % 4 :=
    Nat.and_two_pow_sub_one_eq_mod _ 2
  have hbase : bitfieldCapBase hw table s unset bdf bfEntry = some (pcieSuccess, capBase) := by
    cases ht : bfEntry.regType <;> simp only [PcieCfgregBitfieldEntry.CapabilityAt, ht] at hcap
    case header   => simp only [bitfieldCapBase, ht, hcap]
    case pcieCap  => simp only [bitfieldCapBase, ht, hcap.found, Option.map_some, Option.getD_some]
    case pcieEcap => simp only [bitfieldCapBase, ht, hcap.found, Option.map_some, Option.getD_some]
  simp only [valPcieBitfieldCheck, hbase, ne_eq, not_true_eq_false, if_false, halign]

theorem bitfield_check_exact_iff (unset : BitfieldUnset) (hcap : bfEntry.CapabilityAt hw table s bdf capBase)
    (ha : configAddr table bdf ((capBase + (bfEntry.regOffset - bfEntry.regOffset % 4)) % 2 ^ 32) = some addr)
    (hr : IsRegister hw addr attr) (h : bfEntry.start ≤ bfEntry.endBit) (hl : bfEntry.lastBit ≤ 31)
    (ht : ∀ value, bfEntry.attr ≠ .other value) (hw₁ : isWarning bfEntry.errStr1 = false)
    (hw₂ : isWarning bfEntry.errStr2 = false) :
    (∃ status s', valPcieBitfieldCheck hw table s unset bdf bfEntry = some (status, s') ∧
      (status = 0 ↔ bfEntry.Describes attr (palMmioRead hw s addr))) ↔
      (bfEntry.endBit < 31 ∨ (bfEntry.cfgValue = 0 ↔ bfEntry.Describes attr (palMmioRead hw s addr))) := by
  have hcheck := @bitfieldCheckAt_iff S hw table s unset attr bdf addr _ bfEntry (bfEntry.regOffset % 4) ha hr hw₁ hw₂
  have hstatus : (∃ status s', valPcieBitfieldCheck hw table s unset bdf bfEntry = some (status, s') ∧
      (status = 0 ↔ bfEntry.Describes attr (palMmioRead hw s addr))) ↔
      ((bitfieldCheckAt hw table s unset bdf ((capBase + (bfEntry.regOffset - bfEntry.regOffset % 4)) % 2 ^ 32)
        (bfEntry.regOffset % 4) bfEntry).1 = 0 ↔ bfEntry.Describes attr (palMmioRead hw s addr)) := by
    rw [valPcieBitfieldCheck_eq hcap]
    constructor
    · intro ⟨status, s', he, hs⟩
      rw [Option.some.inj he]
      exact hs
    · intro hs
      exact ⟨_, _, rfl, hs⟩
  have hend : bfEntry.endBit ≤ 31 := by
    simp only [PcieCfgregBitfieldEntry.lastBit] at hl
    omega
  rw [hstatus, hcheck]
  by_cases he : bfEntry.endBit < 31
  case pos =>
    rw [attrPasses_iff h hl he (cleared_and_w1c _), PcieCfgregBitfieldEntry.lsr_and_regMask h hl he]
    exact iff_of_true Iff.rfl (.inl he)
  case neg =>
    have hlast : bfEntry.endBit = 31 := by omega
    have hpass := @attrPasses_zero attr _ (regShift (bfEntry.regOffset % 4) bfEntry.start) _
      (cleared_and_w1c (palMmioRead hw s addr)) ht
    simp only [hlast, regMask_last, BitVec.ofNat_eq_ofNat, BitVec.and_zero] at hpass ⊢
    simp only [hpass, and_true, lt_self_iff_false, false_or, eq_comm]

end Check

theorem configSpace_isRegister (attr : Nat → Attr) {addr : Nat} (h : addr % 4 = 0) :
    IsRegister (configSpace attr) addr (attr addr) := by
  intro s data
  simp [palMmioRead, configSpace, h]

def readOnlyBits : Attr where
  rw       := 0
  w1c      := 0
  disjoint := by decide

def readWriteBits : Attr where
  rw       := 0xFFFFFFFF
  w1c      := 0
  disjoint := by decide

-- Min Gnt, a byte of the word at 0x3C.
def minGnt : PcieCfgregBitfieldEntry where
  regType   := .header
  capId     := 0
  ecapId    := 0
  regOffset := 0x3E
  start     := 0
  endBit    := 7
  cfgValue  := 0
  attr      := .readOnly
  errStr1   := "MinGnt value mismatch"
  errStr2   := "MinGnt attribute mismatch"

theorem minGnt_checked :
    minGnt.CapabilityAt (configSpace fun _ => readOnlyBits) firstBus (fun _ => 0) 0 0 ∧
    configAddr firstBus 0 ((0 + (minGnt.regOffset - minGnt.regOffset % 4)) % 2 ^ 32) = some 0x4000003C ∧
    IsRegister (configSpace fun _ => readOnlyBits) 0x4000003C readOnlyBits ∧
    minGnt.start ≤ minGnt.endBit ∧ minGnt.lastBit ≤ 31 ∧ (∀ value, minGnt.attr ≠ .other value) ∧
    isWarning minGnt.errStr1 = false ∧ isWarning minGnt.errStr2 = false ∧
    ∃ status s', valPcieBitfieldCheck (configSpace fun _ => readOnlyBits) firstBus (fun _ => 0) ⟨0, 0⟩ 0 minGnt =
        some (status, s') ∧
      (status = 0 ↔ minGnt.Describes readOnlyBits
        (palMmioRead (configSpace fun _ => readOnlyBits) (fun _ => 0) 0x4000003C)) := by
  have hcap : minGnt.CapabilityAt (configSpace fun _ => readOnlyBits) firstBus (fun _ => 0) 0 0 := rfl
  have ha : configAddr firstBus 0 ((0 + (minGnt.regOffset - minGnt.regOffset % 4)) % 2 ^ 32) = some 0x4000003C := by
    decide
  have hr : IsRegister (configSpace fun _ => readOnlyBits) 0x4000003C readOnlyBits :=
    configSpace_isRegister (fun _ => readOnlyBits) (by decide)
  have ht : ∀ value, minGnt.attr ≠ .other value := by
    intro value hc
    cases hc
  have hw₁ : isWarning minGnt.errStr1 = false := by decide
  have hw₂ : isWarning minGnt.errStr2 = false := by decide
  exact ⟨hcap, ha, hr, by decide, by decide, ht, hw₁, hw₂,
    (bitfield_check_exact_iff ⟨0, 0⟩ hcap ha hr (by decide) (by decide) ht hw₁ hw₂).mpr (.inl (by decide))⟩

-- CardBus CIS Pointer, a whole word.
def cardbusCisPointer : PcieCfgregBitfieldEntry where
  regType   := .header
  capId     := 0
  ecapId    := 0
  regOffset := 0x28
  start     := 0
  endBit    := 31
  cfgValue  := 0
  attr      := .readOnly
  errStr1   := "CCP value mismatch"
  errStr2   := "CCP attribute mismatch"

-- The pointer passes for read-only, whatever its bits are.
theorem read_write_word_passes : ¬∀ (S : Type) (hw : Mmio S) (table : PcieInfoTable) (s : S)
    (unset : BitfieldUnset) (attr : Attr) (bdf addr capBase : Nat) (bfEntry : PcieCfgregBitfieldEntry),
    bfEntry.CapabilityAt hw table s bdf capBase →
    configAddr table bdf ((capBase + (bfEntry.regOffset - bfEntry.regOffset % 4)) % 2 ^ 32) = some addr →
    IsRegister hw addr attr → bfEntry.start ≤ bfEntry.endBit → bfEntry.lastBit ≤ 31 →
    (∀ value, bfEntry.attr ≠ .other value) → isWarning bfEntry.errStr1 = false →
    isWarning bfEntry.errStr2 = false →
    ∃ status s', valPcieBitfieldCheck hw table s unset bdf bfEntry = some (status, s') ∧
      (status = 0 ↔ bfEntry.Describes attr (palMmioRead hw s addr)) := by
  intro h
  have ⟨status, s', he, hs⟩ := h Regs (configSpace fun _ => readWriteBits) firstBus (fun _ => 0) ⟨0, 0⟩ readWriteBits
    0 0x40000028 0 cardbusCisPointer rfl (by decide) (configSpace_isRegister (fun _ => readWriteBits) (by decide))
    (by decide) (by decide) (by intro value hc; cases hc) (by decide) (by decide)
  have hpass : (valPcieBitfieldCheck (configSpace fun _ => readWriteBits) firstBus (fun _ => 0) ⟨0, 0⟩ 0
      cardbusCisPointer).map Prod.fst = some 0 := by decide
  rw [he] at hpass
  have hd := (hs.mp (Option.some.inj hpass)).right 0 (by decide) (by decide)
  exact absurd hd (by decide)

end Pcie
