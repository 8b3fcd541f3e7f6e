import BsaAcs.Lib.Bits
import BsaAcs.Smmu.Basic

namespace Smmu

theorem BitField.within {f : BitField} {val : Nat} (h : f.lsb ≤ f.msb) : Bits.Within f.msb f.lsb (f.set val) := by
  refine Bits.Within.shiftLeft ?_ h
  rw [BitField.mask, Nat.one_shiftLeft, Nat.and_two_pow_sub_one_eq_mod]
  exact Nat.mod_lt _ (Nat.two_pow_pos _)

-- A field is not seen in a slice beside it.
theorem BitField.slice_set {f : BitField} {hi lo val : Nat} (h : f.lsb ≤ f.msb) (hd : f.msb < lo ∨ hi < f.lsb)
    (hs : lo ≤ hi) : Bits.slice hi lo (f.set val) = 0 :=
  (BitField.within h).slice_eq_zero hd hs

-- The words that hold the address of a table, with what else goes into them.
inductive AddressField
  | strtabBase
  | cmdqBase (log2nent : Nat)
  | strtabL2ptr (span : Nat)
  | cdtabL2ptr
  | s1ContextPtr (s1cdmax s1fmt : Nat)
  | s2Ttb (vmid vtcr : Nat)
  | cdTtb0 (asid tcr mair : Nat)

namespace AddressField

def word : AddressField → Nat → Nat
  | strtabBase, addr                 => Smmu.strtabBase addr
  | cmdqBase log2nent, addr          => queueBase addr log2nent
  | strtabL2ptr span, addr           => strtabLevel1Desc span addr
  | cdtabL2ptr, addr                 => cdtabL1Desc addr
  | s1ContextPtr s1cdmax s1fmt, addr => steStage1Word0 addr s1cdmax s1fmt
  | s2Ttb vmid vtcr, addr            => steStage2Word3 { vmid := vmid, vttbr := addr, vtcr := vtcr }
  | cdTtb0 asid tcr mair, addr       => ctxDescWord1 { asid := asid, ttbr := addr, tcr := tcr, mair := mair }

-- The architecture has the address in the bits 51 to `lsb`.
def lsb : AddressField → Nat
  | strtabBase      => 6
  | cmdqBase _      => 5
  | strtabL2ptr _   => 6
  | cdtabL2ptr      => 12
  | s1ContextPtr .. => 6
  | s2Ttb ..        => 4
  | cdTtb0 ..       => 4

-- The number of these bits, which is also the number of address bits that the mask of the driver keeps.
def width (f : AddressField) : Nat :=
  51 - f.lsb + 1

-- The bits that do not come from the address.
def rest : AddressField → Nat
  | strtabBase                 => strtabBaseRa
  | cmdqBase log2nent          => queueBaseRwa ||| queueBaseLog2size.set log2nent
  | strtabL2ptr span           => strtabL1DescSpan.set span
  | cdtabL2ptr                 => cdtabL1DescV
  | s1ContextPtr s1cdmax s1fmt => strtabSte0V ||| strtabSte0Config.set strtabSte0ConfigS1Trans |||
    strtabSte0S1cdmax.set s1cdmax ||| strtabSte0S1fmt.set s1fmt
  | s2Ttb ..                   => 0
  | cdTtb0 ..                  => 0

-- The architecture reads the address back, and finds nothing of it in the other bits.
def Encodes (f : AddressField) (addr : Nat) : Prop :=
  Bits.slice 51 f.lsb (f.word addr) = addr ∧
  ∀ i, ¬(f.lsb ≤ i ∧ i ≤ 51) → (f.word addr).testBit i = (f.word 0).testBit i

variable {f : AddressField} {addr i : Nat}

theorem lsb_le : f.lsb ≤ 51 := by
  cases f <;> simp [lsb]

theorem lsb_le_width : f.lsb ≤ f.width := by
  cases f <;> simp [lsb, width]

theorem word_eq : f.word addr = f.rest ||| addr % 2 ^ f.width := by
  have hand : ∀ n, addr &&& (0x1 <<< n - 1) = addr % 2 ^ n := by
    intro n
    rw [Nat.one_shiftLeft, Nat.and_two_pow_sub_one_eq_mod]
  cases f
  case strtabBase => simp only [word, rest, Smmu.strtabBase, BitField.mask, hand, Nat.or_comm]; rfl
  case cmdqBase   => simp only [word, rest, queueBase, BitField.mask, hand, Nat.or_right_comm]; rfl
  case strtabL2ptr => simp only [word, rest, strtabLevel1Desc, BitField.mask, hand]; rfl
  case cdtabL2ptr => simp only [word, rest, cdtabL1Desc, BitField.mask, hand, Nat.or_comm]; rfl
  case s1ContextPtr s1cdmax s1fmt =>
    simp only [word, rest, steStage1Word0, BitField.mask, hand]
    apply Nat.eq_of_testBit_eq
    intro i
    simp only [Nat.testBit_or, width, lsb, strtabSte0S1contextptr]
    ac_rfl
  case s2Ttb => simp only [word, rest, steStage2Word3, BitField.mask, hand, Nat.zero_or]; rfl
  case cdTtb0 => simp only [word, rest, ctxDescWord1, BitField.mask, hand, Nat.zero_or]; rfl

theorem slice_rest : Bits.slice 51 f.lsb f.rest = 0 := by
  cases f
  case strtabBase => decide
  case cmdqBase log2nent =>
    have hset : Bits.slice 51 5 (queueBaseLog2size.set log2nent) = 0 :=
      BitField.slice_set (by decide) (.inl (by decide)) (by decide)
    have hbit : Bits.slice 51 5 queueBaseRwa = 0 := by decide
    simp only [lsb, rest, Bits.slice_or, hset, hbit, Nat.or_self]
  case strtabL2ptr span =>
    have hset : Bits.slice 51 6 (strtabL1DescSpan.set span) = 0 :=
      BitField.slice_set (by decide) (.inl (by decide)) (by decide)
    exact hset
  case cdtabL2ptr => decide
  case s1ContextPtr s1cdmax s1fmt =>
    have hcdmax : Bits.slice 51 6 (strtabSte0S1cdmax.set s1cdmax) = 0 :=
      BitField.slice_set (by decide) (.inr (by decide)) (by decide)
    have hfmt : Bits.slice 51 6 (strtabSte0S1fmt.set s1fmt) = 0 :=
      BitField.slice_set (by decide) (.inl (by decide)) (by decide)
    have hv : Bits.slice 51 6 strtabSte0V = 0 := by decide
    have hconfig : Bits.slice 51 6 (strtabSte0Config.set strtabSte0ConfigS1Trans) = 0 := by decide
    simp only [lsb, rest, Bits.slice_or, hcdmax, hfmt, hv, hconfig, Nat.or_self]
  case s2Ttb  => exact Nat.zero_and _
  case cdTtb0 => exact Nat.zero_and _

theorem within_address (hd : 2 ^ f.lsb ∣ addr) : Bits.Within 51 f.lsb (addr % 2 ^ f.width) := by
  have hlsb := f.lsb_le
  refine Bits.Within.of_dvd_lt ?_ ?_
  · exact (Nat.dvd_mod_iff (Nat.pow_dvd_pow 2 f.lsb_le_width)).mpr hd
  · have hlt : addr % 2 ^ f.width < 2 ^ f.width := Nat.mod_lt _ (Nat.two_pow_pos _)
    have hle : 2 ^ f.width ≤ 2 ^ (51 + 1) := Nat.pow_le_pow_right (by omega) (by simp only [width]; omega)
    omega

theorem slice_word (hd : 2 ^ f.lsb ∣ addr) : Bits.slice 51 f.lsb (f.word addr) = addr % 2 ^ f.width := by
  rw [word_eq, Bits.slice_or, slice_rest, Nat.zero_or]
  exact (within_address hd).slice_eq le_rfl le_rfl f.lsb_le

end AddressField

-- The masks have the width of the field but are not moved to its place, so they cut off the upper bits
-- of an address.
theorem address_field_encodes_iff (f : AddressField) (addr : Nat) (hd : 2 ^ f.lsb ∣ addr) :
    f.Encodes addr ↔ addr < 2 ^ f.width := by
  have hslice := AddressField.slice_word hd
  constructor
  · intro ⟨he, _⟩
    rw [← he, hslice]
    exact Nat.mod_lt _ (Nat.two_pow_pos _)
  · intro hlt
    refine ⟨by rw [hslice, Nat.mod_eq_of_lt hlt], ?_⟩
    intro i hi
    rw [AddressField.word_eq, AddressField.word_eq, Nat.testBit_or, Nat.testBit_or,
      (AddressField.within_address hd).testBit_eq_false (by omega), Nat.zero_mod, Nat.zero_testBit]

theorem low_stream_table_encoded : AddressField.strtabBase.Encodes 0x80000000 :=
  (address_field_encodes_iff .strtabBase 0x80000000 (by decide)).mpr (by decide)

-- A stream table at 2^46 is programmed as one at 0.
theorem high_stream_table_lost :
    ¬∀ (f : AddressField) (addr : Nat), addr < 2 ^ 52 → 2 ^ f.lsb ∣ addr → f.Encodes addr := by
  intro h
  have ⟨hs, _⟩ := h .strtabBase (2 ^ 46) (by decide) (by decide)
  exact absurd hs (by decide)

end Smmu
