import BsaAcs.Pgt.Walk

namespace Pgt

-- The attributes of a region touch only the attribute fields of a descriptor.
def AttrBits (attributes : Nat) : Prop :=
  pgtDescAttributes attributes = attributes

instance : Decidable (AttrBits a) :=
  inferInstanceAs (Decidable (_ = _))

theorem testBit_attributesMask :
    pgtDescAttributesMask.testBit i = decide (2 ≤ i ∧ i < 12 ∨ 52 ≤ i ∧ i < 64) := by
  have h : pgtDescAttributesMask = (2 ^ 12 - 1) <<< 52 ||| (2 ^ 10 - 1) <<< 2 := by decide
  rw [h, Nat.testBit_or, Nat.testBit_shiftLeft, Nat.testBit_shiftLeft, Nat.testBit_two_pow_sub_one,
    Nat.testBit_two_pow_sub_one]
  simp only [ge_iff_le, ←Bool.decide_and, ←Bool.decide_or, decide_eq_decide]
  omega

theorem AttrBits.testBit (ha : AttrBits a) (h : a.testBit i = true) :
    2 ≤ i ∧ i < 12 ∨ 52 ≤ i ∧ i < 64 := by
  rw [←ha, pgtDescAttributes, Nat.testBit_and, testBit_attributesMask] at h
  simp at h
  exact h.right

theorem pgtDescAttributes_idem : AttrBits (pgtDescAttributes a) := by
  simp [AttrBits, pgtDescAttributes]

-- A descriptor is put together from the two type bits, an address field and the attributes. The
-- three parts are recovered from it.
section Word

variable {c o a lo : Nat} (hc : Bits.Within 1 0 c) (ho : Bits.Within 47 lo o) (ha : AttrBits a)

include hc ho ha

theorem slice_word (hl : 12 ≤ lo) (hu : lo ≤ 47) : Bits.slice 47 lo (c ||| o ||| a) = o := by
  apply Nat.eq_of_testBit_eq
  intro i
  rw [Bits.testBit_slice hu, Nat.testBit_or, Nat.testBit_or]
  by_cases hi : lo ≤ i ∧ i ≤ 47
  case pos =>
    have hcf := hc.testBit_eq_false (k := i) (by omega)
    have haf : a.testBit i = false := by
      by_contra h
      have := ha.testBit (i := i) (by simpa using h)
      omega
    simp [hcf, haf, hi]
  case neg => simp [hi, ho.testBit_eq_false (k := i) (by omega)]

theorem pgtDescAttributes_word (hl : 12 ≤ lo) : pgtDescAttributes (c ||| o ||| a) = a := by
  apply Nat.eq_of_testBit_eq
  intro i
  rw [pgtDescAttributes, Nat.testBit_and, testBit_attributesMask, Nat.testBit_or, Nat.testBit_or]
  by_cases hi : 2 ≤ i ∧ i < 12 ∨ 52 ≤ i ∧ i < 64
  case pos =>
    have hcf := hc.testBit_eq_false (k := i) (by omega)
    have hof := ho.testBit_eq_false (k := i) (by omega)
    simp [hcf, hof, hi]
  case neg =>
    have haf : a.testBit i = false := by
      by_contra h
      exact hi <| ha.testBit (by simpa using h)
    simp [haf, hi]

omit hc ho in
theorem testBit_word (hof : o.testBit i = false) (hi : i ≤ 1) :
    (c ||| o ||| a).testBit i = c.testBit i := by
  have haf : a.testBit i = false := by
    by_contra h
    have := ha.testBit (i := i) (by simpa using h)
    omega
  simp [hof, haf]

end Word

theorem attrBits_zero : AttrBits 0 := by
  decide

theorem isPgtEntryBlock_eq : isPgtEntryBlock w = !w.testBit 1 := by
  have h : w &&& 2 = w / 2 % 2 * 2 := by
    simpa [Bits.slice, Nat.shiftLeft_eq] using (Bits.slice_eq_mul : Bits.slice 1 1 w = _)
  rw [isPgtEntryBlock, h, Nat.testBit_eq_decide_div_mod_eq]
  rcases Nat.mod_two_eq_zero_or_one (w / 2) with h | h <;> simp [h]

-- The globals of `acs_pgt.c` once they are set up for pages of `2 ^ p` bytes.
structure Granule (g : Globals) (p : Nat) : Prop where
  pageSize : g.pageSize = 2 ^ p
  bits     : g.bitsPerLevel = p - 3
  lo       : 12 ≤ p
  hi       : p < 32

-- In `val_pgt_create` the address mask is that of a 48-bit address.
structure CreateGranule (g : Globals) (p : Nat) : Prop extends Granule g p where
  mask : ∀ w, w &&& g.pgtAddrMask = Bits.slice 47 p w

section Descriptors

variable {g : Globals} {p : Nat} (hg : Granule g p)

include hg

-- The page mask is a 32-bit word: an address below 4 GB passes it unchanged.
theorem and_pageMask : o &&& (2 ^ 32 - g.pageSize) = Bits.slice 31 p o := by
  rw [hg.pageSize, Bits.and_two_pow_sub_two_pow hg.hi]

theorem and_pageMask_within : Bits.Within 47 p (o &&& (2 ^ 32 - g.pageSize)) := by
  have := hg.hi
  rw [and_pageMask hg]
  exact (Bits.Within.slice (by omega)).mono (by omega) le_rfl

theorem pageDescriptor_slice (ha : AttrBits a) :
    Bits.slice 47 p (pageDescriptor g o a) = Bits.slice 31 p o := by
  have := hg.hi
  have hw := and_pageMask_within hg (o := o)
  rw [pageDescriptor, slice_word (.of_dvd_lt (by simp) (by decide)) hw ha hg.lo (by omega),
    and_pageMask hg]

theorem pageDescriptor_attributes (ha : AttrBits a) :
    pgtDescAttributes (pageDescriptor g o a) = a :=
  pgtDescAttributes_word (.of_dvd_lt (by simp) (by decide)) (and_pageMask_within hg) ha hg.lo

theorem pageDescriptor_testBit (ha : AttrBits a) (hi : i ≤ 1) :
    (pageDescriptor g o a).testBit i = true := by
  have := hg.lo
  have hof := (and_pageMask_within hg (o := o)).testBit_eq_false (k := i) (by omega)
  rw [pageDescriptor, testBit_word ha hof hi]
  rcases (by omega : i = 0 ∨ i = 1) with rfl | rfl <;> decide

omit hg in
theorem tableDescriptor_eq : tableDescriptor g q = pageDescriptor g q 0 := by
  simp [tableDescriptor, pageDescriptor, pgtEntryTableMask, pgtEntryPageMask]

theorem tableDescriptor_slice : Bits.slice 47 p (tableDescriptor g q) = Bits.slice 31 p q := by
  rw [tableDescriptor_eq, pageDescriptor_slice hg attrBits_zero]

theorem tableDescriptor_testBit (hi : i ≤ 1) : (tableDescriptor g q).testBit i = true := by
  rw [tableDescriptor_eq, pageDescriptor_testBit hg attrBits_zero hi]

end Descriptors

-- The word of a block descriptor, by the height of the table that holds it.
def blockWord (p attributes h output : Nat) : Nat :=
  (pgtEntryBlockMask ||| pgtEntryValidMask) ||| (output &&& (2 ^ 64 - blockBytes p h)) ||| attributes

theorem blockDescriptor_eq (ht : tt.blockSize = blockBytes p h) :
    blockDescriptor tt o a = blockWord p a h o := by
  rw [blockDescriptor, blockWord, ht]

theorem blockWord_testBit_zero : (blockWord p a h o).testBit 0 = true := by
  simp [blockWord, pgtEntryValidMask]

-- A block descriptor is told from a table descriptor as long as the attributes leave its type alone.
theorem blockWord_testBit_one (hl : 12 ≤ p) (hu : p + (h + 1) * (p - 3) < 64)
    (ha : a.testBit 1 = false) : (blockWord p a (h + 1) o).testBit 1 = false := by
  have hof : (o &&& (2 ^ 64 - blockBytes p (h + 1))).testBit 1 = false := by
    rw [blockBytes, Bits.and_two_pow_sub_two_pow hu]
    exact (Bits.Within.slice (by omega)).testBit_eq_false (by omega)
  rw [blockWord, Nat.testBit_or, Nat.testBit_or, hof, ha]
  rfl

theorem blockWord_ne_zero : blockWord p a h o ≠ 0 := by
  intro hz
  simpa [hz] using blockWord_testBit_zero (p := p) (a := a) (h := h) (o := o)

theorem pageDescriptor_ne_zero : pageDescriptor g o a ≠ 0 := by
  intro h
  have : (pageDescriptor g o a).testBit 0 = true := by simp [pageDescriptor, pgtEntryValidMask]
  simp [h] at this

theorem AttrBits.testBit_one (ha : AttrBits a) : a.testBit 1 = false := by
  by_contra h
  have := ha.testBit (i := 1) (by simpa using h)
  omega

theorem AttrBits.slice_eq_zero (ha : AttrBits a) (hl : 12 ≤ lo) (hu : lo ≤ 47) : Bits.slice 47 lo a = 0 := by
  apply Nat.eq_of_testBit_eq
  intro i
  rw [Bits.testBit_slice hu, Nat.zero_testBit]
  by_contra h
  simp only [Bool.not_eq_false, Bool.and_eq_true, decide_eq_true_eq] at h
  have := ha.testBit h.left
  omega

-- The address field of a block descriptor is that of the address, whatever lies above it.
theorem blockWord_slice (hl : 12 ≤ p) (hu : p + (h + 1) * (p - 3) ≤ 47) (ha : AttrBits a) :
    Bits.slice 47 (p + (h + 1) * (p - 3)) (blockWord p a (h + 1) o) =
    Bits.slice 47 (p + (h + 1) * (p - 3)) o := by
  have hc : Bits.Within 1 0 (pgtEntryBlockMask ||| pgtEntryValidMask) := .of_dvd_lt (by simp) (by decide)
  have ho : Bits.slice 47 (p + (h + 1) * (p - 3)) (o &&& (2 ^ 64 - blockBytes p (h + 1))) =
      Bits.slice 47 (p + (h + 1) * (p - 3)) o := by
    apply Nat.eq_of_testBit_eq
    intro i
    rw [blockBytes, Bits.and_two_pow_sub_two_pow (by omega), Bits.testBit_slice hu, Bits.testBit_slice hu,
      Bits.testBit_slice (by omega), Bool.and_assoc]
    congr 1
    simp only [←Bool.decide_and, decide_eq_decide]
    omega
  rw [blockWord, Bits.slice_or, Bits.slice_or, hc.slice_eq_zero (by omega) hu, ha.slice_eq_zero (by omega) hu, ho,
    Nat.zero_or, Nat.or_zero]

-- The attributes are kept as long as the address does not reach them.
theorem blockWord_attributes (hl : 12 ≤ p) (hu : p + (h + 1) * (p - 3) < 64) (ho : o < 2 ^ 48) (ha : AttrBits a) :
    pgtDescAttributes (blockWord p a (h + 1) o) = a := by
  have hfield : Bits.Within 47 12 (o &&& (2 ^ 64 - blockBytes p (h + 1))) := by
    refine .of_dvd_lt ?_ (Nat.and_le_left.trans_lt ho)
    rw [blockBytes, Bits.and_two_pow_sub_two_pow hu]
    exact (Nat.pow_dvd_pow 2 (by omega)).trans Bits.dvd_slice
  exact pgtDescAttributes_word (.of_dvd_lt (by simp) (by decide)) hfield ha le_rfl

end Pgt
