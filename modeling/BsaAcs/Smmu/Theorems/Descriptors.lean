import BsaAcs.Smmu.Master
import BsaAcs.Smmu.Theorems.Address

namespace Smmu

-- How the SMMU reads the words that the driver writes for a substream.

-- The descriptor of a substream, from the entry of its stream.
def lookupCd (mem : Memory) (ste ssid : Nat) : Option Nat :=
  let word := mem ste
  let table := Bits.slice 51 6 word
  let translates := word.testBit 0 ∧ strtabSte0Config.get word = strtabSte0ConfigS1Trans
  if translates ∧ ssid < 2 ^ strtabSte0S1cdmax.get word then
    if strtabSte0S1fmt.get word = strtabSte0S1fmtLinear then some (table + 64 * ssid)
    else
      -- Tables of the second level take 64 kilobytes, or 4 kilobytes for the other format.
      let split := if strtabSte0S1fmt.get word = strtabSte0S1fmt64kL2 then cdtabSplit else 6
      let desc := mem (table + 8 * (ssid >>> split))
      if desc.testBit 0 then some (Bits.slice 51 12 desc + 64 * (ssid % 2 ^ split)) else none
  else none

-- What a context descriptor says about the translation.
structure CdFields where
  t0sz  : Nat
  tg0   : Nat
  irgn0 : Nat
  orgn0 : Nat
  sh0   : Nat
  ips   : Nat
  ttb0  : Nat
  mair  : Nat
deriving DecidableEq, Repr

def cdValid (mem : Memory) (cd : Nat) : Bool :=
  (mem cd).testBit 31

def cdFields (mem : Memory) (cd : Nat) : CdFields where
  t0sz  := cdtabCd0TcrT0sz.get (mem cd)
  tg0   := cdtabCd0TcrTg0.get (mem cd)
  irgn0 := cdtabCd0TcrIrgn0.get (mem cd)
  orgn0 := cdtabCd0TcrOrgn0.get (mem cd)
  sh0   := cdtabCd0TcrSh0.get (mem cd)
  ips   := cdtabCd0TcrIps.get (mem cd)
  ttb0  := Bits.slice 51 4 (mem (cd + 8))
  mair  := mem (cd + 24)

-- What a page table descriptor asks for.
def pgtFields (pgt : PgtDescriptor) : CdFields where
  t0sz  := pgt.tcr.tsz.toNat
  tg0   := pgt.tcr.tg.toNat
  irgn0 := pgt.tcr.irgn.toNat
  orgn0 := pgt.tcr.orgn.toNat
  sh0   := pgt.tcr.sh.toNat
  ips   := pgt.tcr.ps.toNat
  ttb0  := Bits.slice 51 4 pgt.pgtBase
  mair  := pgt.mair

namespace BitField

variable {f g : BitField} {hi lo v w : Nat}

theorem get_or : f.get (v ||| w) = f.get v ||| f.get w := by
  rw [get, get, get, Nat.shiftRight_or_distrib, Nat.and_or_distrib_right]

theorem get_eq_mod : f.get v = v >>> f.lsb % 2 ^ (f.msb - f.lsb + 1) := by
  rw [get, mask, Nat.one_shiftLeft, Nat.and_two_pow_sub_one_eq_mod]

-- A field reads nothing of a word whose bits lie elsewhere.
theorem get_eq_zero (h : Bits.Within hi lo v) (hd : hi < f.lsb ∨ f.msb < lo) (hf : f.lsb ≤ f.msb) : f.get v = 0 := by
  apply Nat.eq_of_testBit_eq
  intro i
  rw [get_eq_mod, Nat.testBit_mod_two_pow, Nat.testBit_shiftRight, Nat.zero_testBit]
  by_cases hi' : i < f.msb - f.lsb + 1
  case pos => rw [h.testBit_eq_false (by omega), Bool.and_false]
  case neg => simp [hi']

theorem get_set_ne (hd : g.msb < f.lsb ∨ f.msb < g.lsb) (hg : g.lsb ≤ g.msb) (hf : f.lsb ≤ f.msb) :
    f.get (g.set v) = 0 :=
  get_eq_zero (BitField.within hg) hd hf

theorem get_set : f.get (f.set v) = v % 2 ^ (f.msb - f.lsb + 1) := by
  rw [get_eq_mod, set, mask, Nat.one_shiftLeft, Nat.and_two_pow_sub_one_eq_mod, Nat.shiftLeft_shiftRight, Nat.mod_mod]

theorem get_set_of_lt (hv : v < 2 ^ (f.msb - f.lsb + 1)) : f.get (f.set v) = v :=
  get_set.trans (Nat.mod_eq_of_lt hv)

end BitField

-- The words of a context descriptor.

section

variable {pgt : PgtDescriptor}

-- The bits that are the same in all descriptors that the driver writes.
def cdConstant : Nat :=
  cdtabCd0TcrEpd1 ||| cdtabCd0Aa64 ||| cdtabCd0R ||| cdtabCd0A ||| cdtabCd0Aset ||| cdtabCd0Asid.set 0 ||| cdtabCd0V

theorem ctxDescWord0_eq : ctxDescWord0 (ctxDesc pgt) =
    cdtabCd0TcrT0sz.set pgt.tcr.tsz.toNat ||| cdtabCd0TcrTg0.set pgt.tcr.tg.toNat |||
    cdtabCd0TcrIrgn0.set pgt.tcr.irgn.toNat ||| cdtabCd0TcrOrgn0.set pgt.tcr.orgn.toNat |||
    cdtabCd0TcrSh0.set pgt.tcr.sh.toNat ||| cdtabCd0TcrIps.set pgt.tcr.ps.toNat ||| cdConstant := by
  have hz : cdtabCd0Asid.set 0 = 0 := rfl
  simp only [ctxDescWord0, ctxDesc, cdConstant, hz, Nat.or_zero]
  apply Nat.eq_of_testBit_eq
  intro i
  simp only [Nat.testBit_or]
  grind

theorem ctxDesc_valid : (ctxDescWord0 (ctxDesc pgt)).testBit 31 = true := by
  have hv : cdtabCd0V.testBit 31 = true := by decide
  rw [ctxDescWord0, Nat.testBit_or, hv, Bool.or_true]

-- Each field of the first word is read back.
theorem ctxDescWord0_fields :
    cdtabCd0TcrT0sz.get (ctxDescWord0 (ctxDesc pgt)) = pgt.tcr.tsz.toNat ∧
    cdtabCd0TcrTg0.get (ctxDescWord0 (ctxDesc pgt)) = pgt.tcr.tg.toNat ∧
    cdtabCd0TcrIrgn0.get (ctxDescWord0 (ctxDesc pgt)) = pgt.tcr.irgn.toNat ∧
    cdtabCd0TcrOrgn0.get (ctxDescWord0 (ctxDesc pgt)) = pgt.tcr.orgn.toNat ∧
    cdtabCd0TcrSh0.get (ctxDescWord0 (ctxDesc pgt)) = pgt.tcr.sh.toNat ∧
    cdtabCd0TcrIps.get (ctxDescWord0 (ctxDesc pgt)) = pgt.tcr.ps.toNat := by
  have ht0sz  : cdtabCd0TcrT0sz.get (cdtabCd0TcrT0sz.set pgt.tcr.tsz.toNat) = _ := BitField.get_set_of_lt pgt.tcr.tsz.isLt
  have htg0   : cdtabCd0TcrTg0.get (cdtabCd0TcrTg0.set pgt.tcr.tg.toNat) = _ := BitField.get_set_of_lt pgt.tcr.tg.isLt
  have hirgn0 : cdtabCd0TcrIrgn0.get (cdtabCd0TcrIrgn0.set pgt.tcr.irgn.toNat) = _ := BitField.get_set_of_lt pgt.tcr.irgn.isLt
  have horgn0 : cdtabCd0TcrOrgn0.get (cdtabCd0TcrOrgn0.set pgt.tcr.orgn.toNat) = _ := BitField.get_set_of_lt pgt.tcr.orgn.isLt
  have hsh0   : cdtabCd0TcrSh0.get (cdtabCd0TcrSh0.set pgt.tcr.sh.toNat) = _ := BitField.get_set_of_lt pgt.tcr.sh.isLt
  have hips   : cdtabCd0TcrIps.get (cdtabCd0TcrIps.set pgt.tcr.ps.toNat) = _ := BitField.get_set_of_lt pgt.tcr.ps.isLt
  have hrest : cdtabCd0TcrT0sz.get cdConstant = 0 ∧ cdtabCd0TcrTg0.get cdConstant = 0 ∧
      cdtabCd0TcrIrgn0.get cdConstant = 0 ∧ cdtabCd0TcrOrgn0.get cdConstant = 0 ∧
      cdtabCd0TcrSh0.get cdConstant = 0 ∧ cdtabCd0TcrIps.get cdConstant = 0 := by decide
  have ⟨r₁, r₂, r₃, r₄, r₅, r₆⟩ := hrest
  rw [ctxDescWord0_eq]
  simp (disch := decide) only [BitField.get_or, BitField.get_set_ne, ht0sz, htg0, hirgn0, horgn0, hsh0, hips, r₁, r₂, r₃, r₄, r₅,
    r₆, Nat.or_zero, Nat.zero_or, and_self]

-- The base of the table is read back, unless the mask cuts it off.
theorem ctxDescWord1_ttb0 (h : Bits.slice 51 48 pgt.pgtBase = 0) :
    Bits.slice 51 4 (ctxDescWord1 (ctxDesc pgt)) = Bits.slice 51 4 pgt.pgtBase := by
  have hm : cdtabCd1Ttb0.mask = 2 ^ 48 - 1 := rfl
  have hw : ctxDescWord1 (ctxDesc pgt) = pgt.pgtBase % 2 ^ 48 := by
    rw [ctxDescWord1, hm, Nat.and_two_pow_sub_one_eq_mod]
    rfl
  rw [hw]
  apply Nat.eq_of_testBit_eq
  intro i
  rw [Bits.testBit_slice (by decide), Bits.testBit_slice (by decide), Nat.testBit_mod_two_pow]
  by_cases hi : 48 ≤ i ∧ i ≤ 51
  case pos =>
    have hb := congrArg (·.testBit i) h
    simp only [Bits.testBit_slice (show 48 ≤ 51 by decide), hi, and_self, decide_true, Bool.and_true,
      Nat.zero_testBit] at hb
    rw [hb, Bool.and_false]
  case neg =>
    by_cases hlt : i < 48
    case pos => simp [hlt]
    case neg =>
      have hout : ¬(4 ≤ i ∧ i ≤ 51) := by omega
      simp [hout]

end

-- The words that lead to a context descriptor.

section

variable {table s1cdmax s1fmt : Nat}

theorem steStage1Word0_eq : steStage1Word0 table s1cdmax s1fmt =
    strtabSte0V ||| table % 2 ^ 46 ||| strtabSte0Config.set strtabSte0ConfigS1Trans ||| strtabSte0S1cdmax.set s1cdmax |||
      strtabSte0S1fmt.set s1fmt := by
  have hm : strtabSte0S1contextptr.mask = 2 ^ 46 - 1 := rfl
  rw [steStage1Word0, hm, Nat.and_two_pow_sub_one_eq_mod]
  apply Nat.eq_of_testBit_eq
  intro i
  simp only [Nat.testBit_or]
  ac_rfl

-- The pointer does not reach into the fields beside it.
theorem steStage1Word0_fields (hd : 64 ∣ table) :
    (steStage1Word0 table s1cdmax s1fmt).testBit 0 = true ∧
    strtabSte0Config.get (steStage1Word0 table s1cdmax s1fmt) = strtabSte0ConfigS1Trans ∧
    strtabSte0S1cdmax.get (steStage1Word0 table s1cdmax s1fmt) = s1cdmax % 32 ∧
    strtabSte0S1fmt.get (steStage1Word0 table s1cdmax s1fmt) = s1fmt % 4 := by
  have hin : Bits.Within 51 6 (table % 2 ^ 46) := AddressField.within_address (f := .s1ContextPtr s1cdmax s1fmt) hd
  have h₁ : strtabSte0Config.get (table % 2 ^ 46) = 0 := BitField.get_eq_zero hin (by decide) (by decide)
  have h₂ : strtabSte0S1cdmax.get (table % 2 ^ 46) = 0 := BitField.get_eq_zero hin (by decide) (by decide)
  have h₃ : strtabSte0S1fmt.get (table % 2 ^ 46) = 0 := BitField.get_eq_zero hin (by decide) (by decide)
  have hv : strtabSte0Config.get strtabSte0V = 0 ∧ strtabSte0S1cdmax.get strtabSte0V = 0 ∧
      strtabSte0S1fmt.get strtabSte0V = 0 := by decide
  have ⟨v₁, v₂, v₃⟩ := hv
  have hconfig : strtabSte0Config.get (strtabSte0Config.set strtabSte0ConfigS1Trans) = strtabSte0ConfigS1Trans := by decide
  have hcdmax : strtabSte0S1cdmax.get (strtabSte0S1cdmax.set s1cdmax) = s1cdmax % 32 := BitField.get_set
  have hfmt : strtabSte0S1fmt.get (strtabSte0S1fmt.set s1fmt) = s1fmt % 4 := BitField.get_set
  rw [steStage1Word0_eq]
  simp (disch := decide) only [BitField.get_or, BitField.get_set_ne, h₁, h₂, h₃, v₁, v₂, v₃, hconfig, hcdmax, hfmt,
    Nat.or_zero, Nat.zero_or, and_self, and_true]
  have hbit : strtabSte0V.testBit 0 = true := by decide
  simp only [Nat.testBit_or, hbit, Bool.true_or]

-- What the SMMU finds if the entry was written for this table.
theorem lookupCd_eq {mem : Memory} {ste ssid : Nat} (hd : 64 ∣ table) (hl : table < 2 ^ 46)
    (hf : s1fmt = strtabSte0S1fmtLinear ∨ s1fmt = strtabSte0S1fmt64kL2) (hw : mem ste = steStage1Word0 table s1cdmax s1fmt) :
    lookupCd mem ste ssid =
      if ssid < 2 ^ (s1cdmax % 32) then
        if s1fmt = strtabSte0S1fmtLinear then some (table + 64 * ssid)
        else if (mem (table + 8 * (ssid >>> cdtabSplit))).testBit 0 then
          some (Bits.slice 51 12 (mem (table + 8 * (ssid >>> cdtabSplit))) + 64 * (ssid % 2 ^ cdtabSplit))
        else none
      else none := by
  have ⟨h₀, h₁, h₂, h₃⟩ := @steStage1Word0_fields table s1cdmax s1fmt hd
  have hslice : Bits.slice 51 6 (steStage1Word0 table s1cdmax s1fmt) = table :=
    (AddressField.slice_word (f := .s1ContextPtr s1cdmax s1fmt) hd).trans (Nat.mod_eq_of_lt hl)
  have hfmt : s1fmt % 4 = s1fmt := by
    rcases hf with rfl | rfl <;> rfl
  simp only [lookupCd, hw, h₀, h₁, h₂, h₃, hslice, hfmt, true_and]
  rcases hf with rfl | rfl
  case inl => simp
  case inr =>
    have hne : strtabSte0S1fmt64kL2 ≠ strtabSte0S1fmtLinear := by decide
    simp only [if_neg hne, if_true]

theorem cdtabL1Desc_eq {leaf : Nat} (hd : 2 ^ 12 ∣ leaf) (hl : leaf < 2 ^ 40) :
    (cdtabL1Desc leaf).testBit 0 = true ∧ Bits.slice 51 12 (cdtabL1Desc leaf) = leaf := by
  have hv : cdtabL1DescV.testBit 0 = true := by decide
  refine ⟨?_, (AddressField.slice_word (f := .cdtabL2ptr) hd).trans (Nat.mod_eq_of_lt hl)⟩
  rw [cdtabL1Desc, Nat.testBit_or, hv, Bool.or_true]

end

end Smmu
