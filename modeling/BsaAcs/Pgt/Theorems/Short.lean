import BsaAcs.Pgt.Theorems.Create
import BsaAcs.Pgt.Theorems.Drop
import Mathlib.Data.Nat.Bitwise

namespace Pgt

-- The descriptors that `val_pgt_destroy` takes for those of tables, and how far their addresses reach.

-- The attributes of the region without the bit that tells a block from a table.
def typed (md : MemoryRegionDescriptor) : MemoryRegionDescriptor :=
  { md with attributes := md.attributes.ldiff 2 }

-- A block is as long as the region at least, and both of its addresses are aligned.
def HasBlock (p : Nat) (h va pa top : Nat) : Prop :=
  1 ≤ h ∧ blockBytes p 1 ∣ va ∧ blockBytes p 1 ∣ pa ∧ va + blockBytes p 1 - 1 ≤ top

section Typed

variable {md : MemoryRegionDescriptor}

theorem testBit_two {i : Nat} : (2 : Nat).testBit i = decide (i = 1) := by
  rw [show (2 : Nat) = 2 ^ 1 by rfl, Nat.testBit_two_pow]
  exact decide_eq_decide.mpr eq_comm

theorem typed_testBit : (typed md).attributes.testBit 1 = false := by
  simp [typed, Nat.testBit_ldiff, testBit_two]

-- The descriptor of a page has the bit anyway.
theorem pageDescriptor_typed {g : Globals} {o : Nat} :
    pageDescriptor g o (typed md).attributes = pageDescriptor g o md.attributes := by
  apply Nat.eq_of_testBit_eq
  intro i
  simp only [pageDescriptor, typed, Nat.testBit_or, Nat.testBit_ldiff]
  by_cases hi : i = 1
  case pos => simp [hi, pgtEntryPageMask, testBit_two]
  case neg => simp [hi, testBit_two]

-- A stop at which a block is written shows that the region has one.
theorem Eligible.hasBlock {p h va pa ia top : Nat} (he : Eligible p (outputOf va pa) (h + 1) ia top)
    (hs : p + (h + 1) * (p - 3) < 64) (hle : va ≤ ia) (hd : blockBytes p (h + 1) ∣ ia - va) :
    HasBlock p (h + 1) va pa top := by
  have ⟨hi, ho, ht⟩ := he
  have h1 : blockBytes p 1 ∣ blockBytes p (h + 1) := blockBytes_dvd (by omega)
  have h64 : blockBytes p (h + 1) ∣ 2 ^ 64 := Nat.pow_dvd_pow 2 hs.le
  have hle' := Nat.le_of_dvd blockBytes_pos h1
  have hva : blockBytes p (h + 1) ∣ va := by
    have : va = ia - (ia - va) := by omega
    exact this ▸ Nat.dvd_sub hi hd
  have hpa : blockBytes p (h + 1) ∣ pa := by
    rw [outputOf, Nat.dvd_mod_iff h64] at ho
    exact (Nat.dvd_add_left hd).mp ho
  exact ⟨by omega, h1.trans hva, h1.trans hpa, by omega⟩

end Typed

section Fill

variable {pf : Platform} {g : Globals} {p : Nat} {md : MemoryRegionDescriptor} {fuel h nbits base top va pa ia : Nat}
  {tt : TtDescriptor} {s s' : State} (hg : Granule g p)

include hg

-- If the region has no block, the bit changes nothing.
theorem fillFrom_typed (hno : ¬HasBlock p H va pa T) (hr : fillFrom pf g md fuel tt ia (outputOf va pa ia) s = some (0, s'))
    (ht : tt.At p h nbits base top) (hrun : Run p h va ia top) (hd : blockBytes p h ∣ ia - va) (hh : h ≤ H)
    (htop : top ≤ T) : fillFrom pf g (typed md) fuel tt ia (outputOf va pa ia) s = some (0, s') := by
  induction fuel generalizing tt ia h nbits base top s s'
  case zero => simp [fillFrom] at hr
  case succ fuel ih =>
    rw [fillFrom_success_iff] at hr ⊢
    refine hr.imp id ?_
    rintro ⟨hlt, s₁, hv, hrest⟩
    have hlt' : ia < top := ht.top_eq ▸ hlt
    refine ⟨hlt, s₁, ?_, ?_⟩
    case refine_2 =>
      rw [hrun.nextAddress_input ht hlt', hrun.nextAddress_output ht] at hrest ⊢
      refine ih hrest ht hrun.step ?_ hh htop
      have := hrun.start
      rw [show ia + blockBytes p h - va = (ia - va) + blockBytes p h by omega]
      exact Nat.dvd_add hd (dvd_refl _)
    case refine_1 =>
      cases hv
      case page h3 => exact pageDescriptor_typed (g := g) ▸ .page h3
      case block h3 he =>
        obtain ⟨h, rfl⟩ := ht.exists_height hg.lo h3
        have he := ((hrun.blockEligible_iff ht hlt').mp he).hasBlock ht.size_lt hrun.start hd
        exact absurd ⟨by omega, he.2.1, he.2.2.1, he.2.2.2.trans htop⟩ hno
      case table h3 hne hn hf =>
        obtain ⟨h, rfl⟩ := ht.exists_height hg.lo h3
        refine .table h3 hne hn (ih hf (hrun.nextLevel ht hg hlt' rfl) (hrun.nested ht.size_lt hlt') ?_ ?_ ?_)
        · exact (blockBytes_dvd (by omega)).trans hd
        · omega
        · omega

end Fill

-- If the word is taken for a table descriptor, its address lies below 4 GB.
def Short (p w : Nat) : Prop :=
  w.testBit 1 = true → Bits.slice 47 p w < 2 ^ 32

-- The attributes leave the upper half of the address alone.
def KeepsAddress (md : MemoryRegionDescriptor) : Prop :=
  Bits.slice 47 32 md.attributes = 0

-- So are all words in the pages from call `m` on.
def ShortPages (pf : Platform) (p m : Nat) (s : State) : Prop :=
  ∀ k, m ≤ k → k < s.allocs → ∀ a, InPage p (pf.page k) a → Short p (s.mem a)

section Short

variable {pf : Platform} {g : Globals} {p m : Nat} {md : MemoryRegionDescriptor} {s s' : State} {a q w : Nat}

theorem short_zero : Short p 0 := by
  simp [Short]

theorem KeepsAddress.testBit (h : KeepsAddress md) {i : Nat} (hl : 32 ≤ i) (hu : i ≤ 47) :
    md.attributes.testBit i = false := by
  have hb : (Bits.slice 47 32 md.attributes).testBit i = _ := Bits.testBit_slice (by omega)
  rw [show Bits.slice 47 32 md.attributes = 0 from h] at hb
  simpa [hl, hu] using hb.symm

theorem KeepsAddress.typed (h : KeepsAddress md) : KeepsAddress (typed md) := by
  apply Nat.eq_of_testBit_eq
  intro i
  rw [Bits.testBit_slice (by omega)]
  by_cases hi : 32 ≤ i ∧ i ≤ 47
  case pos => simp [Pgt.typed, Nat.testBit_ldiff, h.testBit hi.left hi.right]
  case neg => simp [hi]

theorem short_page (hg : Granule g p) (h : KeepsAddress md) {o : Nat} : Short p (pageDescriptor g o md.attributes) := by
  intro _
  have hp := hg.hi
  apply Nat.lt_pow_two_of_testBit
  intro i hi
  rw [Bits.testBit_slice (by omega)]
  by_cases hu : i ≤ 47
  case neg => simp [hu]
  case pos =>
    have hw : Bits.Within 1 0 (pgtEntryPageMask ||| pgtEntryValidMask) := .of_dvd_lt (by simp) (by decide)
    have ho : (o &&& (2 ^ 32 - g.pageSize)).testBit i = false := by
      rw [and_pageMask hg]
      exact (Bits.Within.slice (by omega)).testBit_eq_false (by omega)
    rw [pageDescriptor, Nat.testBit_or, Nat.testBit_or, hw.testBit_eq_false (by omega), ho, h.testBit hi hu]
    rfl

theorem short_table (hg : Granule g p) : Short p (tableDescriptor g q) := by
  intro _
  rw [tableDescriptor_slice hg]
  have := hg.hi
  exact Bits.slice_lt (by omega)

theorem ShortPages.write (h : ShortPages pf p m s) (hw : Short p w) : ShortPages pf p m (s.write a w) := by
  intro k h₁ h₂ x hx
  by_cases he : x = a
  case pos => exact he ▸ State.write_mem_same ▸ hw
  case neg =>
    rw [State.write_mem_ne he]
    exact h k h₁ h₂ x hx

-- A page that is handed out is set to zero.
theorem ShortPages.fresh (h : ShortPages pf p m s) (hg : Granule g p) :
    ShortPages pf p m { s with mem := s.mem.set (pf.page s.allocs) g.pageSize 0, allocs := s.allocs + 1 } := by
  intro k h₁ h₂ x hx
  by_cases hin : InPage p (pf.page s.allocs) x
  case pos =>
    dsimp only
    rw [Memory.set_mem hin.left (hg.pageSize ▸ hin.right)]
    exact short_zero
  case neg =>
    have hk : k ≠ s.allocs := fun he => hin (he ▸ hx)
    dsimp only
    rw [Memory.set_not_mem (hg.pageSize ▸ hin)]
    refine h k h₁ ?_ x hx
    dsimp only at h₂
    omega

theorem ShortPages.next {s₁ : State} (h : ShortPages pf p m s) (hg : Granule g p)
    (hn : s.nextTable pf g w = (some q, s₁)) : ShortPages pf p m s₁ := by
  rcases nextTable_cases hn with ⟨_, rfl, _, rfl⟩ | ⟨_, _, _, rfl⟩
  case inl => exact h.fresh hg
  case inr => exact h

-- Whatever a fill runs over, it leaves short words only.
theorem ShortPages.fill {fuel h nbits base top ia oa : Nat} {tt : TtDescriptor} (hp : ShortPages pf p m s)
    (hg : Granule g p) (ha : md.attributes.testBit 1 = false) (hk : KeepsAddress md)
    (hr : fillFrom pf g md fuel tt ia oa s = some (0, s')) (ht : tt.At p h nbits base top) :
    ShortPages pf p m s' := by
  induction fuel generalizing tt ia oa h nbits base top s s'
  case zero => simp [fillFrom] at hr
  case succ fuel ih =>
    rcases fillFrom_success_iff.mp hr with ⟨_, rfl⟩ | ⟨_, s₁, hv, hrest⟩
    case inl => exact hp
    case inr =>
      refine ih ?_ hrest ht
      cases hv
      case page => exact hp.write (short_page hg hk)
      case block h3 _ =>
        obtain ⟨h, rfl⟩ := ht.exists_height hg.lo h3
        refine hp.write fun hb => ?_
        rw [blockDescriptor_eq ht.blockSize_eq, blockWord_testBit_one hg.lo ht.size_lt ha] at hb
        cases hb
      case table h3 _ hn hf =>
        obtain ⟨h, rfl⟩ := ht.exists_height hg.lo h3
        exact (ih (hp.next hg hn) hf (ht.nextLevel hg)).write (short_table hg)

theorem slice_lt_of_short {hi : Nat} (hw : Short p w) (hb : w.testBit 1 = true) (hh : p ≤ hi)
    (hlt : Bits.slice hi p w < 2 ^ 48) (hp : p < 32) : Bits.slice hi p w < 2 ^ 32 := by
  apply Nat.lt_pow_two_of_testBit
  intro i hi32
  by_cases h48 : i < 48
  case neg => exact Nat.testBit_lt_two_pow (hlt.trans_le (Nat.pow_le_pow_right (by omega) (Nat.not_lt.mp h48)))
  case pos =>
    have hs := Nat.testBit_lt_two_pow ((hw hb).trans_le (Nat.pow_le_pow_right two_pos hi32))
    rw [Bits.testBit_slice (by omega)] at hs ⊢
    have hin : p ≤ i ∧ i ≤ 47 := by omega
    simp only [hin, and_self, decide_true, Bool.and_true] at hs
    simp [hs]

end Short

-- A pass over a region that has no block does not look at the bit.
theorem Setting.passes_typed {pf : Platform} {p fuel base n : Nat} {desc : PgtDescriptor} {md : MemoryRegionDescriptor}
    {s s' : State} (hs : Setting pf p desc) (hr : ¬Rejects pf desc md)
    (hno : ¬HasBlock p (rootHeight p desc.ias) (regionStart desc md) md.physicalAddress (regionTop desc md))
    (hp : Passes pf (createGlobals pf) fuel (rootTtDescriptor (createGlobals pf) p base desc md) md n s s') :
    Passes pf (createGlobals pf) fuel (rootTtDescriptor (createGlobals pf) p base desc (typed md)) (typed md) n s s' := by
  induction hp
  case done => exact .done
  case pass hfill _ ih =>
    refine .pass ?_ ih
    have hrun := hs.pass_run hr hfill
    rw [hs.pass_eq hr] at hfill
    rw [hs.pass_eq (show ¬Rejects pf desc (typed md) from hr)]
    exact fillFrom_typed hs.createGranule.toGranule hno hfill hs.rootTt_at hrun (by simp) le_rfl le_rfl

end Pgt
