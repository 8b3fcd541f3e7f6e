import BsaAcs.Pgt.Theorems.Address
import BsaAcs.Pgt.Theorems.Laid

namespace Pgt

-- What `val_pgt_get_attributes` finds in a table that `val_pgt_create` has built.

-- Whether the architecture takes the last descriptor of a walk for a mapping.
def Maps (p : Nat) (e : Nat × Nat) : Prop :=
  e.2 ≠ 0 ∧ (e.1 = 0 ∨ blockAllowed p e.1 = true)

instance : Decidable (Maps p e) :=
  inferInstanceAs (Decidable (_ ∧ _))

-- The slot at the end of a walk is empty, or its descriptor has the type that belongs to its level.
def WellTyped (e : Nat × Nat) : Prop :=
  e.2 = 0 ∨ (e.2.testBit 0 = true ∧ e.2.testBit 1 = decide (e.1 = 0))

section Walk

variable {g : Globals} {p v : Nat} (hg : Granule g p)

include hg

theorem tableDescriptor_slice_low (hd : 2 ^ p ∣ q) (hq : q < 2 ^ 32) : Bits.slice 47 p (tableDescriptor g q) = q := by
  rw [tableDescriptor_slice hg, slice_low hg hd hq]

-- The architecture goes the way that the descriptors lead.
theorem Leads.walk (hl : Leads mem g p v h (base + 8 * slotIndex p h nbits v) qs e)
    (hq : ∀ q ∈ qs, 2 ^ p ∣ q ∧ q < 2 ^ 32) (ht : WellTyped e) :
    (Maps p e → ∃ o, walk mem p h base nbits v = .mapped o (pgtDescAttributes e.2)) ∧
    (¬Maps p e → ∃ w, walk mem p h base nbits v = .invalid w) := by
  induction qs generalizing h base nbits <;> cases hl
  case cons.goes q qs ih h hw hl =>
    have ⟨hd, hlt⟩ := hq q List.mem_cons_self
    rw [Pgt.walk]
    simp only [hw, tableDescriptor_testBit hg (Nat.zero_le 1), tableDescriptor_testBit hg (le_refl 1),
      tableDescriptor_slice_low hg hd hlt, Bool.not_true, Bool.false_eq_true, if_false, if_true]
    exact ih hl fun r hr => hq r (List.mem_cons_of_mem _ hr)
  case nil.ends =>
    generalize hw : mem (base + 8 * slotIndex p h nbits v) = w at *
    rcases ht with hz | ⟨h₀, h₁⟩
    case inl =>
      obtain rfl : w = 0 := hz
      refine ⟨fun hm => absurd rfl hm.left, fun _ => ⟨0, ?_⟩⟩
      cases h <;> simp [Pgt.walk, hw]
    case inr =>
      replace h₀ : w.testBit 0 = true := h₀
      replace h₁ : w.testBit 1 = decide (h = 0) := h₁
      have hz : w ≠ 0 := by
        rintro rfl
        simp at h₀
      cases h
      case zero =>
        have hm : Maps p (0, w) := ⟨hz, .inl rfl⟩
        refine ⟨fun _ => ⟨Bits.slice 47 p w + v % 2 ^ p, ?_⟩, fun h => absurd hm h⟩
        simp [Pgt.walk, hw, h₀, h₁]
      case succ h =>
        by_cases hal : blockAllowed p (h + 1)
        case pos =>
          have hm : Maps p (h + 1, w) := ⟨hz, .inr hal⟩
          refine ⟨fun _ => ⟨Bits.slice 47 (p + (h + 1) * (p - 3)) w + v % blockBytes p (h + 1), ?_⟩,
            fun h => absurd hm h⟩
          simp [Pgt.walk, hw, h₀, h₁, hal]
        case neg =>
          have hm : ¬Maps p (h + 1, w) := by simp [Maps, hal]
          refine ⟨fun h => absurd h hm, fun _ => ⟨w, ?_⟩⟩
          simp [Pgt.walk, hw, h₀, h₁, hal]

theorem Leads.walkTables (hl : Leads mem g p v h (base + 8 * slotIndex p h nbits v) qs e)
    (hq : ∀ q ∈ qs, 2 ^ p ∣ q ∧ q < 2 ^ 32) (ht : WellTyped e) : walkTables mem p h base nbits v = qs := by
  induction qs generalizing h base nbits <;> cases hl
  case nil.ends =>
    cases h
    case zero => rfl
    case succ h =>
      rcases ht with hz | ⟨_, h₁⟩
      case inl => simp [Pgt.walkTables, show mem _ = 0 from hz]
      case inr => simp [Pgt.walkTables, show (mem _).testBit 1 = _ from h₁]
  case cons.goes q qs ih h hw hl =>
    have ⟨hd, hlt⟩ := hq q List.mem_cons_self
    rw [Pgt.walkTables]
    simp only [hw, tableDescriptor_testBit hg (Nat.zero_le 1), tableDescriptor_testBit hg (le_refl 1),
      tableDescriptor_slice_low hg hd hlt, Bool.and_true, if_true]
    rw [ih hl fun r hr => hq r (List.mem_cons_of_mem _ hr)]

end Walk

-- The status and the value of `*attributes` for the descriptor that the lookup ends at.
def answer (attributes : Nat) : Nat × Nat → Nat × Nat
  | (0, w) => if w.testBit 1 then (0, pgtDescAttributes w) else (acsStatusErr, attributes)
  | (_ + 1, w) => (0, pgtDescAttributes w)

theorem isPgtEntryPage_eq : isPgtEntryPage w = w.testBit 1 := by
  have h : isPgtEntryPage w = !isPgtEntryBlock w := rfl
  rw [h, isPgtEntryBlock_eq, Bool.not_not]

section Lookup

variable {g g' : Globals} {p ias : Nat} (hg : DestroyGranule g p ias) (hg' : Granule g' p)

include hg hg'

-- The loop goes the way for an address `x` from a table with `h` levels below it. `d` is the distance
-- of its shifts from the right ones.
theorem Leads.attributesFrom (hl : Leads mem g' p x h (base + 8 * slotIndex p h nbits x) qs e)
    (hq : ∀ q ∈ qs, 2 ^ p ∣ q ∧ q < 2 ^ 32) (hq' : ∀ q ∈ qs, q < 2 ^ ias) (ht : WellTyped e)
    (hv : (level + h) % 2 ^ 32 = 3) (hlt : level < 2 ^ 32) (hh : h < 64)
    (hi : va >>> b % 2 ^ nbits = slotIndex p h nbits x) (hb : b < 2 ^ 32)
    (hstep : ∀ j, h = j + 1 → b = p + j * (p - 3) + d + nbits)
    (hx : ∀ j < h, va >>> (p + j * (p - 3) + d) % 2 ^ (p - 3) = slotIndex p j (p - 3) x) :
    attributesFrom mem (p - 3) g.pgtAddrMask va attributes (h + 1) base level b nbits =
    some (answer attributes e) := by
  induction h generalizing level base nbits b qs
  case zero =>
    have : level = 3 := by omega
    cases hl
    case ends =>
      simp only [Pgt.attributesFrom, this, if_true, Nat.one_shiftLeft, Nat.and_two_pow_sub_one_eq_mod, hi,
        isPgtEntryPage_eq, answer]
      split <;> simp_all
  case succ h ih =>
    have hl3 : level ≠ 3 := by omega
    rw [Pgt.attributesFrom]
    simp only [hl3, if_false, Nat.one_shiftLeft, Nat.and_two_pow_sub_one_eq_mod, hi, isPgtEntryBlock_eq]
    cases hl
    case ends =>
      have h₁ : (mem (base + 8 * slotIndex p (h + 1) nbits x)).testBit 1 = false := by
        rcases ht with hz | ⟨_, h₁⟩
        case inl => simp [show mem _ = 0 from hz]
        case inr => simpa using h₁
      simp [h₁, answer]
    case goes q qs hw hl =>
      have ⟨hd, hlow⟩ := hq q List.mem_cons_self
      have hslice := tableDescriptor_slice_low hg' hd hlow
      have hmask := destroy_mask hg (tableDescriptor_lt hg' (q := q))
        (hslice.symm ▸ hq' q List.mem_cons_self)
      have hbs := hstep h rfl
      have hsub : sub32 b nbits = p + h * (p - 3) + d := by
        rw [sub32_eq (by omega) hb]
        omega
      simp only [hw, tableDescriptor_testBit hg' (le_refl 1), hmask, hslice, hsub, Bool.not_true,
        Bool.false_eq_true, if_false]
      refine ih hl (fun r hr => hq r (List.mem_cons_of_mem _ hr)) (fun r hr => hq' r (List.mem_cons_of_mem _ hr))
        (by omega) (Nat.mod_lt _ (by decide)) (by omega) (hx h (Nat.lt_succ_self h)) (by omega) ?_
        fun j hj => hx j (by omega)
      rintro j rfl
      rw [Nat.add_mul]
      omega

end Lookup

-- The indices of the address that the lookup follows.
section LookupAddress

variable {pf : Platform} {p : Nat} {desc : PgtDescriptor} (hs : Setting pf p desc)

include hs

end LookupAddress

-- The words that the ends of the walks hold.
section Formed

variable {g : Globals} {p a : Nat} {out : Nat → Nat}

end Formed

-- Every table descriptor of the tree is one that the fill writes.
def Worded (g : Globals) (p : Nat) : Nat → Tree → Prop
  | h + 1, .table w slots => tableDescriptor g (Bits.slice 47 p w) = w ∧ ∀ i, Worded g p h (slots i)
  | _, _ => True

section Worded

variable {g : Globals} {p : Nat} (hg : Granule g p)

include hg

-- So the walk is led to where it ends in the tree.
theorem Worded.leads (ht : Worded g p h (readTree mem p h base (slotIndex p h nbits v))) (hn : nbits ≤ p - 3) :
    ∃ qs, (∀ q ∈ qs, 2 ^ p ∣ q ∧ q < 2 ^ 32) ∧ Leads mem g p v h (base + 8 * slotIndex p h nbits v) qs
      ((readTree mem p h base (slotIndex p h nbits v)).ending p h v) := by
  induction h generalizing base nbits
  case zero =>
    have hi : slotIndex p 0 nbits v < 2 ^ (p - 3) := slotIndex_lt.trans_le <| Nat.pow_le_pow_right (by omega) hn
    refine ⟨[], by simp, ?_⟩
    have he : Tree.ending p 0 (readTree mem p 0 base (slotIndex p 0 nbits v)) v =
        (0, mem (base + 8 * slotIndex p 0 nbits v)) := by
      rw [readTree_eq_decode hi, decode]
      split <;> simp_all
    exact he ▸ .ends
  case succ h ih =>
    have hi : slotIndex p (h + 1) nbits v < 2 ^ (p - 3) := slotIndex_lt.trans_le <| Nat.pow_le_pow_right (by omega) hn
    rw [readTree_eq_decode hi] at ht ⊢
    by_cases hw : mem (base + 8 * slotIndex p (h + 1) nbits v) = 0
    case pos =>
      refine ⟨[], by simp, ?_⟩
      rw [decode, if_pos hw, ending_empty]
      exact .ends_of_eq hw
    case neg =>
      by_cases hb : (mem (base + 8 * slotIndex p (h + 1) nbits v)).testBit 1
      case neg =>
        refine ⟨[], by simp, ?_⟩
        rw [decode, if_neg hw, if_neg hb, ending_leaf]
        exact .ends
      case pos =>
        rw [decode, if_neg hw, if_pos hb] at ht ⊢
        obtain ⟨qs, hqs, hl⟩ := ih (ht.right _) le_rfl
        have hslice := tableDescriptor_slice hg (q := Bits.slice 47 p (mem (base + 8 * slotIndex p (h + 1) nbits v)))
        rw [ht.left] at hslice
        refine ⟨_ :: qs, ?_, .goes ht.left.symm hl⟩
        intro q hq
        rcases List.mem_cons.mp hq with rfl | hq
        case inl =>
          refine ⟨Bits.dvd_slice, ?_⟩
          rw [hslice]
          exact Bits.slice_lt (by have := hg.hi; omega)
        case inr => exact hqs q hq

end Worded

-- The end of the walk for `v` after the passes of `val_pgt_create`, told from the regions.
def createEnding (g : Globals) (p : Nat) (desc : PgtDescriptor) (rs : List MemoryRegionDescriptor) (v : Nat) : Nat × Nat :=
  let r := rs.headD terminator
  regionEnding g p r.attributes (outputOf (regionStart desc r) r.physicalAddress) (rootHeight p desc.ias)
    (rootBits p desc.ias) (regionStart desc r) (regionTop desc r) v rs.length

-- The calls of the allocator for the tables on the way of `v`, if a single pass starts at call `m`.
def createCalls (p : Nat) (desc : PgtDescriptor) (r : MemoryRegionDescriptor) (v m : Nat) : List Nat :=
  let out := outputOf (regionStart desc r) r.physicalAddress
  let h := rootHeight p desc.ias
  wayCalls p h (rootBits p desc.ias) (regionTop desc r) v (tables p out h (regionTop desc r))
    (tableCalls p out v h (regionTop desc r)) (regionStart desc r) m

section Created

variable {pf : Platform} {p : Nat} {desc : PgtDescriptor} (hs : Setting pf p desc) (hf : PageAllocator pf p)

include hs hf

variable {rs : List MemoryRegionDescriptor} (hl : ∀ r ∈ rs, r.length ≠ 0)

include hl

end Created

-- Let the lookup follow the walk of another address. It finds a mapped address if that walk ends at a
-- page, or at another level at a word with the attributes of the region: a block, or an empty slot for
-- which there are no attributes to find. It refuses an address that is not mapped if the walk ends at
-- an empty slot of level 3.
def Findable (g : Globals) (p : Nat) (desc : PgtDescriptor) (rs : List MemoryRegionDescriptor) (va : Nat) : Prop :=
  let found := createEnding g p desc rs (lookupAddress p desc.ias va)
  if Maps p (createEnding g p desc rs va) then
    (found.1 = 0 → found.2 ≠ 0) ∧ pgtDescAttributes found.2 = pgtDescAttributes (rs.headD terminator).attributes
  else found = (0, 0)

end Pgt
