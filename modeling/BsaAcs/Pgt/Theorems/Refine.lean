import BsaAcs.Pgt.Theorems.Built

namespace Pgt

-- The fill as an operation on trees. The memory is gone: what remains is which slots are visited,
-- what each of them becomes, and how many calls of the allocator that takes.

section

variable (pf : Platform) (g : Globals) (p attributes va pa : Nat)

-- The loop over the slots of a table. `slot x t m t' n` is a turn of it at the input address `x`,
-- which turns the slot `t` into `t'` and moves the allocator from call `m` to call `n`.
inductive Loop (slot : Nat → Tree → Nat → Tree → Nat → Prop) (h nbits top : Nat) :
    Nat → (Nat → Tree) → Nat → (Nat → Tree) → Nat → Prop
  | done (hge : ¬ia < top) : Loop slot h nbits top ia slots m slots m
  | turn (hlt : ia < top) (hs : slot ia (slots (slotIndex p h nbits ia)) m t' l)
    (hr : Loop slot h nbits top (ia + blockBytes p h)
      (Function.update slots (slotIndex p h nbits ia) t') l slots' n) :
    Loop slot h nbits top ia slots m slots' n

-- The table that a turn works on: the one below the slot, or else a new page.
inductive Below (m : Nat) : Tree → Nat → (Nat → Tree) → Nat → Prop
  | existing : Below m (.table w slots) (Bits.slice 47 p w) slots m
  | fresh (hn : ∀ w slots, t ≠ .table w slots) : Below m t (pf.page m) (fun _ => .empty) (m + 1)

def SlotFill : Nat → Nat → Nat → Tree → Nat → Tree → Nat → Prop
  | 0, ia, _, _, m, t', n =>
    t' = .leaf (pageDescriptor g (outputOf va pa ia) attributes) ∧ n = m
  | h + 1, ia, top, t, m, t', n =>
    (Eligible p (outputOf va pa) (h + 1) ia top ∧
      t' = .leaf (blockWord p attributes (h + 1) (outputOf va pa ia)) ∧ n = m) ∨
    (¬Eligible p (outputOf va pa) (h + 1) ia top ∧ ∃ q slots l slots', Below pf p m t q slots l ∧
      Loop p (fun x => SlotFill h x (min top (ia + blockBytes p (h + 1) - 1))) h (p - 3)
        (min top (ia + blockBytes p (h + 1) - 1)) ia slots l slots' n ∧
      t' = .table (tableDescriptor g q) slots')

def TreeFill (h nbits top : Nat) : Nat → (Nat → Tree) → Nat → (Nat → Tree) → Nat → Prop :=
  Loop p (fun x => SlotFill pf g p attributes va pa h x top) h nbits top

end

section

variable {pf : Platform} {g : Globals} {p : Nat} {md : MemoryRegionDescriptor}
  (hg : CreateGranule g p) (hf : PageAllocator pf p) (ha : md.attributes.testBit 1 = false)

-- The slots after a turn are those before, except for the one that was visited.
theorem SlotChanged.slots_eq (hp : 3 ≤ p) (hf : PageAllocator pf p) (ho : Owned pf p s h base)
    (hc : SlotChanged pf p s s' h base i) : readTree s'.mem p h base =
      Function.update (readTree s.mem p h base) i (readTree s'.mem p h base i) := by
  funext j
  by_cases hj : j = i
  case pos => rw [hj, Function.update_self]
  case neg => rw [Function.update_of_ne hj, hc.other_slot hp hf ho hj]

include hg

theorem nextTable_below {s s₁ : State} (hi : i < 2 ^ (p - 3))
    (hn : s.nextTable pf g (s.mem (base + 8 * i)) = (some q, s₁)) :
    Below pf p s.allocs (readTree s.mem p (h + 1) base i) q (readTree s₁.mem p h q) s₁.allocs := by
  have hp : 3 ≤ p := by have := hg.lo; omega
  rw [readTree_eq_decode hi]
  rcases nextTable_cases hn with ⟨hw, rfl, _, rfl⟩ | ⟨hw, hb, rfl, rfl⟩
  case inl =>
    rw [readTree_of_zero hp fun a h => Memory.set_mem h.left (hg.pageSize ▸ h.right)]
    apply Below.fresh
    intro w slots
    rw [decode]
    rcases hw with hw | hw <;> simp [hw]
    split <;> simp
  case inr =>
    rw [decode, if_neg hw, if_pos hb, hg.mask]
    exact .existing

include hf ha

theorem visit_slotFill (hv : Visit pf g md fuel tt ia (outputOf va pa ia) s s')
    (ht : tt.At p h nbits base top) (hrun : Run p h va ia top) (hlt : ia < top)
    (ho : Owned pf p s h base) (hl : LowPages pf s.allocs s'.allocs)
    (ih : ∀ {tt h nbits base top s s'},
      fillFrom pf g md fuel tt ia (outputOf va pa ia) s = some (0, s') →
      tt.At p h nbits base top → Run p h va ia top → Owned pf p s h base →
      LowPages pf s.allocs s'.allocs →
      TreeFill pf g p md.attributes va pa h nbits top ia (readTree s.mem p h base) s.allocs
        (readTree s'.mem p h base) s'.allocs) :
    SlotFill pf g p md.attributes va pa h ia top (readTree s.mem p h base (slotIndex p h nbits ia))
      s.allocs (readTree s'.mem p h base (slotIndex p h nbits ia)) s'.allocs := by
  have hi : slotIndex p h nbits ia < 2 ^ (p - 3) := ht.slotIndex_lt
  cases hv
  case page h3 =>
    obtain rfl := (ht.level_eq_three_iff hg.lo).mp h3
    exact ⟨ht.tableDesc_eq ▸ page_slot hi, rfl⟩
  case block h3 he =>
    obtain ⟨h, rfl⟩ := ht.exists_height hg.lo h3
    refine .inl ⟨(hrun.blockEligible_iff ht hlt).mp he, ?_, rfl⟩
    rw [ht.tableDesc_eq, blockDescriptor_eq ht.blockSize_eq]
    exact block_slot hg ha ht.size_lt hi
  case table q s₁ s₂ h3 hne hn hf' =>
    obtain ⟨h, rfl⟩ := ht.exists_height hg.lo h3
    have hl : LowPages pf s.allocs s₂.allocs := hl
    rw [ht.tableDesc_eq] at hn ⊢
    have hnt := nextTable_spec hg ho hi hn <| hl.mono le_rfl (fillFrom_allocs_le hf')
    have ht' : (tt.nextLevel g q ia (outputOf va pa ia)).At p h (p - 3) q _ :=
      hrun.nextLevel ht hg.toGranule hlt rfl
    have hl' := hl.mono hnt.allocs le_rfl
    have hgr := fillFrom_grown hg hf ha hf' ht' hnt.owned hl'
    have hrec := ih hf' ht' (hrun.nested ht.size_lt hlt) hnt.owned hl'
    exact .inr ⟨mt (hrun.blockEligible_iff ht hlt).mpr (by simpa using hne), q, _, _, _,
      nextTable_below hg hi hn, hrec, nested_slot hg hf ho hnt hgr hi⟩

-- A fill of a table in memory is a fill of the tree that it stands for.
theorem fillFrom_treeFill (hr : fillFrom pf g md fuel tt ia (outputOf va pa ia) s = some (0, s'))
    (ht : tt.At p h nbits base top) (hrun : Run p h va ia top) (ho : Owned pf p s h base)
    (hl : LowPages pf s.allocs s'.allocs) :
    TreeFill pf g p md.attributes va pa h nbits top ia (readTree s.mem p h base) s.allocs
      (readTree s'.mem p h base) s'.allocs := by
  induction fuel generalizing tt ia h nbits base top s s'
  case zero => simp [fillFrom] at hr
  case succ fuel ih =>
    have hp : 3 ≤ p := by have := hg.lo; omega
    rcases fillFrom_success_iff.mp hr with ⟨hge, rfl⟩ | ⟨hlt, s₁, hv, hrest⟩
    case inl => exact .done <| ht.top_eq ▸ hge
    case inr =>
      rw [ht.top_eq] at hlt
      have hl₁ := hl.mono le_rfl (fillFrom_allocs_le hrest)
      have hc := visit_slotChanged hg hf ha hv ht ho hl₁ (fillFrom_grown hg hf ha)
      have hv := visit_slotFill hg hf ha hv ht hrun hlt ho hl₁ ih
      rw [hrun.nextAddress_input ht hlt, hrun.nextAddress_output ht] at hrest
      have hrec := ih hrest ht hrun.step (hc.owned hp hf ho) (hl.mono hc.allocs le_rfl)
      exact .turn hlt hv (hc.slots_eq hp hf ho ▸ hrec)

end

end Pgt
