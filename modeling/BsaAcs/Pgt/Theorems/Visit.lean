import BsaAcs.Pgt.Theorems.Ownership

namespace Pgt

-- A turn of the loop changes one slot of the table, and with it a whole fill keeps the table a tree
-- of allocated pages.

theorem nextTable_cases {pf : Platform} {g : Globals} {s s₁ : State}
    (hn : s.nextTable pf g w = (some q, s₁)) :
    ((w = 0 ∨ w.testBit 1 = false) ∧ q = pf.page s.allocs ∧ q ≠ 0 ∧
      s₁ = { s with mem := s.mem.set q g.pageSize 0, allocs := s.allocs + 1 }) ∨
    (w ≠ 0 ∧ w.testBit 1 = true ∧ q = w &&& g.pgtAddrMask ∧ s₁ = s) := by
  simp only [State.nextTable, State.valMemoryAllocPages, isPgtEntryBlock_eq] at hn
  split at hn
  case isTrue hw =>
    by_cases hz : pf.page s.allocs = 0
    case pos => simp [hz] at hn
    case neg =>
      simp only [hz, if_false, Prod.mk.injEq, Option.some.injEq] at hn
      obtain ⟨rfl, rfl⟩ := hn
      exact .inl ⟨by simpa using hw, rfl, hz, rfl⟩
  case isFalse hw =>
    simp only [Prod.mk.injEq, Option.some.injEq] at hn
    obtain ⟨rfl, rfl⟩ := hn
    simp only [not_or, Bool.not_eq_true', Bool.not_eq_false] at hw
    exact .inr ⟨hw.left, hw.right, rfl, rfl⟩

theorem nextTable_some {pf : Platform} {g : Globals} {s : State} (hz : ∀ k, pf.page k ≠ 0) :
    ∃ q s₁, s.nextTable pf g w = (some q, s₁) := by
  simp only [State.nextTable, State.valMemoryAllocPages, hz, if_false]
  split <;> exact ⟨_, _, rfl⟩

theorem slice_low (hg : Granule g p) (hd : 2 ^ p ∣ q) (hq : q < 2 ^ 32) : Bits.slice 31 p q = q := by
  have := hg.hi
  exact Bits.slice_eq_self hd hq (by omega)

theorem slice_low_iff (hg : Granule g p) (hd : 2 ^ p ∣ a) : Bits.slice 31 p a = a ↔ a < 2 ^ 32 := by
  have := hg.hi
  constructor
  case mp =>
    intro h
    have : Bits.slice 31 p a < 2 ^ (31 + 1) := Bits.slice_lt (by omega)
    omega
  case mpr => exact slice_low hg hd

-- The table of the next level that a turn of the loop works on: how its pages and the state that it
-- is filled in relate to the slot and to the state before.
structure NextTable (pf : Platform) (p : Nat) (s s₁ : State) (h base i q : Nat) : Prop where
  allocs : s.allocs ≤ s₁.allocs
  freed  : s₁.freed = s.freed
  owned  : Owned pf p s₁ h q
  low    : q < 2 ^ 32
  pages  : ∀ r ∈ q :: tablePages p h (readTree s₁.mem p h q),
    r ∈ (readTree s.mem p (h + 1) base i).pages p (h + 1) ∨ Fresh pf s.allocs s₁.allocs r
  frame  : ∀ a, (∀ r, Fresh pf s.allocs s₁.allocs r → ¬InPage p r a) → s₁.mem a = s.mem a

section

variable {pf : Platform} {g : Globals} {p : Nat} (hg : CreateGranule g p) (hf : PageAllocator pf p)

include hg

theorem nextTable_fresh (hz : pf.page s.allocs ≠ 0) (hl : pf.page s.allocs < 2 ^ 32) :
    NextTable pf p s { s with mem := s.mem.set (pf.page s.allocs) g.pageSize 0, allocs := s.allocs + 1 }
      h base i (pf.page s.allocs) := by
  have hp : 3 ≤ p := by have := hg.lo; omega
  have ht : readTree (s.mem.set (pf.page s.allocs) g.pageSize 0) p h (pf.page s.allocs) =
      fun _ => .empty :=
    readTree_of_zero hp fun a ha => Memory.set_mem ha.left (hg.pageSize ▸ ha.right)
  have hq : Fresh pf s.allocs (s.allocs + 1) (pf.page s.allocs) := ⟨_, le_rfl, by omega, rfl, hz⟩
  refine ⟨by simp, rfl, ⟨?_, hq.allocated, ?_, ?_⟩, hl, ?_, ?_⟩
  case refine_1 | refine_2 | refine_3 => simp [ht, tablePages_empty]
  case refine_4 =>
    simp only [ht, tablePages_empty, List.mem_singleton]
    rintro r rfl
    exact .inr hq
  case refine_5 =>
    intro a ha
    apply Memory.set_not_mem
    exact fun h => ha _ hq ⟨h.left, hg.pageSize ▸ h.right⟩

theorem nextTable_existing (ho : Owned pf p s (h + 1) base) (hi : i < 2 ^ (p - 3))
    (hw : s.mem (base + 8 * i) ≠ 0) (hb : (s.mem (base + 8 * i)).testBit 1 = true) :
    NextTable pf p s s h base i (s.mem (base + 8 * i) &&& g.pgtAddrMask) := by
  rw [hg.mask]
  have ht : readTree s.mem p (h + 1) base i = .table (s.mem (base + 8 * i))
      (readTree s.mem p h (Bits.slice 47 p (s.mem (base + 8 * i)))) := by
    rw [readTree_eq_decode hi, decode, if_neg hw, if_pos hb]
  have hs : ∀ r ∈ Bits.slice 47 p (s.mem (base + 8 * i)) :: tablePages p h
      (readTree s.mem p h (Bits.slice 47 p (s.mem (base + 8 * i)))),
      r ∈ (readTree s.mem p (h + 1) base i).pages p (h + 1) := by
    intro r hr
    rw [ht, mem_pages_table]
    exact (List.mem_cons.mp hr).symm
  have hm := fun r hr => slot_mem_tablePages hi (hs r hr)
  have hn := ho.slots.left i hi
  rw [ht, nodup_pages_table] at hn
  refine ⟨le_rfl, rfl, ⟨hn, ?_, ?_, ?_⟩, ?_, fun r hr => .inl <| hs r hr, fun _ _ => rfl⟩
  case refine_1 => exact ho.pages _ <| hm _ List.mem_cons_self
  case refine_2 => exact fun r hr => ho.pages r <| hm r <| List.mem_cons_of_mem _ hr
  case refine_3 => exact fun r hr => ho.low r <| hm r <| List.mem_cons_of_mem _ hr
  case refine_4 => exact ho.low _ <| hm _ List.mem_cons_self

variable {s s₁ s₂ : State} {h base i q : Nat} (ho : Owned pf p s (h + 1) base)
  (hn : NextTable pf p s s₁ h base i q) (hs : Grown pf p s₁ s₂ h q) (hi : i < 2 ^ (p - 3))

include hn hs

-- The pages below the slot once the nested fill is done.
omit hg in
theorem nested_pages (hr : r ∈ q :: tablePages p h (readTree s₂.mem p h q)) :
    r ∈ (readTree s.mem p (h + 1) base i).pages p (h + 1) ∨ Fresh pf s.allocs s₂.allocs r := by
  have old : ∀ r ∈ q :: tablePages p h (readTree s₁.mem p h q),
      r ∈ (readTree s.mem p (h + 1) base i).pages p (h + 1) ∨ Fresh pf s.allocs s₂.allocs r :=
    fun r hr => (hn.pages r hr).imp id (·.mono le_rfl hs.allocs)
  cases hr
  case head => exact old q List.mem_cons_self
  case tail hr =>
    cases hs.pages r hr
    case inl h => exact old r <| List.mem_cons_of_mem _ h
    case inr h => exact .inr <| h.mono hn.allocs le_rfl

include hf ho hi

omit hg in
theorem nested_pages_ne_base (hr : r ∈ q :: tablePages p h (readTree s₂.mem p h q)) : r ≠ base := by
  rintro rfl
  cases nested_pages hn hs hr
  case inl h => exact ho.base_not_mem <| slot_mem_tablePages hi h
  case inr h => exact hf.not_allocated h ho.root

-- Writing the table descriptor attaches the filled table to the slot.
theorem nested_slot : readTree (s₂.mem.write (base + 8 * i) (tableDescriptor g q)) p (h + 1) base i =
    .table (tableDescriptor g q) (readTree s₂.mem p h q) := by
  have hp : 3 ≤ p := by have := hg.lo; omega
  have hd := hf.dvd_allocated hs.owned.root
  have hb := tableDescriptor_testBit hg.toGranule (q := q) (i := 1) le_rfl
  have hz : tableDescriptor g q ≠ 0 := by
    intro h
    simp [h] at hb
  rw [readTree_eq_decode hi, Memory.write_same, decode, if_neg hz, if_pos hb,
    tableDescriptor_slice hg.toGranule, slice_low hg.toGranule hd hn.low]
  congr 1
  apply readTree_congr hp
  rintro a ⟨r, hr, ha⟩
  apply Memory.write_ne
  rintro rfl
  have hra : Allocated pf s₂.allocs r := by
    cases hr
    case head => exact hs.owned.root
    case tail hr => exact hs.owned.pages r hr
  exact hf.disjoint hra ho.root (nested_pages_ne_base hf ho hn hs hi hr) ha (inPage_entry hp hi)

theorem slotChanged_table :
    SlotChanged pf p s (s₂.write (base + 8 * i) (tableDescriptor g q)) (h + 1) base i := by
  have hd := hf.dvd_allocated hs.owned.root
  have hslot := nested_slot hg hf ho hn hs hi
  have hslice : Bits.slice 47 p (tableDescriptor g q) = q := by
    rw [tableDescriptor_slice hg.toGranule, slice_low hg.toGranule hd hn.low]
  have hmem : ∀ {r}, r ∈ (readTree (s₂.mem.write (base + 8 * i) (tableDescriptor g q)) p (h + 1) base
      i).pages p (h + 1) → r ∈ q :: tablePages p h (readTree s₂.mem p h q) := by
    intro r hr
    rw [hslot, mem_pages_table, hslice] at hr
    exact List.mem_cons.mpr hr.symm
  refine ⟨hi, hn.allocs.trans hs.allocs, hs.freed.trans hn.freed, ?nodup, ?pages, ?low, ?frame⟩
  case nodup =>
    simp only [State.write]
    rw [hslot, nodup_pages_table, hslice]
    exact hs.owned.nodup
  case pages => exact fun r hr => nested_pages hn hs (hmem hr)
  case low =>
    intro r hr
    cases hmem hr
    case head => exact hn.low
    case tail hr => exact hs.owned.low r hr
  case frame =>
    intro a hne ha hfr
    have hn₁ : ∀ r, Fresh pf s.allocs s₁.allocs r → ¬InPage p r a :=
      fun r hr => hfr r <| hr.mono le_rfl hs.allocs
    simp only [State.write]
    rw [Memory.write_ne hne, hs.frame a ?_ (fun r hr => hfr r <| hr.mono hn.allocs le_rfl),
      hn.frame a hn₁]
    exact fun r hr => (hn.pages r hr).elim (ha r) (hn₁ r)

end

-- The word of a block or page descriptor leaves no pages below the slot.
theorem slotChanged_leaf (hi : i < 2 ^ (p - 3)) (hw : h = 0 ∨ w.testBit 1 = false) :
    SlotChanged pf p s (s.write (base + 8 * i) w) h base i := by
  have hpg : (readTree (s.write (base + 8 * i) w).mem p h base i).pages p h = [] := by
    simp only [State.write]
    rw [readTree_eq_decode hi, Memory.write_same]
    cases h
    case zero => simp only [decode]; split <;> simp
    case succ =>
      have hw := hw.resolve_left (by simp)
      simp only [decode, hw]
      split <;> simp
  refine ⟨hi, le_rfl, rfl, by simp [hpg], by simp [hpg], by simp [hpg], ?_⟩
  intro a hne _ _
  exact Memory.write_ne hne

-- The calls of the allocator during a successful fill.
theorem fillFrom_allocs_le (hf : fillFrom pf g md fuel tt ia oa s = some (0, s')) :
    s.allocs ≤ s'.allocs := by
  induction fuel generalizing tt ia oa s s'
  case zero => simp [fillFrom] at hf
  case succ fuel ih =>
    rcases fillFrom_success_iff.mp hf with ⟨_, rfl⟩ | ⟨_, s₁, hv, hr⟩
    case inl => exact le_rfl
    case inr =>
      refine le_trans ?_ (ih hr)
      cases hv
      case page | block => exact le_rfl
      case table hn hf =>
        have := ih hf
        rcases nextTable_cases hn with ⟨_, _, _, rfl⟩ | ⟨_, _, _, rfl⟩
        all_goals simp only [State.write] at *; omega

-- The pages handed out by the calls from `m` up to `n` lie below 4 GB.
def LowPages (pf : Platform) (m n : Nat) : Prop :=
  ∀ k, m ≤ k → k < n → pf.page k < 2 ^ 32

theorem LowPages.mono (hl : LowPages pf m n) (hm : m ≤ m') (hn : n' ≤ n) : LowPages pf m' n' :=
  fun k h₁ h₂ => hl k (hm.trans h₁) (h₂.trans_le hn)

section

variable {pf : Platform} {g : Globals} {p : Nat} {md : MemoryRegionDescriptor}
  (hg : CreateGranule g p) (hf : PageAllocator pf p) (ha : md.attributes.testBit 1 = false)

include hg

theorem nextTable_spec (ho : Owned pf p s (h + 1) base) (hi : i < 2 ^ (p - 3))
    (hn : s.nextTable pf g (s.mem (base + 8 * i)) = (some q, s₁))
    (hl : LowPages pf s.allocs s₁.allocs) : NextTable pf p s s₁ h base i q := by
  rcases nextTable_cases hn with ⟨_, rfl, hz, rfl⟩ | ⟨hw, hb, rfl, rfl⟩
  case inl => exact nextTable_fresh hg hz <| hl _ le_rfl (Nat.lt_succ_self _)
  case inr => exact nextTable_existing hg ho hi hw hb

include hf ha

theorem visit_slotChanged (hv : Visit pf g md fuel tt ia oa s s') (ht : tt.At p h nbits base top)
    (ho : Owned pf p s h base) (hl : LowPages pf s.allocs s'.allocs)
    (ih : ∀ {tt h nbits base top s s'}, fillFrom pf g md fuel tt ia oa s = some (0, s') →
      tt.At p h nbits base top → Owned pf p s h base → LowPages pf s.allocs s'.allocs →
      Grown pf p s s' h base) :
    SlotChanged pf p s s' h base (slotIndex p h nbits ia) := by
  have hi : slotIndex p h nbits ia < 2 ^ (p - 3) := ht.slotIndex_lt
  cases hv
  case page h3' =>
    exact ht.tableDesc_eq ▸ slotChanged_leaf hi (.inl <| (ht.level_eq_three_iff hg.lo).mp h3')
  case block h3' he =>
    obtain ⟨h, rfl⟩ := ht.exists_height hg.lo h3'
    rw [ht.tableDesc_eq, blockDescriptor_eq ht.blockSize_eq]
    exact slotChanged_leaf hi (.inr <| blockWord_testBit_one hg.lo ht.size_lt ha)
  case table base' s₁ s₂ h3' he hn hf' =>
    obtain ⟨h, rfl⟩ := ht.exists_height hg.lo h3'
    have hl : LowPages pf s.allocs s₂.allocs := hl
    rw [ht.tableDesc_eq] at hn ⊢
    have hnt := nextTable_spec hg ho hi hn <| hl.mono le_rfl (fillFrom_allocs_le hf')
    have hgr := ih hf' (ht.nextLevel hg.toGranule) hnt.owned <| hl.mono hnt.allocs le_rfl
    exact slotChanged_table hg hf ho hnt hgr hi

-- The run lemma: from slot to slot the table stays a tree of allocated pages.
theorem fillFrom_grown (hr : fillFrom pf g md fuel tt ia oa s = some (0, s'))
    (ht : tt.At p h nbits base top) (ho : Owned pf p s h base)
    (hl : LowPages pf s.allocs s'.allocs) : Grown pf p s s' h base := by
  induction fuel generalizing tt ia oa s s' h nbits base top
  case zero => simp [fillFrom] at hr
  case succ fuel ih =>
    rcases fillFrom_success_iff.mp hr with ⟨_, rfl⟩ | ⟨_, s₁, hv, hr⟩
    case inl => exact .refl ho
    case inr =>
      have hl₁ := hl.mono le_rfl (fillFrom_allocs_le hr)
      have h₁ := (visit_slotChanged hg hf ha hv ht ho hl₁ ih).grown (by have := hg.lo; omega) hf ho
      exact h₁.trans <| ih hr ht h₁.owned <| hl.mono h₁.allocs le_rfl

end

end Pgt
