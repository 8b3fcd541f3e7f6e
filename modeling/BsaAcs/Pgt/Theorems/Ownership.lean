import BsaAcs.Pgt.Theorems.Pages

namespace Pgt

-- The contract of the page allocator: pages are aligned to their size, and no page is handed out
-- twice.
structure PageAllocator (pf : Platform) (p : Nat) : Prop where
  aligned : ∀ k, 2 ^ p ∣ pf.page k
  fresh   : ∀ j k, pf.page j = pf.page k → pf.page j ≠ 0 → j = k

-- The page was handed out by one of the calls before `n`.
def Allocated (pf : Platform) (n q : Nat) : Prop :=
  ∃ k < n, q = pf.page k ∧ q ≠ 0

-- The page was handed out by one of the calls from `m` up to `n`.
def Fresh (pf : Platform) (m n q : Nat) : Prop :=
  ∃ k, m ≤ k ∧ k < n ∧ q = pf.page k ∧ q ≠ 0

theorem Allocated.mono (h : Allocated pf m q) (hle : m ≤ n) : Allocated pf n q :=
  have ⟨k, hk, e⟩ := h
  ⟨k, hk.trans_le hle, e⟩

theorem Fresh.allocated (h : Fresh pf m n q) : Allocated pf n q :=
  have ⟨k, _, hk, e⟩ := h
  ⟨k, hk, e⟩

theorem Fresh.mono (h : Fresh pf m n q) (hm : m' ≤ m) (hn : n ≤ n') : Fresh pf m' n' q :=
  have ⟨k, hk₁, hk₂, e⟩ := h
  ⟨k, hm.trans hk₁, hk₂.trans_le hn, e⟩

namespace PageAllocator

variable (hf : PageAllocator pf p)

include hf

theorem not_allocated (h : Fresh pf m n q) : ¬Allocated pf m q := by
  rintro ⟨j, hj, e, hz⟩
  obtain ⟨k, hk, _, e', _⟩ := h
  have := hf.fresh j k (e ▸ e') (e ▸ hz)
  omega

theorem dvd_allocated (h : Allocated pf n q) : 2 ^ p ∣ q := by
  obtain ⟨k, _, rfl, _⟩ := h
  exact hf.aligned k

-- Two different allocated pages have no word in common.
theorem disjoint (hq : Allocated pf n q) (hr : Allocated pf m r) (hne : q ≠ r) (ha : InPage p q a) :
    ¬InPage p r a :=
  fun h => hne <| ha.unique (hf.dvd_allocated hq) (hf.dvd_allocated hr) h

end PageAllocator

-- The table at `base` is a tree of allocated pages, none of which occurs twice in it. The pages
-- below the root are small enough for the 32-bit mask in their table descriptors.
structure Owned (pf : Platform) (p : Nat) (s : State) (h base : Nat) : Prop where
  nodup  : (base :: tablePages p h (readTree s.mem p h base)).Nodup
  root   : Allocated pf s.allocs base
  pages  : ∀ q ∈ tablePages p h (readTree s.mem p h base), Allocated pf s.allocs q
  low    : ∀ q ∈ tablePages p h (readTree s.mem p h base), q < 2 ^ 32

-- What a successful fill of the table at `base` does to the pages: it writes only the pages of the
-- table and new ones, and the table consists of pages of these two kinds.
structure Grown (pf : Platform) (p : Nat) (s s' : State) (h base : Nat) : Prop where
  allocs : s.allocs ≤ s'.allocs
  freed  : s'.freed = s.freed
  owned  : Owned pf p s' h base
  pages  : ∀ q ∈ tablePages p h (readTree s'.mem p h base),
    q ∈ tablePages p h (readTree s.mem p h base) ∨ Fresh pf s.allocs s'.allocs q
  frame  : ∀ a, (∀ q ∈ base :: tablePages p h (readTree s.mem p h base), ¬InPage p q a) →
    (∀ q, Fresh pf s.allocs s'.allocs q → ¬InPage p q a) → s'.mem a = s.mem a

theorem Grown.refl (ho : Owned pf p s h base) : Grown pf p s s h base where
  allocs := le_rfl
  freed  := rfl
  owned  := ho
  pages  := fun _ hq => .inl hq
  frame  := fun _ _ _ => rfl

theorem Grown.trans (h₁ : Grown pf p s₁ s₂ h base) (h₂ : Grown pf p s₂ s₃ h base) :
    Grown pf p s₁ s₃ h base where
  allocs := h₁.allocs.trans h₂.allocs
  freed  := h₂.freed.trans h₁.freed
  owned  := h₂.owned
  pages  := by
    intro q hq
    cases h₂.pages q hq
    case inl h => exact (h₁.pages q h).imp id (·.mono le_rfl h₂.allocs)
    case inr h => exact .inr <| h.mono h₁.allocs le_rfl
  frame  := by
    intro a hp hf
    have hf₁ : ∀ q, Fresh pf s₁.allocs s₂.allocs q → ¬InPage p q a :=
      fun q hq => hf q (hq.mono le_rfl h₂.allocs)
    rw [h₂.frame a ?pages (fun q hq => hf q <| hq.mono h₁.allocs le_rfl), h₁.frame a hp hf₁]
    intro q hq
    cases hq
    case head => exact hp base List.mem_cons_self
    case tail hq => exact (h₁.pages q hq).elim (fun h => hp q <| List.mem_cons_of_mem _ h) (hf₁ q)

theorem Owned.base_not_mem (ho : Owned pf p s h base) :
    base ∉ tablePages p h (readTree s.mem p h base) :=
  (List.nodup_cons.mp ho.nodup).left

theorem Owned.slots (ho : Owned pf p s h base) :
    (∀ i < 2 ^ (p - 3), ((readTree s.mem p h base i).pages p h).Nodup) ∧
    (∀ i < 2 ^ (p - 3), ∀ j < 2 ^ (p - 3), i ≠ j → ∀ q ∈ (readTree s.mem p h base i).pages p h,
      q ∉ (readTree s.mem p h base j).pages p h) :=
  nodup_tablePages_iff.mp (List.nodup_cons.mp ho.nodup).right

-- One slot of the table has changed, together with the pages below it and new pages.
structure SlotChanged (pf : Platform) (p : Nat) (s s' : State) (h base i : Nat) : Prop where
  bound  : i < 2 ^ (p - 3)
  allocs : s.allocs ≤ s'.allocs
  freed  : s'.freed = s.freed
  nodup  : ((readTree s'.mem p h base i).pages p h).Nodup
  pages  : ∀ q ∈ (readTree s'.mem p h base i).pages p h,
    q ∈ (readTree s.mem p h base i).pages p h ∨ Fresh pf s.allocs s'.allocs q
  low    : ∀ q ∈ (readTree s'.mem p h base i).pages p h, q < 2 ^ 32
  frame  : ∀ a, a ≠ base + 8 * i → (∀ q ∈ (readTree s.mem p h base i).pages p h, ¬InPage p q a) →
    (∀ q, Fresh pf s.allocs s'.allocs q → ¬InPage p q a) → s'.mem a = s.mem a

namespace SlotChanged

variable (hp : 3 ≤ p) (hf : PageAllocator pf p) (ho : Owned pf p s h base)
  (hc : SlotChanged pf p s s' h base i)

include hp hf ho hc

-- A word of the table itself, or of a page below another slot, is as it was.
theorem other_word (hj : j < 2 ^ (p - 3)) (hne : j ≠ i) : s'.mem (base + 8 * j) = s.mem (base + 8 * j) := by
  have hb := inPage_entry (q := base) hp hj
  apply hc.frame _ (by omega)
  · intro q hq
    have hq := slot_mem_tablePages hc.bound hq
    exact hf.disjoint ho.root (ho.pages q hq) (fun e => ho.base_not_mem (e ▸ hq)) hb
  · intro q hq
    exact hf.disjoint ho.root hq.allocated (fun e => hf.not_allocated hq (e ▸ ho.root)) hb

theorem other_page (hj : j < 2 ^ (p - 3)) (hne : j ≠ i)
    (hr : r ∈ (readTree s.mem p h base j).pages p h) (ha : InPage p r a) : s'.mem a = s.mem a := by
  have hrt := slot_mem_tablePages hj hr
  have hra := ho.pages r hrt
  apply hc.frame a
  · rintro rfl
    exact hf.disjoint hra ho.root (fun e => ho.base_not_mem (e ▸ hrt)) ha (inPage_entry hp hc.bound)
  · intro q hq
    refine hf.disjoint hra (ho.pages q <| slot_mem_tablePages hc.bound hq) (fun e => ?_) ha
    exact ho.slots.right j hj i hc.bound hne r hr (e ▸ hq)
  · intro q hq
    exact hf.disjoint hra hq.allocated (fun e => hf.not_allocated hq (e ▸ hra)) ha

theorem other_slot (hne : j ≠ i) : readTree s'.mem p h base j = readTree s.mem p h base j := by
  by_cases hj : j < 2 ^ (p - 3)
  case neg => simp only [readTree_of_le (Nat.not_lt.mp hj)]
  case pos =>
    rw [readTree_eq_decode hj, readTree_eq_decode hj, hc.other_word hp hf ho hj hne]
    apply decode_congr hp
    rintro a ⟨q, hq, ha⟩
    exact hc.other_page hp hf ho hj hne (readTree_eq_decode hj ▸ hq) ha

theorem mem_tablePages_or_fresh (hq : q ∈ tablePages p h (readTree s'.mem p h base)) :
    q ∈ tablePages p h (readTree s.mem p h base) ∨ Fresh pf s.allocs s'.allocs q := by
  obtain ⟨j, hj, hq⟩ := mem_tablePages.mp hq
  by_cases hji : j = i
  case pos =>
    subst hji
    exact (hc.pages q hq).imp (slot_mem_tablePages hc.bound) id
  case neg =>
    rw [hc.other_slot hp hf ho hji] at hq
    exact .inl <| mem_tablePages.mpr ⟨j, hj, hq⟩

theorem slots_disjoint (hj : j < 2 ^ (p - 3)) (hne : j ≠ i)
    (hq : q ∈ (readTree s'.mem p h base i).pages p h) :
    q ∉ (readTree s'.mem p h base j).pages p h := by
  rw [hc.other_slot hp hf ho hne]
  cases hc.pages q hq
  case inl h => exact ho.slots.right i hc.bound j hj hne.symm q h
  case inr h => exact fun hq => hf.not_allocated h <| ho.pages q (mem_tablePages.mpr ⟨j, hj, hq⟩)

theorem owned : Owned pf p s' h base where
  root  := ho.root.mono hc.allocs
  pages := by
    intro q hq
    cases hc.mem_tablePages_or_fresh hp hf ho hq
    case inl h => exact (ho.pages q h).mono hc.allocs
    case inr h => exact h.allocated
  low   := by
    intro q hq
    obtain ⟨j, hj, hq⟩ := mem_tablePages.mp hq
    by_cases hji : j = i
    case pos => exact hc.low q (hji ▸ hq)
    case neg => exact ho.low q <| mem_tablePages.mpr ⟨j, hj, hc.other_slot hp hf ho hji ▸ hq⟩
  nodup := by
    refine List.nodup_cons.mpr ⟨?base, nodup_tablePages_iff.mpr ⟨?each, ?pairs⟩⟩
    case base =>
      intro hb
      cases hc.mem_tablePages_or_fresh hp hf ho hb
      case inl h => exact ho.base_not_mem h
      case inr h => exact hf.not_allocated h ho.root
    case each =>
      intro j hj
      by_cases hji : j = i
      case pos => exact hji ▸ hc.nodup
      case neg => exact hc.other_slot hp hf ho hji ▸ ho.slots.left j hj
    case pairs =>
      intro j hj k hk hne q hq
      by_cases hji : j = i
      case pos => exact hc.slots_disjoint hp hf ho hk (hji ▸ hne.symm) (hji ▸ hq)
      case neg =>
        by_cases hki : k = i
        case pos => exact fun h => hc.slots_disjoint hp hf ho hj hji (hki ▸ h) hq
        case neg =>
          rw [hc.other_slot hp hf ho hji] at hq
          rw [hc.other_slot hp hf ho hki]
          exact ho.slots.right j hj k hk hne q hq

theorem grown : Grown pf p s s' h base where
  allocs := hc.allocs
  freed  := hc.freed
  owned  := hc.owned hp hf ho
  pages  := fun _ hq => hc.mem_tablePages_or_fresh hp hf ho hq
  frame  := by
    intro a hq hn
    apply hc.frame a ?_ (fun q h => hq q <| List.mem_cons_of_mem _ <| slot_mem_tablePages hc.bound h) hn
    rintro rfl
    exact hq base List.mem_cons_self <| inPage_entry hp hc.bound

end SlotChanged

end Pgt
