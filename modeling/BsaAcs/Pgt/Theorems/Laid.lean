import BsaAcs.Pgt.Theorems.Ending

namespace Pgt

-- The tables on the way of one address after a first pass over a region that is no longer than the
-- root table. Every table is new then, so that no descriptor is read back through the mask.

-- The descriptor at the address `a` of a table leads to the tables `qs`, one after the other, and
-- by the last of them to the end `e` of the walk for `v`.
inductive Leads (mem : Memory) (g : Globals) (p v : Nat) : Nat → Nat → List Nat → Nat × Nat → Prop
  | ends : Leads mem g p v h a [] (h, mem a)
  | goes (hw : mem a = tableDescriptor g q) (hl : Leads mem g p v h (q + 8 * slotIndex p h (p - 3) v) qs e) :
    Leads mem g p v (h + 1) a (q :: qs) e

theorem Leads.ends_of_eq (hw : mem a = w) : Leads mem g p v h a [] (h, w) :=
  hw ▸ .ends

-- It depends on the descriptor and on the tables only.
theorem Leads.congr (hp : 3 ≤ p) (hl : Leads m g p v h a qs e) (ha : m' a = m a)
    (hq : ∀ q ∈ qs, ∀ x, InPage p q x → m' x = m x) : Leads m' g p v h a qs e := by
  induction hl
  case ends => exact .ends_of_eq ha
  case goes hw _ ih =>
    refine .goes (ha.trans hw) (ih ?_ fun r hr => hq r (List.mem_cons_of_mem _ hr))
    exact hq _ List.mem_cons_self _ (inPage_entry hp slotIndex_lt)

-- The sum over the stops of the loop.
def sumStops (p h : Nat) (f : Nat → Nat) (ia top : Nat) : Nat :=
  ((List.range ((top - ia + blockBytes p h - 1) / blockBytes p h)).map fun k => f (ia + k * blockBytes p h)).sum

section Stops

variable {p h ia top : Nat} {f : Nat → Nat}

theorem sumStops_done (hge : ¬ia < top) : sumStops p h f ia top = 0 := by
  rw [sumStops, stops_done blockBytes_pos hge]
  rfl

theorem sumStops_next (hlt : ia < top) :
    sumStops p h f ia top = f ia + sumStops p h f (ia + blockBytes p h) top := by
  rw [sumStops, stops_next blockBytes_pos hlt, List.range_succ_eq_map, List.map_cons, List.sum_cons, List.map_map,
    Nat.zero_mul, Nat.add_zero, sumStops]
  congr 3
  funext k
  rw [Function.comp, Nat.succ_mul, Nat.add_comm (k * _), Nat.add_assoc]

-- The stops before a stop and the stop itself are among those of the whole range.
theorem sumStops_visit (hx : Visits p h ia top x) : sumStops p h f ia x + f x ≤ sumStops p h f ia top := by
  obtain ⟨k, rfl, hlt⟩ := hx
  induction k generalizing ia
  case zero =>
    rw [Nat.zero_mul, Nat.add_zero] at hlt ⊢
    rw [sumStops_done (Nat.lt_irrefl _), sumStops_next hlt]
    omega
  case succ k ih =>
    have hpos := blockBytes_pos (p := p) (h := h)
    rw [Nat.succ_mul, Nat.add_comm (k * _), ←Nat.add_assoc] at hlt ⊢
    have hrest := ih hlt
    have hfirst : sumStops p h f ia top = _ := sumStops_next (by omega)
    have hbefore : sumStops p h f ia (ia + blockBytes p h + k * blockBytes p h) = _ := sumStops_next (by omega)
    omega

end Stops

-- What the loop has for `v`: that of the stop at its slot, which comes after the earlier stops.
def wayCalls (p h nbits top v : Nat) (f : Nat → Nat) (calls : Nat → Nat → List Nat) (ia m : Nat) : List Nat :=
  let x := stopOf p h nbits ia v
  if x < top then calls x (m + sumStops p h f ia x) else []

section Tables

variable (p : Nat) (out : Nat → Nat)

-- The number of tables that a turn of the loop takes, if the slot is empty.
def tables : Nat → Nat → Nat → Nat
  | 0, _, _ => 0
  | h + 1, top, ia =>
    if Eligible p out (h + 1) ia top then 0
    else
      let top := min top (ia + blockBytes p (h + 1) - 1)
      1 + sumStops p h (tables h top) ia top

-- The calls of the allocator that return the tables on the way of `v`, if that turn starts at call `m`.
def tableCalls (v : Nat) : Nat → Nat → Nat → Nat → List Nat
  | 0, _, _, _ => []
  | h + 1, top, ia, m =>
    if Eligible p out (h + 1) ia top then []
    else
      let top := min top (ia + blockBytes p (h + 1) - 1)
      m :: wayCalls p h (p - 3) top v (tables p out h top) (tableCalls v h top) ia (m + 1)

end Tables

theorem wayCalls_bounds {f : Nat → Nat} {calls : Nat → Nat → List Nat}
    (hk : k ∈ wayCalls p h nbits top v f calls ia m) (hc : ∀ x m, k ∈ calls x m → m ≤ k ∧ k < m + f x) :
    m ≤ k ∧ k < m + sumStops p h f ia top := by
  rw [wayCalls] at hk
  split at hk
  case isFalse => cases hk
  case isTrue hlt =>
    have := hc _ _ hk
    have := sumStops_visit (f := f) (visits_stopOf hlt)
    omega

theorem tableCalls_bounds (hk : k ∈ tableCalls p out v h top ia m) : m ≤ k ∧ k < m + tables p out h top ia := by
  induction h generalizing top ia m
  case zero => cases hk
  case succ h ih =>
    rw [tableCalls] at hk
    rw [tables]
    split at hk
    case isTrue => cases hk
    case isFalse he =>
      rw [if_neg he]
      dsimp only
      rcases List.mem_cons.mp hk with rfl | hk
      case inl => omega
      case inr =>
        have := wayCalls_bounds hk fun _ _ => ih
        omega

-- What one turn of the loop does to an empty slot, told for the addresses of the slot.
structure SlotLaid (pf : Platform) (g : Globals) (p attributes : Nat) (out : Nat → Nat) (h nbits ia top base : Nat)
    (s s' : State) : Prop where
  allocs : s'.allocs = s.allocs + tables p out h top ia
  given  : ∀ k, s.allocs ≤ k → k < s'.allocs → pf.page k ≠ 0
  frame  : ∀ a, a ≠ base + 8 * slotIndex p h nbits ia → (∀ q, Fresh pf s.allocs s'.allocs q → ¬InPage p q a) →
    s'.mem a = s.mem a
  leads  : ∀ v, Leads s'.mem g p v h (base + 8 * slotIndex p h nbits ia)
    ((tableCalls p out v h top ia s.allocs).map pf.page) (refill g p attributes out h top v ia (h, 0))

-- What the loop does, if it comes to no slot twice.
structure Laid (pf : Platform) (g : Globals) (p attributes : Nat) (out : Nat → Nat) (h nbits ia top base : Nat)
    (s s' : State) : Prop where
  allocs : s'.allocs = s.allocs + sumStops p h (tables p out h top) ia top
  given  : ∀ k, s.allocs ≤ k → k < s'.allocs → pf.page k ≠ 0
  frame  : ∀ a, (∀ x, Visits p h ia top x → a ≠ base + 8 * slotIndex p h nbits x) →
    (∀ q, Fresh pf s.allocs s'.allocs q → ¬InPage p q a) → s'.mem a = s.mem a
  leads  : ∀ v x, Visits p h ia top x → Leads s'.mem g p v h (base + 8 * slotIndex p h nbits x)
    ((tableCalls p out v h top x (s.allocs + sumStops p h (tables p out h top) ia x)).map pf.page)
    (refill g p attributes out h top v x (h, 0))

section

variable {pf : Platform} {g : Globals} {p a : Nat} {out : Nat → Nat} (hf : PageAllocator pf p) (hp : 3 ≤ p)

theorem Laid.done (hge : ¬ia < top) : Laid pf g p a out h nbits ia top base s s where
  allocs := by rw [sumStops_done hge, Nat.add_zero]
  given  := fun k h₁ h₂ => absurd h₂ (Nat.not_lt.mpr h₁)
  frame  := fun _ _ _ => rfl
  leads  := fun _ _ hx => absurd (hx.le.trans_lt hx.lt) hge

include hf hp

-- A new page has no word of the table itself, and none of another new page.
omit hp in
theorem fresh_disjoint (hq : Fresh pf l m q) (hr : Fresh pf m n r) (ha : InPage p q x) : ¬InPage p r x :=
  hf.disjoint hq.allocated hr.allocated (fun e => hf.not_allocated hr (e ▸ hq.allocated)) ha

omit hp in
theorem base_disjoint (hb : Allocated pf m base) (hr : Fresh pf m n r) (ha : InPage p base x) : ¬InPage p r x :=
  hf.disjoint hb hr.allocated (fun e => hf.not_allocated hr (e ▸ hb)) ha

-- The turns of the loop do not get into each other's way.
theorem Laid.turn (hs : SlotLaid pf g p a out h nbits ia top base s s₁)
    (hr : Laid pf g p a out h nbits (ia + blockBytes p h) top base s₁ s') (hlt : ia < top)
    (hk : top ≤ ia + 2 ^ nbits * blockBytes p h) (hn : nbits ≤ p - 3) (hb : Allocated pf s.allocs base) :
    Laid pf g p a out h nbits ia top base s s' := by
  have hle₁ : s.allocs ≤ s₁.allocs := hs.allocs ▸ Nat.le_add_right ..
  have hle₂ : s₁.allocs ≤ s'.allocs := hr.allocs ▸ Nat.le_add_right ..
  have hidx : ∀ x, slotIndex p h nbits x < 2 ^ (p - 3) :=
    fun x => slotIndex_lt.trans_le <| Nat.pow_le_pow_right (by omega) hn
  constructor
  case allocs =>
    rw [hr.allocs, hs.allocs, sumStops_next hlt, Nat.add_assoc]
  case given =>
    intro k h₁ h₂
    by_cases hk : k < s₁.allocs
    case pos => exact hs.given k h₁ hk
    case neg => exact hr.given k (by omega) h₂
  case frame =>
    intro x hx hq
    rw [hr.frame x (fun y hy => hx y hy.tail) fun q hq' => hq q (hq'.mono hle₁ le_rfl)]
    exact hs.frame x (hx ia (.first hlt)) fun q hq' => hq q (hq'.mono le_rfl hle₂)
  case leads =>
    intro v x hx
    rcases hx.cases with ⟨rfl, _⟩ | hx'
    case inr =>
      have := hx'.le
      have := blockBytes_pos (p := p) (h := h)
      rw [sumStops_next (by omega), ←Nat.add_assoc, ←hs.allocs]
      exact hr.leads v x hx'
    case inl =>
      rw [sumStops_done (Nat.lt_irrefl x), Nat.add_zero]
      refine (hs.leads v).congr hp (hr.frame _ ?_ ?_) ?_
      case refine_1 =>
        intro y hy he
        have := hx.unique hk hy.tail (by omega)
        have := hy.le
        have := blockBytes_pos (p := p) (h := h)
        omega
      case refine_2 =>
        exact fun q hq => base_disjoint hf (hb.mono hle₁) hq (inPage_entry hp (hidx x))
      case refine_3 =>
        intro q hq y hy
        obtain ⟨k, hk, rfl⟩ := List.mem_map.mp hq
        obtain ⟨h₁, h₂⟩ := tableCalls_bounds hk
        have h₂ : k < s₁.allocs := hs.allocs ▸ h₂
        have hfr : Fresh pf s.allocs s₁.allocs (pf.page k) := ⟨k, h₁, h₂, rfl, hs.given k h₁ h₂⟩
        refine hr.frame y ?_ fun r hr => fresh_disjoint hf hfr hr hy
        rintro z _ rfl
        exact base_disjoint hf hb hfr (inPage_entry hp (hidx z)) hy

-- Where the walk for `v` leads after the loop, if its slot was empty before.
theorem Laid.way (hl : Laid pf g p a out h nbits ia top base s s') (hk : top ≤ ia + 2 ^ nbits * blockBytes p h)
    (hn : nbits ≤ p - 3) (hb : Allocated pf s.allocs base) (hz : s.mem (base + 8 * slotIndex p h nbits v) = 0) :
    Leads s'.mem g p v h (base + 8 * slotIndex p h nbits v) ((wayCalls p h nbits top v (tables p out h top)
      (tableCalls p out v h top) ia s.allocs).map pf.page)
      (sweep p h nbits top v (refill g p a out h top v) ia (h, 0)) := by
  rw [sweep_single hk, wayCalls]
  by_cases hlt : stopOf p h nbits ia v < top
  case pos =>
    simp only [if_pos hlt]
    have hs := hl.leads v _ (visits_stopOf hlt)
    rwa [slotIndex_stopOf] at hs
  case neg =>
    simp only [if_neg hlt]
    have hi : slotIndex p h nbits v < 2 ^ (p - 3) := slotIndex_lt.trans_le <| Nat.pow_le_pow_right (by omega) hn
    refine .ends_of_eq ((hl.frame _ ?_ ?_).trans hz)
    case refine_1 =>
      intro x hx he
      exact hlt <| (stopOf_le hx (by omega)).trans_lt hx.lt
    case refine_2 => exact fun q hq => base_disjoint hf hb hq (inPage_entry hp hi)

end

section Fill

variable {pf : Platform} {g : Globals} {p : Nat} {md : MemoryRegionDescriptor} (hg : CreateGranule g p)
  (hf : PageAllocator pf p)

include hg hf

end Fill

end Pgt
