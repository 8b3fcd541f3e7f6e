import BsaAcs.Pgt.Attributes
import BsaAcs.Pgt.Theorems.Refine

namespace Pgt

-- Where the walk for an address ends, told from the region alone. Of all the turns of the loops only
-- those matter that stop at a slot on the way of the address.

-- The first address from `ia` on at which the loop over a table comes to the slot of `v`.
def stopOf (p h nbits ia v : Nat) : Nat :=
  ia + (slotIndex p h nbits v + 2 ^ nbits - slotIndex p h nbits ia) % 2 ^ nbits * blockBytes p h

-- What the stops at that slot do one after the other. They are a whole table apart.
def sweep (p h nbits top v : Nat) (visit : Nat → α → α) (ia : Nat) (e : α) : α :=
  let x := stopOf p h nbits ia v
  let span := 2 ^ nbits * blockBytes p h
  (List.range ((top - x + span - 1) / span)).foldl (fun e k => visit (x + k * span) e) e

section Sweep

variable {p h nbits ia top v : Nat} {visit : Nat → α → α} {e : α}

theorem le_stopOf : ia ≤ stopOf p h nbits ia v :=
  Nat.le_add_right ..

theorem slotIndex_next : slotIndex p h nbits (ia + blockBytes p h) = (slotIndex p h nbits ia + 1) % 2 ^ nbits := by
  rw [slotIndex, slotIndex, Nat.add_div_right _ blockBytes_pos, Nat.mod_add_mod]

theorem stopOf_self (hi : slotIndex p h nbits ia = slotIndex p h nbits v) : stopOf p h nbits ia v = ia := by
  rw [stopOf, hi, Nat.add_sub_cancel_left, Nat.mod_self, Nat.zero_mul, Nat.add_zero]

-- After the slot has been passed, the loop comes back to it after a whole table.
theorem stopOf_next_self (hi : slotIndex p h nbits ia = slotIndex p h nbits v) :
    stopOf p h nbits (ia + blockBytes p h) v = ia + 2 ^ nbits * blockBytes p h := by
  have hv : slotIndex p h nbits v < 2 ^ nbits := slotIndex_lt
  have hk : (slotIndex p h nbits v + 2 ^ nbits - slotIndex p h nbits (ia + blockBytes p h)) % 2 ^ nbits =
      2 ^ nbits - 1 := by
    rw [slotIndex_next, hi]
    by_cases hlast : slotIndex p h nbits v + 1 = 2 ^ nbits
    case pos =>
      rw [hlast, Nat.mod_self, Nat.sub_zero, Nat.add_mod_right, Nat.mod_eq_of_lt hv]
      omega
    case neg =>
      rw [Nat.mod_eq_of_lt (a := slotIndex p h nbits v + 1) (by omega), Nat.mod_eq_of_lt (by omega)]
      omega
  rw [stopOf, hk, Nat.sub_mul, Nat.one_mul]
  have := Nat.le_mul_of_pos_left (blockBytes p h) (Nat.two_pow_pos nbits)
  omega

theorem stopOf_next (hi : slotIndex p h nbits ia ≠ slotIndex p h nbits v) :
    stopOf p h nbits (ia + blockBytes p h) v = stopOf p h nbits ia v := by
  have hv : slotIndex p h nbits v < 2 ^ nbits := slotIndex_lt
  have hia : slotIndex p h nbits ia < 2 ^ nbits := slotIndex_lt
  rw [stopOf, stopOf, slotIndex_next]
  generalize slotIndex p h nbits v = i at *
  generalize slotIndex p h nbits ia = j at *
  -- The loop comes one slot closer.
  have hk : (i + 2 ^ nbits - j) % 2 ^ nbits = (i + 2 ^ nbits - (j + 1) % 2 ^ nbits) % 2 ^ nbits + 1 := by
    by_cases hlast : j + 1 = 2 ^ nbits
    case pos =>
      rw [hlast, Nat.mod_self, Nat.sub_zero, Nat.add_mod_right, Nat.mod_eq_of_lt hv, Nat.mod_eq_of_lt (by omega)]
      omega
    case neg =>
      rw [Nat.mod_eq_of_lt (a := j + 1) (by omega)]
      by_cases hle : j < i
      case pos =>
        rw [show i + 2 ^ nbits - j = i - j + 2 ^ nbits by omega, show i + 2 ^ nbits - (j + 1) = i - (j + 1) + 2 ^ nbits by omega,
          Nat.add_mod_right, Nat.add_mod_right, Nat.mod_eq_of_lt (by omega), Nat.mod_eq_of_lt (by omega)]
        omega
      case neg =>
        rw [Nat.mod_eq_of_lt (by omega), Nat.mod_eq_of_lt (by omega)]
        omega
  rw [hk, Nat.add_mul, Nat.one_mul]
  omega

theorem slotIndex_stopOf : slotIndex p h nbits (stopOf p h nbits ia v) = slotIndex p h nbits v := by
  have hv : slotIndex p h nbits v < 2 ^ nbits := slotIndex_lt
  have hia : slotIndex p h nbits ia < 2 ^ nbits := slotIndex_lt
  rw [slotIndex, stopOf, Nat.add_mul_div_right _ _ blockBytes_pos, ←Nat.mod_add_mod, ←slotIndex, Nat.add_mod_mod,
    show slotIndex p h nbits ia + (slotIndex p h nbits v + 2 ^ nbits - slotIndex p h nbits ia) =
      slotIndex p h nbits v + 2 ^ nbits by omega, Nat.add_mod_right, Nat.mod_eq_of_lt hv]

theorem visits_stopOf (hlt : stopOf p h nbits ia v < top) : Visits p h ia top (stopOf p h nbits ia v) :=
  ⟨_, rfl, hlt⟩

-- No stop of the loop comes to the slot earlier.
theorem stopOf_le (hx : Visits p h ia top x) (hi : slotIndex p h nbits x = slotIndex p h nbits v) :
    stopOf p h nbits ia v ≤ x := by
  obtain ⟨k, rfl, hlt⟩ := hx
  induction k generalizing ia
  case zero =>
    rw [Nat.zero_mul, Nat.add_zero] at hi ⊢
    exact (stopOf_self hi).le
  case succ k ih =>
    by_cases hia : slotIndex p h nbits ia = slotIndex p h nbits v
    case pos =>
      rw [stopOf_self hia]
      omega
    case neg =>
      rw [Nat.succ_mul, Nat.add_comm (k * _), ←Nat.add_assoc] at hi hlt ⊢
      rw [←stopOf_next hia]
      exact ih hi hlt

-- How many stops of a given distance lie in a range.
theorem stops_done {n : Nat} (hn : 0 < n) (hge : ¬ia < top) : (top - ia + n - 1) / n = 0 := by
  rw [show top - ia = 0 by omega, Nat.zero_add, Nat.div_eq_of_lt (by omega)]

theorem stops_next {n : Nat} (hn : 0 < n) (hlt : ia < top) :
    (top - ia + n - 1) / n = (top - (ia + n) + n - 1) / n + 1 := by
  rw [←Nat.add_div_right _ hn]
  by_cases hle : ia + n ≤ top
  case pos => congr 1; omega
  case neg => rw [Nat.div_eq_of_lt_le (k := 1) (by omega) (by omega), Nat.div_eq_of_lt_le (k := 1) (by omega) (by omega)]

theorem sweep_done (hge : ¬ia < top) : sweep p h nbits top v visit ia e = e := by
  have hx : ia ≤ stopOf p h nbits ia v := le_stopOf
  have hpos : 0 < 2 ^ nbits * blockBytes p h := Nat.mul_pos (Nat.two_pow_pos _) blockBytes_pos
  rw [sweep, stops_done hpos (by omega)]
  rfl

theorem sweep_self (hlt : ia < top) (hi : slotIndex p h nbits ia = slotIndex p h nbits v) :
    sweep p h nbits top v visit ia e = sweep p h nbits top v visit (ia + blockBytes p h) (visit ia e) := by
  have hpos : 0 < 2 ^ nbits * blockBytes p h := Nat.mul_pos (Nat.two_pow_pos _) blockBytes_pos
  simp only [sweep, stopOf_self hi, stopOf_next_self hi]
  generalize 2 ^ nbits * blockBytes p h = span at *
  rw [stops_next hpos hlt, List.range_succ_eq_map, List.foldl_cons, List.foldl_map, Nat.zero_mul, Nat.add_zero]
  congr 1
  funext e k
  rw [Nat.succ_mul, Nat.add_assoc ia span, Nat.add_comm span]

-- If the range is no longer than the table, the loop comes to the slot once at most.
theorem sweep_single (hk : top ≤ ia + 2 ^ nbits * blockBytes p h) : sweep p h nbits top v visit ia e =
    if stopOf p h nbits ia v < top then visit (stopOf p h nbits ia v) e else e := by
  have hx : ia ≤ stopOf p h nbits ia v := le_stopOf
  have hpos : 0 < 2 ^ nbits * blockBytes p h := Nat.mul_pos (Nat.two_pow_pos _) blockBytes_pos
  simp only [sweep]
  generalize 2 ^ nbits * blockBytes p h = span at *
  split
  case isTrue hlt =>
    rw [stops_next hpos hlt, stops_done hpos (by omega)]
    simp [List.range_succ]
  case isFalse hge =>
    rw [stops_done hpos hge]
    rfl

theorem sweep_other (hi : slotIndex p h nbits ia ≠ slotIndex p h nbits v) :
    sweep p h nbits top v visit ia e = sweep p h nbits top v visit (ia + blockBytes p h) e := by
  rw [sweep, sweep, stopOf_next hi]

-- The run lemma: what a turn does to the slot of `v` in some respect, the stops of the loop do in turn.
theorem Loop.sweep {slot : Nat → Tree → Nat → Tree → Nat → Prop} (hl : Loop p slot h nbits top ia slots m slots' n)
    (ρ : Tree → α) (hslot : ∀ {x t m t' n}, slot x t m t' n → ρ t' = visit x (ρ t)) :
    ρ (slots' (slotIndex p h nbits v)) = sweep p h nbits top v visit ia (ρ (slots (slotIndex p h nbits v))) := by
  induction hl
  case done hge => rw [sweep_done hge]
  case turn ia slots m t' l slots' n hlt hs _ ih =>
    rw [ih]
    by_cases hi : slotIndex p h nbits ia = slotIndex p h nbits v
    case pos => rw [sweep_self hlt hi, hi, Function.update_self, hslot (hi ▸ hs)]
    case neg => rw [sweep_other hi, Function.update_of_ne (Ne.symm hi)]

end Sweep

section Refill

variable (g : Globals) (p attributes : Nat) (out : Nat → Nat)

-- What a stop of the loop at `ia` makes of the end of the walk for `v`, which is a height and a word.
-- A block or an empty slot of the table gives way to a new table.
def refill : Nat → Nat → Nat → Nat → Nat × Nat → Nat × Nat
  | 0, _, _, ia, _ => (0, pageDescriptor g (out ia) attributes)
  | h + 1, top, v, ia, e =>
    if Eligible p out (h + 1) ia top then
      (h + 1, blockWord p attributes (h + 1) (out ia))
    else
      let top := min top (ia + blockBytes p (h + 1) - 1)
      sweep p h (p - 3) top v (refill h top v) ia (if e.1 = h + 1 then (h, 0) else e)

-- The end of the walk for `v` after some passes over a region.
def regionEnding (h nbits ia top v passes : Nat) : Nat × Nat :=
  (sweep p h nbits top v (refill g p attributes out h top v) ia)^[passes] (h, 0)

end Refill

@[simp]
theorem ending_empty : Tree.ending p h .empty va = (h, 0) := by
  cases h <;> rfl

@[simp]
theorem ending_leaf : Tree.ending p h (.leaf w) va = (h, w) := by
  cases h <;> rfl

theorem ending_le : (Tree.ending p h t v).1 ≤ h := by
  induction h generalizing t
  case zero => cases t <;> simp [Tree.ending]
  case succ h ih =>
    cases t
    case empty => simp
    case leaf  => simp
    case table w slots => exact (ih (t := slots _)).trans (Nat.le_succ h)

-- A turn on the tree does just that.
theorem SlotFill.ending (hs : SlotFill pf g p a va pa h ia top t m t' n) :
    t'.ending p h v = refill g p a (outputOf va pa) h top v ia (t.ending p h v) := by
  induction h generalizing ia top t m t' n
  case zero => rw [hs.left, refill, ending_leaf]
  case succ h ih =>
    rcases hs with ⟨he, rfl, _⟩ | ⟨he, q, slots, l, slots', hb, hloop, rfl⟩
    case inl => rw [refill, if_pos he, ending_leaf]
    case inr =>
      rw [refill, if_neg he, Tree.ending, hloop.sweep (fun t => t.ending p h v) ih]
      congr 1
      cases hb
      case existing =>
        have hle := ending_le (p := p) (h := h) (v := v) (t := slots (slotIndex p h (p - 3) v))
        rw [Tree.ending, if_neg (by omega)]
      case fresh hn =>
        rw [ending_empty, if_pos]
        cases t
        case empty => rw [ending_empty]
        case leaf  => rw [ending_leaf]
        case table => exact absurd rfl (hn _ _)

theorem TreeFill.ending (ht : TreeFill pf g p a va pa h nbits top ia slots m slots' n) :
    (slots' (slotIndex p h nbits v)).ending p h v =
      sweep p h nbits top v (refill g p a (outputOf va pa) h top v) ia ((slots (slotIndex p h nbits v)).ending p h v) :=
  Loop.sweep ht (fun t => t.ending p h v) SlotFill.ending

end Pgt
