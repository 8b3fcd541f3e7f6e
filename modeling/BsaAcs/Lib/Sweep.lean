import Mathlib.Tactic

-- A loop over the indices below `n`, as what it does to the cells of a state that each of its steps sets.

def sweep {S : Type*} (step : Nat → S → S) (n : Nat) (s : S) : S :=
  (List.range n).foldl (fun s i => step i s) s

namespace Sweep

variable {S α : Type*} {step : Nat → S → S} {n : Nat} {s : S}

theorem succ : sweep step (n + 1) s = step n (sweep step n s) := by
  rw [sweep, List.range_succ, List.foldl_append]
  rfl

-- The cells of a table that is kept in the state, from the cell `k` on, one after the other.
def filled (k n : Nat) (p : Nat → Prop) [DecidablePred p] (v f : Nat → α) : Nat → α :=
  fun j => if k ≤ j ∧ j < k + n ∧ p j then v j else f j

theorem bounds_succ {k j : Nat} {p : Nat → Prop} (hj : j ≠ k + n) :
    k ≤ j ∧ j < k + (n + 1) ∧ p j ↔ k ≤ j ∧ j < k + n ∧ p j := by
  constructor
  · rintro ⟨hle, hlt, hp⟩
    exact ⟨hle, by omega, hp⟩
  · rintro ⟨hle, hlt, hp⟩
    exact ⟨hle, by omega, hp⟩

section Filled

variable {k : Nat} {p : Nat → Prop} [DecidablePred p] {v f : Nat → α}

theorem filled_apply {j : Nat} : filled k n p v f j = if k ≤ j ∧ j < k + n ∧ p j then v j else f j :=
  rfl

theorem filled_filled : filled k n p v (filled k n p v f) = filled k n p v f := by
  funext j
  rw [filled_apply, filled_apply]
  split
  case isTrue  => rfl
  case isFalse => rfl

theorem filled_zero : filled k 0 p v f = f := by
  funext j
  rw [filled, if_neg (by omega)]

theorem filled_succ : filled k (n + 1) p v f =
    if p (k + n) then Function.update (filled k n p v f) (k + n) (v (k + n)) else filled k n p v f := by
  funext j
  by_cases hp : p (k + n)
  case pos =>
    rw [if_pos hp]
    by_cases hj : j = k + n
    case pos =>
      subst hj
      rw [Function.update_self, filled, if_pos ⟨by omega, by omega, hp⟩]
    case neg =>
      rw [Function.update_of_ne hj, filled, filled]
      exact if_congr (bounds_succ hj) rfl rfl
  case neg =>
    rw [if_neg hp, filled, filled]
    refine if_congr ?_ rfl rfl
    by_cases hj : j = k + n
    case pos =>
      subst hj
      exact iff_of_false (fun h => hp h.right.right) (fun h => hp h.right.right)
    case neg => exact bounds_succ hj

-- Every step of the loop sets its own cell, or none.
theorem fill (step : Nat → S → S) (k : Nat) (p : Nat → Prop) [DecidablePred p] (v : Nat → α) (set : (Nat → α) → S)
    (Q : (Nat → α) → Prop) (hf : Q f)
    (hq : ∀ f j, Q f → p j → Q (Function.update f j (v j)))
    (h : ∀ i < n, ∀ f, Q f →
      step i (set f) = set (if p (k + i) then Function.update f (k + i) (v (k + i)) else f)) :
    sweep step n (set f) = set (filled k n p v f) ∧ Q (filled k n p v f) := by
  induction n
  case zero =>
    rw [filled_zero]
    exact ⟨rfl, hf⟩
  case succ n hi =>
    obtain ⟨he, hQ⟩ := hi fun i hlt => h i (Nat.lt_succ_of_lt hlt)
    rw [succ, he, h n (Nat.lt_succ_self n) _ hQ, filled_succ]
    refine ⟨rfl, ?_⟩
    split
    case isTrue hp => exact hq _ _ hQ hp
    case isFalse   => exact hQ

end Filled

end Sweep
