import BsaAcs.Lib.Loop
import Mathlib.Data.List.Basic

-- A loop over an array up to its terminator, by an index that has `size` values.
namespace Scan

variable {α σ ρ : Type*}

-- The terminator stands after the last element.
def step (size : Nat) (body : Nat → α → σ → σ ⊕ ρ) (finish : σ → ρ) (l : List α) :
    Nat × σ → (Nat × σ) ⊕ ρ
  | (i, s) =>
    match l[i]? with
    | none => .inr (finish s)
    | some a =>
      match body i a s with
      | .inl s => .inl ((i + 1) % size, s)
      | .inr r => .inr r

-- What the body does at the elements of a part of the array, the first of which has the index `i`.
def run (body : Nat → α → σ → σ ⊕ ρ) : Nat → List α → σ → σ ⊕ ρ
  | _, [], s => .inl s
  | i, a :: l, s =>
    match body i a s with
    | .inl s => run body (i + 1) l s
    | .inr r => .inr r

variable {size : Nat} {body : Nat → α → σ → σ ⊕ ρ} {finish : σ → ρ} {l pre mid suf : List α} {s s' : σ} {r : ρ}

theorem step_inl {i : Nat} {a : α} (ha : l[i]? = some a) (hb : body i a s = .inl s') :
    step size body finish l (i, s) = .inl ((i + 1) % size, s') := by
  simp [step, ha, hb]

theorem step_inr {i : Nat} {a : α} (ha : l[i]? = some a) (hb : body i a s = .inr r) :
    step size body finish l (i, s) = .inr r := by
  simp [step, ha, hb]

theorem step_none {i : Nat} (h : l[i]? = none) : step size body finish l (i, s) = .inr (finish s) := by
  simp [step, h]

-- Within the values of the index the loop does what the body does.
theorem leaves_of_inr (hl : pre.length + mid.length ≤ size) (hr : run body pre.length mid s = .inr r) :
    ∃ n, Loop.Leaves (step size body finish (pre ++ mid ++ suf)) n (pre.length, s) r := by
  induction mid generalizing pre s
  case nil => cases hr
  case cons a mid hi =>
    have ha : (pre ++ (a :: mid) ++ suf)[pre.length]? = some a := by simp
    rw [run] at hr
    cases hb : body pre.length a s
    case inr r' =>
      rw [hb] at hr
      cases hr
      exact ⟨1, .now (step_inr ha hb)⟩
    case inl s' =>
      rw [hb] at hr
      cases mid
      case nil => cases hr
      case cons b mid =>
        simp only [List.length_cons] at hl
        have hlen : (pre ++ [a]).length = pre.length + 1 := by simp
        have hr : run body (pre ++ [a]).length (b :: mid) s' = .inr r := hlen ▸ hr
        have ⟨n, hn⟩ := hi (by rw [hlen, List.length_cons]; omega) hr
        rw [hlen, List.append_assoc pre, List.singleton_append] at hn
        refine ⟨n + 1, .next (step_inl ha hb) ?_⟩
        rwa [Nat.mod_eq_of_lt (by omega)]

theorem leaves_of_inl (hl : pre.length + mid.length < size) (hs : run body pre.length mid s = .inl s') :
    ∃ n, Loop.Leaves (step size body finish (pre ++ mid)) n (pre.length, s) (finish s') := by
  induction mid generalizing pre s
  case nil =>
    cases hs
    exact ⟨1, .now (step_none (by simp))⟩
  case cons a mid hi =>
    have ha : (pre ++ a :: mid)[pre.length]? = some a := by simp
    rw [List.length_cons] at hl
    rw [run] at hs
    cases hb : body pre.length a s
    case inr r' =>
      rw [hb] at hs
      cases hs
    case inl s₁ =>
      rw [hb] at hs
      have hlen : (pre ++ [a]).length = pre.length + 1 := by simp
      have hs : run body (pre ++ [a]).length mid s₁ = .inl s' := hlen ▸ hs
      have ⟨n, hn⟩ := hi (by omega) hs
      rw [hlen, List.append_assoc pre, List.singleton_append] at hn
      refine ⟨n + 1, .next (step_inl ha hb) ?_⟩
      rwa [Nat.mod_eq_of_lt (by omega)]

-- From the first element on.
theorem leaves_of_take (hr : run body 0 (l.take size) s = .inr r) :
    ∃ n, Loop.Leaves (step size body finish l) n (0, s) r := by
  have hr : run body ([] : List α).length (l.take size) s = .inr r := hr
  have h : ∃ n, Loop.Leaves (step size body finish ([] ++ l.take size ++ l.drop size)) n (0, s) r :=
    leaves_of_inr (by simp) hr
  rwa [List.nil_append, List.take_append_drop] at h

theorem leaves_of_all (hl : l.length < size) (hs : run body 0 l s = .inl s') :
    ∃ n, Loop.Leaves (step size body finish l) n (0, s) (finish s') := by
  have hs : run body ([] : List α).length l s = .inl s' := hs
  exact leaves_of_inl (by simpa using hl) hs

-- The index does not get past an array with an element at each of its values: the loop is left by the body
-- or not at all.
theorem leaves_inr {i n : Nat} (hl : size ≤ l.length) (hi : i < size)
    (h : Loop.Leaves (step size body finish l) n (i, s) r) : ∃ i < size, ∃ a s, l[i]? = some a ∧ body i a s = .inr r := by
  have helem {i : Nat} (hi : i < size) : ∃ a, l[i]? = some a := ⟨_, List.getElem?_eq_getElem (by omega)⟩
  refine h.invariant (I := fun p => p.fst < size) (Q := fun r => ∃ i < size, ∃ a s, l[i]? = some a ∧ body i a s = .inr r)
    ?_ ?_ hi
  · intro ⟨i, s⟩ q hi he
    have ⟨a, ha⟩ := helem hi
    simp only [step, ha] at he
    split at he
    · cases he; exact Nat.mod_lt _ (Nat.zero_lt_of_lt hi)
    · cases he
  · intro ⟨i, s⟩ r hi he
    have ⟨a, ha⟩ := helem hi
    simp only [step, ha] at he
    split at he
    · cases he
    next hb => cases he; exact ⟨i, hi, a, s, ha, hb⟩

end Scan
