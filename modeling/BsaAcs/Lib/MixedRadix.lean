import Mathlib.Tactic

-- The number of a position whose digits have a radix each, with the lowest digit first.

def mixedRadix : List Nat → List Nat → Nat
  | [], _ | _, [] => 0
  | radix :: radices, digit :: digits => digit + radix * mixedRadix radices digits

namespace MixedRadix

variable {radices digits digits' : List Nat}

-- Every digit is below its radix.
abbrev Valid (radices digits : List Nat) : Prop :=
  List.Forall₂ (fun radix digit => digit < radix) radices digits

theorem lt_prod (h : Valid radices digits) : mixedRadix radices digits < radices.prod := by
  induction h
  case nil => exact Nat.one_pos
  case cons radix digit radices digits hd _ hi =>
    calc digit + radix * mixedRadix radices digits < radix + radix * mixedRadix radices digits := by omega
      _ = radix * (mixedRadix radices digits + 1) := by ring
      _ ≤ radix * radices.prod := Nat.mul_le_mul_left _ hi
      _ = (radix :: radices).prod := List.prod_cons.symm

theorem injective (h : Valid radices digits) (h' : Valid radices digits')
    (he : mixedRadix radices digits = mixedRadix radices digits') : digits = digits' := by
  induction h generalizing digits'
  case nil =>
    cases h'
    rfl
  case cons radix digit radices digits hd _ hi =>
    cases h'
    case cons digit' digits' hd' h' =>
      rw [mixedRadix, mixedRadix] at he
      have hmod : digit = digit' := by
        have hc := congrArg (· % radix) he
        simpa only [Nat.add_mul_mod_self_left, Nat.mod_eq_of_lt hd, Nat.mod_eq_of_lt hd'] using hc
      have hdiv : mixedRadix radices digits = mixedRadix radices digits' := by
        subst hmod
        exact Nat.eq_of_mul_eq_mul_left (Nat.zero_lt_of_lt hd) (Nat.add_left_cancel he)
      rw [hmod, hi h' hdiv]

theorem eq_zero_iff (h : Valid radices digits) : mixedRadix radices digits = 0 ↔ ∀ digit ∈ digits, digit = 0 := by
  induction h
  case nil => exact iff_of_true rfl (List.forall_mem_nil _)
  case cons radix digit radices digits hd _ hi =>
    have hr : radix ≠ 0 := Nat.ne_of_gt (Nat.zero_lt_of_lt hd)
    rw [mixedRadix, Nat.add_eq_zero_iff, Nat.mul_eq_zero, or_iff_right hr, hi, List.forall_mem_cons]

end MixedRadix
