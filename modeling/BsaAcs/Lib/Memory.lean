import Mathlib.Order.Interval.Set.Nat
import Mathlib.Tactic

-- Word addressed memory. A word is named by the byte address it starts at.
abbrev Memory := Nat → Nat

namespace Memory

def write (m : Memory) (a v : Nat) : Memory :=
  fun x => if x = a then v else m x

-- Sets every word that starts inside the `size` bytes from `a`.
def set (m : Memory) (a size v : Nat) : Memory :=
  fun x => if a ≤ x ∧ x < a + size then v else m x

variable {m m₁ m₂ : Memory} {a b x size v : Nat}

@[simp]
theorem write_same : m.write a v a = v := by
  simp [write]

theorem write_ne (h : x ≠ a) : m.write a v x = m x := by
  simp [write, h]

theorem write_eq_self (h : m a = v) : m.write a v = m := by
  funext x
  simp only [write]
  split
  case isTrue he => exact he ▸ h.symm
  case isFalse   => rfl

theorem set_mem (h₁ : a ≤ x) (h₂ : x < a + size) : m.set a size v x = v := by
  simp [set, h₁, h₂]

theorem set_not_mem (h : ¬(a ≤ x ∧ x < a + size)) : m.set a size v x = m x := by
  simp [set, h]

end Memory
