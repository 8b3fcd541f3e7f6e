import Mathlib.Data.Nat.Bitwise
import Mathlib.Tactic

namespace Bits

-- The bits `lo` to `hi` of a word, left in place.
def slice (hi lo w : Nat) : Nat :=
  w &&& ((2 ^ (hi - lo + 1) - 1) <<< lo)

-- All set bits of a word lie between `lo` and `hi`.
def Within (hi lo w : Nat) : Prop :=
  ∀ i, w.testBit i = true → lo ≤ i ∧ i ≤ hi

variable {hi lo hi' lo' w v i k : Nat}

theorem testBit_slice (h : lo ≤ hi) :
    (slice hi lo w).testBit i = (w.testBit i && decide (lo ≤ i ∧ i ≤ hi)) := by
  simp only [slice, Nat.testBit_and, Nat.testBit_shiftLeft, Nat.testBit_two_pow_sub_one]
  by_cases hl : lo ≤ i <;> by_cases hu : i ≤ hi <;> simp [hl, hu] <;> omega

theorem slice_or : slice hi lo (w ||| v) = slice hi lo w ||| slice hi lo v :=
  Nat.and_or_distrib_right ..

theorem slice_eq_mul : slice hi lo w = w / 2 ^ lo % 2 ^ (hi - lo + 1) * 2 ^ lo := by
  apply Nat.eq_of_testBit_eq
  intro i
  simp only [slice, Nat.testBit_and, Nat.testBit_shiftLeft, Nat.testBit_two_pow_sub_one,
    Nat.testBit_mul_two_pow, Nat.testBit_mod_two_pow, Nat.testBit_div_two_pow]
  by_cases hl : lo ≤ i
  case pos => simp [hl, Bool.and_comm]
  case neg => simp [hl]

-- The word that keeps only the bits `lo` and above of a `hi`-bit word.
theorem and_two_pow_sub_two_pow (h : lo < hi) : w &&& (2 ^ hi - 2 ^ lo) = slice (hi - 1) lo w := by
  have : 2 ^ hi - 2 ^ lo = (2 ^ (hi - 1 - lo + 1) - 1) <<< lo := by
    rw [Nat.shiftLeft_eq, Nat.sub_mul, ←Nat.pow_add, Nat.one_mul]
    congr 2
    omega
  rw [slice, this]

theorem slice_lt (h : lo ≤ hi) : slice hi lo w < 2 ^ (hi + 1) := by
  apply Nat.lt_pow_two_of_testBit
  intro i hi'
  rw [testBit_slice h]
  simp; omega

theorem dvd_slice : 2 ^ lo ∣ slice hi lo w :=
  slice_eq_mul ▸ Nat.dvd_mul_left ..

namespace Within

theorem of_dvd_lt (hd : 2 ^ lo ∣ w) (hl : w < 2 ^ (hi + 1)) : Within hi lo w := by
  intro i h
  obtain ⟨m, rfl⟩ := hd
  refine ⟨?_, ?_⟩
  · by_contra hc
    simp [Nat.testBit_two_pow_mul, hc] at h
  · by_contra hc
    have : 2 ^ lo * m < 2 ^ i := lt_of_lt_of_le hl (Nat.pow_le_pow_right (by omega) (by omega))
    simp [Nat.testBit_lt_two_pow this] at h

theorem mono (h : Within hi lo w) (hh : hi ≤ hi') (hl : lo' ≤ lo) : Within hi' lo' w :=
  fun i hi => ⟨hl.trans (h i hi).left, (h i hi).right.trans hh⟩

theorem slice (h : lo ≤ hi) : Within hi lo (slice hi lo w) := by
  intro i hi
  rw [testBit_slice h] at hi
  simp at hi
  exact hi.right

theorem shiftLeft (h : w < 2 ^ (hi - lo + 1)) (hl : lo ≤ hi) : Within hi lo (w <<< lo) := by
  apply of_dvd_lt
  · exact ⟨w, by rw [Nat.shiftLeft_eq, Nat.mul_comm]⟩
  · rw [Nat.shiftLeft_eq]
    calc w * 2 ^ lo < 2 ^ (hi - lo + 1) * 2 ^ lo := Nat.mul_lt_mul_of_pos_right h (Nat.two_pow_pos _)
      _ = 2 ^ (hi + 1) := by rw [←Nat.pow_add]; congr 1; omega

-- A word that lies inside the slice is not changed by it.
theorem slice_eq (h : Within hi lo w) (hh : hi ≤ hi') (hl : lo' ≤ lo) (hs : lo' ≤ hi') :
    Bits.slice hi' lo' w = w := by
  apply Nat.eq_of_testBit_eq
  intro i
  rw [testBit_slice hs]
  cases hb : w.testBit i
  case false => simp
  case true =>
    have := h i hb
    simp; omega

-- A word that lies outside the slice is erased by it.
theorem slice_eq_zero (h : Within hi lo w) (hd : hi < lo' ∨ hi' < lo) (hs : lo' ≤ hi') :
    Bits.slice hi' lo' w = 0 := by
  apply Nat.eq_of_testBit_eq
  intro i
  rw [testBit_slice hs]
  cases hb : w.testBit i
  case false => simp
  case true =>
    have := h i hb
    simp; omega

theorem testBit_eq_false (h : Within hi lo w) (hd : k < lo ∨ hi < k) : w.testBit k = false := by
  cases hb : w.testBit k
  case false => rfl
  case true =>
    have := h k hb
    omega

end Within

theorem slice_eq_self (hd : 2 ^ lo ∣ w) (hl : w < 2 ^ (hi + 1)) (hs : lo ≤ hi) : slice hi lo w = w :=
  (Within.of_dvd_lt hd hl).slice_eq le_rfl le_rfl hs

end Bits
