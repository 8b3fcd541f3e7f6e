import Mathlib.Data.Nat.ModEq
import Mathlib.Tactic

-- A ring of `n` entries. The producer and the consumer count the entries that they have put in and taken
-- out, and each shows its count to the other modulo twice the number of entries.

namespace Ring

-- How many entries there are in the ring, from what the two show.
def held (n prod cons : Nat) : Nat :=
  (prod + (2 * n - cons)) % (2 * n)

section

variable {n p c k : Nat}

theorem shown_index : p % (2 * n) % n = p % n :=
  Nat.mod_mod_of_dvd p (Nat.dvd_mul_left ..)

theorem shown_succ : (p % (2 * n) + 1) % (2 * n) = (p + 1) % (2 * n) :=
  Nat.mod_add_mod ..

variable (hc : c ≤ p) (hp : p ≤ c + n)

include hc hp

theorem shown_eq_iff (hn : 0 < n) : p % (2 * n) = c % (2 * n) ↔ p = c := by
  constructor
  case mp =>
    intro h
    have hd : 2 * n ∣ p - c := (Nat.modEq_iff_dvd' hc).mp h.symm
    have := Nat.eq_zero_of_dvd_of_lt hd (by omega)
    omega
  case mpr =>
    intro h
    rw [h]

theorem held_eq (hn : 0 < n) : held n (p % (2 * n)) (c % (2 * n)) = p - c := by
  have hlt := Nat.mod_lt c (show 0 < 2 * n by omega)
  have hq := Nat.div_add_mod c (2 * n)
  have he : p + (2 * n - c % (2 * n)) = p - c + 2 * n * (c / (2 * n) + 1) := by
    rw [Nat.mul_succ]
    omega
  rw [held, Nat.mod_add_mod, he, Nat.add_mul_mod_self_left, Nat.mod_eq_of_lt (by omega)]

theorem sub_emod_eq (hn : 0 < n) :
    ((p % (2 * n) : Nat) - (c % (2 * n) : Nat) : Int) % (2 * n : Nat) = (p - c : Nat) := by
  have hlt : (p - c : Nat) < 2 * n := by omega
  rw [Int.natCast_mod, Int.natCast_mod, ← Int.sub_emod, ← Int.ofNat_sub hc, ← Int.natCast_mod,
    Nat.mod_eq_of_lt hlt]

-- The ring is full if both are at the same entry, but do not show the same.
theorem full_iff (hn : 0 < n) : p % n = c % n ∧ p % (2 * n) ≠ c % (2 * n) ↔ p = c + n := by
  rw [ne_eq, shown_eq_iff hc hp hn]
  constructor
  case mp =>
    intro ⟨h, hne⟩
    have ⟨q, hq⟩ : n ∣ p - c := (Nat.modEq_iff_dvd' hc).mp h.symm
    have hq₀ : q ≠ 0 := by
      rintro rfl
      omega
    have hle : n * 1 ≤ n * q := Nat.mul_le_mul_left n (Nat.one_le_iff_ne_zero.mpr hq₀)
    omega
  case mpr =>
    rintro rfl
    exact ⟨Nat.add_mod_right c n, by omega⟩

end

-- The next entry is none of those that are in the ring.
theorem index_ne {n p c k : Nat} (hk : c ≤ k) (hp : k < p) (hr : p < c + n) : k % n ≠ p % n := by
  intro h
  have hd : n ∣ p - k := (Nat.modEq_iff_dvd' (by omega)).mp h
  have := Nat.eq_zero_of_dvd_of_lt hd (by omega)
  omega

-- The slots of the entries from number `c` up to number `p`, the oldest one first.
def slots (n c p : Nat) : List Nat :=
  (List.range' c (p - c)).map (· % n)

section

variable {n c p : Nat}

theorem slots_length : (slots n c p).length = p - c := by
  simp [slots]

theorem slots_succ (h : c ≤ p) : slots n c (p + 1) = slots n c p ++ [p % n] := by
  rw [slots, Nat.succ_sub h, List.range'_concat, List.map_append, slots]
  simp [h]

theorem slots_tail (h : c < p) : (slots n c p).tail = slots n (c + 1) p := by
  obtain ⟨k, hk⟩ : ∃ k, p - c = k + 1 := ⟨p - c - 1, by omega⟩
  have hr : p - (c + 1) = k := by omega
  rw [slots, slots, hk, hr, List.range'_succ, List.map_cons, List.tail_cons]

theorem slots_nodup (h : p ≤ c + n) : (slots n c p).Nodup := by
  rw [slots]
  refine List.Nodup.map_on ?_ List.nodup_range'
  intro i hi j hj he
  rw [List.mem_range'_1] at hi hj
  rcases Nat.lt_trichotomy i j with hlt | heq | hlt
  · exact absurd he (index_ne hi.left hlt (by omega))
  · exact heq
  · exact absurd he.symm (index_ne hj.left hlt (by omega))

end

end Ring
