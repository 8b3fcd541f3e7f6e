import BsaAcs.Smmu.Theorems.CommandQueue

-- The two ends of a queue by themselves: what `smmu_cmdq_inc_prod`, `smmu_queue_full` and
-- `smmu_queue_empty` say over a run in which entries are put in and taken out in any order.

namespace Smmu.Queue

-- A queue and the slots of the entries that are in it, the oldest one first.
structure Occupied where
  queue : Queue
  slots : List Nat

namespace Occupied

def start (log2nent : Nat) : Occupied :=
  { queue := ⟨0, 0, log2nent⟩, slots := [] }

def produce (s : Occupied) : Occupied :=
  { queue := { s.queue with prod := s.queue.incProd }, slots := s.slots ++ [s.queue.prod &&& s.queue.indexMask] }

-- `cons` advances as `prod` does.
def consume (s : Occupied) : Occupied :=
  { queue := { s.queue with cons := { s.queue with prod := s.queue.cons }.incProd }, slots := s.slots.tail }

inductive Step (s : Occupied) : Occupied → Prop
  | produce : (s.queue.full = false) → Step s s.produce
  | consume : (s.queue.empty = false) → Step s s.consume

inductive Run (s₀ : Occupied) : Occupied → Prop
  | nil : Run s₀ s₀
  | cons {s s'} : (Run s₀ s) → (Step s s') → Run s₀ s'

-- The queue shows that `p` entries have been put in and `c` have been taken out.
structure Shows (l p c : Nat) (s : Occupied) : Prop where
  le   : c ≤ p
  room : p ≤ c + 2 ^ l
  size : s.queue.log2nent = l
  prod : s.queue.prod = p % (2 * 2 ^ l)
  cons : s.queue.cons = c % (2 * 2 ^ l)
  held : s.slots = Ring.slots (2 ^ l) c p

namespace Shows

variable {l p c : Nat} {s s' : Occupied}

theorem start : Shows l 0 0 (start l) :=
  ⟨Nat.le_refl 0, Nat.zero_le _, rfl, (Nat.zero_mod _).symm, (Nat.zero_mod _).symm, rfl⟩

section

variable (h : Shows l p c s)

include h

theorem slots_length : s.slots.length = p - c :=
  h.held ▸ Ring.slots_length

theorem full_iff : s.queue.full = true ↔ s.slots.length = 2 ^ l := by
  have hle := h.le
  rw [Queue.full_iff, h.size, h.prod, h.cons, Nat.mod_mod, Nat.mod_mod, Ring.shown_index, Ring.shown_index,
    Ring.full_iff h.le h.room (Nat.two_pow_pos l), h.slots_length]
  omega

theorem empty_iff : s.queue.empty = true ↔ s.slots.length = 0 := by
  have hle := h.le
  rw [Queue.empty_iff, h.size, h.prod, h.cons, Nat.pow_succ', Nat.mod_mod, Nat.mod_mod,
    Ring.shown_eq_iff h.le h.room (Nat.two_pow_pos l), h.slots_length]
  omega

theorem room_of_not_full (hf : s.queue.full = false) : p < c + 2 ^ l := by
  have hne : ¬s.queue.full = true := by simp [hf]
  rw [h.full_iff, h.slots_length] at hne
  have := h.room
  have := h.le
  omega

theorem held_of_not_empty (he : s.queue.empty = false) : c < p := by
  have hne : ¬s.queue.empty = true := by simp [he]
  rw [h.empty_iff, h.slots_length] at hne
  omega

theorem produce (hf : s.queue.full = false) : Shows l (p + 1) c s.produce where
  le   := h.le.trans (Nat.le_succ p)
  room := h.room_of_not_full hf
  size := h.size
  prod := by
    simp only [Occupied.produce]
    rw [incProd_eq, h.size, h.prod, Ring.shown_succ]
  cons := h.cons
  held := by
    simp only [Occupied.produce]
    rw [h.held, indexMask_eq, h.size, h.prod, Ring.shown_index, Ring.slots_succ h.le]

theorem consume (he : s.queue.empty = false) : Shows l p (c + 1) s.consume where
  le   := h.held_of_not_empty he
  room := h.room.trans (by omega)
  size := h.size
  prod := h.prod
  cons := by
    simp only [Occupied.consume]
    rw [incProd_eq, h.size, h.cons, Ring.shown_succ]
  held := by
    simp only [Occupied.consume]
    rw [h.held, Ring.slots_tail (h.held_of_not_empty he)]

theorem step (hs : Step s s') : ∃ p' c', Shows l p' c' s' := by
  cases hs
  case produce hf => exact ⟨p + 1, c, h.produce hf⟩
  case consume he => exact ⟨p, c + 1, h.consume he⟩

end

theorem run {s₀ : Occupied} (h : Shows l p c s₀) (hr : Run s₀ s) : ∃ p' c', Shows l p' c' s := by
  induction hr
  case nil => exact ⟨p, c, h⟩
  case cons hs hi =>
    have ⟨_, _, hi⟩ := hi
    exact hi.step hs

-- Both ends fit into the 32-bit fields of the queue.
theorem ends_lt (h : Shows l p c s) (hl : l < 31) : s.queue.prod < 2 ^ 32 ∧ s.queue.cons < 2 ^ 32 := by
  have hp : 2 * 2 ^ l ≤ 2 ^ 32 := by
    rw [← Nat.pow_succ']
    exact Nat.pow_le_pow_right (by decide) (by omega)
  have hlt (x : Nat) : x % (2 * 2 ^ l) < 2 ^ 32 := (Nat.mod_lt x (by have := Nat.two_pow_pos l; omega)).trans_le hp
  exact ⟨h.prod ▸ hlt p, h.cons ▸ hlt c⟩

theorem length_eq (h : Shows l p c s) :
    (s.slots.length : Int) = ((s.queue.prod : Int) - s.queue.cons) % 2 ^ (l + 1) := by
  have he := Ring.sub_emod_eq h.le h.room (Nat.two_pow_pos l)
  rw [h.slots_length, h.prod, h.cons, ← he, Int.pow_succ']
  norm_cast

end Shows

theorem run_occupied {log2nent : Nat} {s : Occupied} (hl : log2nent < 31) (h : Run (start log2nent) s) :
    s.queue.prod < 2 ^ 32 ∧ s.queue.cons < 2 ^ 32 ∧
      (s.slots.length : Int) = ((s.queue.prod : Int) - s.queue.cons) % 2 ^ (log2nent + 1) ∧
      s.slots.length ≤ 2 ^ log2nent ∧
      (s.queue.full = true ↔ s.slots.length = 2 ^ log2nent) ∧
      (s.queue.empty = true ↔ s.slots.length = 0) ∧
      s.slots.Nodup := by
  have ⟨p, c, hs⟩ := Shows.start.run h
  have ⟨hp, hc⟩ := hs.ends_lt hl
  have hle : s.slots.length ≤ 2 ^ log2nent := by
    rw [hs.slots_length, Nat.sub_le_iff_le_add, Nat.add_comm]
    exact hs.room
  have hn : s.slots.Nodup := hs.held ▸ Ring.slots_nodup hs.room
  exact ⟨hp, hc, hs.length_eq, hle, hs.full_iff, hs.empty_iff, hn⟩

-- A queue of two entries is filled, twice an entry is taken out and another put in, and one more is taken out.
-- `prod` has come round.
theorem run_occupied_once :
    let s := (((((start 1).produce.produce).consume.produce).consume.produce).consume)
    s.slots = [1] ∧ s.queue = ⟨0, 3, 1⟩ ∧
    s.queue.prod < 2 ^ 32 ∧ s.queue.cons < 2 ^ 32 ∧
      (s.slots.length : Int) = ((s.queue.prod : Int) - s.queue.cons) % 2 ^ (1 + 1) ∧
      s.slots.length ≤ 2 ^ 1 ∧
      (s.queue.full = true ↔ s.slots.length = 2 ^ 1) ∧
      (s.queue.empty = true ↔ s.slots.length = 0) ∧
      s.slots.Nodup := by
  have h₁ : Run (start 1) (start 1).produce.produce := .cons (.cons .nil (.produce (by decide))) (.produce (by decide))
  have h₂ : Run (start 1) (start 1).produce.produce.consume.produce :=
    .cons (.cons h₁ (.consume (by decide))) (.produce (by decide))
  have h₃ : Run (start 1) (start 1).produce.produce.consume.produce.consume.produce :=
    .cons (.cons h₂ (.consume (by decide))) (.produce (by decide))
  exact ⟨rfl, rfl, run_occupied (by decide) (.cons h₃ (.consume (by decide)))⟩

end Smmu.Queue.Occupied
