import Mathlib.Data.List.Nodup
import Mathlib.Tactic

-- Items of different sizes that lie one behind the other.
namespace Layout

variable {α : Type*} (size : α → Nat)

-- The end of the last item.
def ending : Nat → List α → Nat
  | start, []           => start
  | start, item :: items => ending (start + size item) items

-- Where an item lies. An item that is not there would come last.
def position [DecidableEq α] (a : α) : Nat → List α → Nat
  | start, []           => start
  | start, item :: items => if item = a then start else position a (start + size item) items

variable {size} {start : Nat} {items items' : List α} {a b : α}

theorem ending_append : ending size start (items ++ items') = ending size (ending size start items) items' := by
  induction items generalizing start
  case nil                => rfl
  case cons item items hi => simp only [List.cons_append, ending, hi]

theorem le_ending : start ≤ ending size start items := by
  induction items generalizing start
  case nil => exact Nat.le_refl _
  case cons item items hi => exact Nat.le_trans (Nat.le_add_right _ _) hi

variable [DecidableEq α]

theorem le_position : start ≤ position size a start items := by
  induction items generalizing start
  case nil => exact Nat.le_refl _
  case cons item items hi =>
    simp only [position]
    split
    case isTrue  => exact Nat.le_refl _
    case isFalse => exact Nat.le_trans (Nat.le_add_right _ _) hi

theorem position_append_of_not_mem (h : a ∉ items) :
    position size a start (items ++ items') = position size a (ending size start items) items' := by
  induction items generalizing start
  case nil => rfl
  case cons item items hi =>
    have ⟨hn, ht⟩ : a ≠ item ∧ a ∉ items := by simpa using h
    simp only [List.cons_append, position, Ne.symm hn, if_false, ending, hi ht]

theorem position_append (h : a ∈ items) :
    position size a start (items ++ items') = position size a start items := by
  induction items generalizing start
  case nil => simp at h
  case cons item items hi =>
    simp only [List.cons_append, position]
    split
    case isTrue => rfl
    case isFalse hn => exact hi ((List.mem_cons.mp h).resolve_left (Ne.symm hn))

theorem position_add_le (h : a ∈ items) : position size a start items + size a ≤ ending size start items := by
  induction items generalizing start
  case nil => simp at h
  case cons item items hi =>
    simp only [position, ending]
    split
    case isTrue he => exact he ▸ le_ending
    case isFalse hn => exact hi ((List.mem_cons.mp h).resolve_left (Ne.symm hn))

-- Two items do not overlap.
theorem position_separate (ha : a ∈ items) (hb : b ∈ items) (h : a ≠ b) :
    position size a start items + size a ≤ position size b start items ∨
      position size b start items + size b ≤ position size a start items := by
  induction items generalizing start
  case nil => simp at ha
  case cons item items hi =>
    simp only [position]
    by_cases h₁ : item = a
    case pos =>
      have h₂ : item ≠ b := fun he => h (h₁ ▸ he)
      simp only [h₁, if_true, if_neg (h₁ ▸ h₂)]
      exact .inl le_position
    case neg =>
      by_cases h₂ : item = b
      case pos =>
        simp only [h₂, if_true, if_neg (h₂ ▸ h₁)]
        exact .inr le_position
      case neg =>
        simp only [h₁, h₂, if_false]
        exact hi ((List.mem_cons.mp ha).resolve_left (Ne.symm h₁))
          ((List.mem_cons.mp hb).resolve_left (Ne.symm h₂))

end Layout
