import Mathlib.Data.Finset.Card
import Mathlib.Data.Fintype.Pigeonhole
import Mathlib.Tactic

-- A loop that goes from position to position until it leaves with a result.
def loop {P R : Type*} (step : P → P ⊕ R) : Nat → P → Option R
  | 0, _ => none
  | fuel + 1, p =>
    match step p with
    | .inl q => loop step fuel q
    | .inr r => some r

namespace Loop

-- The loop leaves with `r` after `n` positions.
inductive Leaves {P R : Type*} (step : P → P ⊕ R) : Nat → P → R → Prop
  | now {p r}      : (step p = .inr r) → Leaves step 1 p r
  | next {p q r n} : (step p = .inl q) → Leaves step n q r → Leaves step (n + 1) p r

variable {P R : Type*} {step : P → P ⊕ R} {p : P} {r r' : R} {m n : Nat} {s : Finset P}

namespace Leaves

theorem deterministic (h : Leaves step n p r) (h' : Leaves step m p r') : n = m ∧ r = r' := by
  induction h generalizing m
  case now he =>
    cases h'
    case now he'    => simp_all
    case next he' _ => simp_all
  case next he _ hi =>
    cases h'
    case now he' => simp_all
    case next he' h' =>
      cases he ▸ he'
      have ⟨hn, hr⟩ := hi h'
      exact ⟨by omega, hr⟩

theorem run (h : Leaves step n p r) (hn : n ≤ m) : loop step m p = some r := by
  induction h generalizing m
  case now he =>
    cases m
    case zero => omega
    case succ => simp [loop, he]
  case next he _ hi =>
    cases m
    case zero => omega
    case succ => simpa [loop, he] using hi (by omega)

theorem of_run (h : loop step m p = some r) : ∃ n, n ≤ m ∧ Leaves step n p r := by
  induction m generalizing p
  case zero => simp [loop] at h
  case succ m hi =>
    cases he : step p
    case inl q =>
      simp only [loop, he] at h
      have ⟨n, hn, hl⟩ := hi h
      exact ⟨n + 1, by omega, .next he hl⟩
    case inr r' =>
      simp only [loop, he, Option.some.injEq] at h
      exact ⟨1, by omega, .now (h ▸ he)⟩

-- No position is met twice, since each one is left by a certain number of steps before the end.
theorem positions (h : Leaves step n p r) (hp : p ∈ s) (hs : ∀ {p q}, p ∈ s → step p = .inl q → q ∈ s) :
    ∃ l : List P, l.length = n ∧ l.Nodup ∧ ∀ q ∈ l, q ∈ s ∧ ∃ k ≤ n, Leaves step k q r := by
  induction h
  case now p r he => exact ⟨[p], by simp, by simp, by simpa using ⟨hp, 1, le_rfl, .now he⟩⟩
  case next p q r n he hl hi =>
    have ⟨l, hn, hd, hm⟩ := hi (hs hp he)
    refine ⟨p :: l, by simp [hn], ?_, ?_⟩
    · refine List.nodup_cons.mpr ⟨?_, hd⟩
      intro hc
      have ⟨_, k, hk, hl'⟩ := hm p hc
      have := (Leaves.next he hl).deterministic hl' |>.left
      omega
    · intro x hx
      cases List.mem_cons.mp hx
      case inl h => exact h ▸ ⟨hp, n + 1, le_rfl, .next he hl⟩
      case inr h =>
        have ⟨hx, k, hk, hl'⟩ := hm x h
        exact ⟨hx, k, by omega, hl'⟩

theorem le_card (h : Leaves step n p r) (hp : p ∈ s)
    (hs : ∀ {p q}, p ∈ s → step p = .inl q → q ∈ s) : n ≤ s.card := by
  classical
  have ⟨l, hn, hd, hm⟩ := h.positions hp hs
  calc n = l.toFinset.card := by rw [List.toFinset_card_of_nodup hd, hn]
    _ ≤ s.card := Finset.card_le_card fun x hx => (hm x (List.mem_toFinset.mp hx)).left

-- What all steps keep holds of the result.
theorem invariant {I : P → Prop} {Q : R → Prop} (hi : ∀ {p q}, I p → step p = .inl q → I q)
    (hq : ∀ {p r}, I p → step p = .inr r → Q r) (h : Leaves step n p r) (hp : I p) : Q r := by
  induction h
  case now he        => exact hq hp he
  case next he _ hi' => exact hi' (hi hp he)

-- A loop that takes the same steps at the positions it comes to.
theorem congr {step' : P → P ⊕ R} {I : P → Prop} (hi : ∀ {p q}, I p → step p = .inl q → I q)
    (he : ∀ {p}, I p → step' p = step p) (h : Leaves step n p r) (hp : I p) : Leaves step' n p r := by
  induction h
  case now hs        => exact .now ((he hp).trans hs)
  case next hs _ hi' => exact .next ((he hp).trans hs) (hi' (hi hp hs))

theorem not_of_stays (hs : step p = .inl p) : ¬Leaves step n p r := by
  intro h
  apply h.invariant (I := (· = p)) (Q := fun _ => False) _ _ rfl
  · intro q q' hq he
    subst hq
    exact (Sum.inl.inj (hs.symm.trans he)).symm
  · intro q r hq he
    subst hq
    cases hs.symm.trans he

end Leaves

-- The loop gets from one position to another one.
def Goes (step : P → P ⊕ R) : P → P → Prop :=
  Relation.ReflTransGen fun p q => step p = .inl q

-- The position after one step, if the loop does not leave.
def advance (step : P → P ⊕ R) (p : P) : P :=
  (step p).elim id fun _ => p

namespace Goes

variable {q : P}

theorem single (he : step p = .inl q) : Goes step p q :=
  Relation.ReflTransGen.single he

theorem trans {q' : P} (h : Goes step p q) (h' : Goes step q q') : Goes step p q' :=
  Relation.ReflTransGen.trans h h'

theorem iterate (step : P → P ⊕ R) (n : Nat) (p : P) : Goes step p ((advance step)^[n] p) := by
  induction n generalizing p
  case zero      => exact Relation.ReflTransGen.refl
  case succ n hi =>
    rw [Function.iterate_succ_apply, advance]
    cases he : step p
    case inl q => exact (single he).trans (hi q)
    case inr r => exact hi p

theorem leaves (h : Goes step p q) (hl : Leaves step n q r) : ∃ m, Leaves step m p r := by
  induction h using Relation.ReflTransGen.head_induction_on
  case refl          => exact ⟨n, hl⟩
  case head he _ hi  =>
    have ⟨m, hm⟩ := hi
    exact ⟨m + 1, .next he hm⟩

-- Where it gets to is on the way to the result.
theorem of_leaves (h : Goes step p q) (hl : Leaves step n p r) : ∃ m, Leaves step m q r := by
  induction h using Relation.ReflTransGen.head_induction_on generalizing n
  case refl         => exact ⟨n, hl⟩
  case head he _ hi =>
    cases hl
    case now he'     => cases he.symm.trans he'
    case next he' hl =>
      cases he.symm.trans he'
      exact hi hl

end Goes

theorem run_unique (h : loop step m p = some r) (h' : loop step n p = some r') : r = r' := by
  have ⟨_, _, hl⟩ := Leaves.of_run h
  have ⟨_, _, hl'⟩ := Leaves.of_run h'
  exact (hl.deterministic hl').right

-- Among finitely many positions the loop leaves within as many steps as there are positions, or never.
theorem run_card (h : loop step m p = some r) (hp : p ∈ s)
    (hs : ∀ {p q}, p ∈ s → step p = .inl q → q ∈ s) : loop step s.card p = some r := by
  have ⟨_, _, hl⟩ := Leaves.of_run h
  exact hl.run (hl.le_card hp hs)

-- The loop comes back to a position.
def Circles (step : P → P ⊕ R) (p : P) : Prop :=
  Relation.TransGen (fun p q => step p = .inl q) p p

section

variable {q : P}

theorem Leaves.of_transGen (h : Relation.TransGen (fun p q => step p = .inl q) p q) (hl : Leaves step n p r) :
    ∃ m < n, Leaves step m q r := by
  induction h
  case single he =>
    cases hl
    case now he'             => cases he.symm.trans he'
    case next m he' hl       =>
      cases he.symm.trans he'
      exact ⟨m, Nat.lt_succ_self m, hl⟩
  case tail he hi =>
    have ⟨m, hm, hl⟩ := hi
    cases hl
    case now he'       => cases he.symm.trans he'
    case next m' he' hl =>
      cases he.symm.trans he'
      exact ⟨m', Nat.lt_of_succ_lt hm, hl⟩

theorem Leaves.not_circles (hl : Leaves step n p r) : ¬Circles step p := by
  intro hc
  have ⟨m, hm, hl'⟩ := hl.of_transGen hc
  exact hm.ne (hl'.deterministic hl).left

-- Among finitely many positions the loop leaves unless it comes to one twice.
theorem leaves_iff_not_circles (hp : p ∈ s) (hs : ∀ {p q}, p ∈ s → step p = .inl q → q ∈ s) :
    (∃ n r, Leaves step n p r) ↔ ∀ q, Goes step p q → ¬Circles step q := by
  constructor
  case mp =>
    intro ⟨n, r, hl⟩ q hg
    have ⟨_, hl'⟩ := hg.of_leaves hl
    exact hl'.not_circles
  case mpr =>
    intro hc
    by_contra hn
    have hstep (k : Nat) : step ((advance step)^[k] p) = .inl ((advance step)^[k + 1] p) := by
      rw [Function.iterate_succ_apply', advance]
      cases he : step ((advance step)^[k] p)
      case inl q => rfl
      case inr r =>
        have ⟨m, hl⟩ := (Goes.iterate step k p).leaves (.now he)
        exact absurd ⟨m, r, hl⟩ hn
    have hmem (k : Nat) : (advance step)^[k] p ∈ s := by
      induction k
      case zero      => exact hp
      case succ k hi => exact hs hi (hstep k)
    have htrans (i j : Nat) (h : i < j) :
        Relation.TransGen (fun p q => step p = .inl q) ((advance step)^[i] p) ((advance step)^[j] p) := by
      induction j, h using Nat.le_induction
      case base        => exact .single (hstep i)
      case succ j _ hi => exact hi.tail (hstep j)
    have ⟨i, j, hne, he⟩ := Finite.exists_ne_map_eq_of_infinite fun k => (⟨_, hmem k⟩ : s)
    have he : (advance step)^[i] p = (advance step)^[j] p := congrArg Subtype.val he
    rcases Nat.lt_or_gt_of_ne hne with h | h
    · exact hc _ (Goes.iterate step i p) (he ▸ htrans i j h)
    · exact hc _ (Goes.iterate step j p) (he.symm ▸ htrans j i h)

end

end Loop
