import BsaAcs.Infra.Theorems.Entries

namespace Infra

-- The boot PE could not switch this PE on.
def Refused (r : Run) (i : Nat) : Prop :=
  i ≠ r.myIndex ∧ i ≤ r.numOfPe ∧ executeAnswer r i timeoutLarge 0 ≠ 0

instance : DecidablePred (Refused r) :=
  fun _ => inferInstanceAs (Decidable (_ ∧ _ ∧ _))

-- Each PE writes its own entry with the result of the test, once it has been switched on; no PE
-- changes its result, and the firmware answers with the return codes of PSCI.
structure Run.Reports (r : Run) : Prop where
  testNum : r.testNum ≤ testNumMask
  small   : r.numPe < 2 ^ 32
  psci    : -9 ≤ r.cpuOn i k ∧ r.cpuOn i k ≤ 0
  own     : r.payload = [] ∨ ∃ w, IsResult w ∧ r.payload = [(r.myIndex, w)]
  started : k < r.numPe → r.lands k = []
  other   : (i, w) ∈ r.lands k → i ≠ r.myIndex ∧ i < r.numPe ∧ ¬Refused r i
  result  : (i, w) ∈ r.lands k → IsResult w
  steady  : Steady r

variable {r : Run} {s : State} {base : Nat → Nat}

section Execute

-- The word that `val_execute_on_pe` leaves for a PE that was not switched on.
def refusal (r : Run) (i : Nat) : Nat :=
  resultFail 0 ((0x120 - executeAnswer r i timeoutLarge 0) % 2 ^ 32).toNat

theorem executeAnswer_mem (r : Run) (i n k : Nat) : ∃ l, executeAnswer r i n k = r.cpuOn i l := by
  induction n generalizing k
  case zero => exact ⟨k, rfl⟩
  case succ n hi =>
    rw [executeAnswer]
    split
    · exact hi (k + 1)
    · exact ⟨k, rfl⟩

theorem isTestFail_refusal (h : r.Reports) : isTestFail (refusal r i) := by
  have ⟨l, hl⟩ := executeAnswer_mem r i timeoutLarge 0
  have hp := h.psci (i := i) (k := l)
  apply isTestFail_resultFail (by decide)
  rw [hl, testNumBit]
  omega

def refusals (r : Run) (base : Nat → Nat) (lo hi : Nat) : Nat → Nat :=
  fun i => if lo ≤ i ∧ i < hi ∧ Refused r i then refusal r i else base i

-- How many PEs were not switched on, each a store of the boot PE.
def refusedCount (r : Run) (lo : Nat) : Nat → Nat
  | 0 => 0
  | n + 1 => (if Refused r lo then 1 else 0) + refusedCount r (lo + 1) n

theorem Refused.not_mem_lands (h : r.Reports) (hi : Refused r i) (k w : Nat) :
    (i, w) ∉ r.lands k :=
  fun hm => (h.other hm).right.right hi

theorem execute_eq (r : Run) (i : Nat) (s : State) :
    (if i ≠ r.myIndex then valExecuteOnPe r i s else s) =
      if Refused r i then valSetStatus r i (refusal r i) s else s := by
  by_cases hm : i = r.myIndex
  case pos => simp [hm, Refused]
  case neg =>
    by_cases hn : i ≤ r.numOfPe
    case neg => simp [hm, hn, Refused, valExecuteOnPe]
    case pos =>
      by_cases ha : executeAnswer r i timeoutLarge 0 = 0 <;>
        simp [hm, hn, ha, Refused, valExecuteOnPe, refusal, Nat.not_lt.mpr hn]

theorem refusals_succ (hl : i ≠ lo) :
    refusals r base (lo + 1) (lo + 1 + n) i = refusals r base lo (lo + (n + 1)) i := by
  have hb : (lo + 1 ≤ i ∧ i < lo + 1 + n) ↔ (lo ≤ i ∧ i < lo + (n + 1)) := by omega
  simp only [refusals, ←and_assoc, hb]

theorem Entries.executeLoop (h : r.Reports) (he : Entries r base s) (n lo : Nat) :
    Entries r (refusals r base lo (lo + n)) (executeLoop r n lo s) ∧
      (executeLoop r n lo s).accesses = s.accesses + refusedCount r lo n := by
  induction n generalizing lo s base
  case zero =>
    refine ⟨he.congr fun i => ?_, rfl⟩
    have hf : ¬(lo ≤ i ∧ i < lo + 0 ∧ Refused r i) := by omega
    rw [refusals, if_neg hf]
  case succ n hi =>
    rw [Infra.executeLoop, execute_eq, refusedCount]
    by_cases hr : Refused r lo
    case pos =>
      simp only [hr, ite_true]
      have hs := he.valSetStatus (v := refusal r lo) h.steady (hr.not_mem_lands h)
      obtain ⟨h₁, h₂⟩ := hi hs (lo + 1)
      refine ⟨h₁.congr fun i => ?_, by rw [h₂, accesses_valSetStatus]; omega⟩
      by_cases hl : i = lo
      case pos => simp [refusals, hl, store, hr]
      case neg =>
        rw [refusals_succ hl]
        simp [refusals, store, Function.update_of_ne hl]
    case neg =>
      simp only [hr, ite_false]
      obtain ⟨h₁, h₂⟩ := hi he (lo + 1)
      refine ⟨h₁.congr fun i => ?_, by rw [h₂]; omega⟩
      by_cases hl : i = lo
      case pos => simp [refusals, hl, hr]
      case neg => exact refusals_succ hl

end Execute

section Poll

-- A poll that ends before the access `k` does not read this PE as pending.
def Answered (r : Run) (base : Nat → Nat) (k i : Nat) : Prop :=
  (∃ w, Landed r k i w) ∨ isResultPending (base i) = false

theorem Answered.mono (h : Answered r base k i) (hk : k ≤ k') : Answered r base k' i :=
  h.imp_left fun ⟨w, hw⟩ => ⟨w, hw.mono hk⟩

theorem Landed.isResult (h : r.Reports) (hl : Landed r k i w) : IsResult w :=
  have ⟨_, _, hm⟩ := hl
  h.result hm

theorem Entries.pending_iff (h : r.Reports) (he : Entries r base s) :
    isResultPending (s.status i) ↔ ¬Answered r base s.accesses i := by
  by_cases hl : ∃ w, Landed r s.accesses i w
  case pos =>
    have ⟨w, hw⟩ := hl
    simp [Answered, hl, he.landed hw, (hw.isResult h).not_pending]
  case neg =>
    push Not at hl
    simp [Answered, hl, he.absent hl]

theorem pollLoop_succ (r : Run) (n i j : Nat) (s : State) :
    pollLoop r (n + 1) i j s =
      pollLoop r n (i + 1) (if isResultPending ((land r s).status i) then i + 1 else j) (land r s) :=
  rfl

-- A poll finds every PE answered, or it names the last PE that had not answered when it began.
theorem pollLoop_spec (h : r.Reports) (he : Entries r base s) (n lo j : Nat) :
    Entries r base (pollLoop r n lo j s).2 ∧
    (pollLoop r n lo j s).2.accesses = s.accesses + n ∧
    (((pollLoop r n lo j s).1 = j ∧
        ∀ i, lo ≤ i → i < lo + n → Answered r base (s.accesses + n) i) ∨
      ∃ p, (pollLoop r n lo j s).1 = p + 1 ∧ lo ≤ p ∧ p < lo + n ∧
        ¬Answered r base s.accesses p ∧
        ∀ i, p < i → i < lo + n → Answered r base (s.accesses + n) i) := by
  induction n generalizing lo j s
  case zero =>
    refine ⟨he, rfl, .inl ⟨rfl, ?_⟩⟩
    intro i hl hi
    omega
  case succ n hi =>
    have he' := he.land h.steady
    have ha : s.accesses + 1 + n = s.accesses + (n + 1) := by omega
    have hb : lo + 1 + n = lo + (n + 1) := by omega
    rw [pollLoop_succ]
    have ⟨h₁, h₂, h₃⟩ := hi he' (lo + 1)
      (if isResultPending ((Infra.land r s).status lo) then lo + 1 else j)
    rw [accesses_land, ha, hb] at h₃
    rw [accesses_land, ha] at h₂
    refine ⟨h₁, h₂, ?_⟩
    rcases h₃ with ⟨hj, hall⟩ | ⟨p, hp, hlo, hhi, hno, hall⟩
    case inr =>
      exact .inr ⟨p, hp, by omega, hhi, fun hc => hno (hc.mono (Nat.le_succ _)), hall⟩
    case inl =>
      by_cases hq : isResultPending ((Infra.land r s).status lo)
      case pos =>
        rw [if_pos hq] at hj ⊢
        have hno := (he'.pending_iff h).mp hq
        refine .inr ⟨lo, hj, le_rfl, by omega, fun hc => hno (hc.mono (Nat.le_succ _)), ?_⟩
        exact fun i hl hi => hall i hl hi
      case neg =>
        rw [if_neg hq] at hj ⊢
        refine .inl ⟨hj, fun i hl hi => ?_⟩
        by_cases hl' : i = lo
        case neg => exact hall i (by omega) hi
        case pos =>
          rw [he'.pending_iff h, not_not] at hq
          exact hl' ▸ hq.mono (by simp)

-- Either a poll finds every PE answered, or all `n` polls are made and the last one names the last
-- PE that had not answered.
theorem waitLoop_spec (h : r.Reports) (he : Entries r base s) (n j : Nat) :
    (∃ j' s', waitLoop r (n + 1) j s = (false, j', s') ∧ Entries r base s' ∧
        ∀ i < r.numPe, Answered r base s'.accesses i) ∨
    (∃ p s', waitLoop r (n + 1) j s = (true, p + 1, s') ∧ Entries r base s' ∧ p < r.numPe ∧
        s'.accesses = s.accesses + (n + 1) * r.numPe ∧
        ¬Answered r base (s.accesses + n * r.numPe) p ∧
        ∀ i, p < i → i < r.numPe → Answered r base s'.accesses i) := by
  induction n generalizing j s
  case zero =>
    have ⟨h₁, h₂, h₃⟩ := pollLoop_spec h he r.numPe 0 0
    rw [Nat.zero_add, ←h₂] at h₃
    rcases h₃ with ⟨hj, hall⟩ | ⟨p, hp, -, hhi, hno, hall⟩
    case inl =>
      refine .inl ⟨_, _, by simp only [waitLoop, hj, ite_true]; rfl, h₁, ?_⟩
      exact fun i hi => hall i (Nat.zero_le _) hi
    case inr =>
      refine .inr ⟨p, _, by simp only [waitLoop, hp]; rfl, h₁, hhi, by rw [h₂]; omega, ?_, hall⟩
      simpa using hno
  case succ n hi =>
    have ⟨h₁, h₂, h₃⟩ := pollLoop_spec h he r.numPe 0 0
    rw [Nat.zero_add] at h₃
    rcases h₃ with ⟨hj, hall⟩ | ⟨p, hp, -, hhi, hno, hall⟩
    case inl =>
      refine .inl ⟨_, _, by rw [waitLoop]; simp only [hj, ite_true]; rfl, h₁, ?_⟩
      exact fun i hi => h₂ ▸ hall i (Nat.zero_le _) hi
    case inr =>
      have hstep : waitLoop r (n + 1 + 1) j s =
          waitLoop r (n + 1) (pollLoop r r.numPe 0 0 s).1 (pollLoop r r.numPe 0 0 s).2 := by
        rw [waitLoop]
        simp [hp]
      have hacc : ∀ m, (pollLoop r r.numPe 0 0 s).2.accesses + m * r.numPe =
          s.accesses + (m + 1) * r.numPe := by
        intro m
        rw [h₂]
        ring
      rw [hstep]
      have hrec := hi h₁ (pollLoop r r.numPe 0 0 s).1
      rwa [hacc, hacc] at hrec

end Poll

end Infra
