import BsaAcs.Infra.Test
import Mathlib.Tactic

namespace Infra

-- A word with which a PE ends its part of a test.
def IsResult (value : Nat) : Prop :=
  isTestPass value ∨ isTestFail value ∨ isTestSkip value

section Words

theorem state_eq (value : Nat) : state value = value / 2 ^ 28 % 2 ^ 4 := by
  rw [state, stateBit, stateMask, Nat.shiftRight_eq_div_pow, ←Nat.and_two_pow_sub_one_eq_mod]

theorem state_result (val status : Nat) {testNum : Nat} (hv : val < 2 ^ 4)
    (ht : testNum ≤ testNumMask) (hs : status < 2 ^ testNumBit) :
    state ((val <<< stateBit) ||| (testNum <<< testNumBit) ||| status) = val := by
  rw [testNumMask] at ht
  rw [testNumBit] at hs
  have hn : testNum <<< 12 + status < 2 ^ 28 := by
    rw [Nat.shiftLeft_eq]
    omega
  rw [state_eq, stateBit, testNumBit, Nat.or_assoc, ←Nat.shiftLeft_add_eq_or_of_lt hs,
    ←Nat.shiftLeft_add_eq_or_of_lt hn, Nat.shiftLeft_eq]
  omega

variable {testNum status : Nat}

theorem state_resultPending (ht : testNum ≤ testNumMask) :
    state (resultPending testNum) = testPendingVal := by
  have h := state_result testPendingVal 0 (by decide) ht (by decide)
  rwa [Nat.or_zero] at h

theorem isResultPending_resultPending (ht : testNum ≤ testNumMask) :
    isResultPending (resultPending testNum) := by
  simp [isResultPending, state_resultPending ht]

theorem isTestFail_resultFail (ht : testNum ≤ testNumMask) (hs : status < 2 ^ testNumBit) :
    isTestFail (resultFail testNum status) := by
  have h := state_result testFailVal status (by decide) ht hs
  simp [isTestFail, resultFail, h]

theorem IsResult.not_pending (h : IsResult status) : isResultPending status = false := by
  simp only [IsResult, isTestPass, isTestFail, isTestSkip, beq_iff_eq] at h
  simp only [isResultPending, beq_eq_false_iff_ne]
  rcases h with h | h | h <;> rw [h] <;> decide

theorem isTestFail.not_pending (h : isTestFail status) : isResultPending status = false :=
  IsResult.not_pending (.inr (.inl h))

theorem isTestFail.not_pass (h : isTestFail status) : isTestPass status = false := by
  simp only [isTestFail, beq_iff_eq] at h
  simp [isTestPass, h, testFailVal, testPassVal]

theorem isTestFail.not_skip (h : isTestFail status) : isTestSkip status = false := by
  simp only [isTestFail, beq_iff_eq] at h
  simp [isTestSkip, h, testFailVal, testSkipVal]

theorem isTestSkip.not_pass (h : isTestSkip status) : isTestPass status = false := by
  simp only [isTestSkip, beq_iff_eq] at h
  simp [isTestPass, h, testSkipVal, testPassVal]

theorem isResultPending.not_failSkip (h : isResultPending status) :
    isTestFailSkip status = false := by
  simp only [isResultPending, beq_iff_eq] at h
  simp [isTestFailSkip, isTestFail, isTestSkip, h, testPendingVal, testFailVal, testSkipVal]

theorem isResultPending.not_pass (h : isResultPending status) : isTestPass status = false := by
  simp only [isResultPending, beq_iff_eq] at h
  simp [isTestPass, h, testPendingVal, testPassVal]

theorem isResultPending.not_skip (h : isResultPending status) : isTestSkip status = false := by
  simp only [isResultPending, beq_iff_eq] at h
  simp [isTestSkip, h, testPendingVal, testSkipVal]

end Words

section Store

variable {m : Nat → Nat} {l : List (Nat × Nat)} {i w : Nat}

theorem foldl_store_not_mem (h : ∀ w, (i, w) ∉ l) : l.foldl store m i = m i := by
  induction l generalizing m
  case nil => rfl
  case cons p l hi =>
    have hp : i ≠ p.1 := fun he => h p.2 (by simp [he])
    rw [List.foldl_cons, hi fun w hw => h w (List.mem_cons_of_mem _ hw), store,
      Function.update_of_ne hp]

theorem foldl_store_mem (h : (i, w) ∈ l) (hu : ∀ v, (i, v) ∈ l → v = w) :
    l.foldl store m i = w := by
  induction l generalizing m
  case nil => cases h
  case cons p l hi =>
    rw [List.foldl_cons]
    by_cases hm : (i, w) ∈ l
    case pos => exact hi hm fun v hv => hu v (List.mem_cons_of_mem _ hv)
    case neg =>
      have hp : p = (i, w) := by
        rcases List.mem_cons.mp h with h | h
        · exact h.symm
        · exact absurd h hm
      have hn : ∀ v, (i, v) ∉ l := fun v hv => hm (hu v (List.mem_cons_of_mem _ hv) ▸ hv)
      rw [foldl_store_not_mem hn, hp, store, Function.update_self]

end Store

-- The stores of other PEs that land before the access `k`.
def Landed (r : Run) (k i w : Nat) : Prop :=
  ∃ l < k, (i, w) ∈ r.lands l

theorem Landed.mono {r : Run} (h : Landed r k i w) (hk : k ≤ k') : Landed r k' i w :=
  have ⟨l, hl, hm⟩ := h
  ⟨l, hl.trans_le hk, hm⟩

-- No PE stores two different words.
def Steady (r : Run) : Prop :=
  ∀ {k l i v w}, (i, v) ∈ r.lands k → (i, w) ∈ r.lands l → v = w

-- Each status is the word its PE has stored so far, or else the word of `base`.
structure Entries (r : Run) (base : Nat → Nat) (s : State) : Prop where
  landed : Landed r s.accesses i w → s.status i = w
  absent : (∀ w, ¬Landed r s.accesses i w) → s.status i = base i

section Entries

variable {r : Run} {base : Nat → Nat} {s : State}

theorem Entries.land (hr : Steady r) (h : Entries r base s) : Entries r base (land r s) := by
  constructor
  case landed =>
    intro i w ⟨l, hl, hm⟩
    by_cases hw : ∃ v, (i, v) ∈ r.lands s.accesses
    case pos =>
      have ⟨v, hv⟩ := hw
      simp only [Infra.land]
      rw [foldl_store_mem hv fun _ h => hr h hv]
      exact hr hv hm
    case neg =>
      push Not at hw
      have hl : l < s.accesses := by
        rcases Nat.lt_succ_iff_lt_or_eq.mp hl with h | h
        · exact h
        · exact absurd (h ▸ hm) (hw w)
      simp only [Infra.land]
      rw [foldl_store_not_mem hw]
      exact h.landed ⟨l, hl, hm⟩
  case absent =>
    intro i hn
    have hw : ∀ w, (i, w) ∉ r.lands s.accesses := fun w hm => hn w ⟨_, Nat.lt_succ_self _, hm⟩
    simp only [Infra.land]
    rw [foldl_store_not_mem hw]
    exact h.absent fun w hl => hn w (hl.mono (Nat.le_succ _))

-- A store of the boot PE to an entry that no other PE writes.
theorem Entries.valSetStatus (hr : Steady r) (h : Entries r base s)
    (hi : ∀ k w, (i, w) ∉ r.lands k) :
    Entries r (store base (i, v)) (valSetStatus r i v s) := by
  have hl := h.land hr
  constructor
  case landed =>
    intro j w hj
    have hne : j ≠ i := by
      rintro rfl
      have ⟨k, _, hm⟩ := hj
      exact hi k w hm
    simp only [Infra.valSetStatus, store]
    rw [Function.update_of_ne hne]
    exact hl.landed hj
  case absent =>
    intro j hj
    by_cases hne : j = i
    case pos => simp [Infra.valSetStatus, store, hne]
    case neg =>
      simp only [Infra.valSetStatus, store]
      rw [Function.update_of_ne hne, Function.update_of_ne hne]
      exact hl.absent hj

theorem Entries.congr (h : Entries r base s) (hb : ∀ i, base i = base' i) : Entries r base' s :=
  ⟨h.landed, fun ha => hb _ ▸ h.absent ha⟩

@[simp]
theorem accesses_land : (land r s).accesses = s.accesses + 1 := rfl

@[simp]
theorem accesses_valSetStatus : (valSetStatus r i v s).accesses = s.accesses + 1 := rfl

end Entries

-- Stores that are still to come repeat what is there.
def Stable (r : Run) (s : State) : Prop :=
  ∀ k ≥ s.accesses, ∀ i w, (i, w) ∈ r.lands k → s.status i = w

theorem Stable.land {r : Run} {s : State} (hr : Steady r) (h : Stable r s) :
    (land r s).status = s.status ∧ Stable r (land r s) := by
  have he : (Infra.land r s).status = s.status := by
    funext i
    by_cases hw : ∃ v, (i, v) ∈ r.lands s.accesses
    case pos =>
      have ⟨v, hv⟩ := hw
      simp only [Infra.land]
      rw [foldl_store_mem hv fun _ h => hr h hv, h _ le_rfl _ _ hv]
    case neg =>
      push Not at hw
      simp only [Infra.land]
      rw [foldl_store_not_mem hw]
  refine ⟨he, ?_⟩
  intro k hk i w hm
  rw [he]
  exact h k ((Nat.le_succ _).trans hk) i w hm

end Infra
