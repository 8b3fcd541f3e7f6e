import BsaAcs.Infra.Theorems.Verdict

namespace Infra

-- What a run of a test says: the value it returns and what it adds to the counters of the suite.
def verdict (r : Run) (s : State) : Nat × Nat × Nat :=
  ((testEntry r s).1, (testEntry r s).2.gBsaTestsPass - s.gBsaTestsPass,
    (testEntry r s).2.gBsaTestsFail - s.gBsaTestsFail)

-- The state in which the tests of a history leave the suite.
def after (history : List Run) (s : State) : State :=
  history.foldl (fun s r => (testEntry r s).2) s

-- Tests of one suite: they share the boot PE, the PE table and the tests the user skips.
def SameSuite (r q : Run) : Prop :=
  q.myIndex = r.myIndex ∧ q.numOfPe = r.numOfPe ∧ q.gSkipTestNum = r.gSkipTestNum

def Independent (r : Run) : Prop :=
  ∀ s h₁ h₂, (∀ q ∈ h₁, SameSuite r q) → (∀ q ∈ h₂, SameSuite r q) →
    verdict r (after h₁ s) = verdict r (after h₂ s)

-- The entry of the boot PE is written while a test for one PE runs: the accesses of such a test
-- are one reset, the stores of its payload and the read of the check.
def WritesBootEntry (r : Run) : Prop :=
  (∃ w, (r.myIndex, w) ∈ r.payload) ∨ ∃ k ≤ r.payload.length + 1, ∃ w, (r.myIndex, w) ∈ r.lands k

-- Two states that hold the same words in the entries of `D`.
structure Agree (D : Nat → Prop) (s s' : State) : Prop where
  accesses : s.accesses = s'.accesses
  status   : D i → s.status i = s'.status i

variable {r : Run} {s s' : State} {D : Nat → Prop}

theorem foldl_store_congr {l : List (Nat × Nat)} {m m' : Nat → Nat} (h : m i = m' i) :
    l.foldl store m i = l.foldl store m' i := by
  induction l generalizing m m'
  case nil => exact h
  case cons p l hi =>
    refine hi ?_
    simp only [store, Function.update_apply, h]

theorem foldl_store_eq {l : List (Nat × Nat)} (h : (i, w) ∈ l) (m m' : Nat → Nat) :
    l.foldl store m i = l.foldl store m' i := by
  induction l generalizing m m'
  case nil => cases h
  case cons p l hi =>
    rw [List.foldl_cons, List.foldl_cons]
    rcases List.mem_cons.mp h with rfl | h
    · exact foldl_store_congr (by simp [store])
    · exact hi h _ _

namespace Agree

theorem mono {E : Nat → Prop} (h : Agree D s s') (hd : ∀ i, E i → D i) : Agree E s s' :=
  ⟨h.accesses, fun hi => h.status (hd _ hi)⟩

theorem land (h : Agree D s s') : Agree D (land r s) (land r s') := by
  refine ⟨by simp [h.accesses], fun hi => ?_⟩
  simp only [Infra.land, h.accesses]
  exact foldl_store_congr (h.status hi)

-- A store of another PE that lands now makes its entry the same in both.
theorem land_mem (h : Agree D s s') :
    Agree (fun j => D j ∨ ∃ w, (j, w) ∈ r.lands s.accesses) (Infra.land r s) (Infra.land r s') := by
  refine ⟨h.land.accesses, ?_⟩
  rintro j (hj | ⟨w, hm⟩)
  · exact h.land.status hj
  · simp only [Infra.land, ←h.accesses]
    exact foldl_store_eq hm _ _

theorem valSetStatus_mem (h : Agree D s s') :
    Agree (fun j => D j ∨ j = i ∨ ∃ w, (j, w) ∈ r.lands s.accesses)
      (valSetStatus r i w s) (valSetStatus r i w s') := by
  refine ⟨by simp [h.accesses], ?_⟩
  rintro j (hj | rfl | hm)
  · simp only [Infra.valSetStatus, store, Function.update_apply, (h.land (r := r)).status hj]
  · simp [Infra.valSetStatus, store]
  · simp only [Infra.valSetStatus, store, Function.update_apply,
      (h.land_mem (r := r)).status (.inr hm)]

theorem valSetStatus (h : Agree D s s') :
    Agree (fun j => D j ∨ j = i) (valSetStatus r i w s) (valSetStatus r i w s') :=
  h.valSetStatus_mem.mono fun _ hj => hj.imp_right .inl

theorem initializeLoop (h : Agree D s s') (n lo : Nat) :
    Agree (fun j => D j ∨ lo ≤ j ∧ j < lo + n) (initializeLoop r n lo s)
      (initializeLoop r n lo s') := by
  induction n generalizing s s' lo D
  case zero => exact h.mono fun i hi => hi.resolve_right (by omega)
  case succ n hi =>
    refine (hi h.valSetStatus (lo + 1)).mono fun i hi => ?_
    rcases hi with hd | hr
    · exact .inl (.inl hd)
    · by_cases he : i = lo
      case pos => exact .inl (.inr he)
      case neg => exact .inr (by omega)

theorem runPayload (h : Agree D s s') (l : List (Nat × Nat)) :
    Agree (fun j => D j ∨ (∃ w, (j, w) ∈ l) ∨
        ∃ k, s.accesses ≤ k ∧ k < s.accesses + l.length ∧ ∃ w, (j, w) ∈ r.lands k)
      (runPayload r l s) (runPayload r l s') := by
  induction l generalizing s s' D
  case nil =>
    refine h.mono fun i hi => ?_
    rcases hi with hd | ⟨w, hw⟩ | ⟨k, h₁, h₂, _⟩
    · exact hd
    · cases hw
    · simp at h₂
      omega
  case cons p l hi =>
    refine (hi h.valSetStatus_mem).mono fun i hi => ?_
    rcases hi with hd | ⟨w, hw⟩ | ⟨k, h₁, h₂, hk⟩
    · exact .inl (.inl hd)
    · rcases List.mem_cons.mp hw with rfl | hw
      · exact .inl (.inr (.inl rfl))
      · exact .inr (.inl ⟨w, hw⟩)
    · rw [List.length_cons] at h₂
      by_cases he : k = s.accesses
      case pos => exact .inl (.inr (.inr (he ▸ hk)))
      case neg => exact .inr (.inr ⟨k, by simp; omega, by simp; omega, hk⟩)

theorem executeLoop (h : Agree D s s') (n lo : Nat) :
    Agree D (executeLoop r n lo s) (executeLoop r n lo s') := by
  induction n generalizing s s' lo
  case zero => exact h
  case succ n hi =>
    rw [Infra.executeLoop, Infra.executeLoop, execute_eq, execute_eq]
    split
    · exact hi (h.valSetStatus.mono fun i hi => .inl hi) (lo + 1)
    · exact hi h (lo + 1)

theorem pollLoop (h : Agree D s s') (n lo j : Nat) (hd : ∀ i, lo ≤ i → i < lo + n → D i) :
    (pollLoop r n lo j s).1 = (pollLoop r n lo j s').1 ∧
      Agree D (pollLoop r n lo j s).2 (pollLoop r n lo j s').2 := by
  induction n generalizing s s' lo j
  case zero => exact ⟨rfl, h⟩
  case succ n hi =>
    rw [pollLoop_succ, pollLoop_succ, (h.land (r := r)).status (hd lo le_rfl (by omega))]
    exact hi h.land (lo + 1) _ fun i hl hi => hd i (by omega) (by omega)

theorem waitLoop (h : Agree D s s') (n j : Nat) (hd : ∀ i < r.numPe, D i) :
    (waitLoop r n j s).1 = (waitLoop r n j s').1 ∧
    (waitLoop r n j s).2.1 = (waitLoop r n j s').2.1 ∧
      Agree D (waitLoop r n j s).2.2 (waitLoop r n j s').2.2 := by
  induction n generalizing s s' j
  case zero => exact ⟨rfl, rfl, h⟩
  case succ n hi =>
    have ⟨h₁, h₂⟩ := h.pollLoop (r := r) r.numPe 0 0 fun i _ hi => hd i (by omega)
    simp only [Infra.waitLoop, h₁]
    split
    · exact ⟨rfl, rfl, h₂⟩
    · exact hi h₂ _

theorem checkLoop (h : Agree D s s') (n lo status : Nat) (hd : ∀ i, lo ≤ i → i < lo + n → D i) :
    (checkLoop r n lo status s).1 = (checkLoop r n lo status s').1 := by
  induction n generalizing s s' lo status
  case zero => rfl
  case succ n hi =>
    rw [checkLoop_succ, checkLoop_succ, (h.land (r := r)).status (hd lo le_rfl (by omega))]
    split
    · rfl
    · exact hi h.land (lo + 1) _ fun i hl hi => hd i (by omega) (by omega)

theorem valRunTestPayload (h : Agree D s s') (hn : r.numPe ≠ 1) (hd : ∀ i < r.numPe, D i) :
    Agree D (valRunTestPayload r s) (valRunTestPayload r s') := by
  have he := ((h.runPayload (r := r) r.payload).mono fun i hi => .inl hi).executeLoop
    (r := r) r.numPe 0
  have ⟨h₁, h₂, h₃⟩ := he.waitLoop (r := r) ((timeoutLarge + 2 ^ 32 - 1) % 2 ^ 32) 0 hd
  simp only [Infra.valRunTestPayload, hn, ite_false, valWaitForTestCompletion]
  generalize Infra.waitLoop _ _ _ (Infra.executeLoop _ _ _ (Infra.runPayload _ _ s)) = a at *
  generalize Infra.waitLoop _ _ _ (Infra.executeLoop _ _ _ (Infra.runPayload _ _ s')) = b at *
  obtain ⟨x, j, t⟩ := a
  obtain ⟨x', j', t'⟩ := b
  obtain rfl : x = x' := h₁
  obtain rfl : j = j' := h₂
  cases x
  case false => exact h₃
  case true => exact h₃.valSetStatus.mono fun i hi => .inl hi

end Agree

-- The state in which the check of a test begins, and the word it judges.
def ready (r : Run) (s : State) : State :=
  if r.testNum ∈ r.gSkipTestNum then
    valSetStatus r r.myIndex (resultSkip r.testNum 0) (initialized r s)
  else valRunTestPayload r (initialized r s)

def checked (r : Run) (s : State) : Nat :=
  if r.numPe = 1 then (land r (ready r s)).status r.myIndex
  else (checkLoop r r.numPe 0 0 (ready r s)).1

theorem counters_checkLoop : counters (checkLoop r n i w s).2 = counters s := by
  induction n generalizing i w s
  case zero => rfl
  case succ n hi =>
    rw [checkLoop_succ]
    split
    · rfl
    · rw [hi, counters_land]

theorem testEntry_ready (r : Run) (s : State) : testEntry r s = valCheckForError r (ready r s) := by
  by_cases hs : r.testNum ∈ r.gSkipTestNum
  case neg => rw [testEntry_eq hs, ready, if_neg hs]
  case pos =>
    simp [testEntry, valInitializeTest, hs, ready, initialized]

theorem counters_ready : counters (ready r s) = counters s := by
  rw [ready]
  split
  · rw [counters_valSetStatus, counters_initialized]
  · rw [counters_valRunTestPayload, counters_initialized]

theorem judged_checked (r : Run) (s : State) : Judged r s (checked r s) := by
  obtain ⟨t, ht, hc⟩ : ∃ t, testEntry r s = judge (checked r s) t ∧ counters t = counters s := by
    rw [testEntry_ready]
    by_cases hn : r.numPe = 1
    case pos =>
      simp only [valCheckForError, checked, hn, ite_true]
      exact ⟨_, rfl, by rw [valGetStatus, counters_land, counters_ready]⟩
    case neg =>
      simp only [valCheckForError, checked, hn, ite_false]
      exact ⟨_, rfl, by rw [counters_checkLoop, counters_ready]⟩
  obtain ⟨h₁, h₂, h₃⟩ := judge_congr hc (checked r s)
  exact ⟨ht ▸ h₁, ht ▸ h₂, ht ▸ h₃⟩

-- The verdict depends on nothing but the word that is judged.
theorem verdict_eq (r : Run) (s : State) :
    verdict r s = if isTestPass (checked r s) then (acsStatusPass, 1, 0)
      else if isTestSkip (checked r s) then (acsStatusSkip, 0, 0)
      else (acsStatusFail, 0, 1) := by
  have hj := judged_checked r s
  rw [verdict, hj.ret, hj.pass, hj.fail, judge]
  split
  · simp
  · split <;> simp

theorem agree_initialized (r : Run) (s s' : State) :
    Agree (fun i => i < r.numPe) (initialized r s) (initialized r s') := by
  have h : Agree (fun _ => False)
      { s with accesses := 0, gBsaTestsTotal := s.gBsaTestsTotal + 1 }
      { s' with accesses := 0, gBsaTestsTotal := s'.gBsaTestsTotal + 1 } := ⟨rfl, False.elim⟩
  exact (h.initializeLoop (r := r) r.numPe 0).mono fun i hi => .inr ⟨Nat.zero_le _, by omega⟩

theorem accesses_initialized : (initialized r s).accesses = r.numPe := by
  have h : ∀ (n lo : Nat) (s : State), (initializeLoop r n lo s).accesses = s.accesses + n := by
    intro n
    induction n
    case zero => exact fun _ _ => rfl
    case succ n hi =>
      intro lo s
      rw [initializeLoop, hi, accesses_valSetStatus]
      omega
  rw [initialized, h]
  exact Nat.zero_add _

-- With several PEs the check reads only entries that were reset.
theorem checked_many (hn : r.numPe ≠ 1) (s s' : State) : checked r s = checked r s' := by
  have h := agree_initialized r s s'
  rw [checked, checked, if_neg hn, if_neg hn, ready, ready]
  split
  · exact (h.valSetStatus.mono fun i hi => .inl hi).checkLoop _ _ _ fun i _ hi => by omega
  · exact (h.valRunTestPayload hn fun i hi => hi).checkLoop _ _ _ fun i _ hi => by omega

section Single

variable (hn : r.numPe = 1)

include hn

theorem ready_single (hs : r.testNum ∉ r.gSkipTestNum) :
    ready r s = runPayload r r.payload (initialized r s) := by
  rw [ready, if_neg hs, valRunTestPayload, if_pos hn]

omit hn in
theorem accesses_runPayload (r : Run) (l : List (Nat × Nat)) (s : State) :
    (runPayload r l s).accesses = s.accesses + l.length := by
  induction l generalizing s
  case nil => rfl
  case cons p l hi =>
    rw [runPayload, hi, accesses_valSetStatus, List.length_cons]
    omega

theorem initialized_single :
    initialized r s = valSetStatus r 0 (resultPending r.testNum)
      { s with accesses := 0, gBsaTestsTotal := s.gBsaTestsTotal + 1 } := by
  rw [initialized, hn]
  rfl

theorem checked_single
    (hc : r.myIndex = 0 ∨ r.testNum ∈ r.gSkipTestNum ∨ WritesBootEntry r) (s s' : State) :
    checked r s = checked r s' := by
  have h := agree_initialized r s s'
  rw [checked, checked, if_pos hn, if_pos hn]
  by_cases hs : r.testNum ∈ r.gSkipTestNum
  case pos =>
    rw [ready, ready, if_pos hs, if_pos hs]
    exact h.valSetStatus.land.status (.inr rfl)
  case neg =>
    rw [ready_single hn hs, ready_single hn hs]
    rcases hc with hz | hc | hw | ⟨k, hk, hw⟩
    · exact (h.runPayload r.payload).land.status (.inl (by omega))
    · exact absurd hc hs
    · exact (h.runPayload r.payload).land.status (.inr (.inl hw))
    · have ha : (initialized r s).accesses = 1 := by rw [accesses_initialized, hn]
      by_cases hk₀ : k = 0
      case pos =>
        have h₀ : Agree (fun _ => False)
            { s with accesses := 0, gBsaTestsTotal := s.gBsaTestsTotal + 1 }
            { s' with accesses := 0, gBsaTestsTotal := s'.gBsaTestsTotal + 1 } := ⟨rfl, False.elim⟩
        have h₁ := h₀.valSetStatus_mem (r := r) (i := 0) (w := resultPending r.testNum)
        rw [←initialized_single hn, ←initialized_single hn] at h₁
        exact (h₁.runPayload r.payload).land.status (.inl (.inr (.inr (hk₀ ▸ hw))))
      case neg =>
        by_cases hk₁ : k < 1 + r.payload.length
        case pos =>
          exact (h.runPayload r.payload).land.status
            (.inr (.inr ⟨k, by rw [ha]; omega, by rw [ha]; exact hk₁, hw⟩))
        case neg =>
          refine (h.runPayload r.payload).land_mem.status (.inr ?_)
          have : 1 + r.payload.length = k := by omega
          rwa [accesses_runPayload, ha, this]

-- Otherwise the check reads what an earlier test left in the entry.
theorem checked_stale (hs : r.testNum ∉ r.gSkipTestNum) (hz : r.myIndex ≠ 0)
    (hw : ¬WritesBootEntry r) (s : State) : checked r s = s.status r.myIndex := by
  simp only [WritesBootEntry, not_or, not_exists, not_and] at hw
  have ⟨hp, hl⟩ := hw
  have hrun : ∀ (l : List (Nat × Nat)) (t : State), (∀ w, (r.myIndex, w) ∉ l) →
      t.accesses + l.length ≤ r.payload.length + 1 →
      (runPayload r l t).status r.myIndex = t.status r.myIndex := by
    intro l
    induction l
    case nil => exact fun _ _ _ => rfl
    case cons p l hi =>
      intro t hm ha
      rw [List.length_cons] at ha
      have hne : r.myIndex ≠ p.1 := fun he => hm p.2 (by simp [he])
      rw [runPayload, hi _ (fun w hw => hm w (List.mem_cons_of_mem _ hw))
        (by rw [accesses_valSetStatus]; omega), valSetStatus]
      simp only [store, Function.update_of_ne hne, land]
      exact foldl_store_not_mem (hl _ (by omega))
  have ha : (initialized r s).accesses = 1 := by rw [accesses_initialized, hn]
  have hi : (initialized r s).status r.myIndex = s.status r.myIndex := by
    rw [initialized_single hn, valSetStatus]
    simp only [store, Function.update_of_ne hz, land]
    exact foldl_store_not_mem (hl 0 (Nat.zero_le _))
  have hacc : (runPayload r r.payload (initialized r s)).accesses ≤ r.payload.length + 1 := by
    rw [accesses_runPayload, ha]
    omega
  have hst := hrun r.payload (initialized r s) hp (by rw [ha]; omega)
  rw [checked, if_pos hn, ready_single hn hs, ←hi, ←hst]
  exact foldl_store_not_mem (hl _ hacc)

end Single

-- A test for one PE that stores `w` in the entry of that PE.
def storing (r : Run) (testNum w : Nat) : Run :=
  { r with testNum := testNum, numPe := 1, payload := [(r.myIndex, w)], lands := fun _ => [] }

theorem status_after_storing (ht : t ∉ r.gSkipTestNum) (w : Nat) (s : State) :
    (after [storing r t w] s).status r.myIndex = w := by
  have hs : (storing r t w).testNum ∉ (storing r t w).gSkipTestNum := ht
  have hst : ∀ (v : Nat) (u : State), (judge v u).2.status = u.status := by
    intro v u
    rw [judge]
    split
    · rfl
    · split <;> rfl
  simp only [after, List.foldl_cons, List.foldl_nil]
  rw [testEntry_ready, ready_single rfl hs, valCheckForError]
  simp [hst, storing, runPayload, valGetStatus, valSetStatus, land, store]

theorem verdict_independent_iff (r : Run) :
    Independent r ↔
      r.numPe ≠ 1 ∨ r.myIndex = 0 ∨ r.testNum ∈ r.gSkipTestNum ∨ WritesBootEntry r := by
  constructor
  case mpr =>
    intro hc s h₁ h₂ _ _
    rw [verdict_eq, verdict_eq]
    by_cases hn : r.numPe = 1
    case pos => rw [checked_single hn (hc.resolve_left (not_not.mpr hn))]
    case neg => rw [checked_many hn]
  case mp =>
    intro h
    by_contra hc
    simp only [not_or, not_not] at hc
    have ⟨hn, hz, hs, hw⟩ := hc
    have ⟨t, ht⟩ := Infinite.exists_notMem_finset r.gSkipTestNum.toFinset
    rw [List.mem_toFinset] at ht
    have hsuite : ∀ w, ∀ q ∈ [storing r t w], SameSuite r q := by
      intro w q hq
      rw [List.mem_singleton.mp hq]
      exact ⟨rfl, rfl, rfl⟩
    have he := h booted _ _ (hsuite (resultPass 0 0)) (hsuite (resultFail 0 0))
    rw [verdict_eq, verdict_eq, checked_stale hn hs hz hw, checked_stale hn hs hz hw,
      status_after_storing ht, status_after_storing ht] at he
    revert he
    decide

-- A test on the boot PE 1 that stores nothing repeats the verdict of the test before it.
def storesNothing : Run where
  testNum      := 5
  numPe        := 1
  myIndex      := 1
  numOfPe      := 2
  gSkipTestNum := []
  payload      := []
  cpuOn _ _    := 0
  lands _      := []

theorem stale_status_decides : ¬Independent storesNothing := by
  intro h
  have he := h booted [storing storesNothing 4 (resultPass 4 1)]
    [storing storesNothing 4 (resultFail 4 1)] (by simp [SameSuite, storing])
    (by simp [SameSuite, storing])
  revert he
  decide

end Infra
