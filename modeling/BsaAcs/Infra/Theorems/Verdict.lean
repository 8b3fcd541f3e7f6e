import BsaAcs.Infra.Theorems.Wait

namespace Infra

-- The statuses that the PEs of a test store for it.

def Stored (r : Run) (i w : Nat) : Prop :=
  (i, w) ∈ r.payload ∨ ∃ k, (i, w) ∈ r.lands k

def Passed (r : Run) (i : Nat) : Prop := ∃ w, Stored r i w ∧ isTestPass w
def Failed (r : Run) (i : Nat) : Prop := ∃ w, Stored r i w ∧ isTestFail w
def Skipped (r : Run) (i : Nat) : Prop := ∃ w, Stored r i w ∧ isTestSkip w
def Missing (r : Run) (i : Nat) : Prop := ∀ w, ¬Stored r i w

-- A PE that the boot PE waits for in vain.
def Silent (r : Run) (i : Nat) : Prop :=
  i < r.numPe ∧ Missing r i ∧ ¬Refused r i

-- The silent PE whose entry the timeout rewrites.
def TimedOut (r : Run) (i : Nat) : Prop :=
  Silent r i ∧ ∀ k, Silent r k → k ≤ i

-- The access at which the last poll of `val_wait_for_test_completion` begins.
def lastPoll (r : Run) : Nat :=
  r.numPe + r.payload.length + refusedCount r 0 r.numPe + (timeoutLarge - 2) * r.numPe

def Timely (r : Run) : Prop :=
  ∀ k, lastPoll r ≤ k → r.lands k = []

-- The PEs a test is run on: a test for one PE is run where it is started.
def Runs (r : Run) (i : Nat) : Prop :=
  if r.numPe = 1 then i = r.myIndex else i < r.numPe

structure Sound (r : Run) (s : State) : Prop where
  pass : (testEntry r s).1 = acsStatusPass ∨ (testEntry r s).2.gBsaTestsPass ≠ s.gBsaTestsPass →
    ∀ i, Runs r i → Passed r i
  fail : (∃ i, Runs r i ∧ (Failed r i ∨ Missing r i)) →
    (testEntry r s).1 = acsStatusFail ∧ (testEntry r s).2.gBsaTestsFail = s.gBsaTestsFail + 1

-- A skip is only seen behind a failure that the check sees first; a test for one PE stores a
-- status, unless the entry of that PE was reset or holds no earlier verdict.
def Heeded (r : Run) (s : State) : Prop :=
  if r.numPe = 1 then
    r.payload = [] → r.myIndex ≠ 0 →
      ¬isTestPass (s.status r.myIndex) ∧ ¬isTestSkip (s.status r.myIndex)
  else
    (∃ k, k < r.numPe ∧ (Failed r k ∨ Missing r k)) →
      ∀ i, i < r.numPe → Skipped r i → ∃ k < i, Failed r k ∨ Refused r k ∨ TimedOut r k

variable {r : Run} {s : State}

section Stored

theorem Run.Reports.stored_unique (h : r.Reports) (hv : Stored r i v) (hw : Stored r i w) : v = w := by
  rcases hv with hv | ⟨k, hv⟩ <;> rcases hw with hw | ⟨l, hw⟩
  case inl.inl =>
    rcases h.own with ho | ⟨u, _, ho⟩ <;> simp [ho] at hv hw
    rw [hv.right, hw.right]
  case inr.inr => exact h.steady hv hw
  all_goals
    have hm := (h.other ‹(i, _) ∈ r.lands _›).left
    rcases h.own with ho | ⟨u, _, ho⟩ <;> simp_all

theorem Run.Reports.stored_isResult (h : r.Reports) (hw : Stored r i w) : IsResult w := by
  rcases hw with hw | ⟨k, hw⟩
  case inr => exact h.result hw
  case inl =>
    rcases h.own with ho | ⟨u, hu, ho⟩ <;> simp [ho] at hw
    exact hw.right ▸ hu

theorem Run.Reports.mem_payload (h : r.Reports) (hw : (i, w) ∈ r.payload) : i = r.myIndex := by
  rcases h.own with ho | ⟨u, hu, ho⟩ <;> simp [ho] at hw
  exact hw.left

theorem exists_timedOut (h : ∃ i, Silent r i) : ∃ i, TimedOut r i := by
  classical
  have ⟨i, hi⟩ := h
  have hb : ∀ k, Silent r k → k ≤ r.numPe := fun k hk => hk.left.le
  exact ⟨Nat.findGreatest (Silent r) r.numPe, Nat.findGreatest_spec (hb i hi) hi,
    fun k hk => Nat.le_findGreatest (hb k hk) hk⟩

end Stored

section Counters

-- Only the verdict itself counts a test as passed or failed.
def counters (s : State) : Nat × Nat :=
  (s.gBsaTestsPass, s.gBsaTestsFail)

@[simp]
theorem counters_land : counters (land r s) = counters s := rfl

@[simp]
theorem counters_valSetStatus : counters (valSetStatus r i w s) = counters s := rfl

@[simp]
theorem counters_initializeLoop : counters (initializeLoop r n i s) = counters s := by
  induction n generalizing i s
  case zero => rfl
  case succ n hi => simp [initializeLoop, hi]

@[simp]
theorem counters_runPayload : counters (runPayload r l s) = counters s := by
  induction l generalizing s
  case nil => rfl
  case cons p l hi => simp [runPayload, hi]

@[simp]
theorem counters_executeLoop : counters (executeLoop r n i s) = counters s := by
  induction n generalizing i s
  case zero => rfl
  case succ n hi =>
    rw [executeLoop, execute_eq, hi]
    split <;> simp

@[simp]
theorem counters_pollLoop : counters (pollLoop r n i j s).2 = counters s := by
  induction n generalizing i j s
  case zero => rfl
  case succ n hi => simp [pollLoop_succ, hi]

@[simp]
theorem counters_waitLoop : counters (waitLoop r n j s).2.2 = counters s := by
  induction n generalizing j s
  case zero => rfl
  case succ n hi =>
    rw [waitLoop]
    split
    split <;> simp_all [← counters_pollLoop (r := r) (n := r.numPe) (i := 0) (j := 0) (s := s)]

end Counters

section Final

theorem land_status_of_nil (h : r.lands s.accesses = []) : (land r s).status = s.status := by
  simp [land, h]

theorem initializeLoop_spec (h : r.Reports) (hs : s.accesses = lo) (hn : lo + n = r.numPe) :
    (initializeLoop r n lo s).accesses = r.numPe ∧
    ∀ i, (initializeLoop r n lo s).status i =
      if lo ≤ i ∧ i < r.numPe then resultPending r.testNum else s.status i := by
  induction n generalizing lo s
  case zero =>
    refine ⟨by simp [initializeLoop]; omega, fun i => ?_⟩
    rw [if_neg (by omega), initializeLoop]
  case succ n hi =>
    have hl : r.lands s.accesses = [] := h.started (by omega)
    rw [initializeLoop]
    have ha : (valSetStatus r lo (resultPending r.testNum) s).accesses = lo + 1 := by
      rw [accesses_valSetStatus, hs]
    have ⟨h₁, h₂⟩ := hi ha (by omega)
    refine ⟨h₁, fun i => ?_⟩
    rw [h₂]
    by_cases he : i = lo
    case pos =>
      have hr : lo ≤ lo ∧ lo < r.numPe := by omega
      simp [he, hr, valSetStatus, store]
    case neg =>
      have hb : (lo + 1 ≤ i ∧ i < r.numPe) ↔ (lo ≤ i ∧ i < r.numPe) := by omega
      simp only [hb, valSetStatus, store, land_status_of_nil hl]
      rw [Function.update_of_ne he]

-- The entries as the boot PE leaves them when it starts to wait.
def waitBase (r : Run) (status : Nat → Nat) : Nat → Nat :=
  refusals r (r.payload.foldl store status) 0 r.numPe

theorem Entries.runPayload (h : r.Reports) {base : Nat → Nat} (he : Entries r base s)
    (l : List (Nat × Nat)) (hl : ∀ p ∈ l, p ∈ r.payload) :
    Entries r (l.foldl store base) (runPayload r l s) ∧
      (runPayload r l s).accesses = s.accesses + l.length := by
  induction l generalizing s base
  case nil => exact ⟨he, rfl⟩
  case cons p l hi =>
    have hm : ∀ k w, (p.1, w) ∉ r.lands k := by
      intro k w hm
      exact (h.other hm).left (h.mem_payload (hl p (by simp)))
    have ⟨h₁, h₂⟩ := hi (he.valSetStatus (v := p.2) h.steady hm) fun q hq => hl q (by simp [hq])
    exact ⟨h₁, by rw [Infra.runPayload, h₂, accesses_valSetStatus, List.length_cons]; omega⟩

theorem waitBase_payload (h : r.Reports) {status : Nat → Nat} (hw : (i, w) ∈ r.payload) :
    waitBase r status i = w := by
  have hi := h.mem_payload hw
  have hn : ¬Refused r i := fun hr => hr.left hi
  rw [waitBase, refusals, if_neg (by simp [hn])]
  exact foldl_store_mem hw fun v hv => h.stored_unique (.inl hv) (.inl hw)

theorem waitBase_refused {status : Nat → Nat} (hn : i < r.numPe) (hr : Refused r i) :
    waitBase r status i = refusal r i := by
  simp [waitBase, refusals, hn, hr]

theorem waitBase_other {status : Nat → Nat} (hp : ∀ w, (i, w) ∉ r.payload) (hr : ¬Refused r i) :
    waitBase r status i = status i := by
  simp [waitBase, refusals, hr, foldl_store_not_mem hp]

-- What the check finds when every store of the PEs has been made.
structure Final (r : Run) (s : State) : Prop where
  stored   : i < r.numPe → Stored r i w → s.status i = w
  refused  : i < r.numPe → Refused r i → isTestFail (s.status i)
  timedOut : TimedOut r i → isTestFail (s.status i)
  silent   : Silent r i → ¬TimedOut r i → isResultPending (s.status i)
  stable   : Stable r s

section

variable (h : r.Reports) {status : Nat → Nat}
  (hp : ∀ i < r.numPe, isResultPending (status i))

include h

theorem answered_of_not_silent (hn : i < r.numPe) (hs : ¬Silent r i) (hk : ∀ l ≥ k, r.lands l = []) :
    Answered r (waitBase r status) k i := by
  by_cases hr : Refused r i
  case pos =>
    right
    rw [waitBase_refused hn hr]
    exact isTestFail.not_pending (isTestFail_refusal h)
  case neg =>
    have hm : ¬Missing r i := fun hm => hs ⟨hn, hm, hr⟩
    simp only [Missing, not_forall, not_not] at hm
    have ⟨w, hw⟩ := hm
    rcases hw with hw | ⟨l, hw⟩
    case inl =>
      right
      rw [waitBase_payload h hw]
      exact (h.stored_isResult (.inl hw)).not_pending
    case inr =>
      refine .inl ⟨w, l, ?_, hw⟩
      by_contra hc
      simp [hk l (by omega)] at hw

omit h in
include hp in
theorem Silent.not_answered (hs : Silent r i) (k : Nat) : ¬Answered r (waitBase r status) k i := by
  have ⟨hn, hm, hr⟩ := hs
  rintro (⟨w, l, _, hw⟩ | hw)
  · exact hm w (.inr ⟨l, hw⟩)
  · rw [waitBase_other (fun w hw => hm w (.inl hw)) hr, hp i hn] at hw
    cases hw

include hp in
theorem landed_of_answered (hw : (i, w) ∈ r.lands l) (ha : Answered r (waitBase r status) k i) :
    Landed r k i w := by
  have ⟨hm, hn, hr⟩ := h.other hw
  rcases ha with ⟨v, hv⟩ | hv
  case inl =>
    have ⟨_, _, hm⟩ := hv
    exact h.steady hm hw ▸ hv
  case inr =>
    rw [waitBase_other (fun w hw => hm (h.mem_payload hw)) hr, hp i hn] at hv
    cases hv

theorem Entries.status_payload (he : Entries r (waitBase r status) s) (hw : (i, w) ∈ r.payload) :
    s.status i = w := by
  rw [he.absent, waitBase_payload h hw]
  rintro v ⟨l, _, hl⟩
  exact (h.other hl).left (h.mem_payload hw)

theorem Entries.status_refused (he : Entries r (waitBase r status) s) (hn : i < r.numPe)
    (hr : Refused r i) : isTestFail (s.status i) := by
  rw [he.absent, waitBase_refused hn hr]
  · exact isTestFail_refusal h
  · rintro v ⟨l, _, hl⟩
    exact hr.not_mem_lands h l v hl

include hp

theorem Final.of_answered (he : Entries r (waitBase r status) s)
    (ha : ∀ i < r.numPe, Answered r (waitBase r status) s.accesses i) : Final r s where
  stored hn hw := by
    rcases hw with hw | ⟨l, hw⟩
    · exact he.status_payload h hw
    · exact he.landed (landed_of_answered h hp hw (ha _ hn))
  refused hn hr := he.status_refused h hn hr
  timedOut ht := absurd (ha _ ht.left.left) (ht.left.not_answered hp _)
  silent hs _ := absurd (ha _ hs.left) (hs.not_answered hp _)
  stable k _ i w hw := he.landed (landed_of_answered h hp hw (ha _ (h.other hw).right.left))

-- The timeout turns the entry of the last silent PE into a failure and touches nothing else.
theorem Final.of_timeout (he : Entries r (waitBase r status) s) (hk : ∀ l ≥ k, r.lands l = [])
    (ha : k ≤ s.accesses) (hn : p < r.numPe) (hp' : ¬Answered r (waitBase r status) k p)
    (hl : ∀ i, p < i → i < r.numPe → Answered r (waitBase r status) s.accesses i) :
    Final r (valSetStatus r p (resultFail r.testNum 0xF) s) := by
  have hst : (land r s).status = s.status := land_status_of_nil (hk _ ha)
  have hsil : Silent r p := by
    by_contra hc
    exact hp' (answered_of_not_silent h hn hc hk)
  have hto : ∀ i, TimedOut r i → i = p := by
    intro i hi
    have := hi.right p hsil
    by_contra hne
    exact hi.left.not_answered hp _ (hl i (by omega) hi.left.left)
  have hpt : TimedOut r p := by
    have ⟨i, hi⟩ := exists_timedOut ⟨p, hsil⟩
    exact hto i hi ▸ hi
  have hne : ∀ i, i ≠ p →
      (valSetStatus r p (resultFail r.testNum 0xF) s).status i = s.status i := by
    intro i hi
    simp only [valSetStatus, store, hst]
    rw [Function.update_of_ne hi]
  constructor
  case stored =>
    intro i w hi hw
    have hi : i ≠ p := fun hc => hsil.right.left w (hc ▸ hw)
    rw [hne i hi]
    rcases hw with hw | ⟨l, hw⟩
    case inl => exact he.status_payload h hw
    case inr =>
      refine he.landed ⟨l, ?_, hw⟩
      by_contra hc
      simp [hk l (by omega)] at hw
  case refused =>
    intro i hi hr
    have hi' : i ≠ p := fun hc => hsil.right.right (hc ▸ hr)
    rw [hne i hi']
    exact he.status_refused h hi hr
  case timedOut =>
    intro i hi
    have hf : isTestFail (resultFail r.testNum 0xF) :=
      isTestFail_resultFail h.testNum (by decide)
    simp [hto i hi, valSetStatus, store, hf]
  case silent =>
    intro i hi ht
    have hi' : i ≠ p := fun hc => ht (hc ▸ hpt)
    rw [hne i hi', he.pending_iff h]
    exact hi.not_answered hp _
  case stable =>
    intro l hge i w hw
    have hge : s.accesses + 1 ≤ l := hge
    simp [hk l (by omega)] at hw

end

theorem valRunTestPayload_final (h : r.Reports) (ht : Timely r) (hn : r.numPe ≠ 1)
    (hs : s.accesses = r.numPe) (hp : ∀ i < r.numPe, isResultPending (s.status i)) :
    Final r (valRunTestPayload r s) := by
  have he : Entries r s.status s := by
    constructor
    case landed =>
      intro i w ⟨l, hl, hm⟩
      simp [h.started (hs ▸ hl)] at hm
    case absent => exact fun _ => rfl
  have ⟨he₁, ha₁⟩ := he.runPayload h r.payload fun _ hp => hp
  have ⟨he₂, ha₂⟩ := he₁.executeLoop h r.numPe 0
  rw [Nat.zero_add] at he₂
  have hto : (timeoutLarge + 2 ^ 32 - 1) % 2 ^ 32 = timeoutLarge - 2 + 1 := by decide
  have hlast : (executeLoop r r.numPe 0 (runPayload r r.payload s)).accesses +
      (timeoutLarge - 2) * r.numPe = lastPoll r := by
    rw [ha₂, ha₁, hs, lastPoll]
  rw [valRunTestPayload, if_neg hn, valWaitForTestCompletion, if_neg hn, hto]
  rcases waitLoop_spec h he₂ (timeoutLarge - 2) 0 with
    ⟨j, s', hw, he', hall⟩ | ⟨p, s', hw, he', hpn, hacc, hno, hall⟩
  case inl =>
    rw [hw]
    exact Final.of_answered h hp he' hall
  case inr =>
    rw [hw]
    have hidx : (p + 1 + 2 ^ 32 - 1) % 2 ^ 32 = p := by
      have := h.small
      omega
    simp only [hidx]
    rw [hlast] at hno
    refine Final.of_timeout h hp he' ht ?_ hpn hno hall
    rw [hacc, ←hlast, Nat.add_mul]
    omega

end Final

section Check

theorem checkLoop_succ (r : Run) (n i status : Nat) (s : State) :
    checkLoop r (n + 1) i status s =
      if isTestFailSkip ((land r s).status i) then ((land r s).status i, land r s)
      else checkLoop r n (i + 1) ((land r s).status i) (land r s) :=
  rfl

-- The check ends with the first entry that failed or skipped, or else with the last entry.
theorem checkLoop_spec (hr : Steady r) (hs : Stable r s) (n lo status : Nat) :
    counters (checkLoop r n lo status s).2 = counters s ∧
    ((∃ p, lo ≤ p ∧ p < lo + n ∧ isTestFailSkip (s.status p) ∧
        (∀ i, lo ≤ i → i < p → isTestFailSkip (s.status i) = false) ∧
        (checkLoop r n lo status s).1 = s.status p) ∨
      ((∀ i, lo ≤ i → i < lo + n → isTestFailSkip (s.status i) = false) ∧
        (checkLoop r n lo status s).1 = if n = 0 then status else s.status (lo + n - 1))) := by
  induction n generalizing lo status s
  case zero =>
    refine ⟨rfl, .inr ⟨?_, rfl⟩⟩
    intro i hl hi
    omega
  case succ n hi =>
    have ⟨he, hs'⟩ := hs.land hr
    rw [checkLoop_succ]
    by_cases hf : isTestFailSkip ((land r s).status lo)
    case pos =>
      rw [if_pos hf, he]
      rw [he] at hf
      refine ⟨rfl, .inl ⟨lo, le_rfl, by omega, hf, ?_, rfl⟩⟩
      intro i hl hi
      omega
    case neg =>
      rw [if_neg hf]
      rw [Bool.not_eq_true, he] at hf
      have ⟨hc, hcase⟩ := hi hs' (lo + 1) ((land r s).status lo)
      rw [he] at hcase
      have hb : lo + 1 + n = lo + (n + 1) := by omega
      have hall : ∀ m, (∀ i, lo + 1 ≤ i → i < m → isTestFailSkip (s.status i) = false) →
          ∀ i, lo ≤ i → i < m → isTestFailSkip (s.status i) = false := by
        intro m hm i hl hi
        by_cases h : i = lo
        case pos => exact h ▸ hf
        case neg => exact hm i (by omega) hi
      refine ⟨hc, ?_⟩
      rcases hcase with ⟨p, hl, hp, hfs, hbefore, hres⟩ | ⟨hnone, hres⟩
      case inl => exact .inl ⟨p, by omega, by omega, hfs, hall p hbefore, he ▸ hres⟩
      case inr =>
        refine .inr ⟨hall _ (hb ▸ hnone), ?_⟩
        rw [he, hres]
        by_cases hn : n = 0
        case pos => simp [hn]
        case neg => simp [hn, show lo + 1 + n - 1 = lo + (n + 1) - 1 by omega]

-- The word that the verdict on a finished test is given on.
structure Judged (r : Run) (s : State) (w : Nat) : Prop where
  ret  : (testEntry r s).1 = (judge w s).1
  pass : (testEntry r s).2.gBsaTestsPass = (judge w s).2.gBsaTestsPass
  fail : (testEntry r s).2.gBsaTestsFail = (judge w s).2.gBsaTestsFail

theorem judge_congr {s s' : State} (h : counters s = counters s') (w : Nat) :
    (judge w s).1 = (judge w s').1 ∧
    (judge w s).2.gBsaTestsPass = (judge w s').2.gBsaTestsPass ∧
    (judge w s).2.gBsaTestsFail = (judge w s').2.gBsaTestsFail := by
  simp only [counters, Prod.mk.injEq] at h
  simp only [judge]
  split
  · simp [h]
  · split <;> simp [h]

theorem Judged.sound_iff (hj : Judged r s w) :
    Sound r s ↔ (isTestPass w → ∀ i, Runs r i → Passed r i) ∧
      ((∃ i, Runs r i ∧ (Failed r i ∨ Missing r i)) → ¬isTestPass w ∧ ¬isTestSkip w) := by
  have hp : (testEntry r s).1 = acsStatusPass ∨ (testEntry r s).2.gBsaTestsPass ≠ s.gBsaTestsPass ↔
      isTestPass w := by
    rw [hj.ret, hj.pass, judge]
    by_cases h₁ : isTestPass w <;> by_cases h₂ : isTestSkip w <;>
      simp [h₁, h₂, acsStatusPass, acsStatusSkip, acsStatusFail]
  have hf : (testEntry r s).1 = acsStatusFail ∧
      (testEntry r s).2.gBsaTestsFail = s.gBsaTestsFail + 1 ↔ ¬isTestPass w ∧ ¬isTestSkip w := by
    rw [hj.ret, hj.fail, judge]
    by_cases h₁ : isTestPass w <;> by_cases h₂ : isTestSkip w <;>
      simp [h₁, h₂, acsStatusPass, acsStatusSkip, acsStatusFail]
  refine ⟨fun h => ⟨fun hw => h.pass (hp.mpr hw), fun he => hf.mp (h.fail he)⟩, ?_⟩
  exact fun h => ⟨fun hw => h.left (hp.mp hw), fun he => hf.mpr (h.right he)⟩

-- The state in which the payload is started.
def initialized (r : Run) (s : State) : State :=
  initializeLoop r r.numPe 0 { s with accesses := 0, gBsaTestsTotal := s.gBsaTestsTotal + 1 }

theorem testEntry_eq (hs : r.testNum ∉ r.gSkipTestNum) :
    testEntry r s = valCheckForError r (valRunTestPayload r (initialized r s)) := by
  simp [testEntry, valInitializeTest, hs, acsStatusPass, acsStatusSkip, initialized]

theorem counters_valRunTestPayload : counters (valRunTestPayload r s) = counters s := by
  rw [valRunTestPayload]
  split
  case isTrue => exact counters_runPayload
  case isFalse hn =>
    rw [valWaitForTestCompletion, if_neg hn]
    have hc := counters_waitLoop (r := r) (n := (timeoutLarge + 2 ^ 32 - 1) % 2 ^ 32) (j := 0)
      (s := executeLoop r r.numPe 0 (runPayload r r.payload s))
    split
    all_goals
      rw [‹waitLoop _ _ _ _ = _›] at hc
      simpa using hc

theorem counters_initialized : counters (initialized r s) = counters s := by
  rw [initialized, counters_initializeLoop]
  rfl

theorem judged_of_final (hs : r.testNum ∉ r.gSkipTestNum) (h : r.Reports) (hn : r.numPe ≠ 1)
    (hf : Final r (valRunTestPayload r (initialized r s))) :
    ∃ w, Judged r s w ∧
      ((∃ p < r.numPe, isTestFailSkip ((valRunTestPayload r (initialized r s)).status p) ∧
          (∀ i < p, isTestFailSkip ((valRunTestPayload r (initialized r s)).status i) = false) ∧
          w = (valRunTestPayload r (initialized r s)).status p) ∨
        ((∀ i < r.numPe,
            isTestFailSkip ((valRunTestPayload r (initialized r s)).status i) = false) ∧
          w = if r.numPe = 0 then 0
            else (valRunTestPayload r (initialized r s)).status (r.numPe - 1))) := by
  have ⟨hc, hcase⟩ := checkLoop_spec h.steady hf.stable r.numPe 0 0
  rw [counters_valRunTestPayload, counters_initialized] at hc
  have ⟨h₁, h₂, h₃⟩ := judge_congr hc
    (checkLoop r r.numPe 0 0 (valRunTestPayload r (initialized r s))).1
  have he : testEntry r s =
      judge (checkLoop r r.numPe 0 0 (valRunTestPayload r (initialized r s))).1
        (checkLoop r r.numPe 0 0 (valRunTestPayload r (initialized r s))).2 := by
    rw [testEntry_eq hs, valCheckForError, if_neg hn]
  refine ⟨_, ⟨he ▸ h₁, he ▸ h₂, he ▸ h₃⟩, ?_⟩
  simpa using hcase

end Check

section

variable (h : r.Reports)

include h

theorem Final.failSkip_iff (hf : Final r s) (hn : i < r.numPe) :
    isTestFailSkip (s.status i) ↔ (Failed r i ∨ Refused r i ∨ TimedOut r i) ∨ Skipped r i := by
  by_cases hm : Missing r i
  case neg =>
    simp only [Missing, not_forall, not_not] at hm
    have ⟨w, hw⟩ := hm
    have hr : ¬Refused r i := by
      rintro hr
      rcases hw with hw | ⟨k, hw⟩
      · exact hr.left (h.mem_payload hw)
      · exact (h.other hw).right.right hr
    have ht : ¬TimedOut r i := fun ht => ht.left.right.left w hw
    have hfa : Failed r i ↔ isTestFail w :=
      ⟨fun ⟨v, hv, hf⟩ => h.stored_unique hv hw ▸ hf, fun hf => ⟨w, hw, hf⟩⟩
    have hsk : Skipped r i ↔ isTestSkip w :=
      ⟨fun ⟨v, hv, hf⟩ => h.stored_unique hv hw ▸ hf, fun hf => ⟨w, hw, hf⟩⟩
    simp [hf.stored hn hw, hr, ht, hfa, hsk, isTestFailSkip]
  case pos =>
    have hfa : ¬Failed r i := fun ⟨w, hw, _⟩ => hm w hw
    have hsk : ¬Skipped r i := fun ⟨w, hw, _⟩ => hm w hw
    by_cases hr : Refused r i
    case pos => simp [hr, isTestFailSkip, hf.refused hn hr]
    case neg =>
      by_cases ht : TimedOut r i
      case pos => simp [ht, isTestFailSkip, hf.timedOut ht]
      case neg =>
        have hp := hf.silent ⟨hn, hm, hr⟩ ht
        simp [hr, ht, hfa, hsk, isResultPending.not_failSkip hp]

theorem Final.status_skip (hf : Final r s) (hn : i < r.numPe) (hs : isTestSkip (s.status i)) :
    Skipped r i := by
  have hfs : isTestFailSkip (s.status i) := by simp [isTestFailSkip, hs]
  have hnf : ¬isTestFail (s.status i) := fun hc => by simp [isTestFail.not_skip hc] at hs
  rcases (hf.failSkip_iff h hn).mp hfs with (⟨w, hw, hw'⟩ | hr | ht) | hsk
  · exact absurd (hf.stored hn hw ▸ hw') hnf
  · exact absurd (hf.refused hn hr) hnf
  · exact absurd (hf.timedOut ht) hnf
  · exact hsk

-- Without a failed or skipped entry, every PE has stored a pass.
theorem Final.passed (hf : Final r s)
    (hnone : ∀ i < r.numPe, isTestFailSkip (s.status i) = false) (hn : i < r.numPe) :
    ∃ w, Stored r i w ∧ isTestPass w := by
  have hno : ∀ i < r.numPe, ¬((Failed r i ∨ Refused r i ∨ TimedOut r i) ∨ Skipped r i) := by
    intro i hi
    rw [←hf.failSkip_iff h hi, hnone i hi]
    decide
  have hm : ¬Missing r i := by
    intro hm
    have hr : ¬Refused r i := fun hr => hno i hn (.inl (.inr (.inl hr)))
    have ⟨k, hk⟩ := exists_timedOut ⟨i, hn, hm, hr⟩
    exact hno k hk.left.left (.inl (.inr (.inr hk)))
  simp only [Missing, not_forall, not_not] at hm
  have ⟨w, hw⟩ := hm
  refine ⟨w, hw, ?_⟩
  rcases h.stored_isResult hw with hp | hf | hs
  · exact hp
  · exact absurd (.inl (.inl ⟨w, hw, hf⟩)) (hno i hn)
  · exact absurd (.inr ⟨w, hw, hs⟩) (hno i hn)

theorem Passed.not_failed_missing (hp : Passed r i) : ¬(Failed r i ∨ Missing r i) := by
  have ⟨w, hw, hp⟩ := hp
  rintro (⟨v, hv, hf⟩ | hm)
  · rw [h.stored_unique hv hw] at hf
    simp [isTestFail.not_pass hf] at hp
  · exact hm w hw

theorem initialized_spec :
    (initialized r s).accesses = r.numPe ∧
    ∀ i, (initialized r s).status i =
      if i < r.numPe then resultPending r.testNum else s.status i := by
  have ⟨h₁, h₂⟩ := initializeLoop_spec
    (s := { s with accesses := 0, gBsaTestsTotal := s.gBsaTestsTotal + 1 }) h rfl
    (Nat.zero_add r.numPe)
  refine ⟨h₁, fun i => ?_⟩
  simpa [initialized] using h₂ i

theorem sound_iff_single (hs : r.testNum ∉ r.gSkipTestNum) (hn : r.numPe = 1) :
    Sound r s ↔ (r.payload = [] → r.myIndex ≠ 0 →
      ¬isTestPass (s.status r.myIndex) ∧ ¬isTestSkip (s.status r.myIndex)) := by
  obtain ⟨hacc, hst⟩ := initialized_spec (s := s) h
  have he : Entries r (initialized r s).status (initialized r s) := by
    constructor
    case landed =>
      rintro i w ⟨l, hl, hm⟩
      simp [h.started (hacc ▸ hl)] at hm
    case absent => exact fun _ => rfl
  have hown : ∀ k w, (r.myIndex, w) ∉ r.lands k := fun k w hm => (h.other hm).left rfl
  have he' := (he.runPayload h r.payload fun _ hp => hp).left.land h.steady
  have hw := he'.absent (i := r.myIndex) (by
    rintro w ⟨l, _, hm⟩
    exact hown l w hm)
  have hj : Judged r s (r.payload.foldl store (initialized r s).status r.myIndex) := by
    have hc : counters (land r (runPayload r r.payload (initialized r s))) = counters s := by
      rw [counters_land, counters_runPayload, counters_initialized]
    obtain ⟨h₁, h₂, h₃⟩ := judge_congr hc (r.payload.foldl store (initialized r s).status r.myIndex)
    have he : testEntry r s = judge (r.payload.foldl store (initialized r s).status r.myIndex)
        (land r (runPayload r r.payload (initialized r s))) := by
      rw [testEntry_eq hs, valCheckForError, if_pos hn, valRunTestPayload, if_pos hn, valGetStatus, hw]
    exact ⟨he ▸ h₁, he ▸ h₂, he ▸ h₃⟩
  have hruns : ∀ i, Runs r i ↔ i = r.myIndex := by simp [Runs, hn]
  rw [hj.sound_iff]
  simp only [hruns, forall_eq, exists_eq_left]
  rcases h.own with ho | ⟨w, hr, ho⟩
  case inr =>
    have hsw : Stored r r.myIndex w := .inl (by simp [ho])
    have hst : r.payload.foldl store (initialized r s).status r.myIndex = w := by
      simp [ho, store]
    have hne : r.payload ≠ [] := by simp [ho]
    simp only [hst, hne, false_implies, iff_true]
    refine ⟨fun hp => ⟨w, hsw, hp⟩, ?_⟩
    rintro (⟨v, hv, hf⟩ | hm)
    · rw [h.stored_unique hv hsw] at hf
      simp [isTestFail.not_pass hf, isTestFail.not_skip hf]
    · exact absurd hsw (hm w)
  case inl =>
    have hmiss : Missing r r.myIndex := by
      rintro w (hw | ⟨k, hw⟩)
      · simp [ho] at hw
      · exact hown k w hw
    have hnp : ¬Passed r r.myIndex := by
      rintro ⟨w, hw, _⟩
      exact hmiss w hw
    by_cases hz : r.myIndex = 0
    case pos =>
      have hp := isResultPending_resultPending h.testNum
      simp [ho, hz, hst, hn, isResultPending.not_pass hp, isResultPending.not_skip hp]
    case neg => simp [ho, hz, hst, hn, hmiss, hnp]

theorem sound_iff_many (ht : Timely r) (hs : r.testNum ∉ r.gSkipTestNum) (hn : r.numPe ≠ 1) :
    Sound r s ↔ ((∃ k, k < r.numPe ∧ (Failed r k ∨ Missing r k)) →
      ∀ i, i < r.numPe → Skipped r i → ∃ k < i, Failed r k ∨ Refused r k ∨ TimedOut r k) := by
  obtain ⟨hacc, hst⟩ := initialized_spec (s := s) h
  have hpend : ∀ i < r.numPe, isResultPending ((initialized r s).status i) := by
    intro i hi
    rw [hst, if_pos hi]
    exact isResultPending_resultPending h.testNum
  have hf := valRunTestPayload_final h ht hn hacc hpend
  obtain ⟨w, hj, hcase⟩ := judged_of_final hs h hn hf
  have hruns : ∀ i, Runs r i ↔ i < r.numPe := by simp [Runs, hn]
  rw [hj.sound_iff]
  simp only [hruns]
  rcases hcase with ⟨p, hp, hfs, hbefore, rfl⟩ | ⟨hnone, hw⟩
  case inr =>
    have hall : ∀ i, i < r.numPe → Passed r i := fun i hi => hf.passed h hnone hi
    have hno : ¬∃ k, k < r.numPe ∧ (Failed r k ∨ Missing r k) :=
      fun ⟨k, hk, hc⟩ => Passed.not_failed_missing h (hall k hk) hc
    exact iff_of_true ⟨fun _ => hall, fun hc => absurd hc hno⟩ fun hc => absurd hc hno
  case inl =>
    have hfirst : ∀ k < p, ¬(Failed r k ∨ Refused r k ∨ TimedOut r k) := by
      intro k hk hc
      have := (hf.failSkip_iff h (hk.trans hp)).mpr (.inl hc)
      simp [hbefore k hk] at this
    by_cases hsk : isTestSkip ((valRunTestPayload r (initialized r s)).status p)
    case pos =>
      have hskp := hf.status_skip h hp hsk
      simp only [isTestSkip.not_pass hsk, hsk, Bool.false_eq_true, false_implies, true_and,
        not_true_eq_false, and_false, imp_false]
      refine ⟨fun hno hc => absurd hc hno, fun hall hc => ?_⟩
      obtain ⟨k, hk, hk'⟩ := hall hc p hp hskp
      exact hfirst k hk hk'
    case neg =>
      have hfail : isTestFail ((valRunTestPayload r (initialized r s)).status p) := by
        simpa [isTestFailSkip, hsk] using hfs
      have hmark : Failed r p ∨ Refused r p ∨ TimedOut r p := by
        rcases (hf.failSkip_iff h hp).mp hfs with hm | ⟨v, hv, hvs⟩
        · exact hm
        · exact absurd (hf.stored hp hv ▸ hvs) hsk
      refine iff_of_true ?_ ?_
      · simp [isTestFail.not_pass hfail, hsk]
      · rintro _ i hi ⟨v, hv, hvs⟩
        rcases Nat.lt_trichotomy i p with hlt | rfl | hgt
        · have := (hf.failSkip_iff h hi).mpr (.inr ⟨v, hv, hvs⟩)
          simp [hbefore i hlt] at this
        · exact absurd (hf.stored hi hv ▸ hvs) hsk
        · exact ⟨p, hgt, hmark⟩

-- The verdict on a run in which every report arrives before the last poll.
theorem verdict_sound_iff (ht : Timely r) (hs : r.testNum ∉ r.gSkipTestNum) (s : State) :
    Sound r s ↔ Heeded r s := by
  by_cases hn : r.numPe = 1
  case pos => rw [Heeded, if_pos hn, sound_iff_single h hs hn]
  case neg => rw [Heeded, if_neg hn, sound_iff_many h ht hs hn]

end

-- Two PEs, the first of which stores `w` and the second of which fails.
def twoPes (w : Nat) : Run where
  testNum      := 5
  numPe        := 2
  myIndex      := 0
  numOfPe      := 2
  gSkipTestNum := []
  payload      := [(0, w)]
  cpuOn _ _    := 0
  lands k      := if k = 3 then [(1, resultFail 5 1)] else []

def booted : State where
  status         := fun _ => 0
  accesses       := 0
  gBsaTestsTotal := 0
  gBsaTestsPass  := 0
  gBsaTestsFail  := 0

theorem twoPes_lands (h : (i, v) ∈ (twoPes w).lands k) : i = 1 ∧ v = resultFail 5 1 := by
  simp only [twoPes] at h
  split at h <;> simp at h
  exact h

theorem twoPes_reports (hw : IsResult w) : (twoPes w).Reports where
  testNum := by simp [twoPes, testNumMask]
  small   := by simp [twoPes]
  psci    := by simp [twoPes]
  own     := .inr ⟨w, hw, rfl⟩
  started := by
    intro k hk
    have hk : k < 2 := hk
    simp [twoPes, show k ≠ 3 by omega]
  other   := by
    intro i v k hm
    simp [twoPes_lands hm, twoPes, Refused, executeAnswer, timeoutLarge, armSmcPsciRetAlreadyOn]
  result  := by
    intro i v k hm
    exact (twoPes_lands hm).right ▸ .inr (.inl (by decide))
  steady  := by
    intro k l i u v hu hv
    rw [(twoPes_lands hu).right, (twoPes_lands hv).right]

theorem skip_hides_failure :
    (twoPes (resultSkip 5 1)).Reports ∧ Failed (twoPes (resultSkip 5 1)) 1 ∧
    (testEntry (twoPes (resultSkip 5 1)) booted).1 = acsStatusSkip ∧
    ¬Sound (twoPes (resultSkip 5 1)) booted := by
  have hf : Failed (twoPes (resultSkip 5 1)) 1 :=
    ⟨resultFail 5 1, .inr ⟨3, by simp [twoPes]⟩, by decide⟩
  have hs : (testEntry (twoPes (resultSkip 5 1)) booted).1 = acsStatusSkip := by decide
  refine ⟨twoPes_reports (.inr (.inr (by decide))), hf, hs, fun h => ?_⟩
  have ⟨hc, _⟩ := h.fail ⟨1, by simp [Runs, twoPes], .inl hf⟩
  rw [hs] at hc
  revert hc
  decide

theorem pass_shows_failure : Sound (twoPes (resultPass 5 1)) booted := by
  have ht : Timely (twoPes (resultPass 5 1)) := by
    intro k hk
    have hk : 3 < k := by
      simp only [lastPoll, twoPes, timeoutLarge] at hk
      omega
    simp [twoPes, show k ≠ 3 by omega]
  refine (verdict_sound_iff (twoPes_reports (.inl (by decide))) ht (by simp [twoPes]) booted).mpr ?_
  rw [Heeded, if_neg (by simp [twoPes])]
  rintro - i hi ⟨w, hw | ⟨k, hw⟩, hs⟩
  · simp only [twoPes, List.mem_singleton, Prod.mk.injEq] at hw
    exact absurd (hw.right ▸ hs) (by decide)
  · exact absurd ((twoPes_lands hw).right ▸ hs) (by decide)

end Infra
