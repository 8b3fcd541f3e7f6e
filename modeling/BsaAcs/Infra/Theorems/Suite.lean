import BsaAcs.Infra.Suite
import BsaAcs.Infra.Theorems.Independence

namespace Infra

-- The counters of the suite, with the number of tests.

def tally (s : State) : Nat × Nat × Nat :=
  (s.gBsaTestsTotal, s.gBsaTestsPass, s.gBsaTestsFail)

section

variable {r : Run} {s : State} {l : List (Nat × Nat)} {n i j w timeout : Nat}

@[simp]
theorem tally_land : tally (land r s) = tally s := rfl

@[simp]
theorem tally_valSetStatus : tally (valSetStatus r i w s) = tally s := rfl

@[simp]
theorem tally_initializeLoop : tally (initializeLoop r n i s) = tally s := by
  induction n generalizing i s
  case zero => rfl
  case succ n hi => rw [initializeLoop, hi, tally_valSetStatus]

@[simp]
theorem tally_runPayload : tally (runPayload r l s) = tally s := by
  induction l generalizing s
  case nil => rfl
  case cons p l hi => rw [runPayload, hi, tally_valSetStatus]

@[simp]
theorem tally_executeLoop : tally (executeLoop r n i s) = tally s := by
  induction n generalizing i s
  case zero => rfl
  case succ n hi =>
    rw [executeLoop, execute_eq, hi]
    split <;> rfl

@[simp]
theorem tally_pollLoop : tally (pollLoop r n i j s).2 = tally s := by
  induction n generalizing i j s
  case zero => rfl
  case succ n hi => rw [pollLoop_succ, hi, tally_land]

@[simp]
theorem tally_waitLoop : tally (waitLoop r n j s).2.2 = tally s := by
  induction n generalizing j s
  case zero => rfl
  case succ n hi =>
    simp only [waitLoop]
    split
    case isTrue  => exact tally_pollLoop
    case isFalse => rw [hi, tally_pollLoop]

@[simp]
theorem tally_valWaitForTestCompletion : tally (valWaitForTestCompletion r timeout s) = tally s := by
  have hw := tally_waitLoop (r := r) (n := (timeout + 2 ^ 32 - 1) % 2 ^ 32) (j := 0) (s := s)
  rw [valWaitForTestCompletion]
  split
  case isTrue => rfl
  case isFalse =>
    split
    case h_1 he =>
      rw [he] at hw
      rw [tally_valSetStatus]
      exact hw
    case h_2 he =>
      rw [he] at hw
      exact hw

@[simp]
theorem tally_valRunTestPayload : tally (valRunTestPayload r s) = tally s := by
  simp only [valRunTestPayload]
  split
  case isTrue  => exact tally_runPayload
  case isFalse => rw [tally_valWaitForTestCompletion, tally_executeLoop, tally_runPayload]

@[simp]
theorem tally_checkLoop : tally (checkLoop r n i w s).2 = tally s := by
  induction n generalizing i w s
  case zero => rfl
  case succ n hi =>
    simp only [checkLoop]
    split
    case isTrue  => rfl
    case isFalse => rw [hi]; rfl

end

end Infra

namespace Suite

open Infra (tally)

-- What the suite is for: the tests with the conditions under which each of them runs.

-- What else must hold for a test, besides the options.
inductive Gate
  | always
  | gicV2m
  | smmu
  | el2
  | uart
  | watchdog
  | ecam
  | devices
  | exerciser
deriving DecidableEq, Repr

structure Listed where
  base  : Nat
  views : List SwView
  gate  : Gate
  test  : Test
deriving DecidableEq, Repr

def listed (base : Nat) (views : List SwView) (gate : Gate) (ts : List Test) : List Listed :=
  ts.map fun t => ⟨base, views, gate, t⟩

def peTests : List Listed :=
  listed acsPeTestNumBase [.os] .always peOs ++ listed acsPeTestNumBase [.hyp] .always peHyp ++
    listed acsPeTestNumBase [.ps] .always pePs

def memoryTests : List Listed :=
  listed acsMemoryMapTestBase [.os] .always memoryOs

def gicTests : List Listed :=
  listed acsGicTestNumBase [.os] .always gicOs ++ listed acsGicTestNumBase [.hyp] .always gicHyp ++
    listed acsGicTestNumBase [.os] .gicV2m gicV2mOs

def smmuTests : List Listed :=
  listed acsSmmuTestNumBase [.os] .smmu smmuOs ++ listed acsSmmuTestNumBase [.os, .hyp] .smmu smmuOsHyp ++
    listed acsSmmuTestNumBase [.hyp] .smmu smmuHyp

def timerTests : List Listed :=
  listed acsTimerTestNumBase [.os] .always timerOs

def wakeupTests : List Listed :=
  listed acsWakeupTestNumBase [.os] .always wakeupOs ++ listed acsWakeupTestNumBase [.os] .el2 wakeupEl2

def peripheralTests : List Listed :=
  listed acsPerTestNumBase [.os] .always (peripheralOs ++ [uartMemory]) ++
    listed acsPerTestNumBase [.os] .uart [uartInterrupt]

def wdTests : List Listed :=
  listed acsWdTestNumBase [.os] .watchdog wdOs

def pcieTests : List Listed :=
  listed acsPcieTestNumBase [.os] .ecam [ecamPresence] ++ listed acsPcieTestNumBase [.os] .devices pcieOs

def exerciserTests : List Listed :=
  listed acsExerciserTestNumBase [.os] .exerciser exerciserOs

def allTests : List Listed :=
  peTests ++ memoryTests ++ gicTests ++ smmuTests ++ timerTests ++ wakeupTests ++ peripheralTests ++ wdTests ++
    pcieTests ++ exerciserTests

-- Two of the conditions are about what has been found for another test.
def Config.opens (c : Config) (verdicts : List (Nat × Nat)) : Gate → Bool
  | .always    => true
  | .gicV2m    => c.machine.gicVersion == 2 && c.machine.numMsiFrame != 0 && !c.machine.v2mMismatch
  | .smmu      => c.machine.numSmmu != 0
  | .el2       => c.machine.el2
  | .uart      => verdicts.elem (uartMemory.testNum, acsStatusPass)
  | .watchdog  => c.machine.numWd != 0
  | .ecam      => c.machine.numEcam != 0
  | .devices   => c.machine.numEcam != 0 && c.machine.bdfEntries != 0 &&
    verdicts.elem (ecamPresence.testNum, acsStatusPass)
  | .exerciser => !c.machine.bdfTableFails && c.machine.numCards != 0

def Config.attempts (c : Config) (verdicts : List (Nat × Nat)) (e : Listed) : Bool :=
  !c.gSkipTestNum.elem e.base && e.views.any c.gSwView && c.opens verdicts e.gate

-- The watchdog tests run even if they are skipped.
def Config.runs (c : Config) (t : Test) : Bool :=
  !c.gSkipTestNum.elem t.testNum || t.ignoresSkip

-- The payload runs and is ended by an exception.
def Config.stops (c : Config) (t : Test) : Bool :=
  c.runs t && c.machine.traps t.testNum

-- The tests that come to their end before the first one that does not, and these with that one.

def Config.judged (c : Config) (ts : List Test) : List Test :=
  ts.takeWhile (!c.stops ·)

def Config.tried (c : Config) : List Test → List Test
  | []      => []
  | t :: ts => if c.stops t then [t] else t :: c.tried ts

-- The platform has what the module tests.
def Config.Present (c : Config) (base : Nat) : Prop :=
  (base = acsSmmuTestNumBase → c.machine.numSmmu ≠ 0) ∧
  (base = acsPcieTestNumBase → c.machine.numEcam ≠ 0 ∧ c.machine.bdfEntries ≠ 0) ∧
  (base = acsExerciserTestNumBase → c.machine.bdfTableFails = false ∧ c.machine.numCards ≠ 0)

-- The base that a test number belongs to.
def baseOf (testNum : Nat) : Nat :=
  testNum / 100 * 100

def nums (ts : List Test) : List Nat :=
  ts.map (·.testNum)

-- One run of tests after another.

-- What the tests `ts` leave behind, if `new` is what has been found for each of those that come to their end, in order.
structure Performs (c : Config) (ts : List Test) (new : List (Nat × Nat)) (s s' : State) : Prop where
  nums     : new.map Prod.fst = nums (c.judged ts)
  verdicts : s'.verdicts = new.reverse ++ s.verdicts
  ran      : s'.ran = (Suite.nums ((c.tried ts).filter c.runs)).reverse ++ s.ran
  modules  : s'.modules = s.modules
  results  : ∀ p ∈ new, p.2 = acsStatusPass ∨ p.2 = acsStatusSkip ∨ p.2 = acsStatusFail
  tally    : tally s'.infra = ((tally s.infra).1 + (c.tried ts).length,
    (tally s.infra).2.1 + new.countP (·.2 == acsStatusPass), (tally s.infra).2.2 + new.countP (·.2 == acsStatusFail))

-- None of the tests is ended by an exception, or one of them is.

def GoesOn (c : Config) (ts : List Test) : Prop :=
  ∀ t ∈ ts, c.stops t = false

def Stops (c : Config) (ts : List Test) : Prop :=
  ∃ t ∈ ts, c.stops t = true

-- The same with the status that the tests are added to.
def Adds (c : Config) (ts : List Test) (new : List (Nat × Nat)) (r : Nat × State) : Except State (Nat × State) → Prop
  | .ok r'    => GoesOn c ts ∧ Performs c ts new r.2 r'.2 ∧ (r'.1 = 0 ↔ r.1 = 0 ∧ ∀ p ∈ new, p.2 = acsStatusPass)
  | .error s' => Stops c ts ∧ Performs c ts new r.2 s'

section

variable {c : Config} {t : Test} {ts ts' : List Test} {new new' : List (Nat × Nat)} {s s' s'' : State}
variable {r r' r'' : Nat × State} {x : Except State (Nat × State)} {f : Nat × State → Except State (Nat × State)}
variable {view : SwView} {p : Nat × Nat}

theorem GoesOn.nil : GoesOn c [] :=
  fun _ h => by cases h

theorem GoesOn.append (h : GoesOn c ts) (h' : GoesOn c ts') : GoesOn c (ts ++ ts') :=
  List.forall_mem_append.mpr ⟨h, h'⟩

theorem Stops.append_left (h : Stops c ts) : Stops c (ts ++ ts') := by
  obtain ⟨t, ht, hs⟩ := h
  exact ⟨t, List.mem_append_left _ ht, hs⟩

theorem Stops.append_right (h : Stops c ts') : Stops c (ts ++ ts') := by
  obtain ⟨t, ht, hs⟩ := h
  exact ⟨t, List.mem_append_right _ ht, hs⟩

theorem GoesOn.judged_append (h : GoesOn c ts) : c.judged (ts ++ ts') = ts ++ c.judged ts' :=
  List.takeWhile_append_of_pos fun t ht => by simp [h t ht]

theorem GoesOn.judged_eq (h : GoesOn c ts) : c.judged ts = ts := by
  have happend : c.judged (ts ++ []) = ts ++ c.judged [] := h.judged_append
  rwa [Config.judged, Config.judged, List.takeWhile_nil, List.append_nil] at happend

theorem GoesOn.tried_append (h : GoesOn c ts) : c.tried (ts ++ ts') = ts ++ c.tried ts' := by
  induction ts
  case nil => rfl
  case cons t ts hi =>
    obtain ⟨ht, hts⟩ := List.forall_mem_cons.mp h
    rw [List.cons_append, Config.tried, ht, if_neg Bool.false_ne_true, hi hts, List.cons_append]

theorem GoesOn.tried_eq (h : GoesOn c ts) : c.tried ts = ts := by
  have happend : c.tried (ts ++ []) = ts ++ c.tried [] := h.tried_append
  rwa [Config.tried, List.append_nil] at happend

-- What comes after a test that is ended by an exception makes no difference.

theorem Stops.judged_append (h : Stops c ts) : c.judged (ts ++ ts') = c.judged ts := by
  induction ts
  case nil =>
    obtain ⟨_, ht, _⟩ := h
    cases ht
  case cons t ts hi =>
    rw [List.cons_append, Config.judged, Config.judged, List.takeWhile_cons, List.takeWhile_cons]
    cases hs : c.stops t
    case true  => rfl
    case false =>
      obtain ⟨t', ht, hs'⟩ := h
      have hm : t' ∈ ts := (List.mem_cons.mp ht).resolve_left fun he => by simp [he, hs] at hs'
      exact congrArg (t :: ·) (hi ⟨t', hm, hs'⟩)

theorem Stops.tried_append (h : Stops c ts) : c.tried (ts ++ ts') = c.tried ts := by
  induction ts
  case nil =>
    obtain ⟨_, ht, _⟩ := h
    cases ht
  case cons t ts hi =>
    rw [List.cons_append, Config.tried, Config.tried]
    cases hs : c.stops t
    case true  => rfl
    case false =>
      obtain ⟨t', ht, hs'⟩ := h
      have hm : t' ∈ ts := (List.mem_cons.mp ht).resolve_left fun he => by simp [he, hs] at hs'
      rw [hi ⟨t', hm, hs'⟩]

-- One test more is counted if one is ended by an exception.
theorem tried_length (c : Config) (ts : List Test) :
    (c.tried ts).length = (c.judged ts).length + if ts.any c.stops then 1 else 0 := by
  induction ts
  case nil => rfl
  case cons t ts hi =>
    rw [Config.judged] at hi
    rw [Config.tried, Config.judged, List.takeWhile_cons, List.any_cons]
    cases c.stops t
    case true  => rfl
    case false =>
      simp only [Bool.false_eq_true, if_false, Bool.not_false, if_true, List.length_cons, Bool.false_or, hi]
      omega

theorem Performs.nil : Performs c [] [] s s where
  nums     := rfl
  verdicts := rfl
  ran      := rfl
  modules  := rfl
  results  := fun _ h => by cases h
  tally    := rfl

theorem Performs.append (hg : GoesOn c ts) (h : Performs c ts new s s') (h' : Performs c ts' new' s' s'') :
    Performs c (ts ++ ts') (new ++ new') s s'' where
  nums     := by
    rw [List.map_append, h.nums, h'.nums, hg.judged_append, hg.judged_eq, Suite.nums, Suite.nums, Suite.nums,
      List.map_append]
  verdicts := by rw [h'.verdicts, h.verdicts, List.reverse_append, List.append_assoc]
  ran      := by
    rw [h'.ran, h.ran, hg.tried_append, hg.tried_eq, List.filter_append, Suite.nums, Suite.nums, Suite.nums,
      List.map_append, List.reverse_append, List.append_assoc]
  modules  := h'.modules.trans h.modules
  results  := fun p hp => (List.mem_append.mp hp).elim (h.results p) (h'.results p)
  tally    := by
    rw [h'.tally, h.tally, hg.tried_append, hg.tried_eq, List.length_append, List.countP_append, List.countP_append]
    simp only [Nat.add_assoc]

theorem Performs.stopped (hs : Stops c ts) (h : Performs c ts new s s') : Performs c (ts ++ ts') new s s' where
  nums     := by rw [hs.judged_append, h.nums]
  verdicts := h.verdicts
  ran      := by rw [hs.tried_append, h.ran]
  modules  := h.modules
  results  := h.results
  tally    := by rw [hs.tried_append, h.tally]

theorem Adds.nil : Adds c [] [] r (.ok r) :=
  ⟨.nil, .nil, by simp⟩

theorem Adds.append (h : Adds c ts new r (.ok r')) (h' : Adds c ts' new' r' x) : Adds c (ts ++ ts') (new ++ new') r x := by
  obtain ⟨hg, hp, hz⟩ := h
  cases x
  case error =>
    obtain ⟨hs, hp'⟩ := h'
    exact ⟨hs.append_right, hp.append hg hp'⟩
  case ok =>
    obtain ⟨hg', hp', hz'⟩ := h'
    refine ⟨hg.append hg', hp.append hg hp', ?_⟩
    rw [hz', hz, List.forall_mem_append, and_assoc]

theorem Adds.stopped (h : Adds c ts new r (.error s')) : Adds c (ts ++ ts') new r (.error s') :=
  ⟨h.1.append_left, h.2.stopped h.1⟩

-- What is found is about these tests.

theorem Performs.mem_nums (h : Performs c ts new s s') (hp : p ∈ new) : p.1 ∈ Suite.nums ts := by
  have hm : p.1 ∈ Suite.nums (c.judged ts) := h.nums ▸ List.mem_map_of_mem hp
  exact ((List.takeWhile_sublist _).map _).mem hm

theorem Adds.mem_nums (h : Adds c ts new r x) (hp : p ∈ new) : p.1 ∈ nums ts := by
  cases x
  case error => exact h.2.mem_nums hp
  case ok    => exact h.2.1.mem_nums hp

-- More tests, unless one has been ended by an exception.
theorem Adds.bind (h : Adds c ts new r x) (h' : ∀ r', ∃ new', Adds c ts' new' r' (f r')) :
    ∃ new', Adds c (ts ++ ts') new' r (x >>= f) := by
  cases x
  case error => exact ⟨new, h.stopped⟩
  case ok r' =>
    obtain ⟨new', h'⟩ := h' r'
    exact ⟨new ++ new', h.append h'⟩

-- What the check at the end of an entry function finds.
theorem judge_cases (w : Nat) (s : Infra.State) :
    ∃ v, (Infra.judge w s).1 = v ∧ (v = acsStatusPass ∨ v = acsStatusSkip ∨ v = acsStatusFail) ∧
      tally (Infra.judge w s).2 = ((tally s).1, (tally s).2.1 + [(0, v)].countP (·.2 == acsStatusPass),
        (tally s).2.2 + [(0, v)].countP (·.2 == acsStatusFail)) := by
  rw [Infra.judge]
  split
  case isTrue => exact ⟨_, rfl, .inl rfl, rfl⟩
  case isFalse =>
    split
    case isTrue  => exact ⟨_, rfl, .inr (.inl rfl), rfl⟩
    case isFalse => exact ⟨_, rfl, .inr (.inr rfl), rfl⟩

theorem valCheckForError_cases (r : Infra.Run) (s : Infra.State) :
    ∃ v, (Infra.valCheckForError r s).1 = v ∧ (v = acsStatusPass ∨ v = acsStatusSkip ∨ v = acsStatusFail) ∧
      tally (Infra.valCheckForError r s).2 = ((tally s).1, (tally s).2.1 + [(0, v)].countP (·.2 == acsStatusPass),
        (tally s).2.2 + [(0, v)].countP (·.2 == acsStatusFail)) := by
  simp only [Infra.valCheckForError]
  by_cases hn : r.numPe = 1
  case pos =>
    rw [if_pos hn]
    exact judge_cases _ _
  case neg =>
    rw [if_neg hn]
    obtain ⟨v, h₁, h₂, h₃⟩ := judge_cases (Infra.checkLoop r r.numPe 0 0 s).1 (Infra.checkLoop r r.numPe 0 0 s).2
    rw [Infra.tally_checkLoop] at h₃
    exact ⟨v, h₁, h₂, h₃⟩

theorem valInitializeTest_cases (r : Infra.Run) (s : Infra.State) :
    ((Infra.valInitializeTest r s).1 ≠ acsStatusSkip ↔ r.testNum ∉ r.gSkipTestNum) ∧
      tally (Infra.valInitializeTest r s).2 = ((tally s).1 + 1, (tally s).2) := by
  simp only [Infra.valInitializeTest]
  split
  case isTrue hs =>
    refine ⟨by simp [hs], ?_⟩
    rw [Infra.tally_valSetStatus, Infra.tally_initializeLoop]
    rfl
  case isFalse hs =>
    refine ⟨by simp [hs, acsStatusPass, acsStatusSkip], ?_⟩
    rw [Infra.tally_initializeLoop]
    rfl

-- A test that is ended by an exception, and one that comes to its end.
theorem entry_performs :
    (c.stops t = true ∧ ∃ s', c.entry t s = .error s' ∧ Performs c [t] [] s s') ∨
    (c.stops t = false ∧ ∃ v result s', c.entry t s = .ok (result, s') ∧ Performs c [t] [(t.testNum, v)] s s' ∧
      (t.failsOnly = false → result = v) ∧ (result = 0 ↔ v = acsStatusPass)) := by
  simp only [Config.entry]
  obtain ⟨hskip, hinit⟩ := valInitializeTest_cases (c.run t.testNum (c.pes t.resets)) { s.infra with accesses := 0 }
  generalize Infra.valInitializeTest (c.run t.testNum (c.pes t.resets)) { s.infra with accesses := 0 } = r₀ at *
  have hruns : (r₀.1 ≠ acsStatusSkip ∨ t.ignoresSkip = true) ↔ c.runs t = true := by
    rw [hskip]
    simp [Config.runs, Config.run]
  have hstops : (c.runs t = true ∧ c.machine.traps t.testNum = true) ↔ c.stops t = true := by
    rw [Config.stops, Bool.and_eq_true]
  simp only [hruns, hstops]
  cases hs : c.stops t
  case true =>
    have hr : c.runs t = true := (hstops.mpr hs).1
    refine .inl ⟨rfl, _, if_pos rfl, ?_⟩
    constructor
    case nums     => simp [Config.judged, nums, hs]
    case verdicts => rfl
    case ran      => simp [Config.tried, nums, hs, hr]
    case modules  => rfl
    case results  => exact fun _ h => by cases h
    case tally    =>
      simp only [Config.valPeDefaultEsr, Infra.tally_valSetStatus, Infra.tally_runPayload, hinit, Config.tried, hs]
      rfl
  case false =>
    generalize hi : (if c.runs t = true then
        if t.direct = true then Infra.runPayload (c.run t.testNum (c.pes t.checks)) _ r₀.2
        else Infra.valRunTestPayload (c.run t.testNum (c.pes t.checks)) r₀.2
      else r₀.2) = i
    have htally : tally i = ((tally s.infra).1 + 1, (tally s.infra).2) := by
      rw [← hi]
      split
      case isTrue =>
        split
        case isTrue  => rw [Infra.tally_runPayload, hinit]; rfl
        case isFalse => rw [Infra.tally_valRunTestPayload, hinit]; rfl
      case isFalse => exact hinit
    obtain ⟨v, hv, hres, hcheck⟩ := valCheckForError_cases (c.run t.testNum (c.pes t.checks)) i
    refine .inr ⟨rfl, v, _, _, if_neg Bool.false_ne_true, ⟨?nums, ?verdicts, ?ran, rfl, ?results, ?tally⟩, ?_, ?_⟩
    case nums     => simp [Config.judged, nums, hs]
    case verdicts =>
      simp only [hv]
      rfl
    case ran      =>
      by_cases hr : c.runs t = true
      case pos => simp [hr, nums, Config.tried, hs]
      case neg => simp [hr, nums, Config.tried, hs]
    case results  =>
      intro p hp
      rw [List.mem_singleton.mp hp]
      exact hres
    case tally    =>
      rw [hcheck, htally, Config.tried, hs]
      rfl
    case refine_1 =>
      intro hf
      simp [hf, hv]
    case refine_2 =>
      simp only [hv]
      split
      case isTrue hf  => simp [hf.2, acsStatusFail]
      case isFalse    => rfl

-- The status that a test is added to.
theorem entry_adds :
    (∃ s', c.entry t r.2 = .error s' ∧ Adds c [t] [] r (.error s')) ∨
    (∃ v result s', c.entry t r.2 = .ok (result, s') ∧ Adds c [t] [(t.testNum, v)] r (.ok (r.1 ||| result, s')) ∧
      (t.failsOnly = false → result = v)) := by
  rcases entry_performs (c := c) (t := t) (s := r.2) with ⟨hs, s', he, hp⟩ | ⟨hs, v, result, s', he, hp, hf, hz⟩
  case inl => exact .inl ⟨s', he, ⟨t, List.mem_singleton_self t, hs⟩, hp⟩
  case inr =>
    refine .inr ⟨v, result, s', he, ⟨?_, hp, ?_⟩, hf⟩
    · exact List.forall_mem_singleton.mpr hs
    · rw [Nat.or_eq_zero_iff, hz, List.forall_mem_singleton]

theorem entries_adds (ts : List Test) (r : Nat × State) : ∃ new, Adds c ts new r (c.entries ts r) := by
  induction ts generalizing r
  case nil => exact ⟨[], .nil⟩
  case cons t ts hi =>
    rw [Config.entries]
    rcases entry_adds (c := c) (t := t) (r := r) with ⟨s', he, ht⟩ | ⟨v, result, s', he, ht, _⟩
    case inl =>
      rw [he]
      exact ⟨[], ht.stopped⟩
    case inr =>
      obtain ⟨new, hts⟩ := hi (r.1 ||| result, s')
      rw [he]
      exact ⟨_, ht.append hts⟩

theorem entriesIf_adds (on : Bool) (ts : List Test) (r : Nat × State) :
    ∃ new, Adds c (if on then ts else []) new r (c.entriesIf on ts r) := by
  rw [Config.entriesIf]
  split
  case isTrue  => exact entries_adds _ _
  case isFalse => exact ⟨[], .nil⟩

theorem viewEntries_adds (view : SwView) (ts : List Test) (r : Nat × State) :
    ∃ new, Adds c (if c.gSwView view then ts else []) new r (c.viewEntries view ts r) :=
  entriesIf_adds _ _ _

theorem viewEntries_bind (view : SwView) (ts : List Test) (r : Nat × State)
    (h : ∀ r', ∃ new', Adds c ts' new' r' (f r')) :
    ∃ new, Adds c ((if c.gSwView view then ts else []) ++ ts') new r (c.viewEntries view ts r >>= f) := by
  obtain ⟨_, h₁⟩ := viewEntries_adds (c := c) view ts r
  exact h₁.bind h

end

-- The functions of the modules.

-- The tests whose conditions are met, given what has been found.
def Config.chosen (c : Config) (tests : List Listed) (verdicts : List (Nat × Nat)) : List Test :=
  (tests.filter (c.attempts verdicts)).map (·.test)

-- What a `val_*_execute_tests` does: it attempts those of its tests whose conditions are met, and its status is a pass
-- if the platform has the module and all of them pass. It does not return from a test that is ended by an exception.
def Outcome (c : Config) (base : Nat) (tests : List Listed) (new : List (Nat × Nat)) (s : State) :
    Except State (Nat × State) → Prop
  | .ok r     => GoesOn c (c.chosen tests new) ∧ Performs c (c.chosen tests new) new s r.2 ∧
    (r.1 = acsStatusPass ↔ base ∉ c.gSkipTestNum ∧ c.Present base ∧ ∀ p ∈ new, p.2 = acsStatusPass)
  | .error s' => Stops c (c.chosen tests new) ∧ Performs c (c.chosen tests new) new s s'

section

variable {c : Config} {t : Test} {ts : List Test} {tests tests' : List Listed} {new verdicts : List (Nat × Nat)}
variable {s s' : State} {r : Nat × State} {x : Except State (Nat × State)} {base : Nat} {views : List SwView} {gate : Gate}

theorem chosen_append : c.chosen (tests ++ tests') verdicts = c.chosen tests verdicts ++ c.chosen tests' verdicts := by
  rw [Config.chosen, List.filter_append, List.map_append, Config.chosen, Config.chosen]

theorem chosen_listed :
    c.chosen (listed base views gate ts) verdicts =
      if base ∉ c.gSkipTestNum ∧ views.any c.gSwView = true ∧ c.opens verdicts gate = true then ts else [] := by
  have hmap : (fun e : Listed => e.test) ∘ (fun t => ⟨base, views, gate, t⟩) = id := rfl
  have hall (t : Test) : c.attempts verdicts ⟨base, views, gate, t⟩ = true ↔
      base ∉ c.gSkipTestNum ∧ views.any c.gSwView = true ∧ c.opens verdicts gate = true := by
    simp only [Config.attempts, Bool.and_eq_true, Bool.not_eq_true', List.elem_eq_contains, List.contains_eq_mem,
      decide_eq_false_iff_not, and_assoc]
  rw [Config.chosen, listed, List.filter_map, List.map_map, hmap, List.map_id]
  split
  case isTrue h  => exact List.filter_eq_self.mpr fun t _ => (hall t).mpr h
  case isFalse h => exact List.filter_eq_nil_iff.mpr fun t _ => mt (hall t).mp h

theorem chosen_open (hs : base ∉ c.gSkipTestNum) (hv : views.any c.gSwView = true) (ho : c.opens verdicts gate = true) :
    c.chosen (listed base views gate ts) verdicts = ts := by
  rw [chosen_listed, if_pos ⟨hs, hv, ho⟩]

theorem chosen_shut (ho : c.opens verdicts gate = false) : c.chosen (listed base views gate ts) verdicts = [] := by
  rw [chosen_listed, if_neg]
  simp [ho]

theorem chosen_none (h : ∀ e ∈ tests, c.attempts verdicts e = false) : c.chosen tests verdicts = [] := by
  rw [Config.chosen, List.filter_eq_nil_iff.mpr fun e he => by simp [h e he], List.map_nil]

theorem Outcome.skipped (hs : base ∈ c.gSkipTestNum) (hb : ∀ e ∈ tests, e.base = base) :
    Outcome c base tests [] s (.ok (acsStatusSkip, s)) := by
  have hnone : c.chosen tests [] = [] := chosen_none fun e he => by simp [Config.attempts, hb e he, hs]
  rw [Outcome, hnone]
  exact ⟨.nil, .nil, by simp [hs, acsStatusSkip, acsStatusPass]⟩

-- The platform does not have the module.
theorem Outcome.absent (hp : ¬c.Present base) (hr : r.1 ≠ acsStatusPass) (hg : GoesOn c (c.chosen tests new))
    (h : Performs c (c.chosen tests new) new s r.2) : Outcome c base tests new s (.ok r) :=
  ⟨hg, h, by simp [hp, hr]⟩

theorem Outcome.none (hp : ¬c.Present base) (hg : ∀ e ∈ tests, c.opens [] e.gate = false) :
    Outcome c base tests [] s (.ok (acsStatusSkip, s)) := by
  have hnone : c.chosen tests [] = [] := chosen_none fun e he => by simp [Config.attempts, hg e he]
  refine .absent hp (show acsStatusSkip ≠ _ by decide) ?_ ?_
  · exact hnone ▸ .nil
  · exact hnone ▸ .nil

theorem Outcome.of_adds (hs : base ∉ c.gSkipTestNum) (hp : c.Present base) (hts : ts = c.chosen tests new)
    (h : Adds c ts new (acsStatusPass, s) x) : Outcome c base tests new s x := by
  subst hts
  cases x
  case error => exact h
  case ok =>
    obtain ⟨hg, hperf, hz⟩ := h
    refine ⟨hg, hperf, ?_⟩
    simp only [acsStatusPass] at hz ⊢
    rw [hz]
    simp [hs, hp]

-- The tests up to the one that is ended by an exception decide.
theorem Outcome.stopped (h : Adds c ts new (acsStatusPass, s) (.error s')) (ht : ts <+: c.chosen tests new) :
    Outcome c base tests new s (.error s') := by
  obtain ⟨hs, hperf⟩ := h
  obtain ⟨_, ht⟩ := ht
  rw [Outcome, ← ht]
  exact ⟨hs.append_left, hperf.stopped hs⟩

theorem present_always (h₁ : base ≠ acsSmmuTestNumBase) (h₂ : base ≠ acsPcieTestNumBase)
    (h₃ : base ≠ acsExerciserTestNumBase) : c.Present base :=
  ⟨fun h => absurd h h₁, fun h => absurd h h₂, fun h => absurd h h₃⟩

theorem opens_always : c.opens verdicts .always = true := rfl

-- The verdict on a test that comes up once.
theorem elem_verdict {n v : Nat} (hv : (n, v) ∈ new) (hone : ∀ p ∈ new, p.1 = n → p.2 = v) :
    new.elem (n, acsStatusPass) = true ↔ v = acsStatusPass := by
  rw [List.elem_eq_contains, List.contains_iff_mem]
  constructor
  · intro hm
    exact (hone _ hm rfl).symm
  · rintro rfl
    exact hv

theorem pe_outcome : ∃ new, Outcome c acsPeTestNumBase peTests new s (c.valPeExecuteTests s) := by
  rw [Config.valPeExecuteTests]
  split
  case isTrue hs => exact ⟨_, .skipped hs (by decide)⟩
  case isFalse hs =>
    obtain ⟨_, h⟩ := viewEntries_bind (c := c) .os peOs (acsStatusPass, s) fun r =>
      viewEntries_bind .hyp peHyp r fun r => viewEntries_adds .ps pePs r
    refine ⟨_, .of_adds hs (present_always (by decide) (by decide) (by decide)) ?_ h⟩
    simp [peTests, chosen_append, chosen_listed, hs, Config.opens]

theorem memory_outcome : ∃ new, Outcome c acsMemoryMapTestBase memoryTests new s (c.valMemoryExecuteTests s) := by
  rw [Config.valMemoryExecuteTests]
  split
  case isTrue hs => exact ⟨_, .skipped hs (by decide)⟩
  case isFalse hs =>
    obtain ⟨_, h⟩ := viewEntries_adds (c := c) .os memoryOs (acsStatusPass, s)
    refine ⟨_, .of_adds hs (present_always (by decide) (by decide) (by decide)) ?_ h⟩
    simp [memoryTests, chosen_listed, hs, Config.opens]

theorem gic_outcome : ∃ new, Outcome c acsGicTestNumBase gicTests new s (c.valGicExecuteTests s) := by
  rw [Config.valGicExecuteTests]
  split
  case isTrue hs => exact ⟨_, .skipped hs (by decide)⟩
  case isFalse hs =>
    have hp : c.Present acsGicTestNumBase := present_always (by decide) (by decide) (by decide)
    have hframes (r : Nat × State) : ∃ new, Adds c (c.chosen (listed acsGicTestNumBase [.os] .gicV2m gicV2mOs) []) new r
        (if c.machine.gicVersion ≠ 2 ∨ c.machine.numMsiFrame = 0 then .ok r
          else if c.machine.v2mMismatch then .ok r else c.viewEntries .os gicV2mOs r) := by
      split
      case isTrue hv =>
        have hno : (c.machine.gicVersion == 2 && c.machine.numMsiFrame != 0) = false := by
          rcases hv with hv | hv
          case inl => rw [beq_eq_false_iff_ne.mpr hv, Bool.false_and]
          case inr => simp [hv]
        rw [chosen_shut (by simp [Config.opens, hno])]
        exact ⟨[], .nil⟩
      case isFalse hv =>
        obtain ⟨hv, hf⟩ := not_or.mp hv
        split
        case isTrue hm =>
          rw [chosen_shut (by simp [Config.opens, hm])]
          exact ⟨[], .nil⟩
        case isFalse hm =>
          obtain ⟨_, h⟩ := viewEntries_adds (c := c) .os gicV2mOs r
          simp only [chosen_listed, hs, Config.opens, not_not.mp hv]
          simpa [hf, hm] using ⟨_, h⟩
    obtain ⟨_, h⟩ := viewEntries_bind (c := c) .os gicOs (acsStatusPass, s) fun r =>
      viewEntries_bind .hyp gicHyp r hframes
    refine ⟨_, .of_adds hs hp ?_ h⟩
    simp [gicTests, chosen_append, chosen_listed, hs, Config.opens]

theorem smmu_outcome : ∃ new, Outcome c acsSmmuTestNumBase smmuTests new s (c.valSmmuExecuteTests s) := by
  rw [Config.valSmmuExecuteTests]
  split
  case isTrue hs => exact ⟨_, .skipped hs (by decide)⟩
  case isFalse hs =>
    split
    case isTrue hz =>
      refine ⟨_, .none (fun hp => hp.1 rfl hz) fun e he => ?_⟩
      have hg : e.gate = .smmu := by
        revert e
        decide
      rw [hg, Config.opens, hz]
      rfl
    case isFalse hz =>
      have hp : c.Present acsSmmuTestNumBase :=
        ⟨fun _ => hz, fun h => absurd h (by decide), fun h => absurd h (by decide)⟩
      obtain ⟨_, h⟩ := viewEntries_bind (c := c) .os smmuOs (acsStatusPass, s) fun r => by
        obtain ⟨_, h⟩ := entriesIf_adds (c := c) (c.gSwView .os || c.gSwView .hyp) smmuOsHyp r
        exact h.bind fun r => viewEntries_adds .hyp smmuHyp r
      refine ⟨_, .of_adds hs hp ?_ h⟩
      simp [smmuTests, chosen_append, chosen_listed, hs, Config.opens, hz]

theorem timer_outcome : ∃ new, Outcome c acsTimerTestNumBase timerTests new s (c.valTimerExecuteTests s) := by
  rw [Config.valTimerExecuteTests]
  split
  case isTrue hs => exact ⟨_, .skipped hs (by decide)⟩
  case isFalse hs =>
    obtain ⟨_, h⟩ := viewEntries_adds (c := c) .os timerOs (acsStatusPass, s)
    refine ⟨_, .of_adds hs (present_always (by decide) (by decide) (by decide)) ?_ h⟩
    simp [timerTests, chosen_listed, hs, Config.opens]

theorem wakeup_outcome : ∃ new, Outcome c acsWakeupTestNumBase wakeupTests new s (c.valWakeupExecuteTests s) := by
  rw [Config.valWakeupExecuteTests]
  have hp : c.Present acsWakeupTestNumBase := present_always (by decide) (by decide) (by decide)
  split
  case isTrue hs => exact ⟨_, .skipped hs (by decide)⟩
  case isFalse hs =>
    split
    case isFalse hv =>
      refine ⟨_, .of_adds hs hp ?_ .nil⟩
      simp [wakeupTests, chosen_append, chosen_listed, hs, hv]
    case isTrue hv =>
      have hstatus : (c.osU001Entry s >>= fun r => .ok (acsStatusPass ||| r.1, r.2)) = c.osU001Entry s := by
        cases c.osU001Entry s
        case error => rfl
        case ok r  => exact congrArg Except.ok (Prod.ext (Nat.zero_or r.1) rfl)
      obtain ⟨_, h₁⟩ := entries_adds (c := c) wakeupOs (acsStatusPass, s)
      obtain ⟨_, h⟩ := h₁.bind fun r => entriesIf_adds c.machine.el2 wakeupEl2 r
      rw [hstatus]
      refine ⟨_, .of_adds hs hp ?_ h⟩
      simp [wakeupTests, chosen_append, chosen_listed, hs, hv, Config.opens]

theorem peripheral_outcome :
    ∃ new, Outcome c acsPerTestNumBase peripheralTests new s (c.valPeripheralExecuteTests s) := by
  rw [Config.valPeripheralExecuteTests]
  have hp : c.Present acsPerTestNumBase := present_always (by decide) (by decide) (by decide)
  split
  case isTrue hs => exact ⟨_, .skipped hs (by decide)⟩
  case isFalse hs =>
    split
    case isFalse hv =>
      refine ⟨_, .of_adds hs hp ?_ .nil⟩
      simp [peripheralTests, chosen_append, chosen_listed, hs, hv]
    case isTrue hv =>
      have hchosen (l : List (Nat × Nat)) : c.chosen peripheralTests l =
          peripheralOs ++ [uartMemory] ++ c.chosen (listed acsPerTestNumBase [.os] .uart [uartInterrupt]) l := by
        rw [peripheralTests, chosen_append, chosen_open hs (by simpa using hv) opens_always]
      obtain ⟨new, h₁⟩ := entries_adds (c := c) peripheralOs (acsStatusPass, s)
      cases hx : c.entries peripheralOs (acsStatusPass, s)
      case error s' =>
        rw [hx] at h₁
        refine ⟨new, .stopped h₁ ?_⟩
        rw [hchosen, List.append_assoc]
        exact List.prefix_append _ _
      case ok r₁ =>
        rw [hx] at h₁
        rcases entry_adds (c := c) (t := uartMemory) (r := r₁) with ⟨s', he, h₂⟩ | ⟨v, result, s', he, h₂, hr⟩
        case inl =>
          have hend : c.osD003Entry r₁.2 = .error s' := by
            rw [Config.osD003Entry, he]
            rfl
          simp only [Bind.bind, Except.bind, hend]
          refine ⟨_, .stopped (h₁.append h₂) ?_⟩
          rw [hchosen]
          exact List.prefix_append _ _
        case inr =>
          obtain rfl : result = v := hr rfl
          have hnew : ∀ p ∈ new, p.1 = 601 ∨ p.1 = 602 := by
            intro p hp
            have hm : p.1 ∈ nums peripheralOs := h₁.mem_nums hp
            simpa [nums, peripheralOs, bootTest] using hm
          have huart {l : List (Nat × Nat)} (hl : ∀ p ∈ l, p.1 = 604) :
              c.opens (new ++ [(uartMemory.testNum, result)] ++ l) .uart = true ↔ result = acsStatusPass := by
            refine elem_verdict (by simp) fun p hp he => ?_
            have he : p.1 = 603 := he
            rcases List.mem_append.mp hp with hp | hp
            case inr =>
              have := hl p hp
              omega
            case inl =>
              rcases List.mem_append.mp hp with hp | hp
              case inl =>
                have := hnew p hp
                omega
              case inr => rw [List.mem_singleton.mp hp]
          by_cases ht : result = acsStatusPass
          case neg =>
            have hshut : c.opens (new ++ [(uartMemory.testNum, result)]) .uart = false := by
              have hno := (huart (l := []) (fun _ h => by cases h)).not.mpr ht
              rwa [List.append_nil, Bool.not_eq_true] at hno
            have hend : c.osD003Entry r₁.2 = .ok (result, s') := by
              rw [Config.osD003Entry, he]
              exact if_neg ht
            simp only [Bind.bind, Except.bind, hend]
            refine ⟨_, .of_adds hs hp ?_ (h₁.append h₂)⟩
            rw [hchosen, chosen_shut hshut, List.append_nil]
          case pos =>
            have hend : c.osD003Entry r₁.2 = c.entry uartInterrupt s' := by
              rw [Config.osD003Entry, he]
              exact if_pos ht
            have hopen {l : List (Nat × Nat)} (hl : ∀ p ∈ l, p.1 = 604) :
                c.chosen peripheralTests (new ++ [(uartMemory.testNum, result)] ++ l) =
                  peripheralOs ++ [uartMemory] ++ [uartInterrupt] := by
              rw [hchosen, chosen_open hs (by simpa using hv) ((huart hl).mpr ht)]
            have hz : r₁.1 ||| result = r₁.1 := by rw [ht, acsStatusPass, Nat.or_zero]
            have h := h₁.append h₂
            rw [hz] at h
            simp only [Bind.bind, Except.bind, hend]
            rcases entry_adds (c := c) (t := uartInterrupt) (r := (r₁.1, s')) with
              ⟨s'', he', h₃⟩ | ⟨v', result', s'', he', h₃, _⟩
            case inl =>
              rw [he']
              refine ⟨_, .of_adds hs hp (hopen (l := []) fun _ h => by cases h).symm (h.append h₃)⟩
            case inr =>
              rw [he']
              refine ⟨_, .of_adds hs hp (hopen (l := [(uartInterrupt.testNum, v')]) ?_).symm (h.append h₃)⟩
              simp [uartInterrupt, bootTest]

theorem wd_outcome (hn : c.machine.numWd ≠ 0) : ∃ new, Outcome c acsWdTestNumBase wdTests new s (c.valWdExecuteTests s) := by
  rw [Config.valWdExecuteTests]
  split
  case isTrue hs => exact ⟨_, .skipped hs (by decide)⟩
  case isFalse hs =>
    obtain ⟨_, h⟩ := viewEntries_adds (c := c) .os wdOs (acsStatusPass, s)
    refine ⟨_, .of_adds hs (present_always (by decide) (by decide) (by decide)) ?_ h⟩
    simp [wdTests, chosen_listed, hs, Config.opens, hn]

theorem pcie_outcome : ∃ new, Outcome c acsPcieTestNumBase pcieTests new s (c.valPcieExecuteTests s) := by
  rw [Config.valPcieExecuteTests]
  split
  case isTrue hs => exact ⟨_, .skipped hs (by decide)⟩
  case isFalse hs =>
    split
    case isTrue hz =>
      refine ⟨_, .none (fun hp => (hp.2.1 rfl).1 hz) fun e he => ?_⟩
      have hg : e.gate = .ecam ∨ e.gate = .devices := by
        revert e
        decide
      rcases hg with hg | hg <;> simp [hg, Config.opens, hz]
    case isFalse hz =>
      have present (hb : c.machine.bdfEntries ≠ 0) : c.Present acsPcieTestNumBase :=
        ⟨fun h => absurd h (by decide), fun _ => ⟨hz, hb⟩, fun h => absurd h (by decide)⟩
      by_cases hv : c.gSwView .os = true
      case neg =>
        -- Without the tests of the operating system, there are none, but the devices still count.
        have hnone : c.chosen pcieTests [] = [] := by
          simp [pcieTests, chosen_append, chosen_listed, hv]
        simp only [Config.viewEntries, Config.entriesIf, hv, Bool.false_eq_true, false_and, if_false, Bind.bind, Except.bind]
        split
        case isTrue hb =>
          refine ⟨[], .absent (fun hp => (hp.2.1 rfl).2 hb) (show acsStatusSkip ≠ _ by decide) ?_ ?_⟩
          · exact hnone ▸ .nil
          · exact hnone ▸ .nil
        case isFalse hb => exact ⟨_, .of_adds hs (present hb) hnone.symm .nil⟩
      case pos =>
        have hview : [SwView.os].any c.gSwView = true := by simpa using hv
        have hecam (l : List (Nat × Nat)) : c.opens l .ecam = true := by simp [Config.opens, hz]
        have hchosen (l : List (Nat × Nat)) : c.chosen pcieTests l =
            [ecamPresence] ++ c.chosen (listed acsPcieTestNumBase [.os] .devices pcieOs) l := by
          rw [pcieTests, chosen_append, chosen_open hs hview (hecam _)]
        have hrun : c.viewEntries .os [ecamPresence] (acsStatusPass, s) = c.entry ecamPresence s := by
          rw [Config.viewEntries, Config.entriesIf, if_pos hv, Config.entries]
          cases c.entry ecamPresence s
          case error => rfl
          case ok r  => exact congrArg Except.ok (Prod.ext (Nat.zero_or r.1) rfl)
        rw [hrun]
        rcases entry_adds (c := c) (t := ecamPresence) (r := (acsStatusPass, s)) with
          ⟨s', he, h₁⟩ | ⟨v, result, s', he, h₁, hr⟩
        case inl =>
          have he : c.entry ecamPresence s = .error s' := he
          rw [he]
          refine ⟨[], .stopped h₁ ?_⟩
          rw [hchosen]
          exact List.prefix_append _ _
        case inr =>
          have he : c.entry ecamPresence s = .ok (result, s') := he
          obtain rfl : result = v := hr rfl
          have hgate {l : List (Nat × Nat)} (hl : ∀ p ∈ l, p.1 ≠ 801) :
              c.opens ((ecamPresence.testNum, result) :: l) .devices = true ↔
                c.machine.bdfEntries ≠ 0 ∧ result = acsStatusPass := by
            have helem : ((ecamPresence.testNum, result) :: l).elem (ecamPresence.testNum, acsStatusPass) = true ↔
                result = acsStatusPass := by
              refine elem_verdict List.mem_cons_self fun p hp he => ?_
              rcases List.mem_cons.mp hp with rfl | hp
              case inl => rfl
              case inr => exact absurd he (hl p hp)
            rw [Config.opens, Bool.and_eq_true, helem]
            simp [hz]
          have hshut (hno : ¬(c.machine.bdfEntries ≠ 0 ∧ result = acsStatusPass)) :
              c.chosen pcieTests [(ecamPresence.testNum, result)] = [ecamPresence] := by
            have hfalse := (hgate (l := []) fun _ h => by cases h).not.mpr hno
            rw [hchosen, chosen_shut (Bool.not_eq_true _ ▸ hfalse), List.append_nil]
          rw [show acsStatusPass ||| result = result from Nat.zero_or result] at h₁
          rw [he]
          simp only [Bind.bind, Except.bind, hv, true_and]
          split
          case isTrue hf =>
            have hone := hshut fun h => hf h.2
            refine ⟨[(ecamPresence.testNum, result)], ?_, ?_, ?_⟩
            · exact hone ▸ h₁.1
            · exact hone ▸ h₁.2.1
            · simp [hf]
          case isFalse hf =>
            split
            case isTrue hb =>
              have hone := hshut fun h => h.1 hb
              exact ⟨[(ecamPresence.testNum, result)], .absent (fun hp => (hp.2.1 rfl).2 hb)
                (show acsStatusSkip ≠ _ by decide) (hone ▸ h₁.1) (hone ▸ h₁.2.1)⟩
            case isFalse hb =>
              obtain ⟨new, h₂⟩ := entries_adds (c := c) pcieOs (result, s')
              have hnew : ∀ p ∈ new, p.1 ≠ 801 := by
                intro p hp he
                have hm : p.1 ∈ nums pcieOs := h₂.mem_nums hp
                rw [he] at hm
                revert hm
                decide
              have hopen := (hgate hnew).mpr ⟨hb, not_not.mp hf⟩
              rw [Config.viewEntries, Config.entriesIf, if_pos hv]
              refine ⟨_, .of_adds hs (present hb) ?_ (h₁.append h₂)⟩
              rw [hchosen, List.singleton_append (l := new), chosen_open hs hview hopen]

theorem exerciser_outcome :
    ∃ new, Outcome c acsExerciserTestNumBase exerciserTests new s (c.valExerciserExecuteTests s) := by
  rw [Config.valExerciserExecuteTests]
  have hgate : ∀ e ∈ exerciserTests, e.gate = .exerciser := by decide
  split
  case isTrue hs => exact ⟨_, .skipped hs (by decide)⟩
  case isFalse hs =>
    split
    case isTrue hf =>
      have hno : ¬c.Present acsExerciserTestNumBase := fun hp => absurd (hp.2.2 rfl).1 (by simp [hf])
      exact ⟨_, .none hno fun e he => by simp [hgate e he, Config.opens, hf]⟩
    case isFalse hf =>
      split
      case isTrue hn => exact ⟨_, .none (fun hp => (hp.2.2 rfl).2 hn) fun e he => by simp [hgate e he, Config.opens, hn]⟩
      case isFalse hn =>
        have hp : c.Present acsExerciserTestNumBase :=
          ⟨fun h => absurd h (by decide), fun h => absurd h (by decide), fun _ => ⟨by simpa using hf, hn⟩⟩
        obtain ⟨_, h⟩ := viewEntries_adds (c := c) .os exerciserOs (acsStatusPass, s)
        refine ⟨_, .of_adds hs hp ?_ h⟩
        simp [exerciserTests, chosen_listed, hs, Config.opens, hf, hn]

end

-- The whole suite.

-- The number of a test tells its module, and the conditions about other tests are about tests of the same module.
def Listed.Proper (e : Listed) : Prop :=
  baseOf e.test.testNum = e.base ∧ (e.gate = .uart → e.base = acsPerTestNumBase) ∧
    (e.gate = .devices → e.base = acsPcieTestNumBase)

instance {e : Listed} : Decidable e.Proper :=
  inferInstanceAs (Decidable (_ ∧ _ ∧ _))

-- What holds after the modules with a base below `bound`, whose tests are `tests`.
structure Consistent (c : Config) (bound : Nat) (tests : List Listed) (s : State) : Prop where
  proper    : ∀ e ∈ tests, e.Proper ∧ e.base < bound
  attempted : (s.verdicts.map Prod.fst).reverse = nums (c.judged (c.chosen tests s.verdicts))
  ran       : s.ran.reverse = nums ((c.tried (c.chosen tests s.verdicts)).filter c.runs)
  results   : ∀ q ∈ s.verdicts, q.2 = acsStatusPass ∨ q.2 = acsStatusSkip ∨ q.2 = acsStatusFail
  tally     : tally s.infra = ((c.tried (c.chosen tests s.verdicts)).length,
    s.verdicts.countP (·.2 == acsStatusPass), s.verdicts.countP (·.2 == acsStatusFail))
  modules   : ∀ m ∈ s.modules, m.1 < bound ∧
    (m.2 = acsStatusPass ↔ m.1 ∉ c.gSkipTestNum ∧ c.Present m.1 ∧
      ∀ q ∈ s.verdicts, baseOf q.1 = m.1 → q.2 = acsStatusPass)

-- Either no test has been ended by an exception so far, or one has and nothing comes after it.
def Holds (c : Config) (bound : Nat) (tests : List Listed) : Except State State → Prop
  | .ok s    => GoesOn c (c.chosen tests s.verdicts) ∧ Consistent c bound tests s
  | .error s => Stops c (c.chosen tests s.verdicts) ∧ Consistent c bound tests s

section

variable {c : Config} {bound base status : Nat} {tests tests' : List Listed} {s s' : State}
variable {f : State → Except State (Nat × State)} {x : Except State State}
variable {new verdicts verdicts' : List (Nat × Nat)} {e : Listed}

theorem attempts_congr (he : e.Proper)
    (h : ∀ n, baseOf n = e.base → ((n, acsStatusPass) ∈ verdicts ↔ (n, acsStatusPass) ∈ verdicts')) :
    c.attempts verdicts e = c.attempts verdicts' e := by
  obtain ⟨_, huart, hdevices⟩ := he
  have hgate : c.opens verdicts e.gate = c.opens verdicts' e.gate := by
    have helem {n : Nat} (hn : baseOf n = e.base) :
        verdicts.elem (n, acsStatusPass) = verdicts'.elem (n, acsStatusPass) := by
      rw [Bool.eq_iff_iff, List.elem_eq_contains, List.elem_eq_contains, List.contains_iff_mem, List.contains_iff_mem]
      exact h n hn
    cases hg : e.gate
    case uart    => rw [Config.opens, Config.opens, helem (n := uartMemory.testNum) (huart hg).symm]
    case devices => rw [Config.opens, Config.opens, helem (n := ecamPresence.testNum) (hdevices hg).symm]
    all_goals rfl
  rw [Config.attempts, hgate, Config.attempts]

theorem Consistent.start (infra : Infra.State) (h : Infra.tally infra = (0, 0, 0)) : Consistent c 0 [] ⟨infra, [], [], []⟩ where
  proper    := fun _ h => by cases h
  attempted := rfl
  ran       := rfl
  results   := fun _ h => by cases h
  tally     := h
  modules   := fun _ h => by cases h

-- A test that has been chosen is in the list.
theorem nums_chosen {n : Nat} (hn : n ∈ nums (c.chosen tests verdicts)) : ∃ e ∈ tests, e.test.testNum = n := by
  rw [Config.chosen, nums, List.map_map] at hn
  obtain ⟨e, he, hn⟩ := List.mem_map.mp hn
  exact ⟨e, List.mem_of_mem_filter he, hn⟩

-- What has been found belongs to the modules that have been run.
theorem Consistent.baseOf_lt (h : Consistent c bound tests s) {q : Nat × Nat} (hq : q ∈ s.verdicts) : baseOf q.1 < bound := by
  have hm : q.1 ∈ (s.verdicts.map Prod.fst).reverse := List.mem_reverse.mpr (List.mem_map_of_mem hq)
  rw [h.attempted] at hm
  obtain ⟨e, he, hn⟩ := nums_chosen (((List.takeWhile_sublist _).map _).mem hm)
  obtain ⟨⟨hb, _⟩, hlt⟩ := h.proper e he
  rw [← hn]
  exact hb ▸ hlt

theorem Performs.baseOf_eq (h : Performs c (c.chosen tests' new) new s s')
    (hp : ∀ e ∈ tests', e.Proper ∧ e.base = base) {q : Nat × Nat} (hq : q ∈ new) : baseOf q.1 = base := by
  obtain ⟨e, he, hn⟩ := nums_chosen (h.mem_nums hq)
  obtain ⟨⟨hb, _⟩, hbase⟩ := hp e he
  rw [← hn]
  exact hb.trans hbase

-- Each module is chosen from by what has been found in it.
theorem Consistent.chosen_append (h : Consistent c bound tests s) (hle : bound ≤ base)
    (hp : ∀ e ∈ tests', e.Proper ∧ e.base = base) (hperf : Performs c (c.chosen tests' new) new s s') :
    c.chosen (tests ++ tests') s'.verdicts = c.chosen tests s.verdicts ++ c.chosen tests' new := by
  rw [Suite.chosen_append, Config.chosen, Config.chosen, Config.chosen, Config.chosen]
  congr 2
  case e_a.e_l =>
    refine List.filter_congr fun e he => attempts_congr (h.proper e he).1 fun n hn => ?_
    rw [hperf.verdicts, List.mem_append, List.mem_reverse]
    refine or_iff_right fun hc => ?_
    have hb := hperf.baseOf_eq hp hc
    have hlt := (h.proper e he).2
    simp only at hb
    omega
  case e_a.e_l =>
    refine List.filter_congr fun e he => attempts_congr (hp e he).1 fun n hn => ?_
    rw [hperf.verdicts, List.mem_append, List.mem_reverse]
    refine or_iff_left fun hc => ?_
    have hlt := h.baseOf_lt hc
    have hb := (hp e he).2
    simp only at hlt
    omega

theorem Consistent.proper_append (h : Consistent c bound tests s) (hle : bound ≤ base)
    (hp : ∀ e ∈ tests', e.Proper ∧ e.base = base) : ∀ e ∈ tests ++ tests', e.Proper ∧ e.base < base + 1 := by
  intro e he
  rcases List.mem_append.mp he with he | he
  case inl =>
    obtain ⟨h₁, h₂⟩ := h.proper e he
    exact ⟨h₁, by omega⟩
  case inr =>
    obtain ⟨h₁, h₂⟩ := hp e he
    exact ⟨h₁, by omega⟩

-- The tests of one module more.
theorem Consistent.extend (h : Consistent c bound tests s) (hg : GoesOn c (c.chosen tests s.verdicts)) (hle : bound ≤ base)
    (hp : ∀ e ∈ tests', e.Proper ∧ e.base = base) (hperf : Performs c (c.chosen tests' new) new s s') :
    Consistent c (base + 1) (tests ++ tests') s' := by
  have hchosen := h.chosen_append hle hp hperf
  refine ⟨h.proper_append hle hp, ?attempted, ?ran, ?results, ?tally, ?modules⟩
  case attempted =>
    rw [hchosen, hg.judged_append, hperf.verdicts, List.map_append, List.reverse_append, h.attempted, hg.judged_eq,
      ← List.map_reverse, List.reverse_reverse, hperf.nums]
    simp only [nums, List.map_append]
  case ran =>
    rw [hchosen, hg.tried_append, hperf.ran, List.reverse_append, List.reverse_reverse, h.ran, hg.tried_eq]
    simp only [nums, List.map_append, List.filter_append]
  case results =>
    intro q hq
    rw [hperf.verdicts, List.mem_append, List.mem_reverse] at hq
    exact hq.elim (hperf.results q) (h.results q)
  case tally =>
    rw [hperf.tally, h.tally, hchosen, hg.tried_append, hg.tried_eq, hperf.verdicts, List.length_append,
      List.countP_append, List.countP_append, List.countP_reverse, List.countP_reverse]
    simp only [Nat.add_comm]
  case modules =>
    intro m hm
    rw [hperf.modules] at hm
    obtain ⟨hlt, hm⟩ := h.modules m hm
    refine ⟨by omega, hm.trans ?_⟩
    rw [hperf.verdicts]
    refine and_congr_right fun _ => and_congr_right fun _ => ⟨fun hall q hq hb => ?_, fun hall q hq hb => ?_⟩
    · rcases List.mem_append.mp hq with hq | hq
      case inl =>
        have := hperf.baseOf_eq hp (List.mem_reverse.mp hq)
        omega
      case inr => exact hall q hq hb
    · exact hall q (List.mem_append_right _ hq) hb

-- The status of the last module.
theorem Consistent.report (h : Consistent c (base + 1) tests s)
    (hs : status = acsStatusPass ↔ base ∉ c.gSkipTestNum ∧ c.Present base ∧
      ∀ q ∈ s.verdicts, baseOf q.1 = base → q.2 = acsStatusPass) :
    Consistent c (base + 1) tests { s with modules := (base, status) :: s.modules } where
  proper    := h.proper
  attempted := h.attempted
  ran       := h.ran
  results   := h.results
  tally     := h.tally
  modules   := by
    intro m hm
    rcases List.mem_cons.mp hm with rfl | hm
    case inl => exact ⟨Nat.lt_succ_self _, hs⟩
    case inr => exact h.modules m hm

-- A module that none of the tests are chosen from, or that is not reached.
theorem Consistent.skip (h : Consistent c bound tests s) (hle : bound ≤ base)
    (hp : ∀ e ∈ tests', e.Proper ∧ e.base = base)
    (hs : Stops c (c.chosen tests s.verdicts) ∨ c.chosen tests' s.verdicts = []) :
    Consistent c (base + 1) (tests ++ tests') s := by
  have hjudged : c.judged (c.chosen (tests ++ tests') s.verdicts) = c.judged (c.chosen tests s.verdicts) := by
    rw [Suite.chosen_append]
    rcases hs with hs | hs
    case inl => exact hs.judged_append
    case inr => rw [hs, List.append_nil]
  have htried : c.tried (c.chosen (tests ++ tests') s.verdicts) = c.tried (c.chosen tests s.verdicts) := by
    rw [Suite.chosen_append]
    rcases hs with hs | hs
    case inl => exact hs.tried_append
    case inr => rw [hs, List.append_nil]
  refine ⟨h.proper_append hle hp, ?_, ?_, h.results, ?_, ?_⟩
  · rw [hjudged, h.attempted]
  · rw [htried, h.ran]
  · rw [htried, h.tally]
  · intro m hm
    obtain ⟨hlt, hm⟩ := h.modules m hm
    exact ⟨by omega, hm⟩

theorem Holds.step (h : Holds c bound tests x) (hle : bound ≤ base) (hp : ∀ e ∈ tests', e.Proper ∧ e.base = base)
    (ho : ∀ s, ∃ new, Outcome c base tests' new s (f s)) :
    Holds c (base + 1) (tests ++ tests') (x >>= Config.runModule base f) := by
  cases x
  case error s =>
    obtain ⟨hs, h⟩ := h
    refine ⟨?_, h.skip hle hp (.inl hs)⟩
    rw [Suite.chosen_append]
    exact hs.append_left
  case ok s =>
    obtain ⟨hg, h⟩ := h
    obtain ⟨new, ho⟩ := ho s
    show Holds c (base + 1) (tests ++ tests') (Config.runModule base f s)
    cases hf : f s
    case error s' =>
      rw [hf] at ho
      obtain ⟨hs, hperf⟩ := ho
      rw [Config.runModule, hf]
      refine ⟨?_, h.extend hg hle hp hperf⟩
      rw [h.chosen_append hle hp hperf]
      exact hs.append_right
    case ok r =>
      rw [hf] at ho
      obtain ⟨hg', hperf, hstatus⟩ := ho
      rw [Config.runModule, hf]
      refine ⟨?_, (h.extend hg hle hp hperf).report (hstatus.trans ?_)⟩
      · show GoesOn c (c.chosen (tests ++ tests') r.2.verdicts)
        rw [h.chosen_append hle hp hperf]
        exact hg.append hg'
      · rw [hperf.verdicts]
        refine and_congr_right fun _ => and_congr_right fun _ => ⟨fun hall q hq hb => ?_, fun hall q hq => ?_⟩
        · rcases List.mem_append.mp hq with hq | hq
          case inl => exact hall q (List.mem_reverse.mp hq)
          case inr =>
            have := h.baseOf_lt hq
            omega
        · exact hall q (List.mem_append_left _ (List.mem_reverse.mpr hq)) (hperf.baseOf_eq hp hq)

-- A module that is not called.
theorem Holds.pass (h : Holds c bound tests x) (hle : bound ≤ base) (hp : ∀ e ∈ tests', e.Proper ∧ e.base = base)
    (hg : ∀ verdicts, ∀ e ∈ tests', c.opens verdicts e.gate = false) : Holds c (base + 1) (tests ++ tests') x := by
  have hnone (verdicts : List (Nat × Nat)) : c.chosen tests' verdicts = [] :=
    chosen_none fun e he => by simp [Config.attempts, hg verdicts e he]
  cases x
  case error s =>
    obtain ⟨hs, h⟩ := h
    refine ⟨?_, h.skip hle hp (.inr (hnone _))⟩
    rw [Suite.chosen_append]
    exact hs.append_left
  case ok s =>
    obtain ⟨hs, h⟩ := h
    refine ⟨?_, h.skip hle hp (.inr (hnone _))⟩
    rwa [Suite.chosen_append, hnone, List.append_nil]

theorem Holds.wd (h : Holds c bound tests x) (hle : bound ≤ acsWdTestNumBase) :
    Holds c (acsWdTestNumBase + 1) (tests ++ wdTests) (x >>= c.runWdModule) := by
  have hproper : ∀ e ∈ wdTests, e.Proper ∧ e.base = acsWdTestNumBase := by decide
  by_cases hn : c.machine.numWd ≠ 0
  case pos =>
    have hrun : c.runWdModule = Config.runModule acsWdTestNumBase c.valWdExecuteTests := by
      funext s
      rw [Config.runWdModule, if_pos hn]
    rw [hrun]
    exact h.step hle hproper fun _ => wd_outcome hn
  case neg =>
    have hrun : c.runWdModule = pure := by
      funext s
      rw [Config.runWdModule, if_neg hn]
      rfl
    have hgate : ∀ e ∈ wdTests, e.gate = .watchdog := by decide
    rw [hrun, bind_pure]
    refine h.pass hle hproper fun verdicts e he => ?_
    rw [hgate e he, Config.opens, not_not.mp hn]
    rfl

theorem runModules_holds (c : Config) (infra : Infra.State) (h : Infra.tally infra = (0, 0, 0)) :
    Holds c (acsExerciserTestNumBase + 1) allTests (c.runModules ⟨infra, [], [], []⟩) := by
  have h : Holds c 0 [] (.ok ⟨infra, [], [], []⟩) := ⟨.nil, .start infra h⟩
  have h := h.step (Nat.zero_le _) (by decide) fun _ => pe_outcome
  have h := h.step (by decide) (by decide) fun _ => memory_outcome
  have h := h.step (by decide) (by decide) fun _ => gic_outcome
  have h := h.step (by decide) (by decide) fun _ => smmu_outcome
  have h := h.step (by decide) (by decide) fun _ => timer_outcome
  have h := h.step (by decide) (by decide) fun _ => wakeup_outcome
  have h := h.step (by decide) (by decide) fun _ => peripheral_outcome
  have h := h.wd (by decide)
  have h := h.step (by decide) (by decide) fun _ => pcie_outcome
  have h := h.step (by decide) (by decide) fun _ => exerciser_outcome
  simp only [bind_assoc] at h
  exact h

theorem shellAppMain_consistent (c : Config) (infra : Infra.State) :
    Consistent c (acsExerciserTestNumBase + 1) allTests (c.shellAppMain infra) := by
  have h := runModules_holds c { infra with gBsaTestsTotal := 0, gBsaTestsPass := 0, gBsaTestsFail := 0 } rfl
  rw [Config.shellAppMain]
  generalize c.runModules _ = x at *
  cases x
  case error => exact h.2
  case ok    => exact h.2

-- Each test passes, fails or is skipped.
theorem length_eq_counts
    (h : ∀ q ∈ verdicts, q.2 = acsStatusPass ∨ q.2 = acsStatusSkip ∨ q.2 = acsStatusFail) :
    verdicts.length = verdicts.countP (·.2 == acsStatusPass) + verdicts.countP (·.2 == acsStatusFail) +
      verdicts.countP (·.2 == acsStatusSkip) := by
  induction verdicts
  case nil => rfl
  case cons q l hi =>
    obtain ⟨hq, hl⟩ := List.forall_mem_cons.mp h
    have hi := hi hl
    simp only [List.length_cons, List.countP_cons]
    have hpf : (acsStatusPass == acsStatusFail) = false ∧ (acsStatusPass == acsStatusSkip) = false := by decide
    have hsf : (acsStatusSkip == acsStatusPass) = false ∧ (acsStatusSkip == acsStatusFail) = false := by decide
    have hfs : (acsStatusFail == acsStatusPass) = false ∧ (acsStatusFail == acsStatusSkip) = false := by decide
    rcases hq with hq | hq | hq <;> simp only [hq, hpf, hsf, hfs, beq_self_eq_true, if_true, Bool.false_eq_true, if_false] <;>
      omega

-- What the suite reports: the counters account for every test that has been attempted, except that a test that is ended
-- by an exception is only counted as run, and a module is reported as passed if it is not skipped, the platform has it
-- and no test of it has failed or been skipped, so also if there was none.
theorem suite_reports (c : Config) (infra : Infra.State) :
    let s := c.shellAppMain infra
    let ended := if (c.chosen allTests s.verdicts).any c.stops then 1 else 0
    let count := fun status => s.verdicts.countP (·.2 == status)
    tally s.infra = (s.verdicts.length + ended, count acsStatusPass, count acsStatusFail) ∧
    s.verdicts.length = count acsStatusPass + count acsStatusFail + count acsStatusSkip ∧
    ∀ base status, (base, status) ∈ s.modules → (status = acsStatusPass ↔ base ∉ c.gSkipTestNum ∧ c.Present base ∧
      ∀ n v, (n, v) ∈ s.verdicts → baseOf n = base → v = acsStatusPass) := by
  intro s ended count
  have h := shellAppMain_consistent c infra
  refine ⟨h.tally.trans ?_, ?_, ?_⟩
  · have hlength : s.verdicts.length = (c.judged (c.chosen allTests s.verdicts)).length := by
      have hl := congrArg List.length h.attempted
      rwa [List.length_reverse, List.length_map, nums, List.length_map] at hl
    rw [tried_length, hlength]
  · exact length_eq_counts h.results
  · intro base status hm
    refine (h.modules _ hm).2.trans ?_
    exact and_congr_right fun _ => and_congr_right fun _ => Prod.forall

end

end Suite
