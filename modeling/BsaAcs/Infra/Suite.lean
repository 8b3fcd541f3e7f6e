import BsaAcs.Infra.Test

-- The suite: which tests `ShellAppMain` and the `val_*_execute_tests` run, and what they count. The Linux variants of
-- the lists are left out, and so is what is printed.

namespace Suite

inductive SwView
  | os
  | hyp
  | ps
deriving DecidableEq, Repr

-- What the suite runs on: the PEs and what the payload of each test does on them, and the answers about the platform.
-- A payload that traps takes an exception on the boot PE that it has no handler for, after the stores of `payload`.
structure Machine where
  numPe         : Nat
  myIndex       : Nat
  payload       : Nat → List (Nat × Nat)
  traps         : Nat → Bool
  cpuOn         : Nat → Nat → Nat → Int
  lands         : Nat → Nat → List (Nat × Nat)
  el2           : Bool
  gicVersion    : Nat
  numMsiFrame   : Nat
  v2mMismatch   : Bool
  numSmmu       : Nat
  numWd         : Nat
  numEcam       : Nat
  bdfEntries    : Nat
  bdfTableFails : Bool
  numCards      : Nat

-- The options: the tests and modules to skip, and the views that `-os`, `-hyp` and `-ps` turn on (all of them, if
-- none is given).
structure Config where
  machine      : Machine
  gSkipTestNum : List Nat
  gSwView      : SwView → Bool

-- The number of PEs that a call in an entry function gets.
inductive Pes
  | one
  | all
deriving DecidableEq, Repr

-- How the entry functions differ: the PEs that are reset and that are checked, whether the payload is called without
-- `val_run_test_payload`, whether it runs for a test that is skipped, and whether all but a pass is returned as a fail.
structure Test where
  testNum     : Nat
  resets      : Pes
  checks      : Pes
  direct      : Bool
  ignoresSkip : Bool
  failsOnly   : Bool
deriving DecidableEq, Repr

-- The entry function that most tests have, for the boot PE or for all PEs.
def bootTest (testNum : Nat) : Test := ⟨testNum, .one, .one, false, false, false⟩
def peTest (testNum : Nat) : Test := ⟨testNum, .all, .all, false, false, false⟩

-- The tests that have run their payload and what has been found for each test, the last one first, and what the
-- `val_*_execute_tests` have returned, by the base of their test numbers.
structure State where
  infra    : Infra.State
  ran      : List Nat
  verdicts : List (Nat × Nat)
  modules  : List (Nat × Nat)

def acsPeTestNumBase        : Nat := 0
def acsMemoryMapTestBase    : Nat := 100
def acsGicTestNumBase       : Nat := 200
def acsSmmuTestNumBase      : Nat := 300
def acsTimerTestNumBase     : Nat := 400
def acsWakeupTestNumBase    : Nat := 500
def acsPerTestNumBase       : Nat := 600
def acsWdTestNumBase        : Nat := 700
def acsPcieTestNumBase      : Nat := 800
def acsExerciserTestNumBase : Nat := 900

-- The tests, by the module and the view.

def peOs : List Test :=
  [{ peTest 1 with direct := true }, bootTest 2, peTest 3, peTest 4, peTest 5, peTest 6, peTest 7, peTest 8, peTest 9,
    { bootTest 10 with resets := .all }, peTest 11, peTest 12, peTest 13, peTest 14, peTest 15, peTest 16, peTest 17,
    peTest 18, peTest 19, peTest 20]
def peHyp : List Test := [peTest 51, peTest 52, peTest 53, peTest 54, peTest 55]
def pePs : List Test := [peTest 76]

def memoryOs : List Test :=
  [{ bootTest 101 with resets := .all, failsOnly := true }, { bootTest 102 with resets := .all, failsOnly := true },
    { bootTest 103 with resets := .all }]

def gicOs : List Test := [201, 202, 203, 204, 205, 206].map bootTest
def gicHyp : List Test := [bootTest 251]
def gicV2mOs : List Test := [281, 282, 283, 284].map bootTest

def smmuOs : List Test := [301, 302, 303, 304, 305, 306, 307, 308].map bootTest
def smmuOsHyp : List Test := [bootTest 309]
def smmuHyp : List Test := [351, 352, 353, 354, 355].map bootTest

def timerOs : List Test := [401, 402, 403, 404, 405].map bootTest

def wakeupOs : List Test := [501, 502, 503, 504].map bootTest
def wakeupEl2 : List Test := [bootTest 505]

def peripheralOs : List Test := [bootTest 601, bootTest 602]
def uartMemory : Test := bootTest 603
def uartInterrupt : Test := { bootTest 604 with resets := .all }

def wdOs : List Test :=
  [{ bootTest 701 with ignoresSkip := true, failsOnly := true },
    { bootTest 702 with ignoresSkip := true, failsOnly := true }]

def ecamPresence : Test := bootTest 801
def pcieOs : List Test :=
  [802, 820, 821, 822, 823, 824, 825, 826, 827, 828, 829, 830, 831, 832, 833, 834, 835, 836, 837, 838, 839, 841, 842,
    844, 848, 850, 851, 852, 853, 854, 855, 856, 857, 858, 859, 860, 861, 862].map bootTest

def exerciserOs : List Test := [901, 904, 905, 906, 912, 913, 915].map bootTest

namespace Config

variable (c : Config)

def pes : Pes → Nat
  | .one => 1
  | .all => c.machine.numPe

def run (testNum numPe : Nat) : Infra.Run where
  testNum      := testNum
  numPe        := numPe
  myIndex      := c.machine.myIndex
  numOfPe      := c.machine.numPe
  gSkipTestNum := c.gSkipTestNum
  payload      := c.machine.payload testNum
  cpuOn        := c.machine.cpuOn testNum
  lands        := c.machine.lands testNum

-- The handler that `val_initialize_test` installs. It returns to the end of `ShellAppMain`.
def valPeDefaultEsr (r : Infra.Run) (infra : Infra.State) : Infra.State :=
  Infra.valSetStatus r r.myIndex (Infra.resultFail 0 0x01) infra

-- The entry function of a test. The error is what is left when the payload is ended by an exception.
def entry (t : Test) (s : State) : Except State (Nat × State) :=
  let r := c.run t.testNum (c.pes t.checks)
  let (status, infra) := Infra.valInitializeTest (c.run t.testNum (c.pes t.resets)) { s.infra with accesses := 0 }
  let runs := status ≠ acsStatusSkip ∨ t.ignoresSkip
  let ran := if runs then t.testNum :: s.ran else s.ran
  if runs ∧ c.machine.traps t.testNum then
    .error { s with infra := valPeDefaultEsr r (Infra.runPayload r r.payload infra), ran }
  else
    let infra :=
      if runs then
        if t.direct then Infra.runPayload r r.payload infra else Infra.valRunTestPayload r infra
      else infra
    let (status, infra) := Infra.valCheckForError r infra
    .ok (if t.failsOnly ∧ status ≠ acsStatusPass then acsStatusFail else status,
      { s with infra, ran, verdicts := (t.testNum, status) :: s.verdicts })

-- `status |= ..` for each test.
def entries : List Test → Nat × State → Except State (Nat × State)
  | [], r => .ok r
  | t :: ts, (status, s) => do
    let (result, s) ← c.entry t s
    entries ts (status ||| result, s)

def entriesIf (on : Bool) (ts : List Test) (r : Nat × State) : Except State (Nat × State) :=
  if on then c.entries ts r else .ok r

-- The tests of a view, if it is on.
def viewEntries (view : SwView) : List Test → Nat × State → Except State (Nat × State) :=
  c.entriesIf (c.gSwView view)

def valPeExecuteTests (s : State) : Except State (Nat × State) :=
  if acsPeTestNumBase ∈ c.gSkipTestNum then .ok (acsStatusSkip, s)
  else do
    let r ← c.viewEntries .os peOs (acsStatusPass, s)
    let r ← c.viewEntries .hyp peHyp r
    c.viewEntries .ps pePs r

def valMemoryExecuteTests (s : State) : Except State (Nat × State) :=
  if acsMemoryMapTestBase ∈ c.gSkipTestNum then .ok (acsStatusSkip, s)
  else c.viewEntries .os memoryOs (acsStatusPass, s)

def valGicExecuteTests (s : State) : Except State (Nat × State) :=
  if acsGicTestNumBase ∈ c.gSkipTestNum then .ok (acsStatusSkip, s)
  else do
    let r ← c.viewEntries .os gicOs (acsStatusPass, s)
    let r ← c.viewEntries .hyp gicHyp r
    if c.machine.gicVersion ≠ 2 ∨ c.machine.numMsiFrame = 0 then .ok r
    else if c.machine.v2mMismatch then .ok r
    else c.viewEntries .os gicV2mOs r

def valSmmuExecuteTests (s : State) : Except State (Nat × State) :=
  if acsSmmuTestNumBase ∈ c.gSkipTestNum then .ok (acsStatusSkip, s)
  else if c.machine.numSmmu = 0 then .ok (acsStatusSkip, s)
  else do
    let r ← c.viewEntries .os smmuOs (acsStatusPass, s)
    let r ← c.entriesIf (c.gSwView .os || c.gSwView .hyp) smmuOsHyp r
    c.viewEntries .hyp smmuHyp r

def valTimerExecuteTests (s : State) : Except State (Nat × State) :=
  if acsTimerTestNumBase ∈ c.gSkipTestNum then .ok (acsStatusSkip, s)
  else c.viewEntries .os timerOs (acsStatusPass, s)

def osU001Entry (s : State) : Except State (Nat × State) := do
  let r ← c.entries wakeupOs (acsStatusPass, s)
  c.entriesIf c.machine.el2 wakeupEl2 r

def valWakeupExecuteTests (s : State) : Except State (Nat × State) :=
  if acsWakeupTestNumBase ∈ c.gSkipTestNum then .ok (acsStatusSkip, s)
  else if c.gSwView .os then do
    let (result, s) ← c.osU001Entry s
    .ok (acsStatusPass ||| result, s)
  else .ok (acsStatusPass, s)

-- The second test only runs if the first one has passed.
def osD003Entry (s : State) : Except State (Nat × State) := do
  let (status, s) ← c.entry uartMemory s
  if status = acsStatusPass then c.entry uartInterrupt s else .ok (status, s)

def valPeripheralExecuteTests (s : State) : Except State (Nat × State) :=
  if acsPerTestNumBase ∈ c.gSkipTestNum then .ok (acsStatusSkip, s)
  else if c.gSwView .os then do
    let (status, s) ← c.entries peripheralOs (acsStatusPass, s)
    let (result, s) ← c.osD003Entry s
    .ok (status ||| result, s)
  else .ok (acsStatusPass, s)

def valWdExecuteTests (s : State) : Except State (Nat × State) :=
  if acsWdTestNumBase ∈ c.gSkipTestNum then .ok (acsStatusSkip, s)
  else c.viewEntries .os wdOs (acsStatusPass, s)

def valPcieExecuteTests (s : State) : Except State (Nat × State) :=
  if acsPcieTestNumBase ∈ c.gSkipTestNum then .ok (acsStatusSkip, s)
  else if c.machine.numEcam = 0 then .ok (acsStatusSkip, s)
  else do
    let (status, s) ← c.viewEntries .os [ecamPresence] (acsStatusPass, s)
    if c.gSwView .os ∧ status ≠ acsStatusPass then .ok (status, s)
    else if c.machine.bdfEntries = 0 then .ok (acsStatusSkip, s)
    else c.viewEntries .os pcieOs (status, s)

def valExerciserExecuteTests (s : State) : Except State (Nat × State) :=
  if acsExerciserTestNumBase ∈ c.gSkipTestNum then .ok (acsStatusSkip, s)
  else if c.machine.bdfTableFails then .ok (acsStatusSkip, s)
  else if c.machine.numCards = 0 then .ok (acsStatusSkip, s)
  else c.viewEntries .os exerciserOs (acsStatusPass, s)

-- A call of one of these functions.
def runModule (base : Nat) (f : State → Except State (Nat × State)) (s : State) : Except State State := do
  let (status, s) ← f s
  .ok { s with modules := (base, status) :: s.modules }

def runWdModule (s : State) : Except State State :=
  if c.machine.numWd ≠ 0 then runModule acsWdTestNumBase c.valWdExecuteTests s else .ok s

-- The calls in `ShellAppMain`, in order. What is left in `Status` is not used.
def runModules (s : State) : Except State State := do
  let s ← runModule acsPeTestNumBase c.valPeExecuteTests s
  let s ← runModule acsMemoryMapTestBase c.valMemoryExecuteTests s
  let s ← runModule acsGicTestNumBase c.valGicExecuteTests s
  let s ← runModule acsSmmuTestNumBase c.valSmmuExecuteTests s
  let s ← runModule acsTimerTestNumBase c.valTimerExecuteTests s
  let s ← runModule acsWakeupTestNumBase c.valWakeupExecuteTests s
  let s ← runModule acsPerTestNumBase c.valPeripheralExecuteTests s
  let s ← c.runWdModule s
  let s ← runModule acsPcieTestNumBase c.valPcieExecuteTests s
  runModule acsExerciserTestNumBase c.valExerciserExecuteTests s

-- What there is at `print_test_status`, where an unexpected exception leads to as well.
def printTestStatus : Except State State → State
  | .ok s    => s
  | .error s => s

-- From the initialization of the counters on.
def shellAppMain (infra : Infra.State) : State :=
  printTestStatus <| c.runModules
    { infra    := { infra with gBsaTestsTotal := 0, gBsaTestsPass := 0, gBsaTestsFail := 0 }
      ran      := []
      verdicts := []
      modules  := [] }

end Config

end Suite
