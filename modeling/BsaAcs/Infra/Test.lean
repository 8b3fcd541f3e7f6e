import Mathlib.Logic.Function.Basic
import BsaAcs.Interface

namespace Infra

-- The status words of `bsa_acs_common.h`: the state of a test in the bits 31 to 28, its number in
-- the bits 27 to 12, a code in the bits below.

def stateBit : Nat := 28
def stateMask : Nat := 0xF
def testNumBit : Nat := 12
def testNumMask : Nat := 0xFFF

def testPassVal : Nat := 0x4
def testFailVal : Nat := 0x8
def testSkipVal : Nat := 0x9
def testPendingVal : Nat := 0xA

def resultPass (testNum status : Nat) : Nat :=
  (testPassVal <<< stateBit) ||| (testNum <<< testNumBit) ||| status

def resultFail (testNum status : Nat) : Nat :=
  (testFailVal <<< stateBit) ||| (testNum <<< testNumBit) ||| status

def resultSkip (testNum status : Nat) : Nat :=
  (testSkipVal <<< stateBit) ||| (testNum <<< testNumBit) ||| status

def resultPending (testNum : Nat) : Nat :=
  (testPendingVal <<< stateBit) ||| (testNum <<< testNumBit)

def state (value : Nat) : Nat :=
  (value >>> stateBit) &&& stateMask

def isResultPending (value : Nat) : Bool := state value == testPendingVal
def isTestPass (value : Nat) : Bool := state value == testPassVal
def isTestFail (value : Nat) : Bool := state value == testFailVal
def isTestSkip (value : Nat) : Bool := state value == testSkipVal
def isTestFailSkip (value : Nat) : Bool := isTestFail value || isTestSkip value

-- `pal_interface.h` and the PSCI return codes.
def timeoutLarge : Nat := 0x1000000
def armSmcPsciRetAlreadyOn : Int := -4

-- What the code of one test does not decide: the PE it is started on, the PE table, the stores its
-- payload makes on that PE, the answer of the firmware to the `k`-th request to switch a PE on,
-- and the stores of the other PEs that reach the shared memory before the `k`-th access of the
-- boot PE to a status. Every interleaving of the PEs is one choice of `lands`.
structure Run where
  testNum      : Nat
  numPe        : Nat
  myIndex      : Nat
  numOfPe      : Nat
  gSkipTestNum : List Nat
  payload      : List (Nat × Nat)
  cpuOn        : Nat → Nat → Int
  lands        : Nat → List (Nat × Nat)

-- The status words of the shared memory, the accesses made to them, and the counters of the suite.
structure State where
  status         : Nat → Nat
  accesses       : Nat
  gBsaTestsTotal : Nat
  gBsaTestsPass  : Nat
  gBsaTestsFail  : Nat

def store (m : Nat → Nat) (p : Nat × Nat) : Nat → Nat :=
  Function.update m p.1 p.2

def land (r : Run) (s : State) : State :=
  { s with status := (r.lands s.accesses).foldl store s.status, accesses := s.accesses + 1 }

def valSetStatus (r : Run) (index status : Nat) (s : State) : State :=
  let s := land r s
  { s with status := store s.status (index, status) }

def valGetStatus (r : Run) (index : Nat) (s : State) : Nat × State :=
  let s := land r s
  (s.status index, s)

-- The loop that marks the entries `i` to `numPe - 1`, `n` of them.
def initializeLoop (r : Run) : Nat → Nat → State → State
  | 0, _, s => s
  | n + 1, i, s => initializeLoop r n (i + 1) (valSetStatus r i (resultPending r.testNum) s)

def valInitializeTest (r : Run) (s : State) : Nat × State :=
  let s := { s with gBsaTestsTotal := s.gBsaTestsTotal + 1 }
  let s := initializeLoop r r.numPe 0 s
  if r.testNum ∈ r.gSkipTestNum then
    (acsStatusSkip, valSetStatus r r.myIndex (resultSkip r.testNum 0) s)
  else
    (acsStatusPass, s)

-- The answer to the last of the requests that `val_execute_on_pe` makes for a PE: it asks again
-- while the PE is reported as already on, `timeout` more times.
def executeAnswer (r : Run) (index : Nat) : Nat → Nat → Int
  | 0, k => r.cpuOn index k
  | timeout + 1, k =>
    if r.cpuOn index k = armSmcPsciRetAlreadyOn then executeAnswer r index timeout (k + 1)
    else r.cpuOn index k

def valExecuteOnPe (r : Run) (index : Nat) (s : State) : State :=
  if index > r.numOfPe then s
  else
    let arg0 := executeAnswer r index timeoutLarge 0
    if arg0 = 0 then s
    else valSetStatus r index (resultFail 0 ((0x120 - arg0) % 2 ^ 32).toNat) s

-- One pass over the PEs: the number of the last PE read as pending, plus one.
def pollLoop (r : Run) : Nat → Nat → Nat → State → Nat × State
  | 0, _, j, s => (j, s)
  | n + 1, i, j, s =>
    let (status, s) := valGetStatus r i s
    pollLoop r n (i + 1) (if isResultPending status then i + 1 else j) s

-- The body of `while (--timeout)`, `n` times at most: whether it timed out, and the last `j`.
def waitLoop (r : Run) : Nat → Nat → State → Bool × Nat × State
  | 0, j, s => (true, j, s)
  | n + 1, _, s =>
    let (j, s) := pollLoop r r.numPe 0 0 s
    if j = 0 then (false, j, s) else waitLoop r n j s

def valWaitForTestCompletion (r : Run) (timeout : Nat) (s : State) : State :=
  if r.numPe = 1 then s
  else
    match waitLoop r ((timeout + 2 ^ 32 - 1) % 2 ^ 32) 0 s with
    | (true, j, s) => valSetStatus r ((j + 2 ^ 32 - 1) % 2 ^ 32) (resultFail r.testNum 0xF) s
    | (false, _, s) => s

-- The stores of the payload on the boot PE, one access each.
def runPayload (r : Run) : List (Nat × Nat) → State → State
  | [], s => s
  | (index, status) :: rest, s => runPayload r rest (valSetStatus r index status s)

def executeLoop (r : Run) : Nat → Nat → State → State
  | 0, _, s => s
  | n + 1, i, s => executeLoop r n (i + 1) (if i ≠ r.myIndex then valExecuteOnPe r i s else s)

def valRunTestPayload (r : Run) (s : State) : State :=
  let s := runPayload r r.payload s
  if r.numPe = 1 then s
  else valWaitForTestCompletion r timeoutLarge (executeLoop r r.numPe 0 s)

-- The last status read by the loop of `val_check_for_error`, which stops at a failed or skipped PE.
def checkLoop (r : Run) : Nat → Nat → Nat → State → Nat × State
  | 0, _, status, s => (status, s)
  | n + 1, i, _, s =>
    let (status, s) := valGetStatus r i s
    if isTestFailSkip status then (status, s) else checkLoop r n (i + 1) status s

-- The verdict on the status word the check ends with.
def judge (status : Nat) (s : State) : Nat × State :=
  if isTestPass status then
    (acsStatusPass, { s with gBsaTestsPass := s.gBsaTestsPass + 1 })
  else if isTestSkip status then
    (acsStatusSkip, s)
  else
    (acsStatusFail, { s with gBsaTestsFail := s.gBsaTestsFail + 1 })

def valCheckForError (r : Run) (s : State) : Nat × State :=
  let (status, s) := if r.numPe = 1 then valGetStatus r r.myIndex s else checkLoop r r.numPe 0 0 s
  judge status s

-- The entry function every test of `test_pool` has.
def testEntry (r : Run) (s : State) : Nat × State :=
  let (status, s) := valInitializeTest r { s with accesses := 0 }
  let s := if status ≠ acsStatusSkip then valRunTestPayload r s else s
  valCheckForError r s

end Infra
