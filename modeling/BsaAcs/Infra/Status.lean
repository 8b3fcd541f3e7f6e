import BsaAcs.Infra.Test

namespace Infra

-- `bsa_acs_common.h`
def statusMask : Nat := 0xFFF
def testStartVal : Nat := 0x1
def testEndVal : Nat := 0x2

def isTestStart (value : Nat) : Bool := state value == testStartVal
def isTestEnd (value : Nat) : Bool := state value == testEndVal

-- The results that a test ends with, one macro for each.
inductive Outcome
  | pass
  | fail
  | skip
deriving DecidableEq, Repr

namespace Outcome

def val : Outcome → Nat
  | pass => testPassVal
  | fail => testFailVal
  | skip => testSkipVal

def result : Outcome → Nat → Nat → Nat
  | pass => resultPass
  | fail => resultFail
  | skip => resultSkip

end Outcome

-- What the word is taken for by those that read it: the number and the code are where the macros put them.
def testNumOf (value : Nat) : Nat := value >>> testNumBit &&& testNumMask
def statusOf (value : Nat) : Nat := value &&& statusMask

-- What `val_report_status` prints for the word of a PE.
inductive Report
  | failedOnPe (index : Nat)
  | pass
  | fail (status : Nat)
  | skipped (status : Nat)
  | start
  | stop
  | other (status : Nat)
deriving DecidableEq, Repr

def valReportStatus (index status : Nat) : List Report :=
  (if isTestFail status then [.failedOnPe index] else []) ++
    [if isTestPass status then .pass
      else if isTestFail status then .fail (statusOf status)
      else if isTestSkip status then .skipped (statusOf status)
      else if isTestStart status then .start
      else if isTestEnd status then .stop
      else .other status]

-- The code that `val_execute_on_pe` makes of an answer of the firmware, an `int`.
def executeStatus (arg0 : Int) : Nat :=
  ((0x120 - arg0) % 2 ^ 32).toNat

end Infra
