import Mathlib.Tactic
import BsaAcs.Infra.Test

-- The test that every PE has the registers of the PE it is started on: `test_os_c001.c`.

namespace Symmetry

open Infra

inductive Reg
  | ccsidrEl1 | idAa64Pfr0El1 | idAa64Pfr1El1 | idAa64Dfr0El1 | idAa64Dfr1El1 | idAa64Mmfr0El1
  | idAa64Mmfr1El1 | ctrEl0 | idAa64Isar0El1 | idAa64Isar1El1 | mpidrEl1 | midrEl1 | idDfr0El1
  | idIsar0El1 | idIsar1El1 | idIsar2El1 | idIsar3El1 | idIsar4El1 | idIsar5El1 | idMmfr0El1
  | idMmfr1El1 | idMmfr2El1 | idMmfr3El1 | idMmfr4El1 | idPfr0El1 | idPfr1El1 | mvfr0El1 | mvfr1El1
  | mvfr2El1 | pmceid0El0 | pmceid1El0 | pmcrEl0 | pmbidrEl1 | pmsidrEl1 | erridrEl1 | err0FrEl1
  | err1FrEl1 | err2FrEl1 | err3FrEl1 | loridEl1 | clidrEl1
  deriving DecidableEq

-- The registers whose `mrs` is commented out.
def Reg.unread : Reg → Bool
  | .idMmfr4El1 | .pmbidrEl1 | .pmsidrEl1 | .loridEl1 | .erridrEl1 | .err0FrEl1 | .err1FrEl1 | .err2FrEl1
  | .err3FrEl1 => true
  | _ => false

-- CCSIDR_EL1 shows the cache that CSSELR_EL1 selects, and `x0` is what the PE has in X0 when it calls the read of an
-- `unread` register: the read returns it unchanged.
structure Pe where
  reg    : Reg → BitVec 64
  x0     : Reg → BitVec 64
  cache  : BitVec 64 → BitVec 64
  csselr : BitVec 64

def valPeRegRead (pe : Pe) : Reg → BitVec 64
  | .ccsidrEl1 => pe.cache pe.csselr
  | reg        => if reg.unread then pe.x0 reg else pe.reg reg

def selectCache (pe : Pe) (writeData : BitVec 64) : Pe :=
  { pe with csselr := writeData }

inductive Dependency
  | none | ras | spe | lor | aa32
  deriving DecidableEq

structure RegDetails where
  regName    : Reg
  regMask    : BitVec 64
  dependency : Dependency

def numOfRegisters : Nat := 32
def maxCacheLevel : Nat := 7

def maskAa64Mmfr0 : BitVec 64 := 0xF
def maskMidr : BitVec 64 := 0x00F0FFFF
def maskMpidr : BitVec 64 := 0xFF3FFFFFFF
def maskCtr : BitVec 64 := 0xC000
def maskCcsidr : BitVec 64 := 0xFFFFFF8
def maskPmcr : BitVec 64 := 0xFFFF

def regList : List RegDetails :=
  [⟨.ccsidrEl1, maskCcsidr, .none⟩,
   ⟨.idAa64Pfr0El1, 0, .none⟩,
   ⟨.idAa64Pfr1El1, 0, .none⟩,
   ⟨.idAa64Dfr0El1, 0, .none⟩,
   ⟨.idAa64Dfr1El1, 0, .none⟩,
   ⟨.idAa64Mmfr0El1, maskAa64Mmfr0, .none⟩,
   ⟨.idAa64Mmfr1El1, 0, .none⟩,
   ⟨.ctrEl0, maskCtr, .none⟩,
   ⟨.idAa64Isar0El1, 0, .none⟩,
   ⟨.idAa64Isar1El1, 0, .none⟩,
   ⟨.mpidrEl1, maskMpidr, .none⟩,
   ⟨.midrEl1, maskMidr, .none⟩,
   ⟨.idDfr0El1, 0, .aa32⟩,
   ⟨.idIsar0El1, 0, .aa32⟩,
   ⟨.idIsar1El1, 0, .aa32⟩,
   ⟨.idIsar2El1, 0, .aa32⟩,
   ⟨.idIsar3El1, 0, .aa32⟩,
   ⟨.idIsar4El1, 0, .aa32⟩,
   ⟨.idIsar5El1, 0, .aa32⟩,
   ⟨.idMmfr0El1, 0, .aa32⟩,
   ⟨.idMmfr1El1, 0, .aa32⟩,
   ⟨.idMmfr2El1, 0, .aa32⟩,
   ⟨.idMmfr3El1, 0, .aa32⟩,
   ⟨.idMmfr4El1, 0, .aa32⟩,
   ⟨.idPfr0El1, 0, .aa32⟩,
   ⟨.idPfr1El1, 0, .aa32⟩,
   ⟨.mvfr0El1, 0, .aa32⟩,
   ⟨.mvfr1El1, 0, .aa32⟩,
   ⟨.mvfr2El1, 0, .aa32⟩,
   ⟨.pmceid0El0, 0, .none⟩,
   ⟨.pmceid1El0, 0, .none⟩,
   ⟨.pmcrEl0, maskPmcr, .none⟩,
   ⟨.pmbidrEl1, 0, .spe⟩,
   ⟨.pmsidrEl1, 0, .spe⟩,
   ⟨.erridrEl1, 0, .ras⟩,
   ⟨.err0FrEl1, 0, .ras⟩,
   ⟨.err1FrEl1, 0, .ras⟩,
   ⟨.err2FrEl1, 0, .ras⟩,
   ⟨.err3FrEl1, 0, .ras⟩,
   ⟨.loridEl1, 0, .lor⟩]

-- `reg_list[i]`, below the length of the table.
def details (i : Nat) : RegDetails :=
  regList.getD i ⟨.ccsidrEl1, 0, .none⟩

-- A register that the PE need not have is only read where it has it.
def returnRegValue (pe : Pe) (reg : Reg) : Dependency → BitVec 64
  | .none => valPeRegRead pe reg
  | .ras  => if (valPeRegRead pe .idAa64Pfr0El1 >>> 28) &&& 0xF = 1 then valPeRegRead pe reg else 0
  | .spe  => if (valPeRegRead pe .idAa64Dfr0El1 >>> 32) &&& 0xF = 1 then valPeRegRead pe reg else 0
  | .lor  => if (valPeRegRead pe .idAa64Mmfr1El1 >>> 16) &&& 0xF = 1 then valPeRegRead pe reg else 0
  | .aa32 => if valPeRegRead pe .idAa64Pfr0El1 &&& 1 = 0 then valPeRegRead pe reg else 0

-- The value of `reg_list[i]`, and the bits of it that the test compares.

def regValue (pe : Pe) (i : Nat) : BitVec 64 :=
  returnRegValue pe (details i).regName (details i).dependency

def unmasked (i : Nat) (value : BitVec 64) : BitVec 64 :=
  value &&& ~~~(details i).regMask

-- `CLIDR_EL1` has a cache at level `i`.
def hasCache (pe : Pe) (i : Nat) : Bool :=
  valPeRegRead pe .clidrEl1 &&& (0x7 <<< (i * 3)) ≠ 0

structure Arrays where
  cacheList   : Nat → BitVec 64
  rdDataArray : Nat → BitVec 64

def testNum : Nat := 1

-- The loop over the cache levels: whether a level differs, and the PE with the level it selected.
def cachesDiffer (a : Arrays) : Nat → Nat → Pe → Bool × Pe
  | 0, _, pe => (false, pe)
  | n + 1, i, pe =>
    if hasCache pe i then
      let pe := selectCache pe (BitVec.ofNat 64 (i <<< 1))
      if unmasked 0 (regValue pe 0) ≠ unmasked 0 (a.cacheList i) then (true, pe)
      else cachesDiffer a n (i + 1) pe
    else cachesDiffer a n (i + 1) pe

def regsDiffer (a : Arrays) (pe : Pe) : Nat → Nat → Bool
  | 0, _ => false
  | n + 1, i =>
    if unmasked i (regValue pe i) ≠ unmasked i (a.rdDataArray i) then true
    else regsDiffer a pe n (i + 1)

-- The status with which a PE ends its check.
def idRegsCheck (a : Arrays) (pe : Pe) : Nat :=
  let (differ, pe) := cachesDiffer a maxCacheLevel 0 pe
  if differ then resultFail testNum 1
  else if regsDiffer a pe (numOfRegisters - 1) 1 then resultFail testNum 1
  else resultPass testNum 1

-- What the PE that the test is started on records of itself.

def readCaches : Nat → Nat → Pe → (Nat → BitVec 64) → (Nat → BitVec 64) × Pe
  | 0, _, pe, cacheList => (cacheList, pe)
  | n + 1, i, pe, cacheList =>
    if hasCache pe i then
      let pe := selectCache pe (BitVec.ofNat 64 (i <<< 1))
      readCaches n (i + 1) pe (Function.update cacheList i (regValue pe 0))
    else readCaches n (i + 1) pe cacheList

def readRegs (pe : Pe) : Nat → Nat → (Nat → BitVec 64) → Nat → BitVec 64
  | 0, _, rdDataArray => rdDataArray
  | n + 1, i, rdDataArray =>
    readRegs pe n (i + 1) (Function.update rdDataArray i (regValue pe i))

def record (pe : Pe) : Arrays :=
  let (cacheList, pe) := readCaches maxCacheLevel 0 pe fun _ => 0
  ⟨cacheList, readRegs pe (numOfRegisters - 1) 1 fun _ => 0⟩

-- The machine: the answers of the firmware to the requests to switch a PE on, the registers of the
-- PEs, and how many accesses the boot PE makes to a status from the moment it has switched a PE on
-- until the status of that PE reaches the memory. A PE may never report.
structure Machine where
  numPe        : Nat
  myIndex      : Nat
  gSkipTestNum : List Nat
  cpuOn        : Nat → Nat → Int
  pe           : Nat → Pe
  delay        : Nat → Option Nat

-- The test while the stores `lands` of the other PEs are on their way.
def Machine.run (m : Machine) (lands : Nat → List (Nat × Nat)) : Run where
  testNum      := testNum
  numPe        := m.numPe
  myIndex      := m.myIndex
  numOfPe      := m.numPe
  gSkipTestNum := m.gSkipTestNum
  payload      := []
  cpuOn        := m.cpuOn
  lands        := lands

def Machine.arrays (m : Machine) : Arrays :=
  record (m.pe m.myIndex)

def Machine.word (m : Machine) (i : Nat) : Nat :=
  idRegsCheck m.arrays (m.pe i)

-- The firmware has switched the PE on.
def Machine.Started (m : Machine) (i : Nat) : Prop :=
  executeAnswer (m.run fun _ => []) i timeoutLarge 0 = 0

instance (m : Machine) : DecidablePred m.Started :=
  fun _ => inferInstanceAs (Decidable (_ = _))

-- The PE runs its check: its status is on its way.
def launch (m : Machine) (i accesses : Nat) (lands : Nat → List (Nat × Nat)) (k : Nat) : List (Nat × Nat) :=
  if m.delay i = some (k - accesses) ∧ accesses ≤ k then lands k ++ [(i, m.word i)] else lands k

abbrev Flight := (Nat → List (Nat × Nat)) × State

def executeOnPe (m : Machine) (i : Nat) : Flight → Flight
  | (lands, s) =>
    let s := valExecuteOnPe (m.run lands) i s
    if i ≤ m.numPe ∧ m.Started i then (launch m i s.accesses lands, s) else (lands, s)

-- `while ((--timeout) && (IS_RESULT_PENDING(val_get_status(i))))`, with `n` reads at most: whether
-- it timed out.
def poll (r : Run) (i : Nat) : Nat → State → Bool × State
  | 0, s => (true, s)
  | n + 1, s =>
    let (status, s) := valGetStatus r i s
    if isResultPending status then poll r i n s else (false, s)

-- The PE `i`: whether the test goes on to the next one.
def examine (m : Machine) (i : Nat) (f : Flight) : Bool × Flight :=
  let (lands, s) := executeOnPe m i f
  let (timedOut, s) := poll (m.run lands) i (timeoutLarge - 1) s
  if timedOut then (false, lands, valSetStatus (m.run lands) i (resultFail testNum 2) s)
  else
    let (status, s) := valGetStatus (m.run lands) i s
    (!isTestFail status, lands, s)

def examineLoop (m : Machine) : Nat → Nat → Flight → Flight
  | 0, _, f => f
  | n + 1, i, f =>
    if i ≠ m.myIndex then
      let (goOn, f) := examine m i f
      if goOn then examineLoop m n (i + 1) f else f
    else examineLoop m n (i + 1) f

def payload (m : Machine) (f : Flight) : Flight :=
  if m.numPe = 1 then (f.1, valSetStatus (m.run f.1) m.myIndex (resultSkip testNum 1) f.2)
  else examineLoop m m.numPe 0 f

-- No PE but the boot PE runs when the test starts.
def osC001Entry (m : Machine) (s : State) : Nat × State :=
  let (status, s) := valInitializeTest (m.run fun _ => []) { s with accesses := 0 }
  let (lands, s) := if status ≠ acsStatusSkip then payload m (fun _ => [], s) else (fun _ => [], s)
  valCheckForError (m.run lands) s

end Symmetry
