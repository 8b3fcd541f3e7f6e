import BsaAcs.Infra.Status

namespace Pe

-- An entry of the PE info table, and what the PEs share for each of them.
structure PeInfoEntry where
  mpidr     : Nat
  pmuGsiv   : Nat
  gmainGsiv : Nat
deriving DecidableEq, Repr

structure SharedMem where
  data0  : Nat
  data1  : Nat
  status : Nat
deriving DecidableEq, Repr

inductive Access
  | peInfo (index : Nat)
  | sharedMem (index : Nat)
deriving DecidableEq, Repr

def Access.index : Access → Nat
  | peInfo index | sharedMem index => index

-- The memory from the first element of each of the arrays on, both of which are allocated for `numOfPe`
-- elements; the accesses made to them, and what is printed.
structure Machine where
  numOfPe   : Nat
  peInfo    : Nat → PeInfoEntry
  sharedMem : Nat → SharedMem
  accesses  : List Access
  reports   : List Infra.Report

def valPeGetNum (m : Machine) : Nat := m.numOfPe

namespace Machine

def readPeInfo (index : Nat) (m : Machine) : PeInfoEntry × Machine :=
  (m.peInfo index, { m with accesses := m.accesses ++ [.peInfo index] })

def readShared (index : Nat) (m : Machine) : SharedMem × Machine :=
  (m.sharedMem index, { m with accesses := m.accesses ++ [.sharedMem index] })

def writeShared (index : Nat) (f : SharedMem → SharedMem) (m : Machine) : Machine :=
  { m with
    sharedMem := Function.update m.sharedMem index (f (m.sharedMem index))
    accesses  := m.accesses ++ [.sharedMem index] }

-- `val_report_status`
def report (index status : Nat) (m : Machine) : Machine :=
  { m with reports := m.reports ++ Infra.valReportStatus index status }

end Machine

def valSetTestData (index addr testData : Nat) (m : Machine) : Machine :=
  if index > valPeGetNum m then m
  else m.writeShared index fun mem => { mem with data0 := addr, data1 := testData }

-- The words that the pointers are set to, if they are.
def valGetTestData (index : Nat) (m : Machine) : Option (Nat × Nat) × Machine :=
  if index > valPeGetNum m then (none, m)
  else
    let (mem, m) := m.readShared index
    (some (mem.data0, mem.data1), m)

def valSetStatus (index status : Nat) (m : Machine) : Machine :=
  m.writeShared index fun mem => { mem with status }

-- The three functions below read one field of the entry of a PE.
def peField (field : PeInfoEntry → Nat) (index : Nat) (m : Machine) : Nat × Machine :=
  if index > m.numOfPe then (0xFFFFFF, m.report index (Infra.resultFail 0 0xFF))
  else
    let (entry, m) := m.readPeInfo index
    (field entry, m)

def valPeGetMpidIndex : Nat → Machine → Nat × Machine := peField (·.mpidr)

def valPeGetPmuGsiv : Nat → Machine → Nat × Machine := peField (·.pmuGsiv)

def valPeGetGmainGsiv : Nat → Machine → Nat × Machine := peField (·.gmainGsiv)

-- The answer of the firmware to the `k`-th request, which names the PE by its MPIDR.
abbrev CpuOn := Nat → Nat → Int

-- The requests from the `k`-th on, up to `timeout` more than one: the last answer.
def executeLoop (cpuOn : CpuOn) (index payload testInput : Nat) : Nat → Nat → Machine → Int × Machine
  | timeout, k, m =>
    let (mpidr, m) := valPeGetMpidIndex index m
    let m := valSetTestData index payload testInput m
    if cpuOn k mpidr = Infra.armSmcPsciRetAlreadyOn then
      match timeout with
      | 0           => (cpuOn k mpidr, m)
      | timeout + 1 => executeLoop cpuOn index payload testInput timeout (k + 1) m
    else (cpuOn k mpidr, m)

def valExecuteOnPe (cpuOn : CpuOn) (index payload testInput : Nat) (m : Machine) : Machine :=
  if index > m.numOfPe then m.report index (Infra.resultFail 0 0xFF)
  else
    let (arg0, m) := executeLoop cpuOn index payload testInput Infra.timeoutLarge 0 m
    if arg0 = 0 then m
    else valSetStatus index (Infra.resultFail 0 (Infra.executeStatus arg0)) m

-- The functions that are called with the index of a PE.
inductive Operation
  | setTestData (addr testData : Nat)
  | getTestData
  | getMpidIndex
  | executeOnPe (cpuOn : CpuOn) (payload testInput : Nat)
  | getPmuGsiv
  | getGmainGsiv

def Operation.run (index : Nat) (m : Machine) : Operation → Machine
  | setTestData addr testData           => valSetTestData index addr testData m
  | getTestData                         => (valGetTestData index m).snd
  | getMpidIndex                        => (valPeGetMpidIndex index m).snd
  | executeOnPe cpuOn payload testInput => valExecuteOnPe cpuOn index payload testInput m
  | getPmuGsiv                          => (valPeGetPmuGsiv index m).snd
  | getGmainGsiv                        => (valPeGetGmainGsiv index m).snd

end Pe
