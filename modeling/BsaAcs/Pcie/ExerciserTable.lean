import BsaAcs.Pcie.DeviceTable
import BsaAcs.Pcie.Exerciser

namespace Pcie

-- `bsa_acs_exerciser.h`
def maxExerciserCards : Nat := 20

structure ExerciserInfoBlock where
  bdf         : Nat
  initialized : Nat
deriving DecidableEq, Repr

-- `g_exercier_info_table`. The array is indexed without a look at its size, so it goes on behind its end here,
-- and the indices that it was accessed with are kept.
structure ExerciserInfoTable where
  numExerciser : Nat
  eInfo        : Nat → ExerciserInfoBlock
  indexed      : List Nat

namespace ExerciserInfoTable

def initial : ExerciserInfoTable where
  numExerciser := 0
  eInfo _      := { bdf := 0, initialized := 0 }
  indexed      := []

def store (eTable : ExerciserInfoTable) (bdf : Nat) : ExerciserInfoTable where
  numExerciser := (eTable.numExerciser + 1) % 2 ^ 32
  eInfo        := Function.update eTable.eInfo eTable.numExerciser { bdf, initialized := 0 }
  indexed      := eTable.indexed ++ [eTable.numExerciser]

-- The functions that are listed.
def bdfs (eTable : ExerciserInfoTable) : List Nat :=
  (List.range eTable.numExerciser).map fun i => (eTable.eInfo i).bdf

end ExerciserInfoTable

variable {S : Type} (hw : Mmio S) (table : PcieInfoTable) (s : S) (mcfg : List McfgEntry)

-- The loop over the functions, which it leaves at the first one that has no mapping.
def exerciserLoop : List PcieDeviceAttr → ExerciserInfoTable → ExerciserInfoTable
  | [], eTable => eTable
  | device :: rest, eTable =>
    match valPcieReadCfg hw table s device.bdf type01Vidr with
    | none   => eTable
    | some _ =>
      if palIsBdfExerciser hw s mcfg device.bdf then exerciserLoop rest (eTable.store device.bdf)
      else exerciserLoop rest eTable

-- The table of functions is gone through from its end.
def valExerciserCreateInfoTable (devices : List PcieDeviceAttr) (eTable : ExerciserInfoTable) : ExerciserInfoTable :=
  if devices.length = 0 then eTable else exerciserLoop hw table s mcfg devices.reverse eTable

-- The table after a number of calls.
def exerciserTable (devices : List PcieDeviceAttr) (n : Nat) : ExerciserInfoTable :=
  Nat.iterate (valExerciserCreateInfoTable hw table s mcfg devices) n .initial

end Pcie
