import BsaAcs.Interface
import BsaAcs.Iovirt.Walk

namespace Iovirt

-- The variables that `val_iovirt_get_device_info` writes its results to. Nothing stands for a pointer
-- that is `NULL`.
structure DeviceInfoOut where
  deviceId : Option Nat
  streamId : Option Nat
  itsId    : Option Nat
deriving DecidableEq, Repr

-- `*p = v`, where the caller may have passed `NULL`.
def assign (out : Option Nat) (v : Nat) : Option Nat :=
  out.map fun _ => v

def DeviceInfoOut.assign (out : DeviceInfoOut) (info : DeviceInfo) : DeviceInfoOut where
  deviceId := Iovirt.assign out.deviceId info.deviceId
  streamId := Iovirt.assign out.streamId info.streamId
  itsId    := Iovirt.assign out.itsId info.itsId

-- `val_iovirt_get_device_info` with its status and its output parameters. There is no table before
-- `val_iovirt_create_info_table`.
def valIovirtGetDeviceInfoOut (table : Option IovirtInfoTable) (rid segment : Nat) (out : DeviceInfoOut) :
    Nat × DeviceInfoOut :=
  match table with
  | none => (acsStatusErr, out)
  | some table =>
    if out.deviceId = none then (acsStatusErr, out)
    else
      match valIovirtGetDeviceInfo table rid segment with
      | none      => (acsStatusErr, out)
      | some info => (0, out.assign info)

-- A 64-bit field of a block.
def longWord (mem : Memory) (w : Nat) : Nat :=
  mem w + 2 ^ 32 * mem (w + 1)

def rcSegment (mem : Memory) (block : Nat) : Nat :=
  mem (block + dataWord)

def rcSmmuBase (mem : Memory) (block : Nat) : Nat :=
  longWord mem (block + dataWord + rcSmmuBaseWord)

-- The node data is read as that of a root complex, whatever the type of the block is.
def palIovirtGetRcSmmuBase (table : IovirtInfoTable) (rcSegmentNum : Nat) : Nat :=
  match table.blocks.find? fun block => rcSegment table.mem block = rcSegmentNum with
  | some block => rcSmmuBase table.mem block
  | none       => 0

inductive SmmuInfo
  | numCtrl
  | ctrlBase
  | ctrlArchMajorRev
  | iovirtBlock
deriving DecidableEq, Repr

def IovirtInfoTable.smmuBlocks (table : IovirtInfoTable) : List Nat :=
  table.blocks.filter fun block => isSmmuNode (table.mem block)

def smmuBase (mem : Memory) (block : Nat) : Nat :=
  longWord mem (block + dataWord + smmuBaseWord)

-- At the end of the loop `j` is the number of SMMU blocks, and `j - 1` has 32 bits.
def valIovirtGetSmmuInfo (table : IovirtInfoTable) (type : SmmuInfo) (index : Nat) : Nat :=
  if type = .numCtrl then table.numSmmus
  else
    match table.smmuBlocks[index]? with
    | some block =>
      match type with
      | .ctrlArchMajorRev => table.mem (block + dataWord)
      | .ctrlBase         => smmuBase table.mem block
      | .iovirtBlock      => 4 * block
      | .numCtrl          => 0
    | none =>
      let j := table.smmuBlocks.length
      if index > (j + (2 ^ 32 - 1)) % 2 ^ 32 then 0 else j

-- What `val_smmu_get_info` of `smmu_v3.c` takes from the table. `gNumSmmus` is set by `val_smmu_init`.
def valSmmuGetInfo (gNumSmmus : Nat) (table : IovirtInfoTable) (type : SmmuInfo) (smmuIndex : Nat) : Nat :=
  if smmuIndex ≥ gNumSmmus then 0 else valIovirtGetSmmuInfo table type smmuIndex

def acsInvalidIndex : Nat := 0xFFFFFFFF

def smmuIndexLoop (gNumSmmus : Nat) (table : IovirtInfoTable) (smmuBase : Nat) : Nat → Nat
  | 0           => acsInvalidIndex
  | numSmmu + 1 =>
    if smmuBase = valSmmuGetInfo gNumSmmus table .ctrlBase numSmmu then numSmmu
    else smmuIndexLoop gNumSmmus table smmuBase numSmmu

def valIovirtGetRcSmmuIndex (gNumSmmus : Nat) (table : IovirtInfoTable) (rcSegNum : Nat) : Nat :=
  let smmuBase := palIovirtGetRcSmmuBase table rcSegNum
  if smmuBase ≠ 0 then
    smmuIndexLoop gNumSmmus table smmuBase (valSmmuGetInfo gNumSmmus table .numCtrl 0)
  else acsInvalidIndex

end Iovirt
