import BsaAcs.Pcie.DeviceTable

namespace Pcie

-- `PCIE_DEVICE_BDF_TABLE_SZ`, and the size of a table of that many entries: a counter, and two words for
-- each entry.
def pcieDeviceBdfTableSz : Nat := 8192

def bdfTableSize (numEntries : Nat) : Nat :=
  4 + 8 * numEntries

section Log

variable {S : Type} (hw : Mmio S) (table : PcieInfoTable) (s : S) (unset : Unset)

-- The loops of the scan with the entries that have been made when they are left, be it for good: a search
-- for a capability that does not end is `none`.
def funcLoopLog (bdf : Nat → Nat) : List Nat → List Nat → Option Bool × List Nat
  | [], found => (some true, found)
  | func :: rest, found =>
    match probe hw table s unset (bdf func) with
    | none => (none, found)
    | some .noMapping => (some false, found)
    | some .skipped => funcLoopLog bdf rest found
    | some .listed => funcLoopLog bdf rest (found ++ [bdf func])
    | some .absent => if func = 0 then (some true, found) else funcLoopLog bdf rest found

def scanLog {ι : Type} (body : ι → List Nat → Option Bool × List Nat) :
    List ι → List Nat → Option Bool × List Nat
  | [], found => (some true, found)
  | i :: rest, found =>
    match body i found with
    | (some true, found) => scanLog body rest found
    | (goOn, found) => (goOn, found)

def devLoopLog (segNum bus dev : Nat) : List Nat → Option Bool × List Nat :=
  funcLoopLog hw table s unset (pcieCreateBdf segNum bus dev) (List.range pcieMaxFunc)

def busLoopLog (segNum bus : Nat) : List Nat → Option Bool × List Nat :=
  scanLog (devLoopLog hw table s unset segNum bus) (List.range pcieMaxDev)

def ecamLoopLog (block : PcieInfoBlock) : List Nat → Option Bool × List Nat :=
  scanLog (busLoopLog hw table s unset block.segmentNum) block.buses

-- The entries that `val_pcie_create_device_bdf_table` makes in a new table.
def bdfEntries : List Nat :=
  (scanLog (ecamLoopLog hw table s unset) table []).2

end Log

-- A call of `val_pcie_create_device_bdf_table`: the config space and the unset locals that it meets, and
-- whether there is memory for the table.
structure Call (S : Type) where
  state : S
  unset : Unset
  alloc : Bool

section Calls

variable {S : Type} (hw : Mmio S) (table : PcieInfoTable)

-- The status of a call and the global pointer afterwards.
def createCall (bdfTable : Option (List PcieDeviceAttr)) (call : Call S) :
    Option (Nat × Option (List PcieDeviceAttr)) :=
  match bdfTable with
  | none =>
    if call.alloc then
      (valPcieCreateDeviceBdfTable hw table call.state call.unset none).map fun (status, devices) =>
        (status, some devices)
    else some (1, none)
  | some devices => some (pcieSuccess, some devices)

-- `val_exerciser_execute_tests` and `val_pcie_create_info_table` call it one after the other, in any order.
-- The statuses with the table behind each call. A call that does not return ends the sequence.
def createCalls : Option (List PcieDeviceAttr) → List (Call S) → List (Nat × Option (List PcieDeviceAttr))
  | _, [] => []
  | bdfTable, call :: calls =>
    match createCall hw table bdfTable call with
    | none => []
    | some (status, bdfTable) => (status, bdfTable) :: createCalls bdfTable calls

end Calls

end Pcie
