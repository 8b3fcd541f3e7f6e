import BsaAcs.Pcie.Basic

namespace Pcie

-- `bsa_acs_pcie_spec.h`
def hbBaseClass : Nat := 0x06
def hbSubClass : Nat := 0x00
def cidrOffset : Nat := 0
def rciep : Nat := 1 <<< 0b1001
def rcec : Nat := 1 <<< 0b1010
def rp : Nat := 1 <<< 0b0100
def iepRp : Nat := 1 <<< 0b1011

-- The locals of the calls on this path that a failed read or search leaves unset.
structure Unset where
  regValue   : BitVec 32
  pciecsBase : Nat → Nat

variable {S : Type} (hw : Mmio S) (table : PcieInfoTable) (s : S) (unset : Unset)

def valPcieIsHostBridge (bdf : Nat) : Bool :=
  let regValue := (valPcieReadCfg hw table s bdf type01Ridr).getD unset.regValue
  decide (hbBaseClass = (regValue >>> 24 &&& 0xFF).toNat) &&
    decide (hbSubClass = (regValue >>> 16 &&& 0xFF).toNat)

-- No function is an on-chip peripheral, so the type is the one that the capability shows.
def valPcieDevicePortType (bdf : Nat) : Option Nat :=
  (pciecsBase hw table s (unset.pciecsBase bdf) bdf).map fun base =>
    match valPcieReadCfg hw table s bdf ((base + cidrOffset) % 2 ^ 32) with
    | none => pcieUnknownResponse.toNat
    | some regValue => 1 <<< (regValue >>> 20 &&& 0xF).toNat

-- The table has an entry for every function, with the root port above it once that is known.
structure PcieDeviceAttr where
  bdf   : Nat
  rpBdf : Option Nat
deriving DecidableEq, Repr

-- The first function in the table with the bus behind it. The test for the type of the port assigns
-- where it should compare and is always true.
def rootportLoop (bus : Nat) : List PcieDeviceAttr → Option (Nat × Nat)
  | [] => some (1, 0)
  | device :: rest =>
    let regValue := (valPcieReadCfg hw table s device.bdf type1Pbn).getD unset.regValue
    match valPcieDevicePortType hw table s unset device.bdf with
    | none => none
    | some _ =>
      if secondaryBus regValue ≤ bus ∧ subordinateBus regValue ≥ bus then some (0, device.bdf)
      else rootportLoop bus rest

def valPcieGetRootport (devices : List PcieDeviceAttr) (bdf : Nat) : Option (Nat × Nat) :=
  match valPcieDevicePortType hw table s unset bdf with
  | none => none
  | some dpType =>
    if dpType = rp then some (0, bdf)
    else if dpType = rciep ∨ dpType = rcec then some (1, 0xFFFFFFFF)
    else rootportLoop hw table s unset (pcieExtractBdfBus bdf) devices

-- The first root port in the table with the bus right behind it. There is nothing in `rp_bdf` on failure.
def parentLoop (dsfBus : Nat) : List PcieDeviceAttr → Option (Nat × Option Nat)
  | [] => some (1, none)
  | device :: rest =>
    match valPcieDevicePortType hw table s unset device.bdf with
    | none => none
    | some dpType =>
      if dpType = rp then
        let regValue := (valPcieReadCfg hw table s device.bdf type1Pbn).getD unset.regValue
        if dsfBus = secondaryBus regValue ∧ dsfBus ≤ subordinateBus regValue then some (0, some device.bdf)
        else parentLoop dsfBus rest
      else parentLoop dsfBus rest

def valPcieParentIsRootport (devices : List PcieDeviceAttr) (dsfBdf : Nat) : Option (Nat × Option Nat) :=
  parentLoop hw table s unset (pcieExtractBdfBus dsfBdf) devices

-- The first function of type 0 on the buses, and if there is none the first one of type 1.
def downstreamLoop (secBus subBus seg : Nat) : List PcieDeviceAttr → Option Nat → Nat × Nat
  | [], none => (1, 0)
  | [], some type1Bdf => (0, type1Bdf)
  | device :: rest, type1Bdf =>
    if pcieExtractBdfBus device.bdf ≥ secBus ∧ pcieExtractBdfBus device.bdf ≤ subBus ∧
        pcieExtractBdfSeg device.bdf = seg then
      if valPcieFunctionHeaderType hw table s unset.regValue device.bdf = type0Header then (0, device.bdf)
      else downstreamLoop secBus subBus seg rest (type1Bdf.or (some device.bdf))
    else downstreamLoop secBus subBus seg rest type1Bdf

def valPcieGetDownstreamFunction (devices : List PcieDeviceAttr) (bdf : Nat) : Nat × Nat :=
  let regValue := (valPcieReadCfg hw table s bdf type1Pbn).getD unset.regValue
  downstreamLoop hw table s unset (secondaryBus regValue) (subordinateBus regValue) (pcieExtractBdfSeg bdf)
    devices none

-- Enters the root ports one by one, while the search goes through the whole table.
def populateLoop (devices : List PcieDeviceAttr) : List PcieDeviceAttr → Option (Nat × List PcieDeviceAttr)
  | [] => some (0, [])
  | device :: rest =>
    match valPcieGetRootport hw table s unset devices device.bdf with
    | none => none
    | some (status, rpBdf) =>
      if status ≠ 0 ∧ rpBdf = 0 then some (1, device :: rest)
      else
        (populateLoop devices rest).map fun (result, rest) =>
          (result, { device with rpBdf := some rpBdf } :: rest)

def valPciePopulateDeviceRootport (devices : List PcieDeviceAttr) : Option (Nat × List PcieDeviceAttr) :=
  populateLoop hw table s unset devices devices

inductive Probe
  | noMapping
  | absent
  | skipped
  | listed
deriving DecidableEq, Repr

-- What the innermost loop finds at a function number.
def probe (bdf : Nat) : Option Probe :=
  match valPcieReadCfg hw table s bdf type01Vidr with
  | none => some .noMapping
  | some regValue =>
    if regValue ≠ pcieUnknownResponse then
      if valPcieIsHostBridge hw table s unset bdf then some .skipped
      else
        (valPcieFindCapability hw table s bdf .pcieCap cidPciecs).map fun (pCap, _) =>
          if pCap ≠ pcieSuccess then .skipped else .listed
    else some .absent

-- The loop over the functions of a device, which ends early if function 0 is absent. It returns whether
-- the scan goes on, and the function numbers found so far.
def funcLoop (bdf : Nat → Nat) : List Nat → List Nat → Option (Bool × List Nat)
  | [], found => some (true, found)
  | func :: rest, found =>
    match probe hw table s unset (bdf func) with
    | none => none
    | some .noMapping => some (false, found)
    | some .skipped => funcLoop bdf rest found
    | some .listed => funcLoop bdf rest (found ++ [bdf func])
    | some .absent => if func = 0 then some (true, found) else funcLoop bdf rest found

-- The loops around it, which go on until the scan is given up.
def scan {ι : Type} (body : ι → List Nat → Option (Bool × List Nat)) :
    List ι → List Nat → Option (Bool × List Nat)
  | [], found => some (true, found)
  | i :: rest, found =>
    match body i found with
    | none => none
    | some (false, found) => some (false, found)
    | some (true, found) => scan body rest found

def PcieInfoBlock.buses (block : PcieInfoBlock) : List Nat :=
  List.range' block.startBusNum (block.endBusNum + 1 - block.startBusNum)

def devLoop (segNum bus dev : Nat) : List Nat → Option (Bool × List Nat) :=
  funcLoop hw table s unset (pcieCreateBdf segNum bus dev) (List.range pcieMaxFunc)

def busLoop (segNum bus : Nat) : List Nat → Option (Bool × List Nat) :=
  scan (devLoop hw table s unset segNum bus) (List.range pcieMaxDev)

def ecamLoop (block : PcieInfoBlock) : List Nat → Option (Bool × List Nat) :=
  scan (busLoop hw table s unset block.segmentNum) block.buses

-- The status and the table that the global pointer leads to afterwards. A table that is there already
-- is kept, whatever is in it.
def valPcieCreateDeviceBdfTable (bdfTable : Option (List PcieDeviceAttr)) :
    Option (Nat × List PcieDeviceAttr) :=
  match bdfTable with
  | some devices => some (pcieSuccess, devices)
  | none =>
    if table.length = 0 then some (1, [])
    else
      match scan (ecamLoop hw table s unset) table [] with
      | none => none
      | some (false, found) => some (1, found.map ({ bdf := ·, rpBdf := none }))
      | some (true, found) =>
        match valPciePopulateDeviceRootport hw table s unset (found.map ({ bdf := ·, rpBdf := none })) with
        | none => none
        | some (status, devices) => if status ≠ 0 then some (1, []) else some (0, devices)

end Pcie
