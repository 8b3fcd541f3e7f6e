import BsaAcs.Pcie.Basic

namespace Pcie

-- `pal_exerciser.h`, `pal_peripherals.c` and `platform_override.h`
def pciMaxBus : Nat := 255
def pciMaxDevice : Nat := 31
def usbClasscode : Nat := 0x0C0300
def sataClasscode : Nat := 0x010600
def bar0 : Nat := 0
def platformGenericUartBase : Nat := 0
def platformGenericUartIntid : Nat := 0

-- `bsa_pcie_enum.h`: the numbers are not cut to their fields here.
def palPcieCreateBdf (seg bus dev func : Nat) : Nat :=
  ((seg <<< 24) ||| (bus <<< 16) ||| (dev <<< 8) ||| func) % 2 ^ 32

-- A function that UEFI has a handle for: its location, and what is read of its header.
structure PciFunction where
  seg        : Nat
  bus        : Nat
  dev        : Nat
  func       : Nat
  classCode1 : Nat
  classCode2 : Nat
  bar        : Nat → Nat

namespace PciFunction

def bdf (f : PciFunction) : Nat :=
  palPcieCreateBdf f.seg f.bus f.dev f.func

def hasClass (classCode : Nat) (f : PciFunction) : Bool :=
  decide (f.classCode2 = classCode >>> 16 &&& 0xFF) && decide (f.classCode1 = classCode >>> 8 &&& 0xFF)

end PciFunction

-- `pal_pcie_enumeration.c`

def incrementBusDev (startBdf : Nat) : Nat :=
  let seg := pcieExtractBdfSeg startBdf
  let bus := pcieExtractBdfBus startBdf
  let dev := pcieExtractBdfDev startBdf
  if dev ≠ pciMaxDevice then palPcieCreateBdf seg bus (dev + 1) 0 else palPcieCreateBdf seg (bus + 1) 0 0

-- The two outer loops. The inner one of them starts at the same device on every bus.
def busDevs (inputBus inputDev : Nat) : List (Nat × Nat) :=
  (List.range' inputBus (pciMaxBus + 1 - inputBus)).flatMap fun thisBus =>
    (List.range' inputDev (pciMaxDevice + 1 - inputDev)).map fun thisDev => (thisBus, thisDev)

section

-- The functions in the order of their handles. All calls of UEFI succeed.
variable (fns : List PciFunction)

def foundFunction (classCode startBdf : Nat) : Option PciFunction :=
  (busDevs (pcieExtractBdfBus startBdf) (pcieExtractBdfDev startBdf)).findSome? fun (thisBus, thisDev) =>
    fns.find? fun f => decide (thisBus = f.bus) && decide (thisDev = f.dev) && f.hasClass classCode

def palPcieGetBdf (classCode startBdf : Nat) : Nat :=
  match foundFunction fns classCode startBdf with
  | none   => 0
  | some f => f.bdf

def palPcieGetBase (bdf barIndex : Nat) : Nat :=
  let inputSeg := bdf >>> 24 &&& 0xFF
  let inputBus := bdf >>> 16 &&& 0xFF
  let inputDev := bdf >>> 8 &&& 0xFF
  let inputFunc := bdf &&& 0xFF
  match fns.find? fun f => decide (f.seg = inputSeg ∧ f.bus = inputBus ∧ f.dev = inputDev ∧ f.func = inputFunc) with
  | none   => 0
  | some f => f.bar barIndex

end

-- `pal_peripherals.c`

inductive PeripheralType
  | usb
  | sata
  | uart
deriving DecidableEq, Repr

-- The fields that are filled in.
structure PeripheralInfoBlock where
  type  : PeripheralType
  bdf   : Option Nat
  base0 : Nat
  irq   : Option Nat
deriving DecidableEq, Repr

structure PeripheralInfoTable where
  numUsb  : Nat
  numSata : Nat
  numUart : Nat
  info    : List PeripheralInfoBlock
deriving DecidableEq, Repr

def PeripheralInfoTable.add (table : PeripheralInfoTable) (perInfo : PeripheralInfoBlock) : PeripheralInfoTable :=
  match perInfo.type with
  | .usb  => { table with numUsb := table.numUsb + 1, info := table.info ++ [perInfo] }
  | .sata => { table with numSata := table.numSata + 1, info := table.info ++ [perInfo] }
  | .uart => { table with numUart := table.numUart + 1, info := table.info ++ [perInfo] }

section

variable (fns : List PciFunction)

def controllerInfo (type : PeripheralType) (deviceBdf : Nat) : PeripheralInfoBlock where
  type  := type
  bdf   := some deviceBdf
  base0 := palPcieGetBase fns deviceBdf bar0
  irq   := none

-- The loop over the controllers of a class. There is no result if it does not end within `fuel` rounds.
def controllerLoop (type : PeripheralType) (classCode : Nat) :
    Nat → Nat → PeripheralInfoTable → Option PeripheralInfoTable
  | 0, _, _ => none
  | fuel + 1, startBdf, table =>
    let deviceBdf := palPcieGetBdf fns classCode startBdf
    if deviceBdf ≠ 0 then
      controllerLoop type classCode fuel (incrementBusDev deviceBdf) (table.add (controllerInfo fns type deviceBdf))
    else some table

-- The address and the interrupt of the port that the SPCR table describes, and of the one that the platform
-- is configured with.
def uartInfo (spcr : Option (Nat × Nat)) : List PeripheralInfoBlock :=
  (match spcr with
    | none                  => []
    | some (address, gsiv)  => [{ type := .uart, bdf := none, base0 := address, irq := some gsiv }]) ++
  if platformGenericUartBase ≠ 0 then
    [{ type := .uart, bdf := none, base0 := platformGenericUartBase, irq := some platformGenericUartIntid }]
  else []

def palPeripheralCreateInfoTable (spcr : Option (Nat × Nat)) (fuel : Nat) : Option PeripheralInfoTable :=
  match controllerLoop fns .usb usbClasscode fuel 0 { numUsb := 0, numSata := 0, numUart := 0, info := [] } with
  | none => none
  | some table =>
    match controllerLoop fns .sata sataClasscode fuel 0 table with
    | none => none
    | some table => some ((uartInfo spcr).foldl (·.add ·) table)

end

end Pcie
