import BsaAcs.Lib.Loop

-- The peripheral info table, and what `acs_peripherals.c` reads of it.

namespace Peripheral

-- `PER_INFO_TYPE_e`, and the type of the entry that ends the table.
def typeUsb : Nat := 0x2000
def typeSata : Nat := 0x2001
def typeUart : Nat := 0x2002
def typeNone : Nat := 0x2004
def typeEnd : Nat := 0xFF

structure InfoBlock where
  type      : Nat
  bdf       : Nat
  base0     : Nat
  base1     : Nat
  irq       : Nat
  flags     : Nat
  maxPasids : Nat
deriving DecidableEq, Repr

structure InfoHdr where
  numUsb  : Nat
  numSata : Nat
  numUart : Nat
  numAll  : Nat
deriving DecidableEq, Repr

-- The memory from the first entry on.
structure InfoTable where
  header : InfoHdr
  info   : Nat → InfoBlock

-- `PERIPHERAL_INFO_e`
inductive Info
  | numUsb
  | numSata
  | numUart
  | numAll
  | usbBase0
  | usbFlags
  | usbGsiv
  | usbBdf
  | sataBase0
  | sataBase1
  | sataFlags
  | sataBdf
  | sataGsiv
  | uartBase0
  | uartGsiv
  | uartFlags
  | anyFlags
  | anyGsiv
  | anyBdf
  | maxPasids
deriving DecidableEq, Repr

def noEntry : Nat := 0xFFFF

section

variable (table : InfoTable)

def entryIndexStep (type : Nat) : Nat × Nat → (Nat × Nat) ⊕ Nat
  | (i, inst) =>
    if (table.info i).type = typeEnd then .inr noEntry
    else if type = typeNone ∨ (table.info i).type = type then
      if inst = 0 then .inr i else .inl ((i + 1) % 2 ^ 32, inst - 1)
    else .inl ((i + 1) % 2 ^ 32, inst)

-- `none` means that the fuel did not suffice.
def valPeripheralGetEntryIndex (type inst fuel : Nat) : Option Nat :=
  loop (entryIndexStep table type) fuel (0, inst)

def valPeripheralGetInfo (infoType : Info) (inst fuel : Nat) : Option Nat :=
  let field (type : Nat) (f : InfoBlock → Nat) : Option Nat :=
    (valPeripheralGetEntryIndex table type inst fuel).map fun i => if i ≠ noEntry then f (table.info i) else 0
  match infoType with
  | .numUsb    => some table.header.numUsb
  | .numSata   => some table.header.numSata
  | .numUart   => some table.header.numUart
  | .numAll    => some table.header.numAll
  | .usbBase0  => field typeUsb (·.base0)
  | .usbFlags  => field typeUsb (·.flags)
  | .usbGsiv   => field typeUsb (·.irq)
  | .usbBdf    => field typeUsb (·.bdf)
  | .sataBase0 => field typeSata (·.base0)
  | .sataBase1 => field typeSata (·.base1)
  | .sataFlags => field typeSata (·.flags)
  | .sataBdf   => field typeSata (·.bdf)
  | .sataGsiv  => field typeSata (·.irq)
  | .uartBase0 => field typeUart (·.base0)
  | .uartGsiv  => field typeUart (·.irq)
  | .uartFlags => field typeUart (·.flags)
  | .anyFlags  => field typeNone (·.flags)
  | .anyGsiv   => field typeNone (·.irq)
  | .anyBdf    => field typeNone (·.bdf)
  | .maxPasids => field typeNone (·.maxPasids)

end

end Peripheral
