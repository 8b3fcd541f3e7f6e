import BsaAcs.Dt.Gic
import BsaAcs.Info.Peripheral

-- The peripherals of a device tree, `pal_peripherals.c`.

namespace Dt

open Peripheral (InfoBlock InfoTable InfoHdr)

def usbDtCompatible : List String := ["generic-ohci", "generic-ehci"]
def sataDtCompatible : List String := ["generic-ahci"]
def uartDtCompatible : List String := ["arm,sbsa-uart", "arm,pl011"]

-- The table, and the index of the entry that `per_info` points to.
structure PeripheralCursor where
  table   : InfoTable
  perInfo : Nat

namespace PeripheralCursor

variable (c : PeripheralCursor)

def modify (f : InfoBlock → InfoBlock) : PeripheralCursor :=
  { c with table.info := Function.update c.table.info c.perInfo (f (c.table.info c.perInfo)) }

-- Counts the entry and goes on to the one behind it.
def next (count : InfoHdr → InfoHdr) : PeripheralCursor :=
  { table := { c.table with header := count c.table.header }, perInfo := c.perInfo + 1 }

end PeripheralCursor

-- What a function does with an early return, or if it never returns.
abbrev PeripheralRun := Except (Option InfoTable) PeripheralCursor

-- The interrupt of a specifier, to which the functions add different offsets.
def peripheralIrq (offset : Nat) (interruptCell : Int) (intr : Nat → BitVec 32) : Nat :=
  if interruptCell = 3 then
    if intr 0 = gicSpi then addOffset (intr 1) offset else 0
  else addOffset (intr 0) offset

section

variable (fdt : Libfdt)

-- The nodes from `offset` on. No search finds more nodes than there are offsets.
def peripheralLoop (compatible : String) (node : PeripheralCursor → Int → PeripheralRun) :
    Nat → Int → PeripheralCursor → PeripheralRun
  | 0, _, _ => .error none
  | fuel + 1, offset, c =>
    if offset = -fdtErrNotfound then .ok c
    else
      match node c offset with
      | .error e => .error e
      | .ok c    => peripheralLoop compatible node fuel (fdt.nodeOffsetByCompatible offset compatible) c

-- The cells of the addresses are those of the parent of the first node.
def peripheralCompatible (node : Int → PeripheralCursor → Int → PeripheralRun) (c : PeripheralCursor)
    (compatible : String) : PeripheralRun :=
  let offset := fdt.nodeOffsetByCompatible (-1) compatible
  if offset < 0 then .ok c
  else
    let parent := fdt.parentOffset offset
    if fdt.sizeCells parent < 0 then .error (some c.table)
    else if fdt.addressCells parent < 1 ∨ fdt.addressCells parent > 2 then .error (some c.table)
    else peripheralLoop fdt compatible (node (fdt.addressCells parent)) (fdt.totalsize + 1) offset c

def peripheralTable (node : Int → PeripheralCursor → Int → PeripheralRun) (compatibles : List String)
    (c : PeripheralCursor) : Option InfoTable :=
  match compatibles.foldlM (peripheralCompatible fdt node) c with
  | .error result => result
  | .ok c         => some c.table

-- A USB or a SATA controller. The type is written before anything is known about the node.
def controllerNode (type : Nat) (setBase : Nat → InfoBlock → InfoBlock) (count : InfoHdr → InfoHdr) (addrCell : Int)
    (c : PeripheralCursor) (offset : Int) : PeripheralRun :=
  let c := c.modify ({ · with type })
  match fdt.getprop offset "reg" with
  | none     => .error (some c.table)
  | some reg =>
    match fdt.getprop offset "interrupts" with
    | none      => .error (some c.table)
    | some intr =>
      match fdtInterruptCells fdt offset with
      | none               => .error none
      | some interruptCell =>
        if interruptCell < 1 ∨ interruptCell > 3 then .error (some c.table)
        else
          let c := c.modify (setBase (readCells addrCell reg.cells 0).1)
          let c := c.modify ({ · with irq := peripheralIrq 0 interruptCell intr.cells, bdf := 0, flags := 0 })
          .ok (c.next count)

def usbNode : Int → PeripheralCursor → Int → PeripheralRun :=
  controllerNode fdt Peripheral.typeUsb (fun base block => { block with base0 := base })
    fun h => { h with numUsb := h.numUsb + 1 }

def sataNode : Int → PeripheralCursor → Int → PeripheralRun :=
  controllerNode fdt Peripheral.typeSata (fun base block => { block with base1 := base })
    fun h => { h with numSata := h.numSata + 1 }

def palPeripheralUsbCreateInfoTableDt (table : InfoTable) : Option InfoTable :=
  peripheralTable fdt (usbNode fdt) usbDtCompatible
    { table := { table with header := { table.header with numUsb := 0 } }, perInfo := 0 }

def palPeripheralSataCreateInfoTableDt (table : InfoTable) : Option InfoTable :=
  peripheralTable fdt (sataNode fdt) sataDtCompatible
    { table := { table with header := { table.header with numSata := 0 } }, perInfo := table.header.numUsb }

-- `pal_strncmp(Pstatus, "disabled", 9) == 0`
def isDisabled (offset : Int) : Bool :=
  match fdt.getprop offset "status" with
  | none        => false
  | some status =>
    decide (0 < status.len) && decide (status.cells 0 = 0x64697361) && decide (status.cells 1 = 0x626C6564) &&
      decide ((status.cells 2).toNat >>> 24 = 0)

-- The loop over the tuples of `ranges`, from the cell `rangeIndex` on: the parent address of the first tuple whose
-- child address is `addr`.
def searchRanges (childAddrCell parentAddrCell childSizeCell : Int) (ranges : Property) (addr : Nat) :
    Nat → Nat → Option Nat
  | 0, _ => none
  | fuel + 1, rangeIndex =>
    if rangeIndex < ranges.len / 4 then
      let (tempChildAddr, rangeIndex) := readCells childAddrCell ranges.cells rangeIndex
      if tempChildAddr = addr then some (readCells parentAddrCell ranges.cells rangeIndex).1
      else
        searchRanges childAddrCell parentAddrCell childSizeCell ranges addr fuel
          (rangeIndex + parentAddrCell.toNat + childSizeCell.toNat)
    else none

-- The search through the parents. `left` is `range_node_left`, `parent` is `range_parent_offset`, `addr` is
-- `range_node_addr`; the result is `parent_offset_addr`, or nothing if the function returns.
def parentOffsetAddr : Nat → Int → Nat → Option Nat
  | 0, _, _ => some 0
  | left + 1, parent, addr =>
    match fdt.getprop parent "ranges" with
    | none        => some 0
    | some ranges =>
      if ranges.len = 0 then parentOffsetAddr left (fdt.parentOffset parent) addr
      else
        let rangeParent := fdt.parentOffset parent
        let childAddrCell := fdt.addressCells parent
        let parentAddrCell := fdt.addressCells rangeParent
        let childSizeCell := fdt.sizeCells parent
        if childAddrCell < 1 ∨ childAddrCell > 2 ∨ parentAddrCell < 1 ∨ parentAddrCell > 2 ∨ childSizeCell < 0 then none
        else if (ranges.len : Int) = 4 * (childAddrCell + parentAddrCell + childSizeCell) then
          parentOffsetAddr left rangeParent (readCells parentAddrCell ranges.cells childAddrCell.toNat).1
        else
          some ((searchRanges childAddrCell parentAddrCell childSizeCell ranges addr (ranges.len / 4 + 1) 0).getD 0)

def uartNode (addrCell : Int) (c : PeripheralCursor) (offset : Int) : PeripheralRun :=
  if isDisabled fdt offset then .ok c
  else
    match fdt.getprop offset "reg" with
    | none     => .error (some c.table)
    | some reg =>
      let base := (readCells addrCell reg.cells 0).1
      let c := c.modify ({ · with base0 := base })
      match parentOffsetAddr fdt 3 (fdt.parentOffset offset) base with
      | none                  => .error (some c.table)
      | some parentOffsetAddr =>
        let c := c.modify fun block => { block with base0 := (block.base0 + parentOffsetAddr) % 2 ^ 64 }
        match fdt.getprop offset "interrupts" with
        | none      => .error (some c.table)
        | some intr =>
          match fdtInterruptCells fdt offset with
          | none               => .error none
          | some interruptCell =>
            if interruptCell < 1 ∨ interruptCell > 3 then .error (some c.table)
            else
              let c := c.modify ({ · with
                type  := Peripheral.typeUart
                irq   := peripheralIrq spiOffset interruptCell intr.cells
                bdf   := 0
                flags := 0 })
              .ok (c.next fun h => { h with numUart := h.numUart + 1 })

def palPeripheralUartCreateInfoTableDt (table : InfoTable) : Option InfoTable :=
  peripheralTable fdt (uartNode fdt) uartDtCompatible
    { table := { table with header := { table.header with numUart := 0 } }
      perInfo := table.header.numUsb + table.header.numSata }

-- `pal_peripheral_create_info_table`, where no controller is found in PCIe, there is no SPCR table and
-- `PLATFORM_GENERIC_UART_BASE` is 0: the three functions, and the end of the table.
def palPeripheralCreateInfoTable (table : InfoTable) : Option InfoTable := do
  let table := { table with header := { table.header with numUsb := 0, numSata := 0, numUart := 0 } }
  let table ← palPeripheralUsbCreateInfoTableDt fdt table
  let table ← palPeripheralSataCreateInfoTableDt fdt table
  let table ← palPeripheralUartCreateInfoTableDt fdt table
  let perInfo := table.header.numUsb + table.header.numSata + table.header.numUart
  return (PeripheralCursor.modify { table, perInfo } ({ · with type := Peripheral.typeEnd })).table

end

end Dt
