import BsaAcs.Dt.Fdt
import BsaAcs.Info.Watchdog

namespace Dt

open Wd

def wdDtArr : List String := ["arm,sbsa-gwdt"]

-- The interrupt flags of `pal_dt_spec.h`, as `wd_flags` has them: the mode in bit 0, the polarity in bit 1.
def wdFlags (intrFlg : BitVec 32) : Option Nat :=
  if intrFlg = 0 then some 0        -- `IRQ_TYPE_NONE`: level triggered, active high
  else if intrFlg = 1 then some 1   -- `IRQ_TYPE_EDGE_RISING`
  else if intrFlg = 2 then some 3   -- `IRQ_TYPE_EDGE_FALLING`
  else if intrFlg = 4 then some 0   -- `IRQ_TYPE_LEVEL_HIGH`
  else if intrFlg = 8 then some 2   -- `IRQ_TYPE_LEVEL_LOW`
  else none

-- The two addresses, from the cell `index` on.
def wdAddresses (addrCell sizeCell : Int) (reg : Nat → BitVec 32) (index : Nat) : Nat × Nat :=
  let ctrl := readAddress addrCell reg index
  let index := index + addrCell.toNat + sizeCell.toNat
  (ctrl, readAddress addrCell reg index)

-- The interrupt, its flags, and the `index` that is left behind.
def wdInterrupt (interruptCell : Int) (intr : Nat → BitVec 32) : Nat × BitVec 32 × Nat :=
  if interruptCell = 3 then
    (if intr 0 ≠ 0 then addOffset (intr 1) ppiOffset else addOffset (intr 1) spiOffset, intr 2, 2)
  else if interruptCell = 2 then ((intr 0).toNat, intr 1, 1)
  else ((intr 0).toNat, 0, 0)

-- The table so far, and the local variable `index`. `WdEntry` points to the entry after the last one.
structure WdCursor where
  table : WdInfoTable
  index : Nat

def WdCursor.fill (c : WdCursor) (entry : WdInfoBlock) : WdInfoTable where
  numWd  := c.table.numWd + 1
  wdInfo := Function.update c.table.wdInfo c.table.numWd entry

section

variable (fdt : Libfdt)

-- One node. The function returns early with the table as it is then, or never with no table at all.
def wdNode (addrCell sizeCell : Int) (c : WdCursor) (offset : Int) : Except (Option WdInfoTable) WdCursor :=
  match fdt.getprop offset "reg", fdt.getprop offset "interrupts" with
  | some reg, some intr =>
    match fdtInterruptCells fdt offset with
    | none => .error none
    | some interruptCell =>
      if interruptCell < 1 ∨ interruptCell > 3 then .error (some c.table)
      else
        let (ctrlBase, refreshBase) := wdAddresses addrCell sizeCell reg.cells c.index
        let (gsiv, intrFlg, index) := wdInterrupt interruptCell intr.cells
        match wdFlags intrFlg with
        | none       => .error (some (c.fill ⟨ctrlBase, refreshBase, gsiv, (c.table.wdInfo c.table.numWd).wdFlags⟩))
        | some flags => .ok ⟨c.fill ⟨ctrlBase, refreshBase, gsiv, flags⟩, index⟩
  | _, _ => .error (some c.table)

-- The nodes from `offset` on. No search finds more nodes than there are offsets.
def wdLoop (compatible : String) (addrCell sizeCell : Int) :
    Nat → Int → WdCursor → Except (Option WdInfoTable) WdCursor
  | 0, _, _ => .error none
  | fuel + 1, offset, c =>
    if offset = -fdtErrNotfound then .ok c
    else
      match wdNode fdt addrCell sizeCell c offset with
      | .error e => .error e
      | .ok c    =>
        wdLoop compatible addrCell sizeCell fuel (fdt.nodeOffsetByCompatible offset compatible) c

-- The cells of the addresses are those of the parent of the first node.
def wdCompatible (c : WdCursor) (compatible : String) : Except (Option WdInfoTable) WdCursor :=
  let offset := fdt.nodeOffsetByCompatible (-1) compatible
  if offset < 0 then .ok c
  else
    let parent := fdt.parentOffset offset
    if fdt.sizeCells parent < 1 ∨ fdt.sizeCells parent > 2 then .error (some c.table)
    else if fdt.addressCells parent < 1 ∨ fdt.addressCells parent > 2 then .error (some c.table)
    else wdLoop fdt compatible (fdt.addressCells parent) (fdt.sizeCells parent) (fdt.totalsize + 1) offset c

def palWdCreateInfoTableDt (table : WdInfoTable) : Option WdInfoTable :=
  match wdDtArr.foldlM (wdCompatible fdt) ⟨{ table with numWd := 0 }, 0⟩ with
  | .error result => result
  | .ok c         => some c.table

end

end Dt
