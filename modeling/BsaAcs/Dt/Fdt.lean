import BsaAcs.Lib.Loop
import Mathlib.Data.BitVec

namespace Dt

-- A property of a node: its length in bytes, and the words from its value on as `fdt32_to_cpu` gives them.
-- Past the length they are what lies behind the property.
structure Property where
  len   : Nat
  cells : Nat → BitVec 32

-- What the code uses of `libfdt`, on one device tree. Nodes are named by their offset in it, an error is
-- a negative number.
structure Libfdt where
  totalsize              : Nat
  nodeOffsetByCompatible : Int → String → Int
  nodeOffsetByPhandle    : BitVec 32 → Int
  parentOffset           : Int → Int
  subnodeOffset          : Int → String → Int
  nextSubnode            : Int → Int
  sizeCells              : Int → Int
  addressCells           : Int → Int
  getprop                : Int → String → Option Property

-- `libfdt.h`
def fdtErrNotfound : Int := 1
def fdtErrBadncells : Int := 14

namespace Libfdt

-- A search returns the first of the nodes behind the place it starts at, which is -1 for all of them.
def search (nodes : List Nat) (start : Int) : Int :=
  match nodes.find? fun node : Nat => decide (start < node) with
  | some node => node
  | none      => -fdtErrNotfound

-- `fdt_node_offset_by_compatible`: the nodes that are compatible, in the order of their offsets.
structure Lists (fdt : Libfdt) (compatible : String) (nodes : List Nat) : Prop where
  sorted : nodes.Pairwise (· < ·)
  inside : ∀ node ∈ nodes, node < fdt.totalsize
  search : ∀ start, -1 ≤ start → fdt.nodeOffsetByCompatible start compatible = search nodes start

end Libfdt

-- `pal_dt_spec.h`
def ppiOffset : Nat := 16
def spiOffset : Nat := 32
def gicSpi : BitVec 32 := 0
def gicPpi : BitVec 32 := 1

section

variable (fdt : Libfdt)

-- On to the interrupt parent of the node, or else to its parent.
def interruptParent (nodeoffset : Int) : Int :=
  match fdt.getprop nodeoffset "interrupt-parent" with
  | some ic => fdt.nodeOffsetByPhandle (ic.cells 0)
  | none    => fdt.parentOffset nodeoffset

def interruptCellsStep (nodeoffset : Int) : Int ⊕ Int :=
  match fdt.getprop nodeoffset "#interrupt-cells" with
  | some ic => .inr (ic.cells 0).toInt
  | none    =>
    let nodeoffset := interruptParent fdt nodeoffset
    if nodeoffset ≥ 0 then .inl nodeoffset else .inr 3

-- There is no result if the interrupt parents form a circle. A search that has not ended after as many
-- rounds as there are offsets is in one.
def fdtInterruptCells (nodeoffset : Int) : Option Int :=
  loop (interruptCellsStep fdt) fdt.totalsize nodeoffset

def fdtFrameNumber (nodeoffset : Int) : Int :=
  match fdt.getprop nodeoffset "frame-number" with
  | none    => 2
  | some ic =>
    if ic.len ≠ 4 then -fdtErrBadncells
    else if (ic.cells 0).toInt < 0 then -fdtErrBadncells
    else (ic.cells 0).toInt

end

-- An address of one or of two words.
def readAddress (addrCell : Int) (reg : Nat → BitVec 32) (index : Nat) : Nat :=
  if addrCell = 1 then (reg index).toNat else (reg index ++ reg (index + 1)).toNat

-- `fdt32_to_cpu(..) + PPI_OFFSET` and the like, in 32 bits.
def addOffset (number : BitVec 32) (offset : Nat) : Nat :=
  (number.toNat + offset) % 2 ^ 32

end Dt
