import BsaAcs.Dt.Fdt
import Mathlib.Logic.Function.Basic
import Mathlib.Logic.Function.Iterate

namespace Dt

def pmuDtArr : List String := [
  "arm,armv8-pmuv3",
  "arm,cortex-a17-pmu",
  "arm,cortex-a15-pmu",
  "arm,cortex-a12-pmu",
  "arm,cortex-a9-pmu",
  "arm,cortex-a8-pmu",
  "arm,cortex-a7-pmu",
  "arm,cortex-a5-pmu",
  "arm,arm11mpcore-pmu",
  "arm,arm1176-pmu",
  "arm,arm1136-pmu"
]

-- A store to `pmu_gsiv`: the entry of the PE table, the node, and the cell that its specifier is read from.
structure PmuWrite where
  pe   : Nat
  node : Int
  cell : Nat
  gsiv : Nat
deriving DecidableEq, Repr

-- What the function does: the entries of `pmu_dt_arr` it reads, the nodes it visits, and its stores.
structure PmuTrace where
  compatibles : List Nat
  nodes       : List Int
  writes      : List PmuWrite
deriving DecidableEq, Repr

-- The field `pmu_gsiv` of the entries, after the stores.
def PmuTrace.pmuGsiv (trace : PmuTrace) (before : Nat → Nat) : Nat → Nat :=
  trace.writes.foldl (fun gsivs write => Function.update gsivs write.pe write.gsiv) before

-- The variables of the function. There is an `offset` in the loop over the nodes; `ptr` is the index of the
-- entry that `Ptr` points to.
structure PmuCursor where
  i      : Nat
  index  : Nat
  ptr    : Nat
  offset : Option Int
  trace  : PmuTrace
deriving DecidableEq, Repr

-- The interrupt at `index`, and the `index` behind it.
def pmuSpecifier (interruptCell : Int) (intr : Nat → BitVec 32) (index : Nat) : Nat × Nat :=
  if interruptCell = 3 then
    (if intr index ≠ 0 then addOffset (intr (index + 1)) ppiOffset else addOffset (intr (index + 1)) spiOffset,
      index + 1 + 1 + 1)
  else if interruptCell = 2 then ((intr index).toNat, index + 1 + 1)
  else ((intr index).toNat, index + 1)

namespace PmuCursor

variable (c : PmuCursor)

def store (node : Int) (interruptCell : Int) (intr : Nat → BitVec 32) : PmuCursor :=
  let (gsiv, index) := pmuSpecifier interruptCell intr c.index
  { c with index, ptr := c.ptr + 1, trace.writes := c.trace.writes ++ [⟨c.ptr, node, c.index, gsiv⟩] }

-- One interrupt for all PEs.
def storeAll (numOfPe : Nat) (node : Int) (interruptCell : Int) (intr : Nat → BitVec 32) : PmuCursor :=
  let gsiv := (pmuSpecifier interruptCell intr 0).fst
  let writes := (List.range numOfPe).map fun pe => ⟨c.ptr + pe, node, 0, gsiv⟩
  { c with i := numOfPe, ptr := c.ptr + numOfPe, trace.writes := c.trace.writes ++ writes }

def visit (node : Int) : PmuCursor :=
  { c with trace.nodes := c.trace.nodes ++ [node] }

end PmuCursor

section

variable (fdt : Libfdt) (beyond : Nat → String) (numOfPe : Nat)

-- A string of `pmu_dt_arr`, or what is found behind it.
def compatibleAt (i : Nat) : String :=
  pmuDtArr.getD i (beyond i)

def PmuCursor.search (c : PmuCursor) (start : Int) : Int × PmuCursor :=
  (fdt.nodeOffsetByCompatible start (compatibleAt beyond c.i),
    { c with trace.compatibles := c.trace.compatibles ++ [c.i] })

-- The body of the loop over the nodes. It is not left if there is no end to the search for the cells.
def pmuNode (c : PmuCursor) (offset : Int) : PmuCursor ⊕ PmuCursor :=
  let visited := c.visit offset
  match fdt.getprop offset "interrupts" with
  | none => .inr visited
  | some intr =>
    match fdtInterruptCells fdt offset with
    | none => .inl c
    | some interruptCell =>
      if interruptCell < 1 ∨ interruptCell > 3 then .inr visited
      else
        let interruptFrameCount := intr.len / 4 / interruptCell.toNat
        if interruptFrameCount = 0 then .inr visited
        else if interruptFrameCount = 1 then .inr (visited.storeAll numOfPe offset interruptCell intr.cells)
        else
          -- The loop over the specifiers counts with the variable of the loop over the strings.
          let c := (·.store offset interruptCell intr.cells)^[interruptFrameCount] visited
          let (offset, c) := { c with i := interruptFrameCount }.search fdt beyond offset
          .inl { c with offset }

def pmuStep (c : PmuCursor) : PmuCursor ⊕ PmuCursor :=
  match c.offset with
  | none =>
    if c.i < pmuDtArr.length then
      let (offset, c) := c.search fdt beyond (-1)
      if offset < 0 then .inl { c with i := c.i + 1 } else .inl { c with offset }
    else .inr c
  | some offset =>
    if offset = -fdtErrNotfound then .inl { c with i := c.i + 1, offset := none }
    else pmuNode fdt beyond numOfPe c offset

def PmuCursor.start : PmuCursor where
  i      := 0
  index  := 0
  ptr    := 0
  offset := none
  trace  := ⟨[], [], []⟩

-- There is no result if it takes more than `fuel` steps.
def palPeInfoTablePmuGsivDt (fuel : Nat) : Option PmuTrace :=
  (loop (pmuStep fdt beyond numOfPe) fuel .start).map (·.trace)

end

end Dt
