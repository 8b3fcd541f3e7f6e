import BsaAcs.Dt.Fdt
import BsaAcs.Info.Gic
import Mathlib.Logic.Function.Iterate

-- `pal_gic_create_info_table_dt`.

namespace Dt

open GicInfo (Cursor Hdr)

def gicv3DtArr : List String := ["arm,gic-v3"]

def gicv2DtArr : List String := [
  "arm,cortex-a15-gic",
  "arm,cortex-a9-gic",
  "arm,cortex-a7-gic",
  "arm,cortex-a5-gic",
  "arm,eb11mp-gic",
  "arm,arm11mp-gic",
  "arm,gic-400",
  "arm,pl390",
  "qcom,msm-8660-qgic",
  "qcom,msm-qgic2"
]

-- A number of two cells, or else of one, and the index behind it.
def readCells (count : Int) (reg : Nat → BitVec 32) (index : Nat) : Nat × Nat :=
  if count = 2 then ((reg index ++ reg (index + 1)).toNat, index + 1 + 1)
  else ((reg index).toNat, index + 1)

-- The base and the length of an entry, and the cells they have been read from.
structure Frame where
  base   : Nat
  length : Nat
  cells  : List Nat
deriving DecidableEq, Repr

def readFrame (addrCell sizeCell : Int) (reg : Nat → BitVec 32) (index : Nat) : Frame × Nat :=
  let (base, next) := readCells addrCell reg index
  let (length, last) := readCells sizeCell reg next
  (⟨base, length, List.range' index (last - index)⟩, last)

-- The variable `Index`, and where the entries that have been filled in come from.
structure GicCursor extends Cursor where
  index : Nat
  taken : Nat → Frame

namespace GicCursor

variable (c : GicCursor)

-- Fills in the entry; `f` sets the members other than the type, the base and the length.
def put (type : Nat) (frame : Frame) (f : GicInfo.Entry → GicInfo.Entry) : GicCursor :=
  { c with
    toCursor := c.toCursor.fill fun entry => f { entry with type, base := frame.base, length := frame.length }
    taken    := Function.update c.taken c.gicEntry frame }

def countHdr (f : Hdr → Hdr) : GicCursor :=
  { c with toCursor := c.toCursor.count f }

def finish : GicCursor :=
  { c with toCursor := c.toCursor.finish }

variable (addrCell sizeCell : Int) (reg : Nat → BitVec 32)

def fillFrame (type : Nat) : GicCursor :=
  let (frame, index) := readFrame addrCell sizeCell reg c.index
  { c.put type frame id with index }

def fillGicd : GicCursor :=
  (c.fillFrame addrCell sizeCell reg Gic.entryTypeGicd).countHdr fun h => { h with numGicd := h.numGicd + 1 }

def fillGicrd : GicCursor :=
  (c.fillFrame addrCell sizeCell reg Gic.entryTypeGicrGicrd).countHdr fun h => { h with numGicrd := h.numGicrd + 1 }

def fillGich : GicCursor :=
  c.fillFrame addrCell sizeCell reg Gic.entryTypeGich

-- The same base and length for all PEs.
def fillCpuif (numOfPe : Nat) : GicCursor :=
  let (frame, index) := readFrame addrCell sizeCell reg c.index
  { (·.put Gic.entryTypeCpuif frame id)^[numOfPe] c with index }

end GicCursor

section

variable (fdt : Libfdt)

-- The first string of the array that a node is compatible with decides.
def gicFind (compatibles : List String) : Option Int :=
  (compatibles.map (fdt.nodeOffsetByCompatible (-1))).find? fun offset => decide (0 ≤ offset)

def numOfRdRegions (offset : Int) : BitVec 32 :=
  match fdt.getprop offset "redistributor-regions" with
  | none         => 1
  | some regions => regions.cells 0

-- A cell of a property that may be missing.
def cellOrZero (offset : Int) (name : String) : Nat :=
  match fdt.getprop offset name with
  | none      => 0
  | some prop => (prop.cells 0).toNat

def gicv2mNode (addrCell sizeCell : Int) (c : GicCursor) (offset : Int) : Except (Option GicCursor) GicCursor :=
  let c := { c with index := 0 }
  match fdt.getprop offset "reg" with
  | none     => .error (some c)
  | some reg =>
    let (frame, index) := readFrame addrCell sizeCell reg.cells c.index
    let c := c.put Gic.entryTypeGicMsiFrame frame fun entry => { entry with
      spiBase  := cellOrZero fdt offset "arm,msi-base-spi"
      spiCount := cellOrZero fdt offset "arm,msi-num-spis" }
    let c := c.countHdr fun h => { h with numMsiFrame := h.numMsiFrame + 1 }
    .ok { c with index }

-- The frames from `offset` on, by `gicv2m_frame_dt_arr[0]`. No search finds more nodes than there are offsets.
def gicv2mLoop (addrCell sizeCell : Int) : Nat → Int → GicCursor → Except (Option GicCursor) GicCursor
  | 0, _, _ => .error none
  | fuel + 1, offset, c =>
    if offset = -fdtErrNotfound then .ok c
    else
      match gicv2mNode fdt addrCell sizeCell c offset with
      | .error e => .error e
      | .ok c    =>
        gicv2mLoop addrCell sizeCell fuel (fdt.nodeOffsetByCompatible offset "arm,gic-v2m-frame") c

def gicv2mFrames (c : GicCursor) : Except (Option GicCursor) GicCursor :=
  let offset := fdt.nodeOffsetByCompatible (-1) "arm,gic-v2m-frame"
  if offset < 0 then .error (some c.finish)
  else
    let parent := fdt.parentOffset offset
    if fdt.sizeCells parent < 0 then .error (some c)
    else if fdt.addressCells parent < 0 then .error (some c)
    else gicv2mLoop fdt (fdt.addressCells parent) (fdt.sizeCells parent) (fdt.totalsize + 1) offset c

-- The nodes of `its_dt_arr[0]`. Nothing but their number is kept.
def itsLoop : Nat → Int → GicCursor → Except (Option GicCursor) GicCursor
  | 0, _, _ => .error none
  | fuel + 1, offset, c =>
    if offset = -fdtErrNotfound then .ok c
    else
      itsLoop fuel (fdt.nodeOffsetByCompatible offset "arm,gic-v3-its")
        (c.countHdr fun h => { h with numIts := h.numIts + 1 })

def gicIts (c : GicCursor) : Except (Option GicCursor) GicCursor :=
  let offset := fdt.nodeOffsetByCompatible (-1) "arm,gic-v3-its"
  if offset < 0 then .error (some c.finish)
  else itsLoop fdt (fdt.totalsize + 1) offset c

-- The part behind the checks of the node. `numOfRd` is what the variable `num_of_rd` holds before it is set.
def gicNode (numOfPe : Nat) (numOfRd : BitVec 32) (offset addrCell sizeCell : Int) (reg : Property) (c : GicCursor) :
    Except (Option GicCursor) GicCursor :=
  let numGicInterfaces := BitVec.ofNat 32 (reg.len / 4 / (addrCell + sizeCell).toNat)
  let c := c.fillGicd addrCell sizeCell reg.cells
  let (numOfRd, c) :=
    if c.table.header.gicVersion = 3 then
      let numOfRd := numOfRdRegions fdt offset
      (numOfRd, (·.fillGicrd addrCell sizeCell reg.cells)^[numOfRd.toNat] c)
    else (numOfRd, c)
  let c :=
    if (numGicInterfaces - numOfRd).toNat > 1 then c.fillCpuif addrCell sizeCell reg.cells numOfPe else c
  let numGicInterfaces := numGicInterfaces - (numOfRd + 1)
  if c.table.header.gicVersion = 2 then
    let c := if numGicInterfaces.toInt > 1 then c.fillGich addrCell sizeCell reg.cells else c
    gicv2mFrames fdt c
  else gicIts fdt c

def gicFound (numOfPe : Nat) (numOfRd : BitVec 32) (offset : Int) (c : GicCursor) :
    Except (Option GicCursor) GicCursor :=
  let parent := fdt.parentOffset offset
  if fdt.sizeCells parent < 0 then .error (some c)
  else if fdt.addressCells parent < 0 then .error (some c)
  else
    match fdt.getprop offset "reg" with
    | none     => .error (some c)
    | some reg => gicNode fdt numOfPe numOfRd offset (fdt.addressCells parent) (fdt.sizeCells parent) reg c

-- The table as it is when the function returns, or nothing if it never does. `gicInfo` is what the memory of the
-- entries holds before.
def palGicCreateInfoTableDt (numOfPe : Nat) (numOfRd : BitVec 32) (gicInfo : Nat → GicInfo.Entry) : Option GicCursor :=
  let c := GicCursor.finish { toCursor := .start gicInfo, index := 0, taken := fun _ => ⟨0, 0, []⟩ }
  let result :=
    match gicFind fdt gicv3DtArr with
    | some offset => gicFound fdt numOfPe numOfRd offset (c.countHdr fun h => { h with gicVersion := 3 })
    | none        =>
      match gicFind fdt gicv2DtArr with
      | some offset => gicFound fdt numOfPe numOfRd offset (c.countHdr fun h => { h with gicVersion := 2 })
      | none        => .error (some c)
  match result with
  | .error returned => returned
  | .ok c           => some c.finish

end

end Dt
