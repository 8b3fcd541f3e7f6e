import BsaAcs.Dt.Fdt
import Mathlib.Logic.Function.Basic

namespace Dt

def systimerDtArr : List String := ["arm,armv8-timer", "arm,armv7-timer"]
def memtimerDtArr : List String := ["arm,armv7-timer-mem"]

def timerTypeSysTimer : Nat := 0x2001
def timerFlagAlwaysOn : Nat := 0x4

-- `TIMER_INFO_HDR`, as far as it is filled from a device tree.
structure TimerHeader where
  sEl1TimerFlag    : Nat
  nsEl1TimerFlag   : Nat
  el2TimerFlag     : Nat
  el2VirtTimerFlag : Nat
  virtualTimerFlag : Nat
  sEl1TimerGsiv    : Nat
  nsEl1TimerGsiv   : Nat
  el2TimerGsiv     : Nat
  virtualTimerGsiv : Nat
  el2VirtTimerGsiv : Nat
  numPlatformTimer : Nat
deriving DecidableEq, Repr

-- The entries of each array of a block.
def blockFrames : Nat := 8

-- The one block that is filled.
structure TimerBlock where
  type          : Nat
  timerCount    : Nat
  blockCntlBase : Nat
  frameNum      : Nat → Nat
  gtCntBase     : Nat → Nat
  gtCntEl0Base  : Nat → Nat
  gsiv          : Nat → Nat
  virtGsiv      : Nat → Nat
  flags         : Nat → Nat

structure TimerTable where
  header : TimerHeader
  gtInfo : TimerBlock

-- The body for one of the four interrupts, if a specifier has three cells: what is read at `index`, and the
-- `index` afterwards. The fields are 0 before.
def archSpecifier (intr : Nat → BitVec 32) (index : Nat) : Nat × Nat :=
  if intr index = gicPpi then (addOffset (intr (index + 1)) ppiOffset, index + 2 + 1) else (0, index + 1 + 1)

-- The interrupts of the secure and the non-secure EL1 timer, of the virtual timer and of the EL2 timer.
def archInterrupts (interruptCell : Int) (intr : Nat → BitVec 32) : Nat × Nat × Nat × Nat :=
  if interruptCell = 3 then
    let (sEl1, index) := archSpecifier intr 0
    let (nsEl1, index) := archSpecifier intr index
    let (virtual, index) := archSpecifier intr index
    let (el2, _) := archSpecifier intr index
    (sEl1, nsEl1, virtual, el2)
  else
    let skip := 1 + (interruptCell - 1).toNat
    ((intr 0).toNat, (intr skip).toNat, (intr (skip + skip)).toNat, (intr (skip + skip + skip)).toNat)

-- The interrupts of a frame. The second one is optional.
def frameInterrupts (interruptCell : Int) (intr : Property) : Nat × Nat :=
  if interruptCell = 3 then
    let (gsiv, index) :=
      if intr.cells 0 = gicSpi then (addOffset (intr.cells 1) spiOffset, 2) else (0, 1)
    let index := index + 1
    let virtGsiv :=
      if (intr.len / 4 : Nat) > interruptCell then
        if intr.cells index = gicSpi then addOffset (intr.cells (index + 1)) spiOffset else 0
      else 0
    (gsiv, virtGsiv)
  else
    let index := 1 + (interruptCell - 1).toNat
    ((intr.cells 0).toNat, if (intr.len / 4 : Nat) > interruptCell then (intr.cells index).toNat else 0)

section

variable (fdt : Libfdt)

-- The first of the strings that there is a node for, or the error of the last search.
def findCompatible : List String → Int → Int
  | [], offset => offset
  | compatible :: rest, _ =>
    let offset := fdt.nodeOffsetByCompatible (-1) compatible
    if offset ≥ 0 then offset else findCompatible rest offset

def systimerOffset : Int := findCompatible fdt systimerDtArr 0

def memtimerOffset : Int := findCompatible fdt memtimerDtArr 0

def resetTable (table : TimerTable) : TimerTable where
  header := ⟨0, 0, 0, 0, 0, 0, 0, 0, 0, 0, 0⟩
  gtInfo := { table.gtInfo with timerCount := 0 }

-- The timers of the PE. The function returns early with the table as it is then, or there is no table at
-- all: it does not return, or has written past the arrays.
def archTimer (table : TimerTable) : Except (Option TimerTable) TimerTable :=
  let offset := systimerOffset fdt
  if offset < 0 then .error (some table)
  else
    match fdtInterruptCells fdt offset with
    | none => .error none
    | some interruptCell =>
      if interruptCell < 1 ∨ interruptCell > 3 then .error (some table)
      else
        match fdt.getprop offset "interrupts" with
        | none => .error (some table)
        | some intr =>
          let (sEl1, nsEl1, virtual, el2) := archInterrupts interruptCell intr.cells
          let header := { table.header with
            sEl1TimerGsiv := sEl1, nsEl1TimerGsiv := nsEl1, virtualTimerGsiv := virtual, el2TimerGsiv := el2 }
          match fdt.getprop offset "always-on" with
          | none   => .ok { table with header }
          | some _ =>
            .ok { table with
              header := { header with
                sEl1TimerFlag    := timerFlagAlwaysOn
                nsEl1TimerFlag   := timerFlagAlwaysOn
                el2TimerFlag     := timerFlagAlwaysOn
                virtualTimerFlag := timerFlagAlwaysOn } }

-- One frame. What lies behind the arrays is lost if there is no entry for it, so there is no table any more.
def frameNode (addrCell : Int) (table : TimerTable) (offset : Int) : Except (Option TimerTable) TimerTable :=
  match fdt.getprop offset "reg", fdt.getprop offset "interrupts" with
  | some reg, some intr =>
    match fdtInterruptCells fdt offset with
    | none => .error none
    | some interruptCell =>
      if interruptCell < 1 ∨ interruptCell > 3 then .error (some table)
      else if table.gtInfo.timerCount ≥ blockFrames then .error none
      else
        let gt := table.gtInfo
        let n := gt.timerCount
        let (gsiv, virtGsiv) := frameInterrupts interruptCell intr
        .ok { table with
          gtInfo := { gt with
            timerCount   := n + 1
            frameNum     := Function.update gt.frameNum n ((fdtFrameNumber fdt offset) % 2 ^ 8).toNat
            gtCntBase    := Function.update gt.gtCntBase n (readAddress addrCell reg.cells 0)
            gtCntEl0Base := Function.update gt.gtCntEl0Base n 0
            gsiv         := Function.update gt.gsiv n gsiv
            virtGsiv     := Function.update gt.virtGsiv n virtGsiv
            flags        := Function.update gt.flags n 0 } }
  | _, _ => .error (some table)

-- The frames from `offset` on. There are no more of them than offsets.
def frameLoop (addrCell : Int) : Nat → Int → TimerTable → Except (Option TimerTable) TimerTable
  | 0, _, _ => .error none
  | fuel + 1, offset, table =>
    if offset = -fdtErrNotfound then .ok table
    else
      match frameNode fdt addrCell table offset with
      | .error e  => .error e
      | .ok table => frameLoop addrCell fuel (fdt.nextSubnode offset) table

-- The memory mapped timers.
def memTimer (table : TimerTable) : Except (Option TimerTable) TimerTable :=
  let offset := memtimerOffset fdt
  if offset < 0 then .error (some table)
  else
    let parent := fdt.parentOffset offset
    if fdt.sizeCells parent < 0 then .error (some table)
    else if fdt.addressCells parent < 1 ∨ fdt.addressCells parent > 2 then .error (some table)
    else
      match fdt.getprop offset "reg" with
      | none => .error (some table)
      | some reg =>
        let table := { table with
          gtInfo := { table.gtInfo with
            type          := timerTypeSysTimer
            blockCntlBase := readAddress (fdt.addressCells parent) reg.cells 0 } }
        if fdt.sizeCells offset < 0 then .error (some table)
        else if fdt.addressCells offset < 1 ∨ fdt.addressCells offset > 2 then .error (some table)
        else
          let subnode := fdt.subnodeOffset offset "frame"
          if subnode < 0 then .error (some table)
          else
            match frameLoop fdt (fdt.addressCells offset) (fdt.totalsize + 1) subnode table with
            | .error e  => .error e
            | .ok table =>
              .ok { table with header := { table.header with numPlatformTimer := table.gtInfo.timerCount } }

def palTimerCreateInfoTableDt (table : TimerTable) : Option TimerTable :=
  match archTimer fdt (resetTable table) >>= memTimer fdt with
  | .error result => result
  | .ok table     => some table

end

end Dt
