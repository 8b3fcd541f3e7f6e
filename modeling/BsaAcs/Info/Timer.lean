import BsaAcs.Lib.Loop
import Mathlib.Algebra.BigOperators.Group.Finset.Basic

namespace Timer

structure TimerInfoHdr where
  nsEl1TimerFlag   : Nat
  el2TimerFlag     : Nat
  nsEl1TimerGsiv   : Nat
  el2TimerGsiv     : Nat
  virtualTimerFlag : Nat
  virtualTimerGsiv : Nat
  el2VirtTimerGsiv : Nat
  numPlatformTimer : Nat
  sysTimerStatus   : Nat

-- A block of memory mapped timers. The members of its frames are read at any index, as in memory.
structure TimerInfoGtblock where
  timerCount    : Nat
  blockCntlBase : Nat
  frameNum      : Nat → Nat
  gtCntBase     : Nat → Nat
  gsiv          : Nat → Nat
  flags         : Nat → Nat

-- The memory from the first block on, with the number of blocks that are part of the table.
structure TimerInfoTable where
  header    : TimerInfoHdr
  gtInfo    : Nat → TimerInfoGtblock
  numBlocks : Nat
  sum       : header.numPlatformTimer = ∑ j ∈ Finset.range numBlocks, (gtInfo j).timerCount
  numLt     : header.numPlatformTimer < 2 ^ 32
  blocksLe  : numBlocks ≤ 2 ^ 32

-- `TIMER_INFO_e`
inductive TimerInfo
  | cntfreq
  | phyEl1Intid
  | phyEl1Flags
  | virEl1Intid
  | virEl1Flags
  | phyEl2Intid
  | phyEl2Flags
  | virEl2Intid
  | virEl2Flags
  | numPlatformTimers
  | isPlatformTimerSecure
  | sysCntlBase
  | sysCntBaseN
  | frameNum
  | sysIntid
  | sysTimerStatus
deriving DecidableEq, Repr

def noBlock : Nat := 0xFFFF

section

variable (table : TimerInfoTable)

-- The instance that is left, and what `block` and `index` point to.
def entryStep : Nat × Nat × Nat → (Nat × Nat × Nat) ⊕ (Nat × Nat)
  | (inst, block, index) =>
    let timerCount := (table.gtInfo block).timerCount
    if inst > timerCount then .inl (inst - timerCount, (block + 1) % 2 ^ 32, (inst - timerCount) % 2 ^ 32)
    else .inr (block, index)

-- What is stored to `block` and `index`, of which only the former is set for an instance out of range.
-- There is no result if the loop has not ended after `fuel` rounds.
def valPlatformTimerGetEntryIndex (fuel inst index : Nat) : Option (Nat × Nat) :=
  if inst > table.header.numPlatformTimer then some (noBlock, index)
  else loop (entryStep table) fuel (inst, 0, inst % 2 ^ 32)

-- A case of the switch of `val_timer_get_info` that goes on with the next one if it finds no block.
def platformCase (entry : Nat × Nat) (field : TimerInfoGtblock → Nat → Nat) (next : Nat) : Nat :=
  if entry.fst ≠ noBlock then field (table.gtInfo entry.fst) entry.snd else next

def secureField (block : TimerInfoGtblock) (index : Nat) : Nat := block.flags index >>> 16 &&& 1

-- The cases from one on, in the order of the source.
def intidCase (entry : Nat × Nat) : Nat :=
  platformCase table entry TimerInfoGtblock.gsiv table.header.nsEl1TimerFlag

def frameNumCase (entry : Nat × Nat) : Nat :=
  platformCase table entry TimerInfoGtblock.frameNum (intidCase table entry)

def cntBaseCase (entry : Nat × Nat) : Nat :=
  platformCase table entry TimerInfoGtblock.gtCntBase (frameNumCase table entry)

def cntlBaseCase (entry : Nat × Nat) : Nat :=
  platformCase table entry (fun block _ => block.blockCntlBase) (cntBaseCase table entry)

def secureCase (entry : Nat × Nat) : Nat :=
  platformCase table entry secureField (cntlBaseCase table entry)

-- `cntFrq` is the counter frequency register, and `index` what the local variable holds that is not set.
def valTimerGetInfo (fuel cntFrq index : Nat) (infoType : TimerInfo) (inst : Nat) : Option Nat :=
  let entry := valPlatformTimerGetEntryIndex table fuel inst index
  match infoType with
  | .cntfreq               => some cntFrq
  | .phyEl1Intid           => some table.header.nsEl1TimerGsiv
  | .virEl1Intid           => some table.header.virtualTimerGsiv
  | .phyEl2Intid           => some table.header.el2TimerGsiv
  | .virEl2Intid           => some table.header.el2VirtTimerGsiv
  | .numPlatformTimers     => some table.header.numPlatformTimer
  | .isPlatformTimerSecure => entry.map (secureCase table)
  | .sysCntlBase           => entry.map (cntlBaseCase table)
  | .sysCntBaseN           => entry.map (cntBaseCase table)
  | .frameNum              => entry.map (frameNumCase table)
  | .sysIntid              => entry.map (intidCase table)
  | .phyEl1Flags           => some table.header.nsEl1TimerFlag
  | .virEl1Flags           => some table.header.virtualTimerFlag
  | .phyEl2Flags           => some table.header.el2TimerFlag
  | .sysTimerStatus        => some table.header.sysTimerStatus
  | .virEl2Flags           => some 0

end

end Timer
