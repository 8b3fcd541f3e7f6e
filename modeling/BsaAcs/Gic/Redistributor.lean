import Mathlib.Data.BitVec
import Mathlib.Tactic

namespace Gic

-- `pal_interface.h`
def entryTypeGicd : Nat := 0x1001
def entryTypeGiccGicrd : Nat := 0x1002
def entryTypeGicrGicrd : Nat := 0x1003
def entryTypeGicits : Nat := 0x1004
def entryTypeEnd : Nat := 0xFF

structure GicInfoEntry where
  type    : Nat
  base    : Nat
  entryId : Nat
  length  : Nat
deriving DecidableEq, Repr

-- `gic.h` of the VAL. The masks of the affinity levels 1 to 3 are written there with a comparison
-- in the place of a shift.
def gicrTyper : Nat := 0x0008
def gicrCtlrFrameSize : Nat := 0x00010000
def gicrSgiPpiFrameSize : Nat := 0x00010000
def gicrTyperAff : Nat := 0xFFFFFFFF <<< 32
def gicrIcenabler : Nat := 0x0180
def gicrIsenabler : Nat := 0x0100
def gicdIcenabler : Nat := 0x0180
def gicdIsenabler : Nat := 0x0100
def peAff0 : Nat := 0xFF
def peAff1 : Nat := (decide (0xFF < 8)).toNat
def peAff2 : Nat := (decide (0xFF < 16)).toNat
def peAff3 : Nat := (decide (0xFF < 32)).toNat

-- The constants that the PAL takes from the headers of EDK2.
structure Edk2 where
  armCoreAff0             : Nat
  armCoreAff1             : Nat
  armCoreAff2             : Nat
  armCoreAff3             : Nat
  armGicrTyper            : Nat
  armGicrCtlrFrameSize    : Nat
  armGicrSgiPpiFrameSize  : Nat

-- The affinity fields of MPIDR_EL1 and the layout of a redistributor, as the architecture has them.
def Edk2.architectural : Edk2 where
  armCoreAff0            := 0xFF
  armCoreAff1            := 0xFF <<< 8
  armCoreAff2            := 0xFF <<< 16
  armCoreAff3            := 0xFF <<< 32
  armGicrTyper           := 0x0008
  armGicrCtlrFrameSize   := 0x00010000
  armGicrSgiPpiFrameSize := 0x00010000

def nextDwOffset : Nat := 0x4

-- The current PE and the registers, as 32-bit words.
structure Machine where
  mpidr : Nat
  mmio  : Nat → BitVec 32

def mmioRead32 (m : Machine) (addr : Nat) : Nat :=
  (m.mmio addr).toNat

def mmioRead64 (m : Machine) (addr : Nat) : Nat :=
  mmioRead32 m addr + 2 ^ 32 * mmioRead32 m (addr + 4)

-- The search both drivers make: the frame at `base` if the length is 0, else the frames up to
-- `base + length`. It returns the base of the first frame of the PE, or 0, and the frames that were
-- asked for their affinity. The number of steps is bounded by `fuel`.
def rdLoop (affinity : Nat → Nat) (cpuAffinity granularity limit : Nat) :
    Nat → Nat → Nat × List Nat
  | 0, _ => (0, [])
  | fuel + 1, base =>
    if base < limit then
      if affinity base = cpuAffinity then (base, [base])
      else
        let (found, asked) := rdLoop affinity cpuAffinity granularity limit fuel (base + granularity)
        (found, base :: asked)
    else (0, [])

def rdSearch (affinity : Nat → Nat) (cpuAffinity granularity base length : Nat) : Nat × List Nat :=
  if length = 0 then
    (if affinity base = cpuAffinity then base else 0, [base])
  else rdLoop affinity cpuAffinity granularity (base + length) length base

-- `gic_v3.c` of the VAL.

def valCpuAffinity (m : Machine) : Nat :=
  (m.mpidr &&& (peAff0 ||| peAff1 ||| peAff2)) ||| ((m.mpidr &&& peAff3) >>> 8)

def currentCpuRDBase (m : Machine) (mGicRedistributorBase length : Nat) : Nat × List Nat :=
  rdSearch (fun frame => (mmioRead64 m (frame + gicrTyper) &&& gicrTyperAff) >>> 32)
    (valCpuAffinity m) (gicrCtlrFrameSize + gicrSgiPpiFrameSize) mGicRedistributorBase length

-- `acs_gic.c`: the base and, through the pointer to 32 bits, the length.
def valGetGicrBase : List GicInfoEntry → Nat × Nat
  | [] => (0, 0)
  | entry :: rest =>
    if entry.type = entryTypeEnd then (0, 0)
    else if entry.type = entryTypeGicrGicrd then (entry.base, entry.length % 2 ^ 32)
    else if entry.type = entryTypeGiccGicrd then (entry.base, 0)
    else valGetGicrBase rest

def valGetGicdBase : List GicInfoEntry → Nat
  | [] => 0
  | entry :: rest =>
    if entry.type = entryTypeEnd then 0
    else if entry.type = entryTypeGicd then entry.base
    else valGetGicdBase rest

-- The redistributor that the VAL works with on the current PE.
def valRdBase (m : Machine) (table : List GicInfoEntry) : Nat × List Nat :=
  let (rdBase, rdbaseLen) := valGetGicrBase table
  currentCpuRDBase m rdBase rdbaseLen

def isSpi (intId : Nat) : Bool :=
  decide (intId ≥ 32 ∧ intId < 1020)

-- The register write of `v3_DisableInterruptSource` and `v3_EnableInterruptSource`.
def writeInterruptSource (distributor redistributor : Nat) (m : Machine)
    (table : List GicInfoEntry) (intId : Nat) : List (Nat × Nat) :=
  let regOffset := intId / 32
  let regShift := intId % 32
  if isSpi intId then [(valGetGicdBase table + distributor + 4 * regOffset, 1 <<< regShift)]
  else
    let cpuRdBase := (valRdBase m table).1
    if cpuRdBase = 0 then []
    else [(cpuRdBase + gicrCtlrFrameSize + redistributor + 4 * regOffset, 1 <<< regShift)]

def v3DisableInterruptSource : Machine → List GicInfoEntry → Nat → List (Nat × Nat) :=
  writeInterruptSource gicdIcenabler gicrIcenabler

def v3EnableInterruptSource : Machine → List GicInfoEntry → Nat → List (Nat × Nat) :=
  writeInterruptSource gicdIsenabler gicrIsenabler

-- `bsa_gic_its.c` of the PAL.

def palCpuAffinity (edk2 : Edk2) (m : Machine) : Nat :=
  ((m.mpidr &&& (edk2.armCoreAff0 ||| edk2.armCoreAff1 ||| edk2.armCoreAff2)) |||
    ((m.mpidr &&& edk2.armCoreAff3) >>> 8)) % 2 ^ 32

def getCurrentCpuRDBase (edk2 : Edk2) (m : Machine) (mGicRedistributorBase length : Nat) :
    Nat × List Nat :=
  rdSearch (fun frame => mmioRead32 m (frame + edk2.armGicrTyper + nextDwOffset))
    (palCpuAffinity edk2 m) (edk2.armGicrCtlrFrameSize + edk2.armGicrSgiPpiFrameSize)
    mGicRedistributorBase (length % 2 ^ 32)

-- `pal_gic.c`: what the walk over the table collects.
structure GicItsInfo where
  gicDBase  : Nat
  gicRdBase : Nat
  gicIts    : List (Nat × Nat)
deriving DecidableEq, Repr

def gicItsEntry (edk2 : Edk2) (m : Machine) (entry : GicInfoEntry) (info : GicItsInfo) :
    GicItsInfo :=
  if entry.type = entryTypeGicd then { info with gicDBase := entry.base }
  else if entry.type = entryTypeGicrGicrd ∨ entry.type = entryTypeGiccGicrd then
    if info.gicRdBase = 0 then
      if entry.type = entryTypeGicrGicrd then
        { info with gicRdBase := (getCurrentCpuRDBase edk2 m entry.base entry.length).1 }
      else { info with gicRdBase := (getCurrentCpuRDBase edk2 m entry.base 0).1 }
    else info
  else if entry.type = entryTypeGicits then
    { info with gicIts := info.gicIts ++ [(entry.base, entry.entryId)] }
  else info

def gicItsWalk (edk2 : Edk2) (m : Machine) : List GicInfoEntry → GicItsInfo → GicItsInfo
  | [], info => info
  | entry :: rest, info =>
    if entry.type = entryTypeEnd then info
    else gicItsWalk edk2 m rest (gicItsEntry edk2 m entry info)

-- The first part of `pal_gic_its_configure`, up to the checks of what was found.
def palGicItsInfo (edk2 : Edk2) (m : Machine) (table : List GicInfoEntry) : GicItsInfo :=
  gicItsWalk edk2 m table { gicDBase := 0, gicRdBase := 0, gicIts := [] }

end Gic
