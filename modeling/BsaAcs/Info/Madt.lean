import BsaAcs.Info.Gic
import BsaAcs.Iovirt.Raw
import BsaAcs.Lib.Loop

-- The walks over the MADT of `pal_gic_create_info_table` and `pal_pe_create_info_table`. The table is given by
-- the bytes from its start on, behind its end lies whatever the memory holds.

namespace Madt

open Iovirt (Bytes)
open GicInfo (Cursor)

-- The size of `EFI_ACPI_6_1_MULTIPLE_APIC_DESCRIPTION_TABLE_HEADER`.
def headerSize : Nat := 44

section

variable (madt : Bytes) (entry : Nat)

def tableLength : Nat := madt.uint32 4

def entryType : Nat := madt.byte entry
def entryLength : Nat := madt.byte (entry + 1)

-- The types of the structures.
def acpiGic : Nat := 0x0B
def acpiGicd : Nat := 0x0C
def acpiGicr : Nat := 0x0E
def acpiGicIts : Nat := 0x0F

-- `EFI_ACPI_6_1_GIC_STRUCTURE`
def performanceInterruptGsiv : Nat := madt.uint32 (entry + 20)
def physicalBaseAddress : Nat := madt.uint64 (entry + 32)
def gicrBaseAddress : Nat := madt.uint64 (entry + 60)
def mpidr : Nat := madt.uint64 (entry + 68)

-- `EFI_ACPI_6_1_GIC_DISTRIBUTOR_STRUCTURE`
def gicdPhysicalBaseAddress : Nat := madt.uint64 (entry + 8)
def gicVersion : Nat := madt.byte (entry + 20)

-- `EFI_ACPI_6_1_GICR_STRUCTURE`
def discoveryRangeBaseAddress : Nat := madt.uint64 (entry + 4)
def discoveryRangeLength : Nat := madt.uint32 (entry + 12)

-- `EFI_ACPI_6_1_GIC_ITS_STRUCTURE`
def gicItsId : Nat := madt.uint32 (entry + 4)
def itsPhysicalBaseAddress : Nat := madt.uint64 (entry + 8)

end

-- The address of `Entry` from the start of the table on, the variable `Length`, the entries that have been
-- read, and what is filled in from them.
structure Walk (S : Type*) where
  entry  : Nat
  length : Nat
  read   : List Nat
  filled : S

section

variable {S : Type*} (madt : Bytes) (fill : Nat → S → S)

-- The body of the loop, which is entered before `Length` is compared for the first time.
def step (w : Walk S) : Walk S ⊕ Walk S :=
  let w := {
    entry  := w.entry + entryLength madt w.entry
    length := (w.length + entryLength madt w.entry) % 2 ^ 32
    read   := w.read ++ [w.entry]
    filled := fill w.entry w.filled }
  if w.length < tableLength madt then .inl w else .inr w

def walk (s : S) : Walk S :=
  { entry := headerSize, length := headerSize, read := [], filled := s }

-- `none` means that the fuel did not suffice.
def run (s : S) (fuel : Nat) : Option (Walk S) :=
  loop (step madt fill) fuel (walk s)

end

section

variable (madt : Bytes) (entry : Nat)

def gicGicc (c : Cursor) : Cursor :=
  let c :=
    if physicalBaseAddress madt entry ≠ 0 then
      c.fill ({ · with type := Gic.entryTypeCpuif, base := physicalBaseAddress madt entry })
    else c
  if gicrBaseAddress madt entry ≠ 0 then
    let c := c.fill ({ · with type := Gic.entryTypeGiccGicrd, base := gicrBaseAddress madt entry, length := 0 })
    c.count fun h => { h with numGicrd := h.numGicrd + 1 }
  else c

def gicGicd (c : Cursor) : Cursor :=
  let c := c.fill ({ · with type := Gic.entryTypeGicd, base := gicdPhysicalBaseAddress madt entry })
  c.count fun h => { h with gicVersion := gicVersion madt entry, numGicd := h.numGicd + 1 }

def gicGicr (c : Cursor) : Cursor :=
  let c := c.fill ({ · with
    type   := Gic.entryTypeGicrGicrd
    base   := discoveryRangeBaseAddress madt entry
    length := discoveryRangeLength madt entry })
  c.count fun h => { h with numGicrd := h.numGicrd + 1 }

def gicIts (c : Cursor) : Cursor :=
  let c := c.fill ({ · with
    type  := Gic.entryTypeGicits
    base  := itsPhysicalBaseAddress madt entry
    itsId := gicItsId madt entry })
  c.count fun h => { h with numIts := h.numIts + 1 }

def gicFill (c : Cursor) : Cursor :=
  if entryType madt entry = acpiGic then gicGicc madt entry c
  else if entryType madt entry = acpiGicd then gicGicd madt entry c
  else if entryType madt entry = acpiGicr then gicGicr madt entry c
  else if entryType madt entry = acpiGicIts then gicIts madt entry c
  else c

end

-- The loop of `pal_gic_create_info_table`, and the table that the function leaves.
def gicWalk (madt : Bytes) (gicInfo : Nat → GicInfo.Entry) (fuel : Nat) : Option (Walk Cursor) :=
  run madt (gicFill madt) (.start gicInfo) fuel

-- An entry of the PE info table, as the walk fills it in.
structure PeInfoEntry where
  peNum   : Nat
  mpidr   : Nat
  pmuGsiv : Nat
deriving DecidableEq, Repr

-- The entries that have been filled in, and the largest affinities.
structure PeTable where
  peInfo       : List PeInfoEntry
  mpidrAff0Max : Nat
  mpidrAff1Max : Nat
  mpidrAff2Max : Nat
  mpidrAff3Max : Nat
deriving DecidableEq, Repr

def PeTable.empty : PeTable :=
  { peInfo := [], mpidrAff0Max := 0, mpidrAff1Max := 0, mpidrAff2Max := 0, mpidrAff3Max := 0 }

-- `UPDATE_AFF_MAX`
def updateAffMax (src dest mask : Nat) : Nat :=
  if dest &&& mask > src &&& mask then dest &&& mask else src &&& mask

def peFill (madt : Bytes) (entry : Nat) (t : PeTable) : PeTable :=
  if entryType madt entry = acpiGic then
    { peInfo       := t.peInfo ++ [⟨t.peInfo.length, mpidr madt entry, performanceInterruptGsiv madt entry⟩]
      mpidrAff0Max := updateAffMax t.mpidrAff0Max (mpidr madt entry) 0x000000ff
      mpidrAff1Max := updateAffMax t.mpidrAff1Max (mpidr madt entry) 0x0000ff00
      mpidrAff2Max := updateAffMax t.mpidrAff2Max (mpidr madt entry) 0x00ff0000
      mpidrAff3Max := updateAffMax t.mpidrAff3Max (mpidr madt entry) 0xff00000000 }
  else t

-- The loop of `pal_pe_create_info_table`, and the entries and `gMpidrMax` that the function leaves.
def peWalk (madt : Bytes) (fuel : Nat) : Option (Walk PeTable) :=
  run madt (peFill madt) .empty fuel

def palPeCreateInfoTable (madt : Bytes) (fuel : Nat) : Option (List PeInfoEntry × Nat) :=
  (peWalk madt fuel).map fun w =>
    (w.filled.peInfo,
      w.filled.mpidrAff0Max ||| w.filled.mpidrAff1Max ||| w.filled.mpidrAff2Max ||| w.filled.mpidrAff3Max)

end Madt
