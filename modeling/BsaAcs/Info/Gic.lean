import BsaAcs.Gic.Redistributor
import Mathlib.Logic.Function.Basic

-- The GIC info table of `pal_uefi.h`, as the PAL fills it in.

namespace Gic

def entryTypeCpuif : Nat := 0x1000
def entryTypeGicMsiFrame : Nat := 0x1005
def entryTypeGich : Nat := 0x1006

end Gic

namespace GicInfo

structure Hdr where
  gicVersion  : Nat
  numGicd     : Nat
  numGicrd    : Nat
  numIts      : Nat
  numMsiFrame : Nat
deriving DecidableEq, Repr

-- A header that is set to zero.
def Hdr.zero : Hdr :=
  { gicVersion := 0, numGicd := 0, numGicrd := 0, numIts := 0, numMsiFrame := 0 }

structure Entry where
  type     : Nat
  base     : Nat
  itsId    : Nat
  length   : Nat
  spiCount : Nat
  spiBase  : Nat
deriving DecidableEq, Repr

-- The memory from the first entry on.
structure Table where
  header  : Hdr
  gicInfo : Nat → Entry

-- The table, and the index of the entry that `GicEntry` points to.
structure Cursor where
  table    : Table
  gicEntry : Nat

namespace Cursor

variable (c : Cursor)

def start (gicInfo : Nat → Entry) : Cursor :=
  { table := { header := .zero, gicInfo }, gicEntry := 0 }

def modify (f : Entry → Entry) : Cursor :=
  { c with table.gicInfo := Function.update c.table.gicInfo c.gicEntry (f (c.table.gicInfo c.gicEntry)) }

-- Fills the entry and goes on to the one behind it.
def fill (f : Entry → Entry) : Cursor :=
  { c.modify f with gicEntry := c.gicEntry + 1 }

-- `GicEntry->type = 0xFF`
def finish : Cursor :=
  c.modify ({ · with type := Gic.entryTypeEnd })

def count (f : Hdr → Hdr) : Cursor :=
  { c with table.header := f c.table.header }

end Cursor

end GicInfo
