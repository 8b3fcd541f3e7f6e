import Mathlib.Data.BitVec
import Mathlib.Tactic

namespace Wd

-- `bsa_acs_wd.h`
def wdIidrOffset : Nat := 0xFCC
def wdCsOffset : Nat := 0x0
def wdOrOffset : Nat := 0x8
def wdOrUpperWordOffset : Nat := 0xC

structure WdInfoBlock where
  wdCtrlBase    : Nat
  wdRefreshBase : Nat
  wdGsiv        : Nat
  wdFlags       : Nat
deriving DecidableEq, Repr

-- The entries are read at any index, as in memory.
structure WdInfoTable where
  numWd  : Nat
  wdInfo : Nat → WdInfoBlock

-- `WD_INFO_TYPE_e`
inductive WdInfoType
  | count
  | ctrlBase
  | refreshBase
  | gsiv
  | isSecure
  | isEdge
deriving DecidableEq, Repr

-- The words of the memory mapped registers, and the writes made to them. No register is changed by a read.
structure Machine where
  mem    : Nat → BitVec 32
  writes : List (Nat × BitVec 32)

-- `pal_mmio_read` drops the last two bits of the address, `pal_mmio_write` does not.
def valMmioRead (m : Machine) (addr : Nat) : BitVec 32 :=
  m.mem (addr - addr % 4)

def valMmioWrite (addr : Nat) (data : BitVec 32) (m : Machine) : Machine where
  mem    := Function.update m.mem addr data
  writes := m.writes ++ [(addr, data)]

-- `VAL_EXTRACT_BITS(data, 16, 19)`
def architectureRevision (data : BitVec 32) : Nat :=
  (data >>> 16 &&& 0xF).toNat

section

variable (table : WdInfoTable)

def valWdGetInfo (index : Nat) : WdInfoType → Nat
  | .count       => table.numWd
  | .ctrlBase    => (table.wdInfo index).wdCtrlBase
  | .refreshBase => (table.wdInfo index).wdRefreshBase
  | .gsiv        => (table.wdInfo index).wdGsiv
  | .isSecure    => (table.wdInfo index).wdFlags >>> 2 &&& 1
  | .isEdge      => (table.wdInfo index).wdFlags &&& 1

-- The address of a register in the control frame.
def ctrlReg (index offset : Nat) : Nat :=
  ((table.wdInfo index).wdCtrlBase + offset) % 2 ^ 64

def valWdEnable (index : Nat) (m : Machine) : Machine :=
  valMmioWrite (ctrlReg table index wdCsOffset) 1 m

def valWdDisable (index : Nat) (m : Machine) : Machine :=
  valMmioWrite (ctrlReg table index wdCsOffset) 0 m

-- The local `ctrl_base` has 32 bits, and so has the sum with the offset.
def probedRevision (index : Nat) (m : Machine) : Nat :=
  let ctrlBase := valWdGetInfo table index .ctrlBase % 2 ^ 32
  architectureRevision (valMmioRead m ((ctrlBase + wdIidrOffset) % 2 ^ 32))

def valWdSetWs0 (counterFreq index timeout : Nat) (m : Machine) : Nat × Machine :=
  if timeout = 0 then (0, valWdDisable table index m)
  else
    let data := probedRevision table index m
    let ticks := counterFreq * timeout % 2 ^ 64
    if data = 0 ∧ ticks >>> 32 ≠ 0 then (1, m)
    else
      let worL := BitVec.ofNat 32 ticks
      let worH := BitVec.ofNat 32 (ticks >>> 32)
      let m := valMmioWrite (ctrlReg table index wdOrOffset) worL m
      let m := if data = 1 then valMmioWrite (ctrlReg table index wdOrUpperWordOffset) worH m else m
      (0, valWdEnable table index m)

end

end Wd
