import BsaAcs.Pcie.Basic

namespace Pcie

-- `bsa_acs_pcie_spec.h`
def crMseShift : Nat := 1
def crBmeShift : Nat := 2
def crSerreShift : Nat := 8
def srStaShift : Nat := 27
def ssrStaShift : Nat := 27
def dctlrOffset : Nat := 8
def dctlrCereShift : Nat := 0
def dctlrNfereShift : Nat := 1
def dctlrFereShift : Nat := 2
def dctlrUrreShift : Nat := 3
def dctlrDsrShift : Nat := 16
def dsrUrdShift : Nat := 3

section

variable {S : Type} (hw : Mmio S) (table : PcieInfoTable) (s : S)

-- The helpers read a word, change it and write it back. If the function has no mapping, then the word
-- stays unset, and the write does nothing.
def readModifyWrite (bdf offset : Nat) (f : BitVec 32 → BitVec 32) : S :=
  match valPcieReadCfg hw table s bdf offset with
  | none => s
  | some regValue => valPcieWriteCfg hw table s bdf offset (f regValue)

def valPcieDisableBme (bdf : Nat) : S :=
  readModifyWrite hw table s bdf type01Cr (· &&& ~~~(1#32 <<< crBmeShift))

def valPcieEnableBme (bdf : Nat) : S :=
  readModifyWrite hw table s bdf type01Cr (· ||| (1#32 <<< crBmeShift))

def valPcieDisableMsa (bdf : Nat) : S :=
  readModifyWrite hw table s bdf type01Cr (· &&& ~~~(1#32 <<< crMseShift))

def valPcieEnableMsa (bdf : Nat) : S :=
  readModifyWrite hw table s bdf type01Cr (· ||| (1#32 <<< crMseShift))

-- The word is written without being read.
def valPcieClearUrd (unset bdf : Nat) : Option S :=
  (pciecsBase hw table s unset bdf).map fun base =>
    valPcieWriteCfg hw table s bdf ((base + dctlrOffset) % 2 ^ 32) (1#32 <<< (dctlrDsrShift + dsrUrdShift))

def valPcieClearDeviceStatusError (unset bdf : Nat) : Option S :=
  (pciecsBase hw table s unset bdf).map fun base =>
    readModifyWrite hw table s bdf ((base + dctlrOffset) % 2 ^ 32) (· ||| (0xF#32 <<< dctlrDsrShift))

def valPcieClearSigTargetAbort (bdf : Nat) : S :=
  let s := readModifyWrite hw table s bdf type01Cr (· ||| (1#32 <<< srStaShift))
  readModifyWrite hw table s bdf type1SecSta (· ||| (1#32 <<< ssrStaShift))

def valPcieDisableEru (unset bdf : Nat) : Option S :=
  let s := readModifyWrite hw table s bdf type01Cr (· &&& ~~~(1#32 <<< crSerreShift))
  (pciecsBase hw table s unset bdf).map fun base =>
    readModifyWrite hw table s bdf ((base + dctlrOffset) % 2 ^ 32)
      (· &&& ~~~(1#32 <<< dctlrCereShift ||| 1#32 <<< dctlrNfereShift |||
        1#32 <<< dctlrFereShift ||| 1#32 <<< dctlrUrreShift))

inductive Helper
  | enableBme
  | disableBme
  | enableMsa
  | disableMsa
  | disableEru
  | clearUrd
  | clearDeviceStatusError
  | clearSigTargetAbort
deriving DecidableEq, Repr

def Helper.run (unset bdf : Nat) : Helper → Option S
  | enableBme              => some (valPcieEnableBme hw table s bdf)
  | disableBme             => some (valPcieDisableBme hw table s bdf)
  | enableMsa              => some (valPcieEnableMsa hw table s bdf)
  | disableMsa             => some (valPcieDisableMsa hw table s bdf)
  | disableEru             => valPcieDisableEru hw table s unset bdf
  | clearUrd               => valPcieClearUrd hw table s unset bdf
  | clearDeviceStatusError => valPcieClearDeviceStatusError hw table s unset bdf
  | clearSigTargetAbort    => some (valPcieClearSigTargetAbort hw table s bdf)

end

-- How the bits of a word take a write: some are set to what is written, some are cleared by a 1, and
-- the rest are read-only.
structure Attr where
  rw       : BitVec 32
  w1c      : BitVec 32
  disjoint : rw &&& w1c = 0

def Attr.write (attr : Attr) (old data : BitVec 32) : BitVec 32 :=
  (data &&& attr.rw) ||| (old &&& ~~~data &&& attr.w1c) ||| (old &&& ~~~(attr.rw ||| attr.w1c))

abbrev Regs := Nat → BitVec 32

def configSpace (attr : Nat → Attr) : Mmio Regs where
  read regs addr := regs addr
  write regs addr data := Function.update regs addr ((attr addr).write (regs addr) data)

-- Command below Status.
def commandStatus : Attr where
  rw       := 0x0000FFFF
  w1c      := 0xF9000000
  disjoint := by decide

-- I/O Base and Limit below Secondary Status.
def secondaryStatus : Attr where
  rw       := 0x0000FFFF
  w1c      := 0xF9000000
  disjoint := by decide

-- Device Control below Device Status.
def deviceControlStatus : Attr where
  rw       := 0x0000FFFF
  w1c      := 0x000F0000
  disjoint := by decide

-- A base address register, of which the address bits can be written.
def bar (mask : BitVec 32) : Attr where
  rw       := mask
  w1c      := 0
  disjoint := by simp

-- A Type 0 header has a base address register in the place of Secondary Status.
inductive Header
  | type0 (barMask : BitVec 32)
  | type1
deriving DecidableEq, Repr

def Header.secondary : Header → Attr
  | type0 barMask => bar barMask
  | type1         => secondaryStatus

-- The capability list leads from `p` to the PCI Express capability at `q`, outside of the header.
inductive CapChain (read : Nat → BitVec 32) (q : Nat) : Nat → Prop
  | here     : (0x40 ≤ q) → (q % 4 = 0) → capStep capLayout read cidPciecs q = .inr (some q) →
    CapChain read q q
  | next {p p'} : (0x40 ≤ p) → (p % 4 = 0) → capStep capLayout read cidPciecs p = .inl p' →
    CapChain read q p' → CapChain read q p

-- A function in the config space: its registers start at `addr`, and its PCI Express capability is at
-- `pciecs`, if it has one.
structure PcieFunction (table : PcieInfoTable) (attr : Nat → Attr) where
  bdf       : Nat
  addr      : Nat
  pciecs    : Option Nat
  header    : Header
  mapped    : ∀ offset < 4096, configAddr table bdf offset = some (addr + offset)
  aligned   : addr % 4 = 0
  command   : attr (addr + type01Cr) = commandStatus
  secondary : attr (addr + type1SecSta) = header.secondary
  outside   : ∀ q ∈ pciecs, 0x40 ≤ q ∧ q < 0x100 ∧ q % 4 = 0
  device    : ∀ q ∈ pciecs, attr (addr + (q + dctlrOffset)) = deviceControlStatus

-- The bits that the description of a helper names, in the words of the function: those of the
-- Command and Status word, the Secondary Status word and the Device Control and Status word.
namespace Helper

def commandBits : Helper → BitVec 32
  | enableBme | disableBme => 1 <<< 2
  | enableMsa | disableMsa => 1 <<< 1
  | disableEru             => 1 <<< 8
  | clearSigTargetAbort    => 1 <<< 27
  | clearUrd | clearDeviceStatusError => 0

def secondaryBits : Header → Helper → BitVec 32
  | .type1, clearSigTargetAbort => 1 <<< 27
  | _, _                        => 0

def deviceBits : Helper → BitVec 32
  | disableEru             => 0xF
  | clearUrd               => 1 <<< 19
  | clearDeviceStatusError => 0xF <<< 16
  | _                      => 0

def sets : Helper → Bool
  | enableBme | enableMsa => true
  | _                     => false

-- What a helper writes to the word at Device Control, if the read of this word has returned `word`.
def deviceData : Helper → BitVec 32 → BitVec 32
  | clearUrd, _                  => 1 <<< 19
  | clearDeviceStatusError, word => word ||| 0xF <<< 16
  | disableEru, word             => word &&& ~~~0xF
  | _, word                      => word

-- What a helper needs of Device Control and Status.
def DeviceQuiet : Helper → BitVec 32 → Prop
  | disableEru, word => word &&& 0x000F0000 = 0
  | clearUrd, word   => word &&& 0x0000FFFF = 0
  | _, _             => True

end Helper

namespace PcieFunction

variable {table : PcieInfoTable} {attr : Nat → Attr} (fn : PcieFunction table attr) (regs : Regs)

-- The address of Device Control and Status.
def deviceAddr : Option Nat :=
  fn.pciecs.map fun q => fn.addr + (q + dctlrOffset)

def bits (h : Helper) (a : Nat) : BitVec 32 :=
  if a = fn.addr + type01Cr then h.commandBits
  else if a = fn.addr + type1SecSta then h.secondaryBits fn.header
  else if fn.deviceAddr = some a then h.deviceBits
  else 0

-- The registers with the named bits set or cleared and all others as they were.
def intended (h : Helper) : Regs :=
  fun a => if h.sets then regs a ||| fn.bits h a else regs a &&& ~~~fn.bits h a

-- What the search for the PCI Express capability ends with.
def Finds (found : Option Nat) : Prop :=
  if regs (fn.addr + type01Cpr) = pcieUnknownResponse then found = none
  else ∃ n, Loop.Leaves (capStep capLayout (fun offset => regs (fn.addr + (offset - offset % 4))) cidPciecs) n
    (regs (fn.addr + type01Cpr) &&& 0xFF).toNat found

-- What a helper needs that goes to Device Control at the end of a search. If the search does not lead
-- to the capability, so that the helper writes elsewhere, then the word there has to stay as it is, and
-- there must be nothing to clear in the capability.
def SearchQuiet (unset : Nat) (h : Helper) : Prop :=
  ∃ found, fn.Finds regs found ∧
    let a := (fn.addr + (found.getD unset + dctlrOffset) % 2 ^ 32) % 2 ^ 64
    if fn.deviceAddr = some a then h.DeviceQuiet (regs a)
    else (attr a).write (regs a) (h.deviceData (regs (a - a % 4))) = regs a ∧
      ∀ d ∈ fn.deviceAddr, regs d &&& h.deviceBits = 0

-- What a helper needs of the registers it writes to.
def Quiet (unset : Nat) (h : Helper) : Prop :=
  let commandStatusReg := regs (fn.addr + type01Cr)
  let secondaryStatusReg := regs (fn.addr + type1SecSta)
  match h with
  | .enableBme | .disableBme | .enableMsa | .disableMsa => commandStatusReg &&& 0xF9000000 = 0
  | .disableEru =>
    commandStatusReg &&& 0xF9000000 = 0 ∧
      fn.SearchQuiet (Function.update regs (fn.addr + type01Cr) (commandStatusReg &&& ~~~(1#32 <<< 8))) unset h
  | .clearUrd | .clearDeviceStatusError => fn.SearchQuiet regs unset h
  | .clearSigTargetAbort =>
    commandStatusReg &&& 0xF1000000 = 0 ∧
      match fn.header with
      | .type1         => secondaryStatusReg &&& 0xF1000000 = 0
      | .type0 barMask => barMask.getLsbD 27 = true → secondaryStatusReg.getLsbD 27 = true

end PcieFunction
end Pcie
