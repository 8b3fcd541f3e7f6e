import BsaAcs.Pcie.Basic

namespace Pcie

-- `bsa_acs_pcie.h`
inductive BitfieldRegisterType
  | header
  | pcieCap
  | pcieEcap
  | other (value : Nat)
deriving DecidableEq, Repr

inductive BitfieldAttrType
  | hwInit
  | readOnly
  | stickyRo
  | rsvdpRo
  | rsvdzRo
  | readWrite
  | stickyRw
  | other (value : Nat)
deriving DecidableEq, Repr

def wordAlignMask : Nat := 0x3
def bitsInByte : Nat := 0x8
def warnStrLen : Nat := 7

structure PcieCfgregBitfieldEntry where
  regType   : BitfieldRegisterType
  capId     : Nat
  ecapId    : Nat
  regOffset : Nat
  start     : Nat
  endBit    : Nat
  cfgValue  : BitVec 32
  attr      : BitfieldAttrType
  errStr1   : String
  errStr2   : String
deriving DecidableEq, Repr

-- A shift by a register takes the amount modulo the width on AArch64. For amounts from 32 on, the C
-- standard leaves it undefined.
def lsl (w : BitVec 32) (amount : Nat) : BitVec 32 := w <<< (amount % 32)
def lsr (w : BitVec 32) (amount : Nat) : BitVec 32 := w >>> (amount % 32)

def regMask (endBit start : Nat) : BitVec 32 :=
  lsr (lsl (~~~0) start &&& (lsl 1 (endBit + 1) - 1)) start

def regShift (alignmentByteCnt start : Nat) : Nat :=
  alignmentByteCnt * bitsInByte + start

-- `!val_strncmp(err_str, "WARNING", WARN_STR_LEN)`
def isWarning (errStr : String) : Bool :=
  errStr.toList.take warnStrLen == "WARNING".toList

-- The locals that a read or a search leaves unset.
structure BitfieldUnset where
  regValue : BitVec 32
  capBase  : Nat

variable {S : Type} (hw : Mmio S) (table : PcieInfoTable) (s : S) (unset : BitfieldUnset) (bdf : Nat)

-- The status, and the capability structure that the register belongs to.
def bitfieldCapBase (bfEntry : PcieCfgregBitfieldEntry) : Option (Nat × Nat) :=
  match bfEntry.regType with
  | .header   => some (pcieSuccess, 0)
  | .pcieCap  =>
    (valPcieFindCapability hw table s bdf .pcieCap bfEntry.capId).map fun (status, offset) =>
      (status, offset.getD unset.capBase)
  | .pcieEcap =>
    (valPcieFindCapability hw table s bdf .pcieEcap bfEntry.ecapId).map fun (status, offset) =>
      (status, offset.getD unset.capBase)
  | .other _  => some (1, unset.capBase)

-- A mismatch is passed over if the text says that it is only a warning.
def mismatch (errStr : String) : Nat :=
  if isWarning errStr then 0 else 1

-- The accesses to the register, with the value that the last one leaves in `reg_value` and in
-- `reg_overwrite_value`, and the state of the hardware.
def bitfieldAttrCheck (offset : Nat) (mask : BitVec 32) (shift : Nat) (regValue : BitVec 32) :
    BitfieldAttrType → Option (BitVec 32 × BitVec 32 × S)
  | .hwInit | .readOnly | .stickyRo =>
    let regOverwriteValue := regValue ^^^ lsl mask shift
    let s := valPcieWriteCfg hw table s bdf offset regOverwriteValue
    some (regValue, (valPcieReadCfg hw table s bdf offset).getD regOverwriteValue, s)
  | .rsvdpRo =>
    let s := valPcieWriteCfg hw table s bdf offset regValue
    let regOverwriteValue := (valPcieReadCfg hw table s bdf offset).getD regValue
    some (0, lsr regOverwriteValue shift &&& mask, s)
  | .rsvdzRo =>
    let regOverwriteValue := regValue &&& ~~~lsl mask shift
    let s := valPcieWriteCfg hw table s bdf offset regOverwriteValue
    some (regValue, (valPcieReadCfg hw table s bdf offset).getD regOverwriteValue, s)
  | .readWrite | .stickyRw =>
    let tempRegValue := regValue
    let regOverwriteValue := regValue ^^^ lsl mask shift
    let s := valPcieWriteCfg hw table s bdf offset regOverwriteValue
    let regValue := (valPcieReadCfg hw table s bdf offset).getD regValue
    some (regValue, regOverwriteValue, valPcieWriteCfg hw table s bdf offset tempRegValue)
  | .other _ => none

def bitfieldCheckAt (offset alignmentByteCnt : Nat) (bfEntry : PcieCfgregBitfieldEntry) : Nat × S :=
  let shift := regShift alignmentByteCnt bfEntry.start
  let mask := regMask bfEntry.endBit bfEntry.start
  let regValue := (valPcieReadCfg hw table s bdf offset).getD unset.regValue
  -- Status bits are cleared by the ones that are written back.
  let s := valPcieWriteCfg hw table s bdf offset regValue
  let regValue := (valPcieReadCfg hw table s bdf offset).getD regValue
  let bfValue := lsr regValue shift &&& mask
  if bfValue ≠ bfEntry.cfgValue then (mismatch bfEntry.errStr1, s)
  else
    match bitfieldAttrCheck hw table s bdf offset mask shift regValue bfEntry.attr with
    | none => (1, s)
    | some (regValue, regOverwriteValue, s) =>
      if regOverwriteValue ≠ regValue then (mismatch bfEntry.errStr2, s) else (0, s)

-- The status and the state of the hardware. There is no result if the search for the capability has none.
def valPcieBitfieldCheck (bfEntry : PcieCfgregBitfieldEntry) : Option (Nat × S) :=
  let alignmentByteCnt := bfEntry.regOffset &&& wordAlignMask
  let regOffset := bfEntry.regOffset - alignmentByteCnt
  match bitfieldCapBase hw table s unset bdf bfEntry with
  | none => none
  | some (status, capBase) =>
    if status ≠ pcieSuccess then some (status, s)
    else some (bitfieldCheckAt hw table s unset bdf ((capBase + regOffset) % 2 ^ 32) alignmentByteCnt bfEntry)

end Pcie
