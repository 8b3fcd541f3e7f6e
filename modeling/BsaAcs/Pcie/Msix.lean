import BsaAcs.Pcie.Bar
import BsaAcs.Pcie.Control

namespace Pcie

-- `bsa_acs_pcie_spec.h`
def cidMsix : Nat := 0x11
def msiXEnableShift : Nat := 31
def msiXTorOffset : Nat := 0x4
def msiXMsgTblAddrOffset : Nat := 0x0
def msiXMsgTblDataOffset : Nat := 0x8
def msiXMsgTblMvcOffset : Nat := 0xC
def msiXTableBirMask : BitVec 32 := 0x7
def msiXEntrySize : Nat := 16

-- The locals that a read or a search leaves unset.
structure MsixUnset where
  msiCapOffset   : Nat
  tableOffsetReg : BitVec 32
  tableAddress   : BitVec 32

variable {S : Type} (hw : Mmio S) (table : PcieInfoTable) (s : S) (unset : MsixUnset) (bdf : Nat)

def msiCapOffset : Option Nat :=
  (valPcieFindCapability hw table s bdf .pcieCap cidMsix).map fun (_, offset) => offset.getD unset.msiCapOffset

-- What is read of the base address register that the table is said to be behind.
def msixTableAddress (msiCapOffset : Nat) : BitVec 32 :=
  let tableOffsetReg :=
    (valPcieReadCfg hw table s bdf ((msiCapOffset + msiXTorOffset) % 2 ^ 32)).getD unset.tableOffsetReg
  let msiTableBarIndex := (tableOffsetReg &&& msiXTableBirMask).toNat
  (valPcieReadCfg hw table s bdf (type01Bar + msiTableBarIndex * 4)).getD unset.tableAddress

-- The three words of an entry. The address is a sum of 32-bit numbers.
def writeMsixEntry (tableAddress : BitVec 32) (msiIndex : Nat) (msiAddr msiData control : BitVec 32) : S :=
  let entry := tableAddress.toNat + msiIndex * msiXEntrySize
  let s := palMmioWrite hw s ((entry + msiXMsgTblAddrOffset) % 2 ^ 32) msiAddr
  let s := palMmioWrite hw s ((entry + msiXMsgTblDataOffset) % 2 ^ 32) msiData
  palMmioWrite hw s ((entry + msiXMsgTblMvcOffset) % 2 ^ 32) control

-- There is no result if the search for the capability has none.
def clearMsiXTable (msiIndex : Nat) : Option S :=
  match msiCapOffset hw table s unset bdf with
  | none => none
  | some offset =>
    let s := readModifyWrite hw table s bdf offset (· &&& BitVec.ofNat 32 (2 ^ msiXEnableShift - 1))
    some (writeMsixEntry hw s (msixTableAddress hw table s unset bdf offset) msiIndex 0 0 1)

def fillMsiXTable (msiIndex : Nat) (msiAddr msiData : BitVec 32) : Option S :=
  let s := readModifyWrite hw table s bdf type01Cr (· ||| 1#32 <<< crMseShift ||| 1#32 <<< crBmeShift)
  match msiCapOffset hw table s unset bdf with
  | none => none
  | some offset =>
    let s := readModifyWrite hw table s bdf offset (· ||| 1#32 <<< msiXEnableShift)
    some (writeMsixEntry hw s (msixTableAddress hw table s unset bdf offset) msiIndex msiAddr msiData 0)

end Pcie
