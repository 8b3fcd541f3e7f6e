import BsaAcs.Lib.Loop
import Mathlib.Data.BitVec

namespace Pcie

-- `bsa_acs_pcie.h`: a function is named by its segment, bus, device and function number in the bytes
-- of a 32-bit word.
def pcieMaxBus : Nat := 256
def pcieMaxDev : Nat := 32
def pcieMaxFunc : Nat := 8

def pcieExtractBdfSeg (bdf : Nat) : Nat := bdf >>> 24 &&& 0xFF
def pcieExtractBdfBus (bdf : Nat) : Nat := bdf >>> 16 &&& 0xFF
def pcieExtractBdfDev (bdf : Nat) : Nat := bdf >>> 8 &&& 0xFF
def pcieExtractBdfFunc (bdf : Nat) : Nat := bdf &&& 0xFF

def pcieCreateBdf (seg bus dev func : Nat) : Nat :=
  ((seg <<< 24) ||| ((bus &&& 0xFF) <<< 16) ||| ((dev &&& 0xFF) <<< 8) ||| func) % 2 ^ 32

-- `bsa_acs_pcie_spec.h`
def type01Vidr : Nat := 0x0
def type01Cr : Nat := 0x4
def type01Ridr : Nat := 0x8
def type01Clsr : Nat := 0xC
def type1Pbn : Nat := 0x18
def type1SecSta : Nat := 0x1C
def type01Cpr : Nat := 0x34
def type0Header : Nat := 0
def type1Header : Nat := 1
def cidPciecs : Nat := 0x10
def pcieEcapStart : Nat := 0x100
def pcieUnknownResponse : BitVec 32 := 0xFFFFFFFF

-- `pal_interface.h`
def pcieSuccess : Nat := 0x0
def pcieNoMapping : Nat := 0x10000001
def pcieCapNotFound : Nat := 0x10000010

-- A window of memory mapped config space and the buses it covers.
structure PcieInfoBlock where
  ecamBase    : Nat
  segmentNum  : Nat
  startBusNum : Nat
  endBusNum   : Nat
deriving DecidableEq, Repr

abbrev PcieInfoTable := List PcieInfoBlock

-- An entry of the ACPI MCFG table, from which the PAL fills the info table.
structure McfgEntry where
  baseAddress           : BitVec 64
  pciSegmentGroupNumber : BitVec 16
  startBusNumber        : BitVec 8
  endBusNumber          : BitVec 8
deriving DecidableEq, Repr

def palPcieCreateInfoTable (mcfg : List McfgEntry) : PcieInfoTable :=
  mcfg.map fun entry => {
    ecamBase    := entry.baseAddress.toNat
    segmentNum  := entry.pciSegmentGroupNumber.toNat
    startBusNum := entry.startBusNumber.toNat
    endBusNum   := entry.endBusNumber.toNat
  }

def palPcieGetMcfgEcam : List McfgEntry → Nat
  | []         => 0
  | entry :: _ => entry.baseAddress.toNat

-- The accesses to memory mapped registers. What a read returns depends on the state of the hardware
-- and what a write does to that state is up to the hardware.
structure Mmio (S : Type) where
  read  : S → Nat → BitVec 32
  write : S → Nat → BitVec 32 → S

variable {S : Type} (hw : Mmio S) (table : PcieInfoTable) (s : S)

-- `pal_mmio_read` drops the last two bits of the address, `pal_mmio_write` does not.
def palMmioRead (addr : Nat) : BitVec 32 :=
  hw.read s (addr - addr % 4)

def palMmioWrite (addr : Nat) (data : BitVec 32) : S :=
  hw.write s addr data

namespace PcieInfoBlock

def covers (segment bus : Nat) (block : PcieInfoBlock) : Bool :=
  decide (bus ≥ block.startBusNum) && decide (bus ≤ block.endBusNum) &&
    decide (segment = block.segmentNum)

end PcieInfoBlock

-- The loop over the windows that the three functions below share: the first window that covers the
-- bus, and 0 if there is none.
def ecamBase (segment bus : Nat) : Nat :=
  match table.find? (·.covers segment bus) with
  | some block => block.ecamBase
  | none => 0

-- There are 8 functions per device, 32 devices per bus and each has a 4 KB config space.
def cfgAddr (bus dev func : Nat) : Nat :=
  bus * pcieMaxDev * pcieMaxFunc * 4096 + dev * pcieMaxFunc * 4096 + func * 4096

-- The 64-bit address of a register of a function, unless the access is refused.
def configAddr (bdf offset : Nat) : Option Nat :=
  let bus := pcieExtractBdfBus bdf
  let dev := pcieExtractBdfDev bdf
  let func := pcieExtractBdfFunc bdf
  let base := ecamBase table (pcieExtractBdfSeg bdf) bus
  if bus ≥ pcieMaxBus ∨ dev ≥ pcieMaxDev ∨ func ≥ pcieMaxFunc then none
  else if base = 0 then none
  else some ((base + cfgAddr bus dev func + offset) % 2 ^ 64)

-- Nothing is read where the function returns `PCIE_NO_MAPPING`.
def valPcieReadCfg (bdf offset : Nat) : Option (BitVec 32) :=
  (configAddr table bdf offset).map (palMmioRead hw s)

def valPcieWriteCfg (bdf offset : Nat) (data : BitVec 32) : S :=
  match configAddr table bdf offset with
  | some addr => palMmioWrite hw s addr data
  | none => s

def valPcieGetBdfConfigAddr (bdf : Nat) : Nat :=
  (configAddr table bdf 0).getD 0

-- Where the two kinds of capability lists keep the identifier and the next pointer in a list entry.
structure CapLayout where
  cidrMask  : BitVec 32
  ncprShift : Nat
  ncprMask  : BitVec 32

def capLayout : CapLayout where
  cidrMask  := 0xFF
  ncprShift := 8
  ncprMask  := 0xFF

def ecapLayout : CapLayout where
  cidrMask  := 0xFFFF
  ncprShift := 20
  ncprMask  := 0xFFF

-- One round of the search: at the end of the list, at the capability, or on to the next entry.
def capStep (layout : CapLayout) (read : Nat → BitVec 32) (cid : Nat) (nextCapOffset : Nat) :
    Nat ⊕ Option Nat :=
  if nextCapOffset = 0 then .inr none
  else if (read nextCapOffset &&& layout.cidrMask).toNat = cid then .inr (some nextCapOffset)
  else .inl ((read nextCapOffset >>> layout.ncprShift) &&& layout.ncprMask).toNat

inductive CidType
  | pcieCap
  | pcieEcap
deriving DecidableEq, Repr

-- The status and the word that `cid_offset` points to, where it is set. A list that runs in a circle
-- is searched for ever: `none`. There are no more list entries than pointers, so that is what 256 or
-- 4096 rounds without an end mean. The search for an extended capability of a function without
-- mapping goes on with a word that nothing has set, and this has no result here either.
def valPcieFindCapability (bdf : Nat) (cidType : CidType) (cid : Nat) :
    Option (Nat × Option Nat) :=
  match cidType with
  | .pcieCap =>
    match valPcieReadCfg hw table s bdf type01Cpr with
    | none => some (pcieNoMapping, none)
    | some regValue =>
      if regValue = pcieUnknownResponse then some (pcieSuccess, none)
      else
        match loop (capStep capLayout ((valPcieReadCfg hw table s bdf · |>.getD 0)) cid) 256
          (regValue &&& 0xFF).toNat with
        | none => none
        | some none => some (pcieCapNotFound, none)
        | some (some offset) => some (pcieSuccess, some offset)
  | .pcieEcap =>
    match valPcieReadCfg hw table s bdf pcieEcapStart with
    | none => none
    | some _ =>
      match loop (capStep ecapLayout ((valPcieReadCfg hw table s bdf · |>.getD 0)) cid) 4096
        pcieEcapStart with
      | none => none
      | some none => some (pcieCapNotFound, none)
      | some (some offset) => some (pcieSuccess, some offset)

-- The offset of the PCI Express capability in the callers that do not look at the status: they go on
-- with what is in their local variable if the search has not set it.
def pciecsBase (unset bdf : Nat) : Option Nat :=
  (valPcieFindCapability hw table s bdf .pcieCap cidPciecs).map fun (_, offset) => offset.getD unset

-- The word that a read leaves unset is passed on as `unset`.
def valPcieFunctionHeaderType (unset : BitVec 32) (bdf : Nat) : Nat :=
  let regValue := (valPcieReadCfg hw table s bdf type01Clsr).getD unset
  ((regValue >>> 16 &&& 0xFF) &&& 0x7F).toNat

def secondaryBus (regValue : BitVec 32) : Nat := (regValue >>> 8 &&& 0xFF).toNat
def subordinateBus (regValue : BitVec 32) : Nat := (regValue >>> 16 &&& 0xFF).toNat

end Pcie
