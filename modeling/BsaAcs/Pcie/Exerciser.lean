import BsaAcs.Pcie.Basic

namespace Pcie

variable {S : Type} (hw : Mmio S) (table : PcieInfoTable) (s : S)

-- Whether `val_pcie_get_ecam_base` takes a window: for a Type 0 header any window of the segment, else
-- one that covers the buses behind the bridge.
def selects (unset : BitVec 32) (bdf : Nat) (block : PcieInfoBlock) : Bool :=
  if pcieExtractBdfSeg bdf = block.segmentNum then
    if valPcieFunctionHeaderType hw table s unset bdf = type0Header then true
    else
      let regValue := (valPcieReadCfg hw table s bdf type1Pbn).getD unset
      decide (secondaryBus regValue ≥ block.startBusNum) &&
        decide (subordinateBus regValue ≤ block.endBusNum)
  else false

-- The index of the loop has 8 bits. It starts over after 256 windows, so with that many the loop either
-- finds a window among the first 256 or does not end.
def valPcieGetEcamBase (unset : BitVec 32) (bdf : Nat) : Option Nat :=
  match (table.take 256).find? (selects hw table s unset bdf) with
  | some block => some block.ecamBase
  | none => if table.length < 256 then some 0 else none

def bdfCfgAddr (bdf : Nat) : Nat :=
  cfgAddr (pcieExtractBdfBus bdf) (pcieExtractBdfDev bdf) (pcieExtractBdfFunc bdf)

-- The address of the config space in `val_exerciser_init`, where the base is kept in 32 bits.
def exerciserInitAddr (unset : BitVec 32) (bdf : Nat) : Option Nat :=
  (valPcieGetEcamBase hw table s unset bdf).map fun base => (base % 2 ^ 32 + bdfCfgAddr bdf) % 2 ^ 64

-- `pal_exerciser.c`

def palExerciserGetPcieConfigOffset (bdf : Nat) : Nat :=
  bdfCfgAddr bdf

-- The base is kept in 32 bits here as well.
def palExerciserConfigAddr (mcfg : List McfgEntry) (bdf : Nat) : Nat :=
  (palPcieGetMcfgEcam mcfg % 2 ^ 32 + palExerciserGetPcieConfigOffset bdf) % 2 ^ 64

def exerciserId : BitVec 32 := 0xED0113B5

def palIsBdfExerciser (mcfg : List McfgEntry) (bdf : Nat) : Bool :=
  decide (palMmioRead hw s (palExerciserConfigAddr mcfg bdf) = exerciserId)

end Pcie
