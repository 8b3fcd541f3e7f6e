import BsaAcs.Pcie.Basic

namespace Pcie

-- A round of the search with the word that is carried from round to round: a read that fails leaves it as
-- it was.
def capStepReg (layout : CapLayout) (read : Nat → Option (BitVec 32)) (cid : Nat) :
    Nat × BitVec 32 → Nat × BitVec 32 ⊕ Option Nat
  | (nextCapOffset, regValue) =>
    if nextCapOffset = 0 then .inr none
    else
      let regValue := (read nextCapOffset).getD regValue
      if (regValue &&& layout.cidrMask).toNat = cid then .inr (some nextCapOffset)
      else .inl (((regValue >>> layout.ncprShift) &&& layout.ncprMask).toNat, regValue)

-- The status, and what `cid_offset` points to afterwards.
def capResult (cidOffset : Nat) : Option Nat → Nat × Nat
  | none        => (pcieCapNotFound, cidOffset)
  | some offset => (pcieSuccess, offset)

-- `val_pcie_find_capability` with all it leaves behind. `cidOffset` is what `cid_offset` points to before,
-- `unset` what the local word holds, and there is no result if the loop takes more than `fuel` rounds.
def valPcieFindCapabilityOut {S : Type} (hw : Mmio S) (table : PcieInfoTable) (s : S) (unset : BitVec 32)
    (bdf : Nat) (cidType : CidType) (cid cidOffset fuel : Nat) : Option (Nat × Nat) :=
  match cidType with
  | .pcieCap =>
    match valPcieReadCfg hw table s bdf type01Cpr with
    | none => some (pcieNoMapping, cidOffset)
    | some regValue =>
      if regValue = pcieUnknownResponse then some (pcieSuccess, cidOffset)
      else
        (loop (capStepReg capLayout (valPcieReadCfg hw table s bdf) cid) fuel
          ((regValue &&& 0xFF).toNat, regValue)).map (capResult cidOffset)
  | .pcieEcap =>
    (loop (capStepReg ecapLayout (valPcieReadCfg hw table s bdf) cid) fuel
      (pcieEcapStart, unset)).map (capResult cidOffset)

end Pcie
