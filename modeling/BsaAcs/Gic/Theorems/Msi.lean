import BsaAcs.Gic.Msi
import BsaAcs.Iovirt.Theorems.Mapping

namespace Gic

open Iovirt

-- The last mapping that takes the requester id leads to an ITS group, or to an SMMU that has a mapping for
-- the stream id.
def Routed (table : IovirtInfoTable) (rid segment : Nat) : Prop :=
  ∃ map, rcMapping table rid segment = some map ∧
    (table.mem (outputRef table.mem map / 4) = NodeType.itsGroup.code ∨
      isSmmu table.mem (outputRef table.mem map / 4) ∧
        ∃ map' ∈ dataMaps table.mem (outputRef table.mem map / 4),
          takes table.mem (translate table.mem rid map) map' = true)

-- The ITS and the device id are the same in both calls, whatever is in the local variables of either one,
-- and whatever the hardware does.
def Paired (iovirt : Option IovirtInfoTable) (bdf : Nat) : Prop :=
  ∃ itsId deviceId, ∀ (S : Type) (hw : Pcie.Mmio S) (pal : PalMsi S) (pcie : Pcie.PcieInfoTable)
    (unset unset' : MsiUnset) (s s' : S) (intId msiIndex : Nat),
    (valGicRequestMsi hw pal pcie iovirt unset s bdf intId msiIndex).fst = ⟨itsId, deviceId, intId, msiIndex⟩ ∧
    (valGicFreeMsi hw pal pcie iovirt unset' s' bdf intId msiIndex).fst = ⟨itsId, deviceId, intId, msiIndex⟩

section

variable {table : IovirtInfoTable} {iovirt : Option IovirtInfoTable} {rid segment bdf intId msiIndex : Nat}
  {unset : MsiUnset} {info : DeviceInfo}

theorem routed_iff : Routed table rid segment ↔ ∃ info, valIovirtGetDeviceInfo table rid segment = some info := by
  rw [Routed, valIovirtGetDeviceInfo]
  cases hm : rcMapping table rid segment
  case none => simp
  case some map =>
    simp only [Option.some.injEq, exists_eq_left']
    split
    case isTrue hi => simp [hi]
    case isFalse hi =>
      split
      case isFalse hs => simp [hi, isSmmu, hs]
      case isTrue hs =>
        cases hf : (dataMaps table.mem (outputRef table.mem map / 4)).find? (takes table.mem (translate table.mem rid map))
        case none =>
          rw [List.find?_eq_none] at hf
          simpa [hi, isSmmu, hs] using hf
        case some map' =>
          have ht := List.find?_some hf
          have hmem := List.mem_of_find?_eq_some hf
          simp only [hi, isSmmu, hs, false_or, true_and, Option.some.injEq, exists_eq', iff_true]
          exact ⟨map', hmem, ht⟩

-- A lookup that succeeds sets both ids, one that fails sets none of them.
theorem palMsiCall_of_some
    (h : valIovirtGetDeviceInfo table (requesterId bdf) (Pcie.pcieExtractBdfSeg bdf) = some info) :
    palMsiCall (some table) unset bdf intId msiIndex = ⟨info.itsId, info.deviceId, intId, msiIndex⟩ := by
  simp [palMsiCall, valIovirtGetDeviceInfoOut, h, DeviceInfoOut.assign, assign]

theorem palMsiCall_of_none
    (h : ∀ table, iovirt = some table →
      valIovirtGetDeviceInfo table (requesterId bdf) (Pcie.pcieExtractBdfSeg bdf) = none) :
    palMsiCall iovirt unset bdf intId msiIndex = ⟨unset.itsId, requesterId bdf, intId, msiIndex⟩ := by
  cases iovirt
  case none       => rfl
  case some table =>
    rw [palMsiCall, valIovirtGetDeviceInfoOut, h table rfl]
    rfl

end

section

variable {S : Type} {hw : Pcie.Mmio S} {pal : PalMsi S} {pcie : Pcie.PcieInfoTable}
  {iovirt : Option IovirtInfoTable} {unset : MsiUnset} {s : S} {bdf intId msiIndex : Nat}

theorem valGicRequestMsi_call :
    (valGicRequestMsi hw pal pcie iovirt unset s bdf intId msiIndex).fst =
      palMsiCall iovirt unset bdf intId msiIndex := by
  simp only [valGicRequestMsi]
  split <;> rfl

theorem valGicFreeMsi_call :
    (valGicFreeMsi hw pal pcie iovirt unset s bdf intId msiIndex).fst =
      palMsiCall iovirt unset bdf intId msiIndex :=
  rfl

end

-- The fallback sets the device id alone: what is passed for the ITS is what the variable happens to hold.
theorem msi_paired_iff (iovirt : Option IovirtInfoTable) (bdf : Nat) :
    Paired iovirt bdf ↔
      ∃ table, iovirt = some table ∧ Routed table (requesterId bdf) (Pcie.pcieExtractBdfSeg bdf) := by
  simp only [Paired, valGicRequestMsi_call, valGicFreeMsi_call, routed_iff]
  constructor
  case mp =>
    intro ⟨itsId, deviceId, h⟩
    by_contra hc
    have hn : ∀ table, iovirt = some table →
        valIovirtGetDeviceInfo table (requesterId bdf) (Pcie.pcieExtractBdfSeg bdf) = none := by
      intro table ht
      cases hi : valIovirtGetDeviceInfo table (requesterId bdf) (Pcie.pcieExtractBdfSeg bdf)
      case none      => rfl
      case some info => exact absurd ⟨table, ht, info, hi⟩ hc
    have hits (n : Nat) : n = itsId := by
      have hp := (h Unit ⟨fun _ _ => 0, fun _ _ _ => ()⟩ ⟨fun _ _ => (0, 0, 0, ()), fun _ _ => ()⟩ []
        ⟨0, 0, n, ⟨0, 0, 0⟩⟩ ⟨0, 0, n, ⟨0, 0, 0⟩⟩ () () 0 0).left
      rw [palMsiCall_of_none hn] at hp
      exact congrArg PalMsiCall.itsId hp
    exact absurd ((hits 0).trans (hits 1).symm) (by decide)
  case mpr =>
    intro ⟨table, ht, info, hi⟩
    refine ⟨info.itsId, info.deviceId, ?_⟩
    intro S hw pal pcie unset unset' s s' intId msiIndex
    rw [ht]
    exact ⟨palMsiCall_of_some hi, palMsiCall_of_some hi⟩

-- Without a table the request and the release of one vector name the ITS 5 and the ITS 7.
theorem msi_of_unset_its :
    palMsiCall none ⟨0, 0, 5, ⟨0, 0, 0⟩⟩ 0x010800 8192 0 = ⟨5, 0x140, 8192, 0⟩ ∧
    palMsiCall none ⟨0, 0, 7, ⟨0, 0, 0⟩⟩ 0x010800 8192 0 = ⟨7, 0x140, 8192, 0⟩ ∧
    ¬Paired none 0x010800 := by
  refine ⟨rfl, rfl, fun ⟨itsId, _, h⟩ => ?_⟩
  have hits (n : Nat) : n = itsId :=
    congrArg PalMsiCall.itsId
      (h Unit ⟨fun _ _ => 0, fun _ _ _ => ()⟩ ⟨fun _ _ => (1, 0, 0, ()), fun _ _ => ()⟩ []
        ⟨0, 0, n, ⟨0, 0, 0⟩⟩ ⟨0, 0, n, ⟨0, 0, 0⟩⟩ () () 0 0).left
  exact absurd ((hits 0).trans (hits 1).symm) (by decide)

end Gic
