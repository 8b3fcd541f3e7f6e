import BsaAcs.Infra.Status
import BsaAcs.Pcie.Increment

namespace Pcie

-- `bsa_acs_pcie_spec.h` and `test_os_p002.c`
def pcieEcapEnd : Nat := 0xFFC
def pcieVendorIdRegOffset : Nat := 0x0
def pcieCacheLineSizeRegOffset : Nat := 0xC
def osP002TestNum : Nat := 802

-- How the payload of the test ends. It names the bus and the device that it fails at.
inductive EcamVerdict
  | skipped
  | firstInvalid (bus : Nat)
  | failedAt (bus dev : Nat)
  | passed
deriving DecidableEq, Repr

namespace EcamVerdict

def outcome : EcamVerdict → Infra.Outcome
  | skipped                       => .skip
  | firstInvalid _ | failedAt _ _ => .fail
  | passed                        => .pass

def status : EcamVerdict → Nat
  | skipped          => 0x1
  | firstInvalid bus => (bus <<< 8) % 2 ^ 32
  | failedAt bus dev => ((bus <<< 8) ||| dev) % 2 ^ 32
  | passed           => 0x1

def bus? : EcamVerdict → Option Nat
  | firstInvalid bus | failedAt bus _ => some bus
  | skipped | passed                  => none

def word (v : EcamVerdict) : Nat :=
  v.outcome.result osP002TestNum v.status

end EcamVerdict

section

variable {S : Type} (hw : Mmio S) (table : PcieInfoTable) (s : S)

-- `val_pcie_get_info` for `PCIE_INFO_ECAM`.
def valPcieGetInfoEcam (index : Nat) : Nat :=
  match table[index]? with
  | none => 0
  | some block => block.ecamBase

-- The four reads of a function, which must all find it. The first word must not be 0; the last one stays
-- in the local variable.
def ecamFunction (bdf : Nat) : Option (BitVec 32) := do
  let data ← valPcieReadCfg hw table s bdf pcieVendorIdRegOffset
  guard (data ≠ 0)
  let _ ← valPcieReadCfg hw table s bdf pcieCacheLineSizeRegOffset
  let _ ← valPcieReadCfg hw table s bdf (pcieEcapStart + 0x100)
  valPcieReadCfg hw table s bdf (pcieEcapEnd - 0x100)

def ecamFuncLoop (segment bus dev : Nat) (data : BitVec 32) : Except EcamVerdict (BitVec 32) :=
  (List.range pcieMaxFunc).foldlM (fun _ func =>
    match ecamFunction hw table s (pcieCreateBdf segment bus dev func) with
    | none => .error (.failedAt bus dev)
    | some data => .ok data) data

def ecamDevLoop (segment bus : Nat) (data : BitVec 32) : Except EcamVerdict (BitVec 32) :=
  (List.range pcieMaxDev).foldlM (fun data dev => ecamFuncLoop hw table s segment bus dev data) data

def ecamBusLoop (segment bus endBus : Nat) (data : BitVec 32) : Except EcamVerdict (BitVec 32) :=
  (List.range' bus (endBus + 1 - bus)).foldlM (fun data bus => ecamDevLoop hw table s segment bus data) data

-- The windows from the last one on. The first read of a window leaves `data` as it is if there is no
-- mapping.
def ecamWindowLoop : Nat → BitVec 32 → EcamVerdict
  | 0, _ => .passed
  | numEcam + 1, data =>
    if valPcieGetInfoEcam table numEcam = 0 then .skipped
    else
      let segment := valPcieGetInfo table .segment numEcam
      let bus := valPcieGetInfo table .startBus numEcam
      let endBus := valPcieGetInfo table .endBus numEcam
      let data := (valPcieReadCfg hw table s (pcieCreateBdf segment bus 0 0) pcieVendorIdRegOffset).getD data
      if data = pcieUnknownResponse then .firstInvalid bus
      else
        match ecamBusLoop hw table s segment bus endBus data with
        | .error verdict => verdict
        | .ok data       => ecamWindowLoop numEcam data

def osP002Payload (data : BitVec 32) : EcamVerdict :=
  if valPcieGetInfo table .numEcam 0 = 0 then .skipped
  else ecamWindowLoop hw table s (valPcieGetInfo table .numEcam 0) data

end

end Pcie
