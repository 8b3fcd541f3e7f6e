import BsaAcs.Iovirt.Query
import BsaAcs.Pcie.Msix

namespace Gic

-- `GET_DEVICE_ID` of `bsa_acs_pcie.h`: the id by which a function makes its requests.
def getDeviceId (bus dev func : Nat) : Nat :=
  (bus <<< 8) ||| (dev <<< 3) ||| func

def requesterId (bdf : Nat) : Nat :=
  getDeviceId (Pcie.pcieExtractBdfBus bdf) (Pcie.pcieExtractBdfDev bdf) (Pcie.pcieExtractBdfFunc bdf)

-- What the PAL is asked to map or to unmap.
structure PalMsiCall where
  itsId    : Nat
  deviceId : Nat
  intId    : Nat
  msiIndex : Nat
deriving DecidableEq, Repr

-- The PAL, on the state that the hardware is in. A request has a status and the address and the data of
-- the message.
structure PalMsi (S : Type) where
  palGicRequestMsi : S → PalMsiCall → Nat × BitVec 32 × BitVec 32 × S
  palGicFreeMsi    : S → PalMsiCall → S

-- What is in the local variables of a call before they are set.
structure MsiUnset where
  deviceId : Nat
  streamId : Nat
  itsId    : Nat
  msix     : Pcie.MsixUnset

section

variable {S : Type} (hw : Pcie.Mmio S) (pal : PalMsi S) (pcie : Pcie.PcieInfoTable)
  (iovirt : Option Iovirt.IovirtInfoTable) (unset : MsiUnset) (s : S) (bdf intId msiIndex : Nat)

-- Both functions begin with this. Where the lookup fails, the requester id is used.
def palMsiCall : PalMsiCall :=
  let reqId := requesterId bdf
  let (status, out) := Iovirt.valIovirtGetDeviceInfoOut iovirt reqId (Pcie.pcieExtractBdfSeg bdf)
    ⟨some unset.deviceId, some unset.streamId, some unset.itsId⟩
  {
    itsId    := out.itsId.getD unset.itsId
    deviceId := if status ≠ 0 then reqId else out.deviceId.getD unset.deviceId
    intId
    msiIndex
  }

-- The call that is made of the PAL, and the state afterwards, if the search for the MSI-X capability ends.
def valGicFreeMsi : PalMsiCall × Option S :=
  let call := palMsiCall iovirt unset bdf intId msiIndex
  let s := pal.palGicFreeMsi s call
  (call, Pcie.clearMsiXTable hw pcie s unset.msix bdf msiIndex)

def valGicRequestMsi : PalMsiCall × Option (Nat × S) :=
  let call := palMsiCall iovirt unset bdf intId msiIndex
  let (status, msiAddr, msiData, s) := pal.palGicRequestMsi s call
  if status ≠ 0 then (call, some (status, s))
  else (call, (Pcie.fillMsiXTable hw pcie s unset.msix bdf msiIndex msiAddr msiData).map (status, ·))

end

end Gic
