import BsaAcs.Pcie.Basic

namespace Pcie

-- `bsa_acs_pcie.h`, as far as the search below asks for it.
inductive PcieInfo
  | numEcam
  | startBus
  | endBus
  | segment
deriving DecidableEq, Repr

section

variable (table : PcieInfoTable)

def valPcieGetInfo (type : PcieInfo) (index : Nat) : Nat :=
  match table[index]? with
  | none => 0
  | some block =>
    match type with
    | .numEcam  => table.length
    | .startBus => block.startBusNum
    | .endBus   => block.endBusNum
    | .segment  => block.segmentNum

-- The windows are searched from the last one on, by their segment alone.
def findEcam (seg : Nat) : Nat → Option Nat
  | 0            => none
  | ecamCnt + 1  =>
    if seg = valPcieGetInfo table .segment ecamCnt then some ecamCnt else findEcam seg ecamCnt

def valPcieIncrementBdf (bdf : Nat) : Nat :=
  let seg := pcieExtractBdfSeg bdf
  let bus := pcieExtractBdfBus bdf
  let dev := pcieExtractBdfDev bdf
  let func := pcieExtractBdfFunc bdf
  match findEcam table seg (valPcieGetInfo table .numEcam 0) with
  | none => 0
  | some ecamIndex =>
    if func < pcieMaxFunc - 1 then pcieCreateBdf seg bus dev (func + 1)
    else if dev < pcieMaxDev - 1 then pcieCreateBdf seg bus (dev + 1) 0
    else if bus < valPcieGetInfo table .endBus ecamIndex then pcieCreateBdf seg (bus + 1) 0 0
    else if ecamIndex + 1 < valPcieGetInfo table .numEcam 0 then
      pcieCreateBdf (valPcieGetInfo table .segment (ecamIndex + 1))
        (valPcieGetInfo table .startBus (ecamIndex + 1)) 0 0
    else 0

-- The functions that are met from `bdf` on, until 0 is returned. There is no result if it is not returned
-- within `fuel` steps.
def incrementBdfs : Nat → Nat → Option (List Nat)
  | 0, _          => none
  | fuel + 1, bdf =>
    if valPcieIncrementBdf table bdf = 0 then some [bdf]
    else (incrementBdfs fuel (valPcieIncrementBdf table bdf)).map (bdf :: ·)

end

end Pcie
