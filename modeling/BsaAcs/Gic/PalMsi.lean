import BsaAcs.Gic.Its
import BsaAcs.Gic.Msi

namespace Gic

-- `bsa_gic_its.h`, `pal_gic.c`
def armGitsTranslater : Nat := 0x10040
def lpiPriority1 : Nat := 0x50
def itsNotFound : Nat := 0xFFFFFFFF

-- `g_gic_its_info`, with the ids of the ITSs.
structure PalItsInfo where
  env : Its.Env
  id  : Nat → Nat

variable (info : Option PalItsInfo)

def getItsIndex (info : PalItsInfo) (itsId : Nat) : Nat :=
  ((List.range info.env.gicNumIts).find? (info.id · = itsId)).getD itsNotFound

-- The checks that both functions begin with. What is left after them is the ITS that is meant.
def palItsIndex (itsId : Nat) : Option (Its.Env × Nat) :=
  match info with
  | none => none
  | some info =>
    if info.env.gicNumIts = 0 then none
    else
      let itsIndex := getItsIndex info itsId
      if itsIndex > info.env.gicNumIts then none
      else if info.env.gicRdBase = 0 ∨ info.env.gicDBase = 0 then none
      else some (info.env, itsIndex)

def armGicItsGetGITSTranslatorAddress (env : Its.Env) (itsIndex : Nat) : Nat :=
  (env.itsBase itsIndex + armGitsTranslater) % 2 ^ 64

-- The address of the message has 32 bits. Where the status is not 0, the address and the data are not set, and the
-- caller does not look at them.
def palGicRequestMsi (s : Its.State) (call : PalMsiCall) : Nat × BitVec 32 × BitVec 32 × Its.State :=
  match palItsIndex info call.itsId with
  | none => (0xFFFFFFFF, 0, 0, s)
  | some (env, itsIndex) =>
    (0, BitVec.ofNat 32 (armGicItsGetGITSTranslatorAddress env itsIndex), BitVec.ofNat 32 call.intId,
      Its.armGicItsCreateLpiMap env itsIndex call.deviceId call.intId lpiPriority1 s)

def palGicFreeMsi (s : Its.State) (call : PalMsiCall) : Its.State :=
  match palItsIndex info call.itsId with
  | none                 => s
  | some (env, itsIndex) => Its.armGicItsClearLpiMappings env itsIndex call.deviceId call.intId s

-- The devices beside the ITSs.
def besideIts {D : Type} (hw : Pcie.Mmio D) : Pcie.Mmio (D × Its.State) where
  read s addr       := hw.read s.fst addr
  write s addr data := (hw.write s.fst addr data, s.snd)

def palMsi (D : Type) : PalMsi (D × Its.State) where
  palGicRequestMsi s call :=
    let (status, msiAddr, msiData, its) := palGicRequestMsi info s.snd call
    (status, msiAddr, msiData, (s.fst, its))
  palGicFreeMsi s call := (s.fst, palGicFreeMsi info s.snd call)

-- The calls of the PAL that map and unmap interrupts.
inductive PalOp
  | request (call : PalMsiCall)
  | free (call : PalMsiCall)

def PalOp.call : PalOp → PalMsiCall
  | request call | free call => call

def PalOp.apply (s : Its.State) : PalOp → Its.State
  | request call => (palGicRequestMsi info s call).2.2.2
  | free call    => palGicFreeMsi info s call

def palRun (ops : List PalOp) (s : Its.State) : Its.State :=
  ops.foldl (PalOp.apply info) s

end Gic
