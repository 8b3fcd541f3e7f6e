import BsaAcs.Lib.Memory
import BsaAcs.Smmu.Reg

namespace Smmu

-- `smmu_v3.h` and the words of `smmu_v3.c`.

def alignToSize (addr size : Nat) : Nat :=
  (size - (addr &&& (size - 1)) + addr) % 2 ^ 64 &&& (2 ^ 64 - size)

structure Supported where
  stLevel2lvl : Bool
  cd2l        : Bool
  hyp         : Bool
  s1p         : Bool
  s2p         : Bool
deriving DecidableEq, Repr

inductive Stage
  | s1
  | s2
deriving DecidableEq, Repr

structure Stage2Config where
  vmid  : Nat
  vttbr : Nat
  vtcr  : Nat
deriving DecidableEq, Repr

structure CtxDesc where
  asid : Nat
  ttbr : Nat
  tcr  : Nat
  mair : Nat
deriving DecidableEq, Repr

-- The words of a stream table entry.

def steAbort0 : Nat :=
  strtabSte0V ||| strtabSte0Config.set strtabSte0ConfigAbort

def steAbort1 : Nat :=
  strtabSte1Shcfg.set strtabSte1ShcfgIncoming

def steStage1Word0 (cdtabPhys s1cdmax s1fmt : Nat) : Nat :=
  strtabSte0V ||| ((cdtabPhys &&& strtabSte0S1contextptr.mask) |||
    strtabSte0Config.set strtabSte0ConfigS1Trans ||| strtabSte0S1cdmax.set s1cdmax ||| strtabSte0S1fmt.set s1fmt)

def steStage1Word1 : Nat :=
  strtabSte1S1dss.set strtabSte1S1dssSsid0 ||| strtabSte1S1cir.set strtabSte1S1cCacheWbra |||
    strtabSte1S1cor.set strtabSte1S1cCacheWbra ||| strtabSte1S1csh.set smmuShIsh ||| strtabSte1Eats.set 0x1

def steStage2Word0 : Nat :=
  strtabSte0V ||| strtabSte0Config.set strtabSte0ConfigS2Trans

def steStage2Word1 (old : Nat) : Nat :=
  old ||| (strtabSte1Strw.set 0x2 ||| strtabSte1Eats.set 0x1)

def steStage2Word2 (cfg : Stage2Config) : Nat :=
  strtabSte2S2vmid.set cfg.vmid ||| strtabSte2Vtcr.set cfg.vtcr ||| strtabSte2S2ptw ||| strtabSte2S2aa64 |||
    strtabSte2S2r

def steStage2Word3 (cfg : Stage2Config) : Nat :=
  cfg.vttbr &&& strtabSte3S2ttb.mask

-- The words of the other structures that hold addresses.

def strtabBase (strtabPhys : Nat) : Nat :=
  (strtabPhys &&& strtabBaseAddr.mask) ||| strtabBaseRa

def queueBase (basePhys log2nent : Nat) : Nat :=
  queueBaseRwa ||| (basePhys &&& queueBaseAddr.mask) ||| queueBaseLog2size.set log2nent

def strtabLevel1Desc (span l2descPhys : Nat) : Nat :=
  strtabL1DescSpan.set span ||| (l2descPhys &&& strtabL1DescL2ptr.mask)

def cdtabL1Desc (l2descPhys : Nat) : Nat :=
  (l2descPhys &&& cdtabL1DescL2ptr.mask) ||| cdtabL1DescV

def ctxDescWord0 (cd : CtxDesc) : Nat :=
  cd.tcr ||| cdtabCd0R ||| cdtabCd0A ||| cdtabCd0Aset ||| cdtabCd0Aa64 ||| cdtabCd0Asid.set cd.asid ||| cdtabCd0V

def ctxDescWord1 (cd : CtxDesc) : Nat :=
  cd.ttbr &&& cdtabCd1Ttb0.mask

end Smmu
