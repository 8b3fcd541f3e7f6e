import BsaAcs.Interface

namespace Smmu

-- `smmu_reg.h`: the fields of registers and of the structures in memory.

-- `BITFIELD_DECL`. The mask has the width of the field and is not shifted.
structure BitField where
  msb : Nat
  lsb : Nat

namespace BitField

def mask (f : BitField) : Nat :=
  (0x1 <<< (f.msb - f.lsb + 1)) - 1

def get (f : BitField) (val : Nat) : Nat :=
  (val >>> f.lsb) &&& f.mask

def set (f : BitField) (val : Nat) : Nat :=
  (val &&& f.mask) <<< f.lsb

end BitField

def idr0Offset : Nat := 0x0
def idr0StLevel : BitField := ⟨28, 27⟩
def idr0StLevel2lvl : Nat := 1
def idr0Cd2l : Nat := 1 <<< 19
def idr0Hyp : Nat := 1 <<< 9
def idr0Ttf : BitField := ⟨3, 2⟩
def idr0TtfAarch64 : Nat := 2
def idr0TtfAarch32And64 : Nat := 3
def idr0S1p : Nat := 1 <<< 1
def idr0S2p : Nat := 1 <<< 0

def idr1Offset : Nat := 0x4
def idr1TablesPreset : Nat := 1 <<< 30
def idr1QueuesPreset : Nat := 1 <<< 29
def idr1Cmdqs : BitField := ⟨25, 21⟩
def idr1Ssidsize : BitField := ⟨10, 6⟩
def idr1Sidsize : BitField := ⟨5, 0⟩

def idr5Offset : Nat := 0x14
def idr5Oas : BitField := ⟨2, 0⟩
def smmuOas : List Nat := [32, 36, 40, 42, 44, 48, 52]

def cr0Offset : Nat := 0x20
def cr0Cmdqen : Nat := 1 <<< 3
def cr0Smmuen : Nat := 1 <<< 0
def cr0ackOffset : Nat := 0x24

def cr1Offset : Nat := 0x28
def cr1TableSh : BitField := ⟨11, 10⟩
def cr1TableOc : BitField := ⟨9, 8⟩
def cr1TableIc : BitField := ⟨7, 6⟩
def cr1QueueSh : BitField := ⟨5, 4⟩
def cr1QueueOc : BitField := ⟨3, 2⟩
def cr1QueueIc : BitField := ⟨1, 0⟩
def cr1CacheWb : Nat := 1
def cr2Offset : Nat := 0x2c
def gerrorOffset : Nat := 0x60

def strtabBaseOffset : Nat := 0x80
def strtabBaseRa : Nat := 1 <<< 62
def strtabBaseAddr : BitField := ⟨51, 6⟩

def strtabBaseCfgOffset : Nat := 0x88
def strtabBaseCfgFmt : BitField := ⟨17, 16⟩
def strtabBaseCfgFmtLinear : Nat := 0
def strtabBaseCfgFmt2lvl : Nat := 1
def strtabBaseCfgSplit : BitField := ⟨10, 6⟩
def strtabBaseCfgLog2size : BitField := ⟨5, 0⟩

def cmdqBaseOffset : Nat := 0x90
def cmdqProdOffset : Nat := 0x98
def cmdqConsOffset : Nat := 0x9c

def smmuShIsh : Nat := 3

def queueBaseRwa : Nat := 1 <<< 62
def queueBaseAddr : BitField := ⟨51, 5⟩
def queueBaseLog2size : BitField := ⟨4, 0⟩

def strtabSplit : Nat := 8
def strtabL1DescSize : Nat := 8
def strtabL1DescSpan : BitField := ⟨4, 0⟩
def strtabL1DescL2ptr : BitField := ⟨51, 6⟩

def strtabSteDwords : Nat := 8
def strtabSte0V : Nat := 1 <<< 0
def strtabSte0Config : BitField := ⟨3, 1⟩
def strtabSte0ConfigAbort : Nat := 0
def strtabSte0ConfigS1Trans : Nat := 5
def strtabSte0ConfigS2Trans : Nat := 6
def strtabSte0S1fmt : BitField := ⟨5, 4⟩
def strtabSte0S1fmtLinear : Nat := 0
def strtabSte0S1fmt64kL2 : Nat := 2
def strtabSte0S1contextptr : BitField := ⟨51, 6⟩
def strtabSte0S1cdmax : BitField := ⟨63, 59⟩

def strtabSte1S1dss : BitField := ⟨1, 0⟩
def strtabSte1S1dssSsid0 : Nat := 0x2
def strtabSte1S1cCacheWbra : Nat := 1
def strtabSte1S1cir : BitField := ⟨3, 2⟩
def strtabSte1S1cor : BitField := ⟨5, 4⟩
def strtabSte1S1csh : BitField := ⟨7, 6⟩
def strtabSte1Eats : BitField := ⟨29, 28⟩
def strtabSte1Strw : BitField := ⟨31, 30⟩
def strtabSte1Shcfg : BitField := ⟨45, 44⟩
def strtabSte1ShcfgIncoming : Nat := 1

def strtabSte2S2vmid : BitField := ⟨15, 0⟩
def strtabSte2Vtcr : BitField := ⟨50, 32⟩
def strtabSte2VtcrS2t0sz : BitField := ⟨5, 0⟩
def strtabSte2VtcrS2sl0 : BitField := ⟨7, 6⟩
def strtabSte2VtcrS2ir0 : BitField := ⟨9, 8⟩
def strtabSte2VtcrS2or0 : BitField := ⟨11, 10⟩
def strtabSte2VtcrS2sh0 : BitField := ⟨13, 12⟩
def strtabSte2VtcrS2tg : BitField := ⟨15, 14⟩
def strtabSte2VtcrS2ps : BitField := ⟨18, 16⟩
def strtabSte2S2aa64 : Nat := 1 <<< 51
def strtabSte2S2ptw : Nat := 1 <<< 54
def strtabSte2S2r : Nat := 1 <<< 58

def strtabSte3S2ttb : BitField := ⟨51, 4⟩

def cmdqDwordsPerEnt : Nat := 2
def cmdq0Op : BitField := ⟨7, 0⟩
def cmdqCfgi1Range : BitField := ⟨4, 0⟩
def cmdqCfgi1AllStes : Nat := 31
def smmuCmdqPollTimeout : Nat := 0x100000

def cmdqOpCfgiAll : Nat := 0x4
def cmdqOpTlbiEl2All : Nat := 0x20
def cmdqOpTlbiNsnhAll : Nat := 0x30
def cmdqOpCmdSync : Nat := 0x46

def cdtabSplit : Nat := 10
def cdtabL2EntryCount : Nat := 1 <<< cdtabSplit
def cdtabL1DescDwords : Nat := 1
def cdtabL1DescV : Nat := 1 <<< 0
def cdtabL1DescL2ptr : BitField := ⟨51, 12⟩

def cdtabCdDwords : Nat := 8
def cdtabCd0TcrT0sz : BitField := ⟨5, 0⟩
def cdtabCd0TcrTg0 : BitField := ⟨7, 6⟩
def cdtabCd0TcrIrgn0 : BitField := ⟨9, 8⟩
def cdtabCd0TcrOrgn0 : BitField := ⟨11, 10⟩
def cdtabCd0TcrSh0 : BitField := ⟨13, 12⟩
def cdtabCd0TcrEpd1 : Nat := 1 <<< 30
def cdtabCd0V : Nat := 1 <<< 31
def cdtabCd0TcrIps : BitField := ⟨34, 32⟩
def cdtabCd0Aa64 : Nat := 1 <<< 41
def cdtabCd0R : Nat := 1 <<< 45
def cdtabCd0A : Nat := 1 <<< 46
def cdtabCd0Aset : Nat := 1 <<< 47
def cdtabCd0Asid : BitField := ⟨63, 48⟩
def cdtabCd1Ttb0 : BitField := ⟨51, 4⟩

end Smmu
