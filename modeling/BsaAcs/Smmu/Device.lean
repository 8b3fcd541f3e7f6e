import BsaAcs.Smmu.Queue

namespace Smmu

-- The bits of `1 << n` in an `int`. Where C leaves the result of the shift open, it is what AArch64
-- computes.
def shl1 (n : Nat) : Nat :=
  2 ^ (n % 32)

-- The bits of an `int` in a `uint64_t`, and its value.
def signExtend (x : Nat) : Nat :=
  if x < 2 ^ 31 then x else x + (2 ^ 64 - 2 ^ 32)

def toInt (x : Nat) : Int :=
  if x < 2 ^ 31 then x else (x : Int) - 2 ^ 32

-- The blocks that hold the records of the driver (the array of SMMUs, the arrays of level-1
-- descriptors, the masters) are blocks of the heap, but their contents are kept in the records below
-- and not in the words of the memory.

structure StrtabL1Desc where
  span       : Nat
  l2ptr      : Nat
  l2desc64   : Nat
  l2descPhys : Nat
deriving DecidableEq, Repr

-- `l1Ptr` is the address of the array of level-1 descriptors, and `l1Desc` its contents.
structure StrtabConfig where
  strtabPtr     : Nat
  strtab64      : Nat
  strtabPhys    : Nat
  l1Ptr         : Nat
  l1Desc        : Nat → StrtabL1Desc
  l1EntCount    : Nat
  strtabBase    : Nat
  strtabBaseCfg : Nat

structure SmmuDev where
  base      : Nat
  ias       : Nat
  oas       : Nat
  ssidBits  : Nat
  sidBits   : Nat
  cmdq      : CmdQueue
  strtabCfg : StrtabConfig
  supported : Supported

def StrtabL1Desc.zero : StrtabL1Desc :=
  ⟨0, 0, 0, 0⟩

def SmmuDev.zero : SmmuDev where
  base      := 0
  ias       := 0
  oas       := 0
  ssidBits  := 0
  sidBits   := 0
  cmdq      := ⟨⟨0, 0, 0⟩, 0, 0, 0, 0, ⟨rfl, rfl⟩⟩
  strtabCfg := ⟨0, 0, 0, 0, fun _ => .zero, 0, 0, 0⟩
  supported := ⟨false, false, false, false, false⟩

def sizeofStrtabL1Desc : Nat := 32
def sizeofSmmuDev : Nat := 168
def bytesPerDword : Nat := 8
def strtabL1DescDwords : Nat := 1

-- What a master puts into its stream table entry.
inductive SteConfig
  | stage1 (cdtabPhys s1cdmax s1fmt : Nat)
  | stage2 (cfg : Stage2Config)
deriving DecidableEq, Repr

def smmuStrtabWriteSte (master : Option SteConfig) (ste : Nat) (w : World) : World :=
  match master with
  | none =>
    ((w.store ste steAbort0).store (ste + 8) steAbort1).store (ste + 16) 0
  | some (.stage2 cfg) =>
    (((w.store (ste + 8) (steStage2Word1 (w.heap.mem (ste + 8)))).store (ste + 16) (steStage2Word2 cfg)).store
      (ste + 24) (steStage2Word3 cfg)).store ste steStage2Word0
  | some (.stage1 cdtabPhys s1cdmax s1fmt) =>
    (w.store (ste + 8) steStage1Word1).store ste (steStage1Word0 cdtabPhys s1cdmax s1fmt)

-- Writes `n` abort entries from `ste` on.
def abortStes (ste : Nat) : Nat → World → World
  | 0, w => w
  | n + 1, w => abortStes (ste + strtabSteDwords * 8) n (smmuStrtabWriteSte none ste w)

section

variable (pf : Platform) (smmu : SmmuDev)

def SmmuDev.setStrtab (cfg : StrtabConfig) : SmmuDev :=
  { smmu with strtabCfg := cfg }

def SmmuDev.setL1Desc (i : Nat) (desc : StrtabL1Desc) : SmmuDev :=
  smmu.setStrtab { smmu.strtabCfg with l1Desc := fun j => if j = i then desc else smmu.strtabCfg.l1Desc j }

-- The size that `smmu_strtab_init_linear` computes, in 32 bits.
def linearSize : Nat :=
  shl1 smmu.sidBits * (strtabSteDwords <<< 3) % 2 ^ 32

def smmuStrtabInitLinear (w : World) : Bool × SmmuDev × World :=
  let size := linearSize smmu
  let (strtabPtr, w) := w.valMemoryAlloc pf (2 * size % 2 ^ 32)
  if strtabPtr = 0 then (false, smmu.setStrtab { smmu.strtabCfg with strtabPtr := 0 }, w)
  else
    let w := w.valMemorySet strtabPtr (2 * size) 0
    let cfg := { smmu.strtabCfg with
      strtabPtr     := strtabPtr
      strtabPhys    := alignToSize strtabPtr size
      strtab64      := alignToSize strtabPtr size
      l1EntCount    := shl1 smmu.sidBits
      strtabBaseCfg := strtabBaseCfgFmt.set strtabBaseCfgFmtLinear ||| strtabBaseCfgLog2size.set smmu.sidBits }
    (true, smmu.setStrtab cfg, abortStes cfg.strtab64 cfg.l1EntCount w)

def cmdqSize : Nat :=
  let size := signExtend ((shl1 smmu.cmdq.queue.log2nent * cmdqDwordsPerEnt) <<< 3 % 2 ^ 32)
  if size < 32 then 32 else size

def smmuCmdQueueInit (w : World) : Bool × SmmuDev × World :=
  let size := cmdqSize smmu
  let (basePtr, w) := w.valMemoryAlloc pf (2 * size % 2 ^ 64)
  if basePtr = 0 then (false, { smmu with cmdq := { smmu.cmdq with basePtr := 0 } }, w)
  else
    let w := w.valMemorySet basePtr (2 * size) 0
    let cmdq : CmdQueue := {
      queue     := ⟨0, 0, smmu.cmdq.queue.log2nent⟩
      basePtr   := basePtr
      basePhys  := alignToSize basePtr size
      base      := alignToSize basePtr size
      queueBase := queueBase (alignToSize basePtr size) smmu.cmdq.queue.log2nent
      cleared   := ⟨rfl, rfl⟩ }
    (true, { smmu with cmdq := cmdq }, w)

def freeL2 (w : World) : World :=
  (List.range smmu.strtabCfg.l1EntCount).foldl (fun w i =>
    if (smmu.strtabCfg.l1Desc i).l2ptr ≠ 0 then w.valMemoryFree (smmu.strtabCfg.l1Desc i).l2ptr else w) w

def smmuFreeStrtab (w : World) : World :=
  if smmu.strtabCfg.strtabPtr = 0 then w
  else
    let w := if smmu.supported.stLevel2lvl ∧ smmu.strtabCfg.l1Ptr ≠ 0
      then (freeL2 smmu w).valMemoryFree smmu.strtabCfg.l1Ptr
      else w
    w.valMemoryFree smmu.strtabCfg.strtabPtr

def smmuStrtabInitLevel2 (sid : Nat) (w : World) : Bool × SmmuDev × World :=
  let desc := smmu.strtabCfg.l1Desc (sid >>> strtabSplit)
  if desc.l2ptr ≠ 0 then (true, smmu, w)
  else
    let size := (1 <<< strtabSplit) * strtabSteDwords * bytesPerDword
    let (l2ptr, w) := w.valMemoryAlloc pf (size * 2)
    let desc := { desc with span := strtabSplit + 1, l2ptr := l2ptr }
    if l2ptr = 0 then (false, smmu.setL1Desc (sid >>> strtabSplit) desc, w)
    else
      let desc := { desc with l2descPhys := alignToSize l2ptr size, l2desc64 := alignToSize l2ptr size }
      let w := w.valMemorySet desc.l2desc64 size 0
      let w := abortStes desc.l2desc64 (1 <<< strtabSplit) w
      let w := w.store (smmu.strtabCfg.strtab64 + (sid >>> strtabSplit) * strtabL1DescDwords * 8)
        (strtabLevel1Desc desc.span desc.l2descPhys)
      (true, smmu.setL1Desc (sid >>> strtabSplit) desc, w)

-- Writes `n` level-1 descriptors that point nowhere.
def emptyL1 (strtab : Nat) : Nat → World → World
  | 0, w => w
  | n + 1, w => emptyL1 (strtab + strtabL1DescSize) n (w.store strtab (strtabLevel1Desc 0 0))

def smmuStrtabInitLevel1 (w : World) : Bool × SmmuDev × World :=
  let (l1Ptr, w) := w.valMemoryAlloc pf (sizeofStrtabL1Desc * smmu.strtabCfg.l1EntCount)
  if l1Ptr = 0 then (false, smmu.setStrtab { smmu.strtabCfg with l1Ptr := 0 }, w)
  else
    (true, smmu.setStrtab { smmu.strtabCfg with l1Ptr := l1Ptr, l1Desc := fun _ => .zero },
      emptyL1 smmu.strtabCfg.strtab64 smmu.strtabCfg.l1EntCount w)

def l1TblSize : Nat :=
  shl1 (smmu.sidBits - strtabSplit) * strtabL1DescSize % 2 ^ 32

def smmuStrtabInit2level (w : World) : Bool × SmmuDev × World :=
  let size := l1TblSize smmu
  let (strtabPtr, w) := w.valMemoryAlloc pf (2 * size % 2 ^ 32)
  let cfg := { smmu.strtabCfg with strtabPtr := strtabPtr, l1EntCount := shl1 (smmu.sidBits - strtabSplit) }
  if strtabPtr = 0 then (false, smmu.setStrtab cfg, w)
  else
    let cfg := { cfg with
      strtabPhys    := alignToSize strtabPtr size
      strtab64      := alignToSize strtabPtr size
      strtabBaseCfg := strtabBaseCfgFmt.set strtabBaseCfgFmt2lvl ||| strtabBaseCfgLog2size.set smmu.sidBits |||
        strtabBaseCfgSplit.set strtabSplit }
    match smmuStrtabInitLevel1 pf (smmu.setStrtab cfg) w with
    | (false, smmu, w) => (false, smmu, w.valMemoryFree strtabPtr)
    | (true, smmu, w) => (true, smmu, w)

def smmuStrtabInit (w : World) : Bool × SmmuDev × World :=
  match (if smmu.supported.stLevel2lvl then smmuStrtabInit2level pf smmu w else smmuStrtabInitLinear pf smmu w) with
  | (false, smmu, w) => (false, smmu, w)
  | (true, smmu, w) =>
    (true, smmu.setStrtab { smmu.strtabCfg with strtabBase := strtabBase smmu.strtabCfg.strtabPhys }, w)

-- The loop of `smmu_reg_write_sync`. Returns whether the register was acknowledged.
def waitAck (val ackOff : Nat) : Nat → World → Bool × World
  | 0, w => (false, w)
  | timeout + 1, w =>
    let (reg, w) := w.valMmioRead pf (smmu.base + ackOff)
    if reg = val then (true, w) else waitAck val ackOff timeout w

def smmuRegTimeout : Nat := 0x1000000

def smmuRegWriteSync (val regOff ackOff : Nat) (w : World) : Nat × World :=
  match waitAck pf smmu val ackOff smmuRegTimeout (w.valMmioWrite (smmu.base + regOff) val) with
  | (true, w) => (0, w)
  | (false, w) => (1, w)

def smmuDevDisable (w : World) : Nat × World :=
  smmuRegWriteSync pf smmu 0 cr0Offset cr0ackOffset w

def cr1Data : Nat :=
  cr1TableSh.set smmuShIsh ||| cr1QueueSh.set smmuShIsh ||| cr1TableIc.set cr1CacheWb |||
    cr1QueueIc.set cr1CacheWb ||| cr1TableOc.set cr1CacheWb ||| cr1QueueOc.set cr1CacheWb

-- The registers that `smmu_reset` sets up between the first and the second handshake.
def resetRegisters (w : World) : World :=
  let w := w.valMmioWrite (smmu.base + cr1Offset) cr1Data
  let w := w.valMmioWrite (smmu.base + cr2Offset) 0
  let w := w.valMmioWrite (smmu.base + strtabBaseOffset) smmu.strtabCfg.strtabBase
  let w := w.valMmioWrite (smmu.base + strtabBaseCfgOffset) smmu.strtabCfg.strtabBaseCfg
  let w := w.valMmioWrite (smmu.base + cmdqBaseOffset) smmu.cmdq.queueBase
  let w := w.valMmioWrite (smmu.base + cmdqProdOffset) smmu.cmdq.queue.prod
  w.valMmioWrite (smmu.base + cmdqConsOffset) smmu.cmdq.queue.cons

def smmuReset (fuel : Nat) (w : World) : Option (Nat × World) :=
  match smmuRegWriteSync pf smmu 0 cr0Offset cr0ackOffset w with
  | (ret + 1, w) => some (ret + 1, w)
  | (0, w) =>
    match smmuRegWriteSync pf smmu cr0Cmdqen cr0Offset cr0ackOffset (resetRegisters smmu w) with
    | (ret + 1, w) => some (ret + 1, w)
    | (0, w) =>
      match smmuTlbiCfgi pf smmu.base smmu.cmdq smmu.supported.hyp fuel w with
      | none => none
      | some (_, w) =>
        match smmuRegWriteSync pf smmu (cr0Cmdqen ||| cr0Smmuen) cr0Offset cr0ackOffset w with
        | (ret + 1, w) => some (ret + 1, w)
        | (0, w) => some (1, w)

-- The three parts of `smmu_probe`, one for each register. They return whether the value is supported.

def probeIdr0 (data : Nat) : Bool × SmmuDev :=
  let smmu := { smmu with supported := {
    stLevel2lvl := smmu.supported.stLevel2lvl || idr0StLevel.get data == idr0StLevel2lvl
    cd2l        := smmu.supported.cd2l || data &&& idr0Cd2l != 0
    hyp         := smmu.supported.hyp || data &&& idr0Hyp != 0
    s1p         := smmu.supported.s1p || data &&& idr0S1p != 0
    s2p         := smmu.supported.s2p || data &&& idr0S2p != 0 } }
  if data &&& (idr0S1p ||| idr0S2p) = 0 then (false, smmu)
  else if idr0Ttf.get data = idr0TtfAarch32And64 then (true, { smmu with ias := 40 })
  else if idr0Ttf.get data = idr0TtfAarch64 then (true, smmu)
  else (false, smmu)

def probeIdr1 (data : Nat) : Bool × SmmuDev :=
  if data &&& (idr1TablesPreset ||| idr1QueuesPreset) ≠ 0 then (false, smmu)
  else
    (true, { smmu with
      cmdq      := { smmu.cmdq with
        queue   := { smmu.cmdq.queue with log2nent := idr1Cmdqs.get data }
        cleared := smmu.cmdq.cleared }
      sidBits   := idr1Sidsize.get data
      ssidBits  := idr1Ssidsize.get data
      supported := { smmu.supported with
        stLevel2lvl := if idr1Sidsize.get data ≤ strtabSplit then false else smmu.supported.stLevel2lvl } })

def probeIdr5 (data : Nat) : Bool × SmmuDev :=
  match smmuOas[idr5Oas.get data]? with
  | none => (false, smmu)
  | some oas => (true, { smmu with oas := oas, ias := max smmu.ias oas })

def smmuProbe (w : World) : Bool × SmmuDev × World :=
  let (data, w) := w.valMmioRead pf (smmu.base + idr0Offset)
  match probeIdr0 smmu data with
  | (false, smmu) => (false, smmu, w)
  | (true, smmu) =>
    let (data, w) := w.valMmioRead pf (smmu.base + idr1Offset)
    match probeIdr1 smmu data with
    | (false, smmu) => (false, smmu, w)
    | (true, smmu) =>
      let (data, w) := w.valMmioRead pf (smmu.base + idr5Offset)
      match probeIdr5 smmu data with
      | (ok, smmu) => (ok, smmu, w)

-- What `smmu_init` does before the reset.
def smmuSetup (w : World) : Bool × SmmuDev × World :=
  match smmuProbe pf smmu w with
  | (false, smmu, w) => (false, smmu, w)
  | (true, smmu, w) =>
    match smmuCmdQueueInit pf smmu w with
    | (false, smmu, w) => (false, smmu, w)
    | (true, smmu, w) => smmuStrtabInit pf smmu w

def smmuInit (fuel : Nat) (w : World) : Option (Nat × SmmuDev × World) :=
  if smmu.base = 0 then some (acsStatusErr, smmu, w)
  else
    match smmuSetup pf smmu w with
    | (false, smmu, w) => some (acsStatusErr, smmu, w)
    | (true, smmu, w) =>
      match smmuReset pf smmu fuel w with
      | none => none
      | some (ret, w) => some (if ret = 0 then acsStatusErr else 0, smmu, w)

end

end Smmu
