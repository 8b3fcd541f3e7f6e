import BsaAcs.Smmu.Device

namespace Smmu

structure CdtabL1CtxDesc where
  l2ptr      : Nat
  l2desc64   : Nat
  l2descPhys : Nat
deriving DecidableEq, Repr

-- `l1Ptr` is the address of the array of level-1 descriptors, and `l1Desc` its contents.
structure CdtabConfig where
  cdtabPtr   : Nat
  cdtab64    : Nat
  cdtabPhys  : Nat
  l1Ptr      : Nat
  l1Desc     : Nat → CdtabL1CtxDesc
  l1EntCount : Nat

structure Stage1Config where
  cdcfg   : CdtabConfig
  cd      : CtxDesc
  s1fmt   : Nat
  s1cdmax : Nat

-- `smmu` is the index of the SMMU that the pointer of the source points to.
structure Master where
  smmu     : Option Nat
  stage    : Stage
  stage1   : Stage1Config
  stage2   : Stage2Config
  sid      : Nat
  ssid     : Nat
  ssidBits : Nat

def Master.zero : Master where
  smmu     := none
  stage    := .s1
  stage1   := ⟨⟨0, 0, 0, 0, fun _ => ⟨0, 0, 0⟩, 0⟩, ⟨0, 0, 0, 0⟩, 0, 0⟩
  stage2   := ⟨0, 0, 0⟩
  sid      := 0
  ssid     := 0
  ssidBits := 0

def sizeofCdtabL1CtxDesc : Nat := 24
def sizeofSmmuMasterNode : Nat := 16
def sizeofSmmuMaster : Nat := 136

def smmuStrtabGetSteForSid (smmu : SmmuDev) (sid : Nat) : Nat :=
  if smmu.supported.stLevel2lvl then
    (smmu.strtabCfg.l1Desc ((sid >>> strtabSplit) * strtabL1DescDwords)).l2desc64 +
      (sid &&& ((1 <<< strtabSplit) - 1)) * strtabSteDwords * 8
  else smmu.strtabCfg.strtab64 + sid * strtabSteDwords % 2 ^ 32 * 8

section

variable (pf : Platform)

def smmuCdtabAllocLeafTable (w : World) : Option CdtabL1CtxDesc × World :=
  let size := cdtabL2EntryCount * (cdtabCdDwords <<< 3)
  let (l2ptr, w) := w.valMemoryAlloc pf (size * 2)
  if l2ptr = 0 then (none, w)
  else (some ⟨l2ptr, alignToSize l2ptr size, alignToSize l2ptr size⟩, w)

def CdtabConfig.setL1Desc (cdcfg : CdtabConfig) (i : Nat) (desc : CdtabL1CtxDesc) : CdtabConfig :=
  { cdcfg with l1Desc := fun j => if j = i then desc else cdcfg.l1Desc j }

-- The address of the context descriptor, or `none` for the null pointer.
def smmuCdtabGetCtxDesc (s1fmt ssid : Nat) (cdcfg : CdtabConfig) (w : World) : Option Nat × CdtabConfig × World :=
  if s1fmt = strtabSte0S1fmtLinear then
    (some (cdcfg.cdtab64 + ssid * cdtabCdDwords % 2 ^ 32 * 8), cdcfg, w)
  else if cdcfg.l1Ptr = 0 then (none, cdcfg, w.fault)
  else
    let idx := ssid >>> cdtabSplit
    let entry (desc : CdtabL1CtxDesc) := desc.l2desc64 + (ssid &&& (cdtabL2EntryCount - 1)) * cdtabCdDwords * 8
    if (cdcfg.l1Desc idx).l2ptr ≠ 0 then (some (entry (cdcfg.l1Desc idx)), cdcfg, w)
    else
      match smmuCdtabAllocLeafTable pf w with
      | (none, w) => (none, cdcfg, w)
      | (some desc, w) =>
        (some (entry desc), cdcfg.setL1Desc idx desc,
          w.store (cdcfg.cdtab64 + idx * cdtabL1DescDwords * 8) (cdtabL1Desc desc.l2descPhys))

def writeCtxDesc (cdptr : Nat) (cd : CtxDesc) (w : World) : World :=
  (((w.store (cdptr + 8) (ctxDescWord1 cd)).store (cdptr + 16) 0).store (cdptr + 24) cd.mair).store cdptr
    (ctxDescWord0 cd)

def smmuCdtabWriteCtxDesc (ssid : Nat) (cfg : Stage1Config) (w : World) : Bool × Stage1Config × World :=
  if toInt ssid ≥ toInt (shl1 cfg.s1cdmax) then (false, cfg, w)
  else
    match smmuCdtabGetCtxDesc pf cfg.s1fmt ssid cfg.cdcfg w with
    | (none, cdcfg, w) => (false, { cfg with cdcfg := cdcfg }, w)
    | (some cdptr, cdcfg, w) => (true, { cfg with cdcfg := cdcfg }, writeCtxDesc cdptr cfg.cd w)

-- `max_contexts` and `cdmax` of the source.
def maxContexts (s1cdmax : Nat) : Nat :=
  signExtend (shl1 s1cdmax)

-- Whether the table of context descriptors has two levels.
def twoLevel (cd2l : Bool) (s1cdmax : Nat) : Bool :=
  cd2l && decide (maxContexts s1cdmax > cdtabL2EntryCount)

def numL1Ents (s1cdmax : Nat) : Nat :=
  (maxContexts s1cdmax + cdtabL2EntryCount - 1) / cdtabL2EntryCount % 2 ^ 32

def freeLeaves (cdcfg : CdtabConfig) (n : Nat) (w : World) : World :=
  (List.range n).foldl (fun w i =>
    if (cdcfg.l1Desc i).l2ptr ≠ 0 then w.valMemoryFree (cdcfg.l1Desc i).l2ptr else w) w

-- If there is no array of level-1 descriptors, then the loop follows the null pointer.
def smmuCdtabFree (cd2l : Bool) (cfg : Stage1Config) (w : World) : World :=
  let w :=
    if twoLevel cd2l cfg.s1cdmax then
      if cfg.cdcfg.l1Ptr = 0 then w.fault
      else (freeLeaves cfg.cdcfg (numL1Ents cfg.s1cdmax) w).valMemoryFree cfg.cdcfg.l1Ptr
    else w
  w.valMemoryFree cfg.cdcfg.cdtabPtr

-- Allocates the first level of the table, whose size is `size`.
def cdtabAllocTable (size : Nat) (cfg : Stage1Config) (w : World) : Bool × Stage1Config × World :=
  let (cdtabPtr, w) := w.valMemoryAlloc pf (size * 2)
  if cdtabPtr = 0 then (false, { cfg with cdcfg := { cfg.cdcfg with cdtabPtr := 0 } }, w)
  else
    let cdcfg := { cfg.cdcfg with
      cdtabPtr  := cdtabPtr
      cdtabPhys := alignToSize cdtabPtr size
      cdtab64   := alignToSize cdtabPtr size }
    (true, { cfg with cdcfg := cdcfg }, w.valMemorySet cdcfg.cdtab64 size 0)

def smmuCdtabAlloc (cd2l : Bool) (cfg : Stage1Config) (w : World) : Bool × Stage1Config × World :=
  if twoLevel cd2l cfg.s1cdmax then
    let entCount := numL1Ents cfg.s1cdmax
    let (l1Ptr, w) := w.valMemoryAlloc pf (entCount * sizeofCdtabL1CtxDesc)
    let cfg := { cfg with
      s1fmt := strtabSte0S1fmt64kL2
      cdcfg := { cfg.cdcfg with l1Ptr := l1Ptr, l1EntCount := entCount } }
    if l1Ptr = 0 then (false, cfg, w)
    else
      let cfg := { cfg with cdcfg := { cfg.cdcfg with l1Desc := fun _ => ⟨0, 0, 0⟩ } }
      cdtabAllocTable pf (entCount * (cdtabL1DescDwords <<< 3) % 2 ^ 32) cfg w
  else
    let cdmax := maxContexts cfg.s1cdmax
    let cfg := { cfg with
      s1fmt := strtabSte0S1fmtLinear
      cdcfg := { cfg.cdcfg with l1EntCount := cdmax % 2 ^ 32 } }
    cdtabAllocTable pf (cdmax * (cdtabCdDwords <<< 3) % 2 ^ 64) cfg w

-- What `val_smmu_map` makes of a page table descriptor.

def stage2Config (pgt : PgtDescriptor) : Stage2Config where
  vmid  := 0
  vttbr := pgt.pgtBase
  vtcr  :=
    strtabSte2VtcrS2t0sz.set pgt.tcr.tsz.toNat ||| strtabSte2VtcrS2sl0.set pgt.tcr.sl.toNat |||
    strtabSte2VtcrS2ir0.set pgt.tcr.irgn.toNat ||| strtabSte2VtcrS2or0.set pgt.tcr.orgn.toNat |||
    strtabSte2VtcrS2sh0.set pgt.tcr.sh.toNat ||| strtabSte2VtcrS2tg.set pgt.tcr.tg.toNat |||
    strtabSte2VtcrS2ps.set pgt.tcr.ps.toNat

def ctxDesc (pgt : PgtDescriptor) : CtxDesc where
  asid := 0
  ttbr := pgt.pgtBase
  tcr  :=
    cdtabCd0TcrT0sz.set pgt.tcr.tsz.toNat ||| cdtabCd0TcrTg0.set pgt.tcr.tg.toNat |||
    cdtabCd0TcrIrgn0.set pgt.tcr.irgn.toNat ||| cdtabCd0TcrOrgn0.set pgt.tcr.orgn.toNat |||
    cdtabCd0TcrSh0.set pgt.tcr.sh.toNat ||| cdtabCd0TcrIps.set pgt.tcr.ps.toNat ||| cdtabCd0TcrEpd1 ||| cdtabCd0Aa64
  mair := pgt.mair

-- The part of `val_smmu_map` for stage 1: the tables of context descriptors.
def mapStage1 (cd2l : Bool) (ssid ssidBits : Nat) (pgt : PgtDescriptor) (cfg : Stage1Config) (w : World) :
    Bool × Stage1Config × World :=
  let cfg := { cfg with s1cdmax := ssidBits % 2 ^ 8 }
  match (if cfg.cdcfg.cdtabPtr = 0 then smmuCdtabAlloc pf cd2l cfg w else (true, cfg, w)) with
  | (false, cfg, w) => (false, cfg, w)
  | (true, cfg, w) => smmuCdtabWriteCtxDesc pf ssid { cfg with cd := ctxDesc pgt } w

def Master.steConfig (master : Master) : SteConfig :=
  match master.stage with
  | .s1 => .stage1 master.stage1.cdcfg.cdtabPhys master.stage1.s1cdmax master.stage1.s1fmt
  | .s2 => .stage2 master.stage2

-- The master as the first map of a stream leaves it.
def Master.bind (attr : SmmuMasterAttributes) (master : Master) : Master :=
  match master.smmu with
  | some _ => master
  | none   => { master with smmu := some attr.smmuIndex, sid := attr.streamid, ssidBits := attr.ssidBits }

-- Records the stage of the mapping, if the SMMU supports it.
def Master.selectStage (smmu : SmmuDev) (attr : SmmuMasterAttributes) (master : Master) : Option Master :=
  if attr.stage2 ≠ 0 then
    if smmu.supported.s2p then some { master with stage := .s2 } else none
  else
    if smmu.supported.s1p then some { master with stage := .s1, ssid := attr.substreamid } else none

def sidInRange (smmu : SmmuDev) (streamid : Nat) : Bool :=
  decide (streamid < 0x1 <<< smmu.sidBits)

-- The tables of `val_smmu_map`, from the check of the stream id up to the context descriptor.
def mapTables (smmu : SmmuDev) (cd2l : Bool) (pgt : PgtDescriptor) (master : Master) (w : World) :
    Bool × SmmuDev × Master × World :=
  match (if smmu.supported.stLevel2lvl then smmuStrtabInitLevel2 pf smmu master.sid w else (true, smmu, w)) with
  | (false, smmu, w) => (false, smmu, master, w)
  | (true, smmu, w) =>
    match master.stage with
    | .s2 => (true, smmu, { master with stage2 := stage2Config pgt }, w)
    | .s1 =>
      match mapStage1 pf cd2l master.ssid master.ssidBits pgt master.stage1 w with
      | (ok, stage1, w) => (ok, smmu, { master with stage1 := stage1 }, w)

-- `val_smmu_map` after the lookup of the master, up to the invalidation: `smmu` is the SMMU that the
-- call names, and `cd2l` a feature of the SMMU that the master is bound to.
def mapMaster (smmu : SmmuDev) (cd2l : Bool) (attr : SmmuMasterAttributes) (pgt : PgtDescriptor) (master : Master)
    (w : World) : Bool × SmmuDev × Master × World :=
  match master.selectStage smmu attr with
  | none => (false, smmu, master, w)
  | some master =>
    if sidInRange smmu attr.streamid then
      match mapTables pf smmu cd2l pgt master w with
      | (false, smmu, master, w) => (false, smmu, master, w)
      | (true, smmu, master, w) =>
        (true, smmu, master, smmuStrtabWriteSte (some master.steConfig) (smmuStrtabGetSteForSid smmu master.sid) w)
    else (false, smmu, master, w)

end

-- A node of the list of masters: its own address, that of the record, and the record.
structure Node where
  node   : Nat
  ptr    : Nat
  master : Master

-- The variables of the driver. The array `g_smmu` has `numSmmus` elements, and `gSmmu` is its
-- address. The list of masters starts with the newest one.
structure Driver where
  world    : World
  gSmmu    : Nat
  numSmmus : Nat
  smmus    : Nat → SmmuDev
  masters  : List Node

namespace Driver

def setSmmu (d : Driver) (i : Nat) (smmu : SmmuDev) : Driver :=
  { d with smmus := fun j => if j = i then smmu else d.smmus j }

def setMaster (d : Driver) (i : Nat) (master : Master) : Driver :=
  { d with masters := d.masters.modify i ({ · with master := master }) }

end Driver

section

variable (pf : Platform)

-- The position of the record in the list of masters, and the record.
def smmuMasterAt (sid : Nat) (d : Driver) : Option (Nat × Master) × Driver :=
  match d.masters.findIdx? (·.master.sid == sid) with
  | some i => ((d.masters[i]?).map (fun n => (i, n.master)), d)
  | none =>
    let (node, w) := d.world.valMemoryAlloc pf sizeofSmmuMasterNode
    if node = 0 then (none, { d with world := w })
    else
      let (ptr, w) := w.valMemoryAlloc pf sizeofSmmuMaster
      if ptr = 0 then (none, { d with world := w.valMemoryFree node })
      else (some (0, .zero), { d with world := w, masters := ⟨node, ptr, .zero⟩ :: d.masters })

-- Returns the status. There is no result if the wait for the commands does not end.
def valSmmuMap (fuel : Nat) (attr : SmmuMasterAttributes) (pgt : PgtDescriptor) (d : Driver) : Option (Nat × Driver) :=
  if d.gSmmu = 0 then some (1, d)
  else if attr.smmuIndex ≥ d.numSmmus then some (1, d)
  else if (d.smmus attr.smmuIndex).base = 0 then some (1, d)
  else
    match smmuMasterAt pf attr.streamid d with
    | (none, d) => some (1, d)
    | (some (i, master), d) =>
      let master := master.bind attr
      let bound := (master.smmu.map d.smmus).getD (d.smmus attr.smmuIndex)
      match mapMaster pf (d.smmus attr.smmuIndex) bound.supported.cd2l attr pgt master d.world with
      | (ok, smmu, master, w) =>
        let d := { (d.setSmmu attr.smmuIndex smmu).setMaster i master with world := w }
        if ok then
          match smmuTlbiCfgi pf smmu.base smmu.cmdq smmu.supported.hyp fuel d.world with
          | none => none
          | some (_, w) => some (0, { d with world := w })
        else some (1, d)

def valSmmuUnmap (fuel : Nat) (attr : SmmuMasterAttributes) (d : Driver) : Option Driver :=
  match smmuMasterAt pf attr.streamid d with
  | (none, d) => some d
  | (some (i, master), d) =>
    match master.smmu with
    | none => some d
    | some k =>
      let smmu := d.smmus k
      if sidInRange smmu attr.streamid then
        let strtab := smmu.strtabCfg.strtab64 + attr.streamid * strtabSteDwords % 2 ^ 32 * 8
        let w := smmuStrtabWriteSte none strtab d.world
        let w := smmuCdtabFree smmu.supported.cd2l master.stage1 w
        match smmuTlbiCfgi pf smmu.base smmu.cmdq smmu.supported.hyp fuel w with
        | none => none
        | some (_, w) => some { d.setMaster i .zero with world := w }
      else some d

-- `val_iovirt_get_smmu_info`, for the number of SMMUs, their revisions and their base addresses.
structure IovirtSmmuInfo where
  numCtrl      : Nat
  archMajorRev : Nat → Nat
  ctrlBase     : Nat → Nat

-- The loop of `val_smmu_init`, from the `i`-th SMMU on.
def initFrom (info : IovirtSmmuInfo) (fuel : Nat) : (n i : Nat) → Driver → Option (Nat × Driver)
  | 0, _, d => some (0, d)
  | n + 1, i, d =>
    if info.archMajorRev i ≠ 3 then initFrom info fuel n (i + 1) d
    else
      match smmuInit pf { d.smmus i with base := info.ctrlBase i } fuel d.world with
      | none => none
      | some (status, smmu, w) =>
        if status ≠ 0 then some (acsStatusErr, { d.setSmmu i { smmu with base := 0 } with world := w })
        else initFrom info fuel n (i + 1) { d.setSmmu i smmu with world := w }

def valSmmuInit (info : IovirtSmmuInfo) (fuel : Nat) (d : Driver) : Option (Nat × Driver) :=
  let d := { d with numSmmus := info.numCtrl }
  if info.numCtrl = 0 then some (acsStatusErr, d)
  else
    let (gSmmu, w) := d.world.valMemoryAlloc pf (sizeofSmmuDev * info.numCtrl)
    let d := { d with world := w, gSmmu := gSmmu }
    if gSmmu = 0 then some (acsStatusErr, d)
    else initFrom pf info fuel info.numCtrl 0 { d with smmus := fun _ => .zero }

-- One round of the loop of `val_smmu_stop`.
def stopSmmu (smmu : SmmuDev) (w : World) : World :=
  if smmu.base = 0 then w
  else
    let (_, w) := smmuDevDisable pf smmu w
    let w := if smmu.cmdq.basePtr ≠ 0 then w.valMemoryFree smmu.cmdq.basePtr else w
    smmuFreeStrtab smmu w

-- Without an array of SMMUs, the loop follows the null pointer.
def valSmmuStop (d : Driver) : Driver :=
  if d.gSmmu = 0 then
    if d.numSmmus = 0 then d else { d with world := d.world.fault }
  else
    let w := (List.range d.numSmmus).foldl (fun w i => stopSmmu pf (d.smmus i) w) d.world
    { d with world := w.valMemoryFree d.gSmmu }

end

end Smmu
