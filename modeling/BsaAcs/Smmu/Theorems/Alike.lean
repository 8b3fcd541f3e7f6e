import BsaAcs.Smmu.Theorems.Roots

namespace Smmu

-- Two worlds that only differ in what the words of the memory hold.
structure World.Alike (w v : World) : Prop extends w.SameBlocks v where
  reads : v.reads = w.reads
  trace : v.trace = w.trace

namespace World

variable {pf : Platform} {w w₁ v v₁ : World}

theorem Alike.refl : w.Alike w :=
  ⟨.refl, rfl, rfl⟩

theorem Alike.symm (h : w.Alike v) : v.Alike w :=
  ⟨⟨h.live.symm, h.wild.symm, h.requests.symm, h.faults.symm⟩, h.reads.symm, h.trace.symm⟩

theorem Alike.trans (h : w.Alike v) (h₁ : v.Alike v₁) : w.Alike v₁ :=
  ⟨h.toSameBlocks.trans h₁.toSameBlocks, h₁.reads.trans h.reads, h₁.trace.trans h.trace⟩

-- Steps that only write to the memory.
theorem Alike.after (h : w.Alike v) (hw : w.Alike w₁) (hv : v.Alike v₁) : w₁.Alike v₁ :=
  (hw.symm.trans h).trans hv

theorem store_alike {a x : Nat} : w.Alike (w.store a x) :=
  ⟨store_same, rfl, rfl⟩

theorem memorySet_alike {a size x : Nat} : w.Alike (w.valMemorySet a size x) :=
  ⟨memorySet_same, rfl, rfl⟩

theorem Alike.alloc (h : w.Alike v) (size : Nat) :
    (v.valMemoryAlloc pf size).1 = (w.valMemoryAlloc pf size).1 ∧
      (w.valMemoryAlloc pf size).2.Alike (v.valMemoryAlloc pf size).2 := by
  have hp : (v.valMemoryAlloc pf size).1 = (w.valMemoryAlloc pf size).1 := by
    simp only [valMemoryAlloc, Heap.alloc, h.live, h.requests]
  refine ⟨hp, ⟨?_, h.wild, ?_, h.faults⟩, h.reads, h.trace⟩
  · simp only [valMemoryAlloc, Heap.alloc, h.live, h.requests]
  · simp only [valMemoryAlloc, Heap.alloc, h.requests]

theorem Alike.free (h : w.Alike v) (ptr : Nat) : (w.valMemoryFree ptr).Alike (v.valMemoryFree ptr) := by
  have hheap : (v.heap.free ptr).live = (w.heap.free ptr).live ∧ (v.heap.free ptr).wild = (w.heap.free ptr).wild := by
    simp only [Heap.free, h.live]
    split
    case isTrue => exact ⟨h.live, h.wild⟩
    case isFalse =>
      split
      case isTrue  => exact ⟨rfl, h.wild⟩
      case isFalse => exact ⟨rfl, congrArg (ptr :: ·) h.wild⟩
  refine ⟨⟨hheap.1, hheap.2, ?_, h.faults⟩, h.reads, h.trace⟩
  exact Heap.free_requests.trans (h.requests.trans Heap.free_requests.symm)

theorem Alike.fault (h : w.Alike v) : w.fault.Alike v.fault :=
  ⟨⟨h.live, h.wild, h.requests, congrArg (· + 1) h.faults⟩, h.reads, h.trace⟩

theorem Alike.read (h : w.Alike v) (address : Nat) :
    (v.valMmioRead pf address).1 = (w.valMmioRead pf address).1 ∧
      (w.valMmioRead pf address).2.Alike (v.valMmioRead pf address).2 := by
  have hp : (v.valMmioRead pf address).1 = (w.valMmioRead pf address).1 := by
    simp only [valMmioRead, h.reads]
  refine ⟨hp, ⟨h.live, h.wild, h.requests, h.faults⟩, congrArg (· + 1) h.reads, ?_⟩
  simp only [valMmioRead, h.reads, h.trace]

theorem Alike.write (h : w.Alike v) (address value : Nat) : (w.valMmioWrite address value).Alike (v.valMmioWrite address value) :=
  ⟨⟨h.live, h.wild, h.requests, h.faults⟩, h.reads, congrArg (_ :: ·) h.trace⟩

-- Two results that only differ so.
structure SameResult {α β : Type} (r s : α × β × World) : Prop where
  status : s.1 = r.1
  value  : s.2.1 = r.2.1
  world  : r.2.2.Alike s.2.2

end World

section

variable {pf : Platform} {w v : World} {smmu : SmmuDev}

theorem writeSte_alike {cfg : Option SteConfig} {ste : Nat} : w.Alike (smmuStrtabWriteSte cfg ste w) := by
  refine ⟨writeSte_same, ?_, ?_⟩
  all_goals
    simp only [smmuStrtabWriteSte]
    split <;> rfl

theorem abortStes_alike {ste n : Nat} : w.Alike (abortStes ste n w) := by
  induction n generalizing ste w
  case zero      => exact .refl
  case succ n hi => exact writeSte_alike.trans hi

theorem writeCtxDesc_alike {cdptr : Nat} {cd : CtxDesc} : w.Alike (writeCtxDesc cdptr cd w) :=
  ⟨writeCtxDesc_same, rfl, rfl⟩

-- What the functions return does not depend on the words of the memory.

theorem initLevel2_alike (sid : Nat) (h : w.Alike v) :
    World.SameResult (smmuStrtabInitLevel2 pf smmu sid w) (smmuStrtabInitLevel2 pf smmu sid v) := by
  have ⟨hp, hw⟩ := @World.Alike.alloc pf _ _ h ((1 <<< strtabSplit) * strtabSteDwords * bytesPerDword * 2)
  simp only [smmuStrtabInitLevel2, hp]
  split
  case isTrue => exact ⟨rfl, rfl, h⟩
  case isFalse =>
    split
    case isTrue => exact ⟨rfl, rfl, hw⟩
    case isFalse =>
      refine ⟨rfl, rfl, hw.after ?_ ?_⟩
      all_goals exact (World.memorySet_alike.trans abortStes_alike).trans World.store_alike

theorem allocLeaf_alike (h : w.Alike v) :
    (smmuCdtabAllocLeafTable pf v).1 = (smmuCdtabAllocLeafTable pf w).1 ∧
      (smmuCdtabAllocLeafTable pf w).2.Alike (smmuCdtabAllocLeafTable pf v).2 := by
  have ⟨hp, hw⟩ := @World.Alike.alloc pf _ _ h (cdtabL2EntryCount * (cdtabCdDwords <<< 3) * 2)
  simp only [smmuCdtabAllocLeafTable, hp]
  split <;> exact ⟨rfl, hw⟩

theorem getCtxDesc_alike (s1fmt ssid : Nat) (cdcfg : CdtabConfig) (h : w.Alike v) :
    World.SameResult (smmuCdtabGetCtxDesc pf s1fmt ssid cdcfg w) (smmuCdtabGetCtxDesc pf s1fmt ssid cdcfg v) := by
  have ⟨hl, hw⟩ := @allocLeaf_alike pf _ _ h
  simp only [smmuCdtabGetCtxDesc]
  split
  case isTrue => exact ⟨rfl, rfl, h⟩
  case isFalse =>
    split
    case isTrue => exact ⟨rfl, rfl, h.fault⟩
    case isFalse =>
      split
      case isTrue => exact ⟨rfl, rfl, h⟩
      case isFalse =>
        rcases hv : smmuCdtabAllocLeafTable pf v with ⟨leaf, v₁⟩
        rcases hw₁ : smmuCdtabAllocLeafTable pf w with ⟨leaf', w₁⟩
        rw [hv, hw₁] at hl hw
        simp only at hl hw
        subst hl
        cases leaf
        case none   => exact ⟨rfl, rfl, hw⟩
        case some d => exact ⟨rfl, rfl, hw.after World.store_alike World.store_alike⟩

theorem cdtabWrite_alike (ssid : Nat) (cfg : Stage1Config) (h : w.Alike v) :
    World.SameResult (smmuCdtabWriteCtxDesc pf ssid cfg w) (smmuCdtabWriteCtxDesc pf ssid cfg v) := by
  have ⟨h₁, h₂, h₃⟩ := @getCtxDesc_alike pf _ _ cfg.s1fmt ssid cfg.cdcfg h
  simp only [smmuCdtabWriteCtxDesc]
  split
  case isTrue => exact ⟨rfl, rfl, h⟩
  case isFalse =>
    rcases hv : smmuCdtabGetCtxDesc pf cfg.s1fmt ssid cfg.cdcfg v with ⟨r, cdcfg, v₁⟩
    rcases hw : smmuCdtabGetCtxDesc pf cfg.s1fmt ssid cfg.cdcfg w with ⟨r', cdcfg', w₁⟩
    rw [hv, hw] at h₁ h₂ h₃
    simp only at h₁ h₂ h₃
    subst h₁ h₂
    cases r
    case none     => exact ⟨rfl, rfl, h₃⟩
    case some ptr => exact ⟨rfl, rfl, h₃.after writeCtxDesc_alike writeCtxDesc_alike⟩

theorem cdtabAllocTable_alike (size : Nat) (cfg : Stage1Config) (h : w.Alike v) :
    World.SameResult (cdtabAllocTable pf size cfg w) (cdtabAllocTable pf size cfg v) := by
  have ⟨hp, hw⟩ := @World.Alike.alloc pf _ _ h (size * 2)
  simp only [cdtabAllocTable, hp]
  split
  case isTrue  => exact ⟨rfl, rfl, hw⟩
  case isFalse => exact ⟨rfl, rfl, hw.after World.memorySet_alike World.memorySet_alike⟩

theorem cdtabAlloc_alike (cd2l : Bool) (cfg : Stage1Config) (h : w.Alike v) :
    World.SameResult (smmuCdtabAlloc pf cd2l cfg w) (smmuCdtabAlloc pf cd2l cfg v) := by
  have ⟨hp, hw⟩ := @World.Alike.alloc pf _ _ h (numL1Ents cfg.s1cdmax * sizeofCdtabL1CtxDesc)
  simp only [smmuCdtabAlloc, hp]
  split
  case isTrue =>
    split
    case isTrue  => exact ⟨rfl, rfl, hw⟩
    case isFalse => exact cdtabAllocTable_alike _ _ hw
  case isFalse => exact cdtabAllocTable_alike _ _ h

theorem mapStage1_alike (cd2l : Bool) (ssid ssidBits : Nat) (pgt : PgtDescriptor) (cfg : Stage1Config) (h : w.Alike v) :
    World.SameResult (mapStage1 pf cd2l ssid ssidBits pgt cfg w) (mapStage1 pf cd2l ssid ssidBits pgt cfg v) := by
  have htable : World.SameResult
      (if cfg.cdcfg.cdtabPtr = 0 then smmuCdtabAlloc pf cd2l { cfg with s1cdmax := ssidBits % 2 ^ 8 } w
        else (true, { cfg with s1cdmax := ssidBits % 2 ^ 8 }, w))
      (if cfg.cdcfg.cdtabPtr = 0 then smmuCdtabAlloc pf cd2l { cfg with s1cdmax := ssidBits % 2 ^ 8 } v
        else (true, { cfg with s1cdmax := ssidBits % 2 ^ 8 }, v)) := by
    split
    case isTrue  => exact cdtabAlloc_alike _ _ h
    case isFalse => exact ⟨rfl, rfl, h⟩
  have ⟨h₁, h₂, h₃⟩ := htable
  simp only [mapStage1]
  rcases hv : (if cfg.cdcfg.cdtabPtr = 0 then smmuCdtabAlloc pf cd2l { cfg with s1cdmax := ssidBits % 2 ^ 8 } v
    else (true, { cfg with s1cdmax := ssidBits % 2 ^ 8 }, v)) with ⟨ok, cfg₁, v₁⟩
  rcases hw : (if cfg.cdcfg.cdtabPtr = 0 then smmuCdtabAlloc pf cd2l { cfg with s1cdmax := ssidBits % 2 ^ 8 } w
    else (true, { cfg with s1cdmax := ssidBits % 2 ^ 8 }, w)) with ⟨ok', cfg₁', w₁⟩
  rw [hv, hw] at h₁ h₂ h₃
  simp only at h₁ h₂ h₃
  subst h₁ h₂
  cases ok
  case false => exact ⟨rfl, rfl, h₃⟩
  case true  => exact cdtabWrite_alike _ _ h₃

theorem mapTables_alike (cd2l : Bool) (pgt : PgtDescriptor) (m : Master) (h : w.Alike v) :
    (mapTables pf smmu cd2l pgt m v).1 = (mapTables pf smmu cd2l pgt m w).1 ∧
      World.SameResult (mapTables pf smmu cd2l pgt m w).2 (mapTables pf smmu cd2l pgt m v).2 := by
  have hlevel : World.SameResult
      (if smmu.supported.stLevel2lvl then smmuStrtabInitLevel2 pf smmu m.sid w else (true, smmu, w))
      (if smmu.supported.stLevel2lvl then smmuStrtabInitLevel2 pf smmu m.sid v else (true, smmu, v)) := by
    split
    case isTrue  => exact initLevel2_alike _ h
    case isFalse => exact ⟨rfl, rfl, h⟩
  obtain ⟨h₁, h₂, h₃⟩ := hlevel
  simp only [mapTables]
  rcases hv : (if smmu.supported.stLevel2lvl then smmuStrtabInitLevel2 pf smmu m.sid v else (true, smmu, v)) with
    ⟨ok, smmu₁, v₁⟩
  rcases hw : (if smmu.supported.stLevel2lvl then smmuStrtabInitLevel2 pf smmu m.sid w else (true, smmu, w)) with
    ⟨ok', smmu₁', w₁⟩
  rw [hv, hw] at h₁ h₂ h₃
  simp only at h₁ h₂ h₃
  subst h₁ h₂
  cases ok
  case false => exact ⟨rfl, rfl, rfl, h₃⟩
  case true =>
    cases m.stage
    case s2 => exact ⟨rfl, rfl, rfl, h₃⟩
    case s1 =>
      obtain ⟨h₄, h₅, h₆⟩ := @mapStage1_alike pf _ _ cd2l m.ssid m.ssidBits pgt m.stage1 h₃
      exact ⟨h₄, rfl, congrArg (fun stage1 => ({ m with stage := .s1, stage1 := stage1 } : Master)) h₅, h₆⟩

theorem mapMaster_alike (cd2l : Bool) (attr : SmmuMasterAttributes) (pgt : PgtDescriptor) (m : Master) (h : w.Alike v) :
    (mapMaster pf smmu cd2l attr pgt m v).1 = (mapMaster pf smmu cd2l attr pgt m w).1 ∧
      World.SameResult (mapMaster pf smmu cd2l attr pgt m w).2 (mapMaster pf smmu cd2l attr pgt m v).2 := by
  simp only [mapMaster]
  cases m.selectStage smmu attr
  case none => exact ⟨rfl, rfl, rfl, h⟩
  case some m =>
    simp only
    split
    case isFalse => exact ⟨rfl, rfl, rfl, h⟩
    case isTrue =>
      obtain ⟨h₁, h₂, h₃, h₄⟩ := @mapTables_alike pf _ _ smmu cd2l pgt m h
      rcases hv : mapTables pf smmu cd2l pgt m v with ⟨ok, smmu₁, m₁, v₁⟩
      rcases hw : mapTables pf smmu cd2l pgt m w with ⟨ok', smmu₁', m₁', w₁⟩
      rw [hv, hw] at h₁ h₂ h₃ h₄
      simp only at h₁ h₂ h₃ h₄
      subst h₁ h₂ h₃
      cases ok
      case false => exact ⟨rfl, rfl, rfl, h₄⟩
      case true  => exact ⟨rfl, rfl, rfl, h₄.after writeSte_alike writeSte_alike⟩

theorem issueCmd_alike (base opcode : Nat) (cmdq : CmdQueue) (h : w.Alike v) :
    (smmuCmdqIssueCmd pf base cmdq opcode w).2.Alike (smmuCmdqIssueCmd pf base cmdq opcode v).2 := by
  have ⟨hr, hw⟩ := @World.Alike.read pf _ _ h (base + cmdqProdOffset)
  simp only [smmuCmdqIssueCmd]
  cases smmuCmdqBuildCmd opcode
  case none => exact h
  case some cmd =>
    simp only [smmuCmdqWriteCmd, hr]
    split
    case isTrue => exact h
    case isFalse =>
      refine World.Alike.write (hw.after ?_ ?_) _ _
      all_goals exact World.store_alike.trans World.store_alike

theorem issueAll_alike (base : Nat) (cmdq : CmdQueue) (opcodes : List Nat) (h : w.Alike v) :
    (opcodes.foldl (fun w opcode => (smmuCmdqIssueCmd pf base cmdq opcode w).2) w).Alike
      (opcodes.foldl (fun w opcode => (smmuCmdqIssueCmd pf base cmdq opcode w).2) v) := by
  induction opcodes generalizing w v
  case nil         => exact h
  case cons o os hi => exact hi (issueCmd_alike base o cmdq h)

theorem pollLoop_alike (base timeout fuel : Nat) (queue : Queue) (h : w.Alike v) :
    (pollLoop pf base timeout fuel queue v).map Prod.fst = (pollLoop pf base timeout fuel queue w).map Prod.fst := by
  induction fuel generalizing queue w v
  case zero => rfl
  case succ fuel hi =>
    have ⟨hr, hw⟩ := @World.Alike.read pf _ _ h (base + cmdqConsOffset)
    simp only [pollLoop, hr]
    split
    case isFalse => rfl
    case isTrue =>
      split
      case isTrue  => rfl
      case isFalse => exact hi _ hw

theorem pollUntilConsumed_alike (base : Nat) (cmdq : CmdQueue) (fuel : Nat) (h : w.Alike v) :
    (smmuCmdqPollUntilConsumed pf base cmdq fuel v).isSome = (smmuCmdqPollUntilConsumed pf base cmdq fuel w).isSome := by
  have ⟨hr₁, hw₁⟩ := @World.Alike.read pf _ _ h (base + cmdqProdOffset)
  have ⟨hr₂, hw₂⟩ := @World.Alike.read pf _ _ hw₁ (base + cmdqConsOffset)
  have hpoll (queue : Queue) := @pollLoop_alike pf _ _ base smmuCmdqPollTimeout fuel queue hw₂
  have ends (v : World) : (smmuCmdqPollUntilConsumed pf base cmdq fuel v).isSome =
      ((pollLoop pf base smmuCmdqPollTimeout fuel
        ⟨(v.valMmioRead pf (base + cmdqProdOffset)).1,
          ((v.valMmioRead pf (base + cmdqProdOffset)).2.valMmioRead pf (base + cmdqConsOffset)).1, cmdq.queue.log2nent⟩
        ((v.valMmioRead pf (base + cmdqProdOffset)).2.valMmioRead pf (base + cmdqConsOffset)).2).map Prod.fst).isSome := by
    simp only [smmuCmdqPollUntilConsumed]
    split
    case h_1 he => rw [he]; rfl
    case h_2 he =>
      rw [he]
      split <;> rfl
  rw [ends, ends, hr₁, hr₂, hpoll]

theorem tlbiCfgi_alike (base : Nat) (cmdq : CmdQueue) (hyp : Bool) (fuel : Nat) (h : w.Alike v) :
    (smmuTlbiCfgi pf base cmdq hyp fuel v).isSome = (smmuTlbiCfgi pf base cmdq hyp fuel w).isSome :=
  pollUntilConsumed_alike base cmdq fuel (issueAll_alike base cmdq (invalidation hyp) h)

end

-- Two drivers that agree in what belongs to the SMMU and the stream that a map names: the SMMU itself and the
-- record of the stream. The other SMMUs, the other records and the words of the memory may differ.
structure Driver.AgreesFor (attr : SmmuMasterAttributes) (d e : Driver) : Prop where
  gSmmu    : e.gSmmu = d.gSmmu
  numSmmus : e.numSmmus = d.numSmmus
  smmu     : e.smmus attr.smmuIndex = d.smmus attr.smmuIndex
  record   : (e.masters.find? (·.master.sid == attr.streamid)).map (·.master) =
    (d.masters.find? (·.master.sid == attr.streamid)).map (·.master)
  world    : d.world.Alike e.world

section

variable {pf : Platform} {attr : SmmuMasterAttributes} {pgt : PgtDescriptor} {d e : Driver}

theorem masterAt_alike {sid : Nat}
    (hr : (e.masters.find? (·.master.sid == sid)).map (·.master) = (d.masters.find? (·.master.sid == sid)).map (·.master))
    (hw : d.world.Alike e.world) :
    (smmuMasterAt pf sid e).1.map Prod.snd = (smmuMasterAt pf sid d).1.map Prod.snd ∧
      (smmuMasterAt pf sid d).2.world.Alike (smmuMasterAt pf sid e).2.world := by
  have found {d : Driver} {i : Nat} (hi : d.masters.findIdx? (·.master.sid == sid) = some i) :
      (smmuMasterAt pf sid d).1.map Prod.snd = (d.masters.find? (·.master.sid == sid)).map (·.master) ∧
        (smmuMasterAt pf sid d).2 = d ∧ (d.masters.find? (·.master.sid == sid)).isSome := by
    have hlt := (List.findIdx?_eq_some_iff_getElem.mp hi).1
    rw [List.find?_eq_bind_findIdx?_getElem?, hi]
    simp [smmuMasterAt, hi, hlt]
  have missing {d : Driver} (hi : d.masters.findIdx? (·.master.sid == sid) = none) :
      (d.masters.find? (·.master.sid == sid)).isSome = false := by
    rw [List.find?_eq_bind_findIdx?_getElem?, hi]
    rfl
  have hsome := congrArg Option.isSome hr
  rw [Option.isSome_map, Option.isSome_map] at hsome
  cases hi : d.masters.findIdx? (·.master.sid == sid)
  case some i =>
    obtain ⟨h₁, h₂, h₃⟩ := found hi
    cases hj : e.masters.findIdx? (·.master.sid == sid)
    case none =>
      rw [h₃, missing hj] at hsome
      cases hsome
    case some j =>
      obtain ⟨h₁', h₂', _⟩ := found hj
      rw [h₁, h₂, h₁', h₂']
      exact ⟨hr, hw⟩
  case none =>
    cases hj : e.masters.findIdx? (·.master.sid == sid)
    case some j =>
      obtain ⟨_, _, h₃⟩ := found hj
      rw [h₃, missing hi] at hsome
      cases hsome
    case none =>
      obtain ⟨hp₁, hw₁⟩ := @World.Alike.alloc pf _ _ hw sizeofSmmuMasterNode
      obtain ⟨hp₂, hw₂⟩ := @World.Alike.alloc pf _ _ hw₁ sizeofSmmuMaster
      simp only [smmuMasterAt, hi, hj, hp₁, hp₂]
      split
      case isTrue => exact ⟨rfl, hw₁⟩
      case isFalse =>
        split
        case isTrue  => exact ⟨rfl, hw₂.free _⟩
        case isFalse => exact ⟨rfl, hw₂⟩

-- A map of a stream whose record is not bound to another SMMU succeeds or fails no matter what the other SMMUs,
-- the other records and the memory hold.
theorem map_status_alike {fuel : Nat} (h : d.AgreesFor attr e)
    (hb : ∀ k, (d.recordOf attr.streamid).smmu = some k → k = attr.smmuIndex) :
    (valSmmuMap pf fuel attr pgt e).map Prod.fst = (valSmmuMap pf fuel attr pgt d).map Prod.fst := by
  obtain ⟨hr, hw⟩ := @masterAt_alike pf d e attr.streamid h.record h.world
  rcases hd : smmuMasterAt pf attr.streamid d with ⟨r, d₁⟩
  rcases he : smmuMasterAt pf attr.streamid e with ⟨r', e₁⟩
  rw [hd, he] at hr hw
  simp only at hr hw
  have hl := masterAt_cases hd
  have hl' := masterAt_cases he
  simp only [valSmmuMap, h.gSmmu, h.numSmmus, h.smmu, hd, he]
  split
  case isTrue => rfl
  case isFalse =>
    split
    case isTrue => rfl
    case isFalse =>
      split
      case isTrue => rfl
      case isFalse =>
        cases r
        case none =>
          cases r'
          case none   => rfl
          case some r => cases hr
        case some r =>
          cases r'
          case none => cases hr
          case some r' =>
            rcases r with ⟨i, m⟩
            rcases r' with ⟨j, m'⟩
            cases Option.some.inj hr
            have hm : d.recordOf attr.streamid = m := hl.recordOf_eq
            have hbound : (m.bind attr).smmu = some attr.smmuIndex := by
              cases hs : m.smmu
              case none => simp [Master.bind, hs]
              case some k =>
                cases hb k (hm ▸ hs)
                simp [Master.bind, hs]
            simp only [hbound, hl.smmus_eq, hl'.smmus_eq, h.smmu, Option.map_some, Option.getD_some]
            obtain ⟨h₁, h₂, _, h₄⟩ := @mapMaster_alike pf _ _ (d.smmus attr.smmuIndex)
              (d.smmus attr.smmuIndex).supported.cd2l attr pgt (m.bind attr) hw
            rcases hv : mapMaster pf (d.smmus attr.smmuIndex) (d.smmus attr.smmuIndex).supported.cd2l attr pgt
              (m.bind attr) e₁.world with ⟨ok, smmu₁, m₁, v₁⟩
            rcases hd' : mapMaster pf (d.smmus attr.smmuIndex) (d.smmus attr.smmuIndex).supported.cd2l attr pgt
              (m.bind attr) d₁.world with ⟨ok', smmu₁', m₁', w₁⟩
            rw [hv, hd'] at h₁ h₂ h₄
            simp only at h₁ h₂ h₄
            subst h₁ h₂
            cases ok
            case false => rfl
            case true =>
              have ht := @tlbiCfgi_alike pf _ _ smmu₁.base smmu₁.cmdq smmu₁.supported.hyp fuel h₄
              simp only [if_true]
              cases hc : smmuTlbiCfgi pf smmu₁.base smmu₁.cmdq smmu₁.supported.hyp fuel v₁ <;>
                cases hc' : smmuTlbiCfgi pf smmu₁.base smmu₁.cmdq smmu₁.supported.hyp fuel w₁ <;>
                simp [hc, hc'] at ht ⊢

end

end Smmu
