import BsaAcs.Smmu.Theorems.Separation

namespace Smmu

open Heap (Frame Inside)

-- A record without a table has nothing that belongs to a table.
def Stage1Config.Whole (cd2l : Bool) (cfg : Stage1Config) : Prop :=
  cfg.cdcfg.cdtabPtr = 0 → cfg.cdcfg.l1Ptr = 0 ∧ twoLevel cd2l cfg.s1cdmax = false

def Driver.Whole (d : Driver) : Prop :=
  ∀ n ∈ d.masters, ∀ k, n.master.smmu = some k → n.master.stage1.Whole (d.smmus k).supported.cd2l

-- After `r` requests, the allocator answers those of the next call for a table of two levels: its array
-- of level-1 descriptors, and the first level itself.
def Provides (pf : Platform) (r : Nat) (cd2l : Bool) (s1cdmax : Nat) : Prop :=
  ∀ n live, r ≤ n → n < r + 5 →
    pf.alloc n live (numL1Ents s1cdmax * sizeofCdtabL1CtxDesc % 2 ^ 32) ≠ 0 ∧
    pf.alloc n live (cdtabSize cd2l s1cdmax * 2 % 2 ^ 32) ≠ 0

section

variable {pf : Platform} {w w' : World} {ok cd2l : Bool} {r ssid ssidBits : Nat} {cfg cfg' : Stage1Config}

theorem Stage1Config.Whole.zero : Master.zero.stage1.Whole cd2l := by
  intro _
  refine ⟨rfl, ?_⟩
  have hm : maxContexts Master.zero.stage1.s1cdmax = 1 := rfl
  simp [twoLevel, hm, cdtabL2EntryCount]

theorem cdtabAlloc_whole (h : smmuCdtabAlloc pf cd2l cfg w = (ok, cfg', w')) (hr : r ≤ w.heap.requests.length)
    (hr' : w.heap.requests.length ≤ r + 3) (hl : cfg.cdcfg.l1Ptr = 0)
    (ha : twoLevel cd2l cfg.s1cdmax = true → Provides pf r cd2l cfg.s1cdmax) :
    cfg'.Whole cd2l ∧ (ok = true → cfg'.cdcfg.cdtabPtr ≠ 0) := by
  simp only [smmuCdtabAlloc] at h
  split at h
  case isTrue ht =>
    have hs : numL1Ents cfg.s1cdmax * cdtabL1DescDwords <<< 3 % 2 ^ 32 = cdtabSize cd2l cfg.s1cdmax := by
      rw [cdtabSize, if_pos ht]
    rw [hs] at h
    split at h
    case isTrue hz => exact absurd hz (ha ht w.heap.requests.length w.heap.live hr (by omega)).1
    case isFalse =>
      simp only [cdtabAllocTable] at h
      split at h
      case isTrue hz => exact absurd hz (ha ht (w.heap.requests.length + 1) _ (by omega) (by omega)).2
      case isFalse hz =>
        cases h
        exact ⟨fun hc => absurd hc hz, fun _ => hz⟩
  case isFalse ht =>
    have ht := Bool.eq_false_of_not_eq_true ht
    simp only [cdtabAllocTable] at h
    split at h
    case isTrue hz =>
      cases h
      exact ⟨fun _ => ⟨hl, ht⟩, fun hc => by cases hc⟩
    case isFalse hz =>
      cases h
      exact ⟨fun hc => absurd hc hz, fun _ => hz⟩

theorem mapStage1_whole {pgt : PgtDescriptor} (hr : r ≤ w.heap.requests.length) (hr' : w.heap.requests.length ≤ r + 3)
    (hw : cfg.Whole cd2l)
    (ha : cfg.cdcfg.cdtabPtr = 0 → twoLevel cd2l (ssidBits % 2 ^ 8) = true → Provides pf r cd2l (ssidBits % 2 ^ 8))
    (h : mapStage1 pf cd2l ssid ssidBits pgt cfg w = (ok, cfg', w')) : cfg'.Whole cd2l := by
  have write {cfg : Stage1Config} {w : World} (h : smmuCdtabWriteCtxDesc pf ssid cfg w = (ok, cfg', w'))
      (hw : cfg.cdcfg.cdtabPtr ≠ 0) : cfg'.Whole cd2l := by
    have ⟨_, _, _, hp, _⟩ := cdtabWrite_format h
    exact fun hc => absurd (hp ▸ hc) hw
  simp only [mapStage1] at h
  split at h
  case h_1 he =>
    split at he
    case isTrue hz =>
      cases h
      exact (cdtabAlloc_whole he hr hr' (hw hz).1 (ha hz)).1
    case isFalse => cases he
  case h_2 cfg₁ w₁ he =>
    split at he
    case isTrue hz => exact write h ((cdtabAlloc_whole he hr hr' (hw hz).1 (ha hz)).2 rfl)
    case isFalse hz =>
      cases he
      exact write h hz

end

-- The calls of a run.

section

variable {pf : Platform} {smmu smmu' : SmmuDev} {cd2l ok : Bool} {attr : SmmuMasterAttributes} {pgt : PgtDescriptor}
variable {m m' : Master} {w w' : World} {d d' : Driver} {others : List Nat} {r : Nat}

theorem initLevel2_requests {sid : Nat} (h : smmuStrtabInitLevel2 pf smmu sid w = (ok, smmu', w')) :
    w.heap.requests.length ≤ w'.heap.requests.length ∧ w'.heap.requests.length ≤ w.heap.requests.length + 1 := by
  simp only [smmuStrtabInitLevel2] at h
  split at h
  case isTrue =>
    simp only [Prod.mk.injEq] at h
    rw [← h.2.2]
    exact ⟨Nat.le_refl _, Nat.le_succ _⟩
  case isFalse =>
    split at h
    case isTrue =>
      simp only [Prod.mk.injEq] at h
      rw [← h.2.2]
      exact ⟨Nat.le_succ _, Nat.le_refl _⟩
    case isFalse =>
      simp only [Prod.mk.injEq] at h
      rw [(level2Table_same.trans_eq h.2.2).requests]
      exact ⟨Nat.le_succ _, Nat.le_refl _⟩

theorem mapTables_whole (hr : r ≤ w.heap.requests.length) (hr' : w.heap.requests.length ≤ r + 2)
    (hw : m.stage1.Whole cd2l)
    (ha : m.stage = .s1 → m.stage1.cdcfg.cdtabPtr = 0 → twoLevel cd2l (m.ssidBits % 2 ^ 8) = true →
      Provides pf r cd2l (m.ssidBits % 2 ^ 8))
    (h : mapTables pf smmu cd2l pgt m w = (ok, smmu', m', w')) : m'.stage1.Whole cd2l := by
  simp only [mapTables] at h
  split at h
  case h_1 =>
    cases h
    exact hw
  case h_2 w₁ he =>
    obtain ⟨h₁, h₂⟩ : r ≤ w₁.heap.requests.length ∧ w₁.heap.requests.length ≤ r + 3 := by
      split at he
      case isTrue =>
        have := initLevel2_requests he
        omega
      case isFalse =>
        cases he
        omega
    split at h
    case h_1 =>
      cases h
      exact hw
    case h_2 hst =>
      rcases hm : mapStage1 pf cd2l m.ssid m.ssidBits pgt m.stage1 w₁ with ⟨ok₁, cfg, w₂⟩
      rw [hm] at h
      cases h
      exact mapStage1_whole h₁ h₂ hw (ha hst) hm

theorem mapMaster_whole (hr : r ≤ w.heap.requests.length) (hr' : w.heap.requests.length ≤ r + 2)
    (hw : m.stage1.Whole cd2l)
    (ha : attr.stage2 = 0 → m.stage1.cdcfg.cdtabPtr = 0 → twoLevel cd2l (m.ssidBits % 2 ^ 8) = true →
      Provides pf r cd2l (m.ssidBits % 2 ^ 8))
    (h : mapMaster pf smmu cd2l attr pgt m w = (ok, smmu', m', w')) : m'.stage1.Whole cd2l := by
  simp only [mapMaster] at h
  split at h
  case h_1 =>
    cases h
    exact hw
  case h_2 m₁ hm =>
    obtain ⟨h₁, h₂, h₃⟩ := selectStage_kept hm
    rw [← h₁] at hw
    rw [← h₁, ← h₂] at ha
    split at h
    case isTrue =>
      split at h
      all_goals
        rename_i ht
        cases h
        exact mapTables_whole hr hr' hw (fun hs => ha (h₃ hs).1) ht
    case isFalse =>
      cases h
      exact hw

theorem Lookup.requests {sid : Nat} {o : Option (Nat × Master)} (h : Lookup pf sid d o d') :
    d.world.heap.requests.length ≤ d'.world.heap.requests.length ∧
      d'.world.heap.requests.length ≤ d.world.heap.requests.length + 2 := by
  have alloc {size p : Nat} {w w' : World} (h : w.valMemoryAlloc pf size = (p, w')) :
      w'.heap.requests.length = w.heap.requests.length + 1 :=
    (congrArg (fun p => p.2.heap.requests.length) h).symm
  cases h
  case found => omega
  case noNode _ h₁ =>
    have := alloc h₁
    simp only
    omega
  case noMaster h₁ _ h₂ =>
    have := alloc h₁
    have := alloc h₂
    simp only [World.valMemoryFree, Heap.free_requests]
    omega
  case created h₁ _ h₂ _ =>
    have := alloc h₁
    have := alloc h₂
    simp only
    omega

-- The sizes of the tables of all SMMUs fit into 32 bits.
def Driver.Sized (d : Driver) : Prop :=
  ∀ k < d.numSmmus, (d.smmus k).base ≠ 0 → SizesFit (d.smmus k)

-- The record that a map works with, and the feature of its SMMU.
def Driver.target (d : Driver) (attr : SmmuMasterAttributes) : Master :=
  (d.recordOf attr.streamid).bind attr

def Driver.targetCd2l (d : Driver) (attr : SmmuMasterAttributes) : Bool :=
  d.boundCd2l (d.target attr) attr.smmuIndex

-- A map does not take a negative substream id, and if it needs a new table of context descriptors, then
-- its size fits into 32 bits. If the new table has two levels, then there is memory for it.
def Driver.CallSafe (pf : Platform) (d : Driver) : Call → Prop
  | .map attr _ => d.Takes attr → attr.stage2 = 0 →
    attr.substreamid < 2 ^ 31 ∧
    ((d.target attr).stage1.cdcfg.cdtabPtr = 0 →
      CdFits (d.targetCd2l attr) ((d.target attr).ssidBits % 2 ^ 8) ∧
      (twoLevel (d.targetCd2l attr) ((d.target attr).ssidBits % 2 ^ 8) = true →
        Provides pf d.world.heap.requests.length (d.targetCd2l attr) ((d.target attr).ssidBits % 2 ^ 8)))
  | .unmap _ => True

-- What holds between the calls.
structure Driver.Sane (others : List Nat) (d : Driver) : Prop where
  kept   : d.Kept others
  placed : d.Placed
  whole  : d.Whole
  sized  : d.Sized

theorem level1_index_lt (hr : smmu.Ready) (hf : SizesFit smmu) (hl : smmu.supported.stLevel2lvl = true) {sid : Nat}
    (hs : sidInRange smmu sid = true) : sid >>> strtabSplit < smmu.strtabCfg.l1EntCount := by
  have ⟨h₈, hc⟩ := hr.count hl
  have hb := hf.2
  rw [hl, if_pos rfl] at hb
  rw [hc, strtabSplit, shl1_eq (by omega), Nat.shiftRight_eq_div_pow, Nat.div_lt_iff_lt_mul (Nat.two_pow_pos _),
    ← Nat.pow_add, Nat.sub_add_cancel (by omega)]
  exact sidInRange_iff.mp hs

theorem recordOf_mem {sid k : Nat} (hs : (d.recordOf sid).smmu = some k) :
    ∃ n ∈ d.masters, n.master = d.recordOf sid ∧ n.master.sid = sid := by
  rw [Driver.recordOf] at hs ⊢
  cases hf : d.masters.find? (·.master.sid == sid)
  case none =>
    rw [hf] at hs
    cases hs
  case some n =>
    have h₁ := List.mem_of_find?_eq_some hf
    have h₂ : (n.master.sid == sid) = true := List.find?_some (p := fun n : Node => n.master.sid == sid) hf
    exact ⟨n, h₁, rfl, beq_iff_eq.mp h₂⟩

theorem Driver.Whole.recordOf {sid k : Nat} (hw : d.Whole) (hs : (d.recordOf sid).smmu = some k) :
    (d.recordOf sid).stage1.Whole (d.smmus k).supported.cd2l := by
  have ⟨n, hn, he, _⟩ := recordOf_mem hs
  rw [← he] at hs ⊢
  exact hw n hn k hs

-- A record that is not bound is empty.
theorem Driver.Kept.recordOf {sid : Nat} (hk : d.Kept others) (hs : (d.recordOf sid).smmu = none) :
    d.recordOf sid = .zero := by
  rw [Driver.recordOf] at hs ⊢
  cases hf : d.masters.find? (·.master.sid == sid)
  case none   => rfl
  case some n =>
    rw [hf] at hs
    exact (hk.nodes n (List.mem_of_find?_eq_some hf)).unused hs

theorem Driver.Sane.whole_target (h : d.Sane others) : (d.target attr).stage1.Whole (d.targetCd2l attr) := by
  rw [Driver.target, bind_stage1]
  cases hs : (d.recordOf attr.streamid).smmu
  case none =>
    rw [h.kept.recordOf hs]
    exact .zero
  case some k =>
    have hc : d.targetCd2l attr = (d.smmus k).supported.cd2l := by
      simp [Driver.targetCd2l, Driver.target, Master.bind, hs, Driver.boundCd2l]
    rw [hc]
    exact h.whole.recordOf hs

theorem Driver.Sane.unmapOk (h : d.Sane others) : d.UnmapOk attr := by
  intro k hs _ ht
  have ⟨n, hn, he, _⟩ := recordOf_mem hs
  have hw := h.whole.recordOf hs
  rw [← he] at hs ht hw ⊢
  have hp : n.master.stage1.cdcfg.cdtabPtr ≠ 0 := by
    intro hz
    rw [(hw hz).2] at ht
    cases ht
  refine ((h.kept.nodes n hn).bound k hs).format hp fun hl => ?_
  rw [(linear_iff (h.placed.nodes n hn k hs) hp).mp hl] at ht
  cases ht

theorem Driver.Sane.mapOk (h : d.Sane others) (ht : d.Takes attr) (hs : attr.stage2 = 0 → attr.substreamid < 2 ^ 31) :
    MapOk (d.smmus attr.smmuIndex) attr (d.recordOf attr.streamid) := by
  have hw : (d.target attr).stage1.Whole (d.targetCd2l attr) := h.whole_target
  rw [Driver.target, bind_stage1] at hw
  have ⟨_, hk, hb⟩ := ht
  exact ⟨fun _ hz => (hw hz).1, hs, fun hl hr => level1_index_lt (h.kept.ready _ hk hb) (h.sized _ hk hb) hl hr⟩

theorem Driver.Sane.callOk {c : Call} (h : d.Sane others) (hc : d.CallSafe pf c) : d.CallOk c ∧ d.TablesFit c := by
  cases c
  case unmap attr => exact ⟨h.unmapOk, trivial⟩
  case map attr pgt =>
    exact ⟨fun ht => h.mapOk ht fun h1 => (hc ht h1).1, fun ht h1 hz => ((hc ht h1).2 hz).1⟩

theorem SmmuDev.SameBut.fits (h : smmu.SameBut smmu') (hf : SizesFit smmu) : SizesFit smmu' := by
  have ⟨_, _, h⟩ := h
  rw [h]
  exact hf

theorem Lookup.whole {sid : Nat} {o : Option (Nat × Master)} (hw : d.Whole) (h : Lookup pf sid d o d') : d'.Whole := by
  intro n hn k hk
  rw [h.smmus_eq]
  cases h
  case found    => exact hw n hn k hk
  case noNode   => exact hw n hn k hk
  case noMaster => exact hw n hn k hk
  case created =>
    rcases List.mem_cons.mp hn with rfl | hn
    case inl => cases hk
    case inr => exact hw n hn k hk

theorem Lookup.sized {sid : Nat} {o : Option (Nat × Master)} (hs : d.Sized) (h : Lookup pf sid d o d') : d'.Sized := by
  intro k hk
  rw [h.smmus_eq]
  rw [h.numSmmus_eq.1] at hk
  exact hs k hk

theorem Driver.mapped_cd2l {k i j : Nat} (hs : (d.smmus k).SameBut smmu') :
    ((d.mapped k i smmu' m' w').smmus j).supported.cd2l = (d.smmus j).supported.cd2l := by
  have ⟨_, _, he⟩ := hs
  have h₁ : (d.mapped k i smmu' m' w').smmus j = if j = k then smmu' else d.smmus j := rfl
  rw [h₁]
  split
  case isTrue hj =>
    rw [hj, he]
    rfl
  case isFalse => rfl

theorem record_whole {i : Nat} {d₁ : Driver} (h : d.Sane others) (ht : d.Takes attr) (hc : d.CallSafe pf (.map attr pgt))
    (hl : Lookup pf attr.streamid d (some (i, m)) d₁)
    (hm : mapMaster pf (d.smmus attr.smmuIndex) (d₁.boundCd2l (m.bind attr) attr.smmuIndex) attr pgt (m.bind attr)
      d₁.world = (ok, smmu', m', w')) :
    (d₁.mapped attr.smmuIndex i smmu' m' w').Whole ∧ (d₁.mapped attr.smmuIndex i smmu' m' w').Sized := by
  have hsame : (d₁.smmus attr.smmuIndex).SameBut smmu' := by
    rw [hl.smmus_eq]
    exact mapMaster_sameBut hm
  obtain ⟨hr, hr'⟩ := hl.requests
  have htarget : d.target attr = m.bind attr := by rw [Driver.target, hl.recordOf_eq]
  have hcd : d.targetCd2l attr = d₁.boundCd2l (m.bind attr) attr.smmuIndex := by
    rw [Driver.targetCd2l, htarget, Driver.boundCd2l, Driver.boundCd2l, hl.smmus_eq]
  have hw : (d.target attr).stage1.Whole (d.targetCd2l attr) := h.whole_target
  rw [htarget, hcd] at hw
  have hwhole := mapMaster_whole hr hr' hw (fun h1 hz => by
    have := ((hc ht h1).2 (htarget ▸ hz)).2
    rwa [htarget, hcd] at this) hm
  constructor
  case left =>
    intro n hn k hk
    rw [Driver.mapped_cd2l hsame]
    rcases mem_modify hn with hn | ⟨n₁, _, rfl⟩
    case inl => exact hl.whole h.whole n hn k hk
    case inr =>
      have hsmmu : m'.smmu = (m.bind attr).smmu := congrArg Prod.snd (mapMaster_key hm)
      have hb : d₁.boundCd2l (m.bind attr) attr.smmuIndex = (d₁.smmus k).supported.cd2l := by
        have hk : m'.smmu = some k := hk
        rw [Driver.boundCd2l, ← hsmmu, hk]
        rfl
      exact hb ▸ hwhole
  case right =>
    intro k hk hb
    have h₁ : (d₁.mapped attr.smmuIndex i smmu' m' w').smmus k = if k = attr.smmuIndex then smmu' else d₁.smmus k := rfl
    rw [h₁] at hb ⊢
    split at hb
    case isTrue hj =>
      rw [if_pos hj]
      obtain ⟨_, hi, hbase⟩ := ht
      exact (mapMaster_sameBut hm).fits (h.sized _ hi hbase)
    case isFalse hj =>
      rw [if_neg hj]
      exact hl.sized h.sized k hk hb

theorem Maps.whole {status : Nat} (hs : d.Sane others) (hc : d.CallSafe pf (.map attr pgt))
    (h : Maps pf attr pgt d status d') : d'.Whole ∧ d'.Sized := by
  cases h
  case rejected              => exact ⟨hs.whole, hs.sized⟩
  case noRecord _ _ _ hl     => exact ⟨hl.whole hs.whole, hl.sized hs.sized⟩
  case failed hg hk hb hl hm => exact record_whole hs ⟨hg, hk, hb⟩ hc hl hm
  case done hg hk hb hl hm _ =>
    have ⟨h₁, h₂⟩ := record_whole hs ⟨hg, hk, hb⟩ hc hl hm
    exact ⟨fun n hn k hk => h₁ n hn k hk, fun k hk hb => h₂ k hk hb⟩

theorem Unmaps.whole (hs : d.Sane others) (h : Unmaps pf attr d d') : d'.Whole ∧ d'.Sized := by
  cases h
  case noRecord hl       => exact ⟨hl.whole hs.whole, hl.sized hs.sized⟩
  case unused _ hl       => exact ⟨hl.whole hs.whole, hl.sized hs.sized⟩
  case outOfRange _ _ hl => exact ⟨hl.whole hs.whole, hl.sized hs.sized⟩
  case done hl _ _ _ =>
    refine ⟨?_, fun k hk hb => hl.sized hs.sized k hk hb⟩
    intro n hn k hk
    rcases mem_modify hn with hn | ⟨n₁, _, rfl⟩
    case inl => exact hl.whole hs.whole n hn k hk
    case inr => cases hk

theorem Maps.sane {status : Nat} (ha : pf.alloc.Sound) (hs : d.Sane others) (hc : d.CallSafe pf (.map attr pgt))
    (h : Maps pf attr pgt d status d') : d'.Sane others := by
  have ⟨h₁, h₂⟩ := hs.callOk hc
  have ⟨h₃, h₄⟩ := h.whole hs hc
  exact ⟨(h.kept ha.fresh hs.kept h₁).1, h.placed ha hs.kept hs.placed h₁ h₂, h₃, h₄⟩

theorem Unmaps.sane (ha : pf.alloc.Sound) (hs : d.Sane others) (h : Unmaps pf attr d d') : d'.Sane others := by
  have ⟨h₁, h₂⟩ := h.whole hs
  exact ⟨(h.kept ha.fresh hs.kept hs.unmapOk).1, h.placed ha hs.kept hs.placed hs.unmapOk, h₁, h₂⟩

theorem Step.sane {c : Call} {status : Nat} (ha : pf.alloc.Sound) (hs : d.Sane others) (hc : d.CallSafe pf c)
    (h : Step pf d c status d') : d'.Sane others := by
  cases h
  case map h   => exact (map_cases h).sane ha hs hc
  case unmap h => exact (unmap_cases h).sane ha hs

-- After the initialisation.
theorem init_sane {info : IovirtSmmuInfo} {fuel status : Nat} {w : World} (ha : pf.alloc.Sound) (ho : w.Owns others)
    (hw : w.heap.Laid) (hs : d.Sized) (h : valSmmuInit pf info fuel (.boot w) = some (status, d)) : d.Sane others := by
  have ⟨h₁, h₂⟩ := init_driver_placed ha hw h
  refine ⟨init_kept ha.fresh ho h, h₁, ?_, hs⟩
  intro n hn
  rw [h₂] at hn
  cases hn

-- The stage of the mapping is not supported by the SMMU that the call names.
def Unsupported (smmu : SmmuDev) (attr : SmmuMasterAttributes) : Prop :=
  if attr.stage2 ≠ 0 then smmu.supported.s2p = false else smmu.supported.s1p = false

-- The call asks for what the record already says.
def Master.Recorded (m : Master) (attr : SmmuMasterAttributes) (pgt : PgtDescriptor) : Prop :=
  attr.stage2 ≠ 0 ∧ m.stage = .s2 ∨
  attr.stage2 = 0 ∧ m.stage = .s1 ∧ m.ssid = attr.substreamid ∧ m.stage1.cd = ctxDesc pgt ∧ m.stage1.cdcfg.cdtabPtr ≠ 0

theorem mapStage1_failed {ssid ssidBits : Nat} {cfg cfg' : Stage1Config} (hp : cfg.cdcfg.cdtabPtr ≠ 0)
    (hb : cfg.s1cdmax = ssidBits % 2 ^ 8) (hc : cfg.cd = ctxDesc pgt)
    (h : mapStage1 pf cd2l ssid ssidBits pgt cfg w = (false, cfg', w')) : cfg' = cfg := by
  have hcfg : ({ cfg with s1cdmax := ssidBits % 2 ^ 8, cd := ctxDesc pgt } : Stage1Config) = cfg := by rw [← hb, ← hc]
  simp only [mapStage1, if_neg hp] at h
  rw [hcfg, smmuCdtabWriteCtxDesc] at h
  split at h
  case isTrue =>
    cases h
    rfl
  case isFalse =>
    split at h
    case h_2 => cases h
    case h_1 cdcfg w₁ hg =>
      cases h
      have he : cdcfg = cfg.cdcfg := by
        simp only [smmuCdtabGetCtxDesc] at hg
        split at hg
        case isTrue => cases hg
        case isFalse =>
          split at hg
          case isTrue => cases hg; rfl
          case isFalse =>
            split at hg
            case isTrue => cases hg
            case isFalse => split at hg <;> cases hg; rfl
      rw [he]

-- A failure that leaves the record as it was.
theorem mapMaster_failed (hb : m.stage1.cdcfg.cdtabPtr ≠ 0 → m.stage1.s1cdmax = m.ssidBits % 2 ^ 8)
    (hu : Unsupported smmu attr ∨ m.Recorded attr pgt)
    (h : mapMaster pf smmu cd2l attr pgt m w = (false, smmu', m', w')) : m' = m := by
  simp only [mapMaster] at h
  split at h
  case h_1 =>
    cases h
    rfl
  case h_2 m₁ hm =>
    have hr : m.Recorded attr pgt := by
      refine hu.resolve_left fun hn => ?_
      rw [Unsupported] at hn
      rcases selectStage_cases hm with ⟨h2, hs, _⟩ | ⟨h2, hs, _⟩ <;> simp [h2, hs] at hn
    have he : m₁ = m := by
      rcases selectStage_cases hm with ⟨h2, _, rfl⟩ | ⟨h2, _, rfl⟩
      all_goals rcases hr with ⟨h2', hs⟩ | ⟨h2', hs, hi, _⟩
      case inl.inl => rw [← hs]
      case inl.inr => exact absurd h2' h2
      case inr.inl => exact absurd h2 h2'
      case inr.inr => rw [← hs, ← hi]
    subst he
    split at h
    case isFalse =>
      cases h
      rfl
    case isTrue =>
      split at h
      case h_2 => cases h
      case h_1 ht =>
        cases h
        simp only [mapTables] at ht
        split at ht
        case h_1 =>
          cases ht
          rfl
        case h_2 w₁ he =>
          split at ht
          case h_1 => cases ht
          case h_2 hst =>
            rcases hm₁ : mapStage1 pf cd2l m₁.ssid m₁.ssidBits pgt m₁.stage1 w₁ with ⟨ok₁, cfg, w₂⟩
            rw [hm₁] at ht
            cases ht
            rcases hr with ⟨_, hs⟩ | ⟨_, _, _, hcd, hp⟩
            case inl =>
              rw [hst] at hs
              cases hs
            case inr => rw [mapStage1_failed hp (hb hp) hcd hm₁]

end

-- What a failed map leaves as it was.
structure FailsCleanly (pf : Platform) (others : List Nat) (hist : History) (attr : SmmuMasterAttributes)
    (d d' : Driver) : Prop where
  stes      : ∀ k < d.numSmmus, (d.smmus k).base ≠ 0 → ∀ sid, (d.smmus k).HasSte sid →
    smmuStrtabGetSteForSid (d'.smmus k) sid = smmuStrtabGetSteForSid (d.smmus k) sid ∧
    ∀ x, Inside (smmuStrtabGetSteForSid (d.smmus k) sid, 64) x → d'.world.heap.mem x = d.world.heap.mem x
  cds       : ∀ n ∈ d.masters, n.master.smmu ≠ none → ∀ ssid, n.master.stage1.HasCd ssid →
    ∀ x, Inside (cdEntry n.master.stage1 ssid, 64) x → d'.world.heap.mem x = d.world.heap.mem x
  records   : ∀ n ∈ d.masters, n.master.sid ∈ hist.current → n.master.smmu ≠ none → n ∈ d'.masters
  reachable : d'.world.Owns (d'.roots ++ others)
  unmap     : ∀ attr', attr'.streamid = attr.streamid → ∀ d'', Step pf d' (.unmap attr') 0 d'' →
    d''.world.faults = d'.world.faults ∧ d''.world.heap.wild = []
  retry     : ∀ pgt status d'', Step pf d' (.map attr pgt) status d'' →
    d''.world.faults = d'.world.faults ∧ d''.world.heap.wild = []

-- A map of a stream that is mapped is turned away before it touches the record, or asks for what is
-- recorded.
def Careful (hist : History) (d : Driver) (attr : SmmuMasterAttributes) (pgt : PgtDescriptor) : Prop :=
  attr.streamid ∈ hist.current → (d.recordOf attr.streamid).smmu ≠ none →
    ¬d.Takes attr ∨ Unsupported (d.smmus attr.smmuIndex) attr ∨ (d.recordOf attr.streamid).Recorded attr pgt

section

variable {pf : Platform} {attr : SmmuMasterAttributes} {pgt : PgtDescriptor} {d d' : Driver} {others : List Nat}
variable {hist : History} {status : Nat}

-- The only word of a block in use that a failed map writes: the level-1 descriptor of a new table of the
-- second level.
def FailWord (d : Driver) (attr : SmmuMasterAttributes) (x : Nat) : Prop :=
  d.Takes attr ∧ sidInRange (d.smmus attr.smmuIndex) attr.streamid = true ∧
    NewLevel2 (d.smmus attr.smmuIndex) attr.streamid x

theorem Maps.failed_frame (ha : pf.alloc.Sound) (hs : d.Sane others) (hc : d.CallSafe pf (.map attr pgt))
    (hn : status ≠ 0) (h : Maps pf attr pgt d status d') :
    Frame (FailWord d attr) d.world.heap d'.world.heap ∧ ∀ k, (d.smmus k).SameBut (d'.smmus k) := by
  cases h
  case rejected => exact ⟨.refl, fun _ => .refl⟩
  case noRecord _ _ _ hl =>
    refine ⟨hl.frame ha, fun k => ?_⟩
    rw [hl.smmus_eq]
    exact .refl
  case failed i m d₁ smmu' m' w' hg hk hb hl hm =>
    have ⟨h₁, h₂⟩ := hs.callOk hc
    have ht : d.Takes attr := ⟨hg, hk, hb⟩
    have hf := (record_placed ha hs.kept hs.placed ht (h₁ ht) h₂ hl hm).2
    have ⟨n, _, he, hsid⟩ := hl.listed
    have hkey := (mapMaster_key hm).trans (bind_key hsid)
    have hsid' : m'.sid = attr.streamid := congrArg Prod.fst hkey
    refine ⟨hf.mono ?_, fun k => ?_⟩
    · rintro x (⟨hr, hx⟩ | ⟨hok, _⟩)
      case inl =>
        rw [hsid'] at hr hx
        exact ⟨ht, hr, hx⟩
      case inr => cases hok
    · have h₃ : (d₁.mapped attr.smmuIndex i smmu' m' w').smmus k =
          if k = attr.smmuIndex then smmu' else d₁.smmus k := rfl
      rw [h₃, hl.smmus_eq]
      split
      case isTrue hj =>
        rw [hj]
        exact mapMaster_sameBut hm
      case isFalse => exact .refl
  case done => exact absurd rfl hn

theorem failWord_in {x : Nat} (hs : d.Sane others) (hx : FailWord d attr x) :
    d.In (.strtab attr.smmuIndex) x ∧ (d.smmus attr.smmuIndex).supported.stLevel2lvl = true := by
  have ⟨⟨_, hk, hb⟩, hr, hl, _, he⟩ := hx
  have ⟨h₈, _⟩ := (hs.kept.ready _ hk hb).count hl
  rw [he]
  exact ⟨l1Word_in hs.placed hk hb (hs.sized _ hk hb) hl h₈ (sidInRange_iff.mp hr), hl⟩

theorem Maps.failed_stes (ha : pf.alloc.Sound) (hs : d.Sane others) (hc : d.CallSafe pf (.map attr pgt))
    (hn : status ≠ 0) (h : Maps pf attr pgt d status d') {k sid : Nat} (hk : k < d.numSmmus)
    (hb : (d.smmus k).base ≠ 0) (he : (d.smmus k).HasSte sid) :
    smmuStrtabGetSteForSid (d'.smmus k) sid = smmuStrtabGetSteForSid (d.smmus k) sid ∧
      ∀ x, Inside (smmuStrtabGetSteForSid (d.smmus k) sid, 64) x → d'.world.heap.mem x = d.world.heap.mem x := by
  obtain ⟨hf, hsame⟩ := h.failed_frame ha hs hc hn
  constructor
  case left =>
    obtain ⟨l1Desc, hkeep, hd⟩ := hsame k
    rw [hd, smmuStrtabGetSteForSid, smmuStrtabGetSteForSid]
    cases hl : (d.smmus k).supported.stLevel2lvl
    case false => simp [SmmuDev.setStrtab, hl]
    case true  => simp [SmmuDev.setStrtab, hl, strtabL1DescDwords, hkeep _ (he.2 hl)]
  case right =>
    intro x hx
    have hin := ste_in hs.placed hk hb (hs.sized k hk hb) he hx
    obtain ⟨_, size, hlive, hins⟩ := id hin
    refine hf.mem _ hlive x hins fun hw => ?_
    obtain ⟨hw, hl⟩ := failWord_in hs hw
    have hu := hin.unique hs.kept hs.placed hw
    rw [Driver.steHandle] at hu
    split at hu
    case isTrue => cases hu
    case isFalse hl' =>
      cases hu
      exact hl' hl

theorem Maps.failed_cds (ha : pf.alloc.Sound) (hs : d.Sane others) (hc : d.CallSafe pf (.map attr pgt))
    (hn : status ≠ 0) (h : Maps pf attr pgt d status d') {n : Node} {ssid x : Nat} (hm : n ∈ d.masters)
    (hb : n.master.smmu ≠ none) (he : n.master.stage1.HasCd ssid) (hx : Inside (cdEntry n.master.stage1 ssid, 64) x) :
    d'.world.heap.mem x = d.world.heap.mem x := by
  have ⟨b, hb⟩ := Option.ne_none_iff_exists'.mp hb
  have ⟨i, hi⟩ := List.mem_iff_getElem?.mp hm
  have hin := cd_in hs.kept hs.placed hi hb he hx
  have ⟨_, size, hlive, hins⟩ := hin
  refine (h.failed_frame ha hs hc hn).1.mem _ hlive x hins fun hw => ?_
  have hu := hin.unique hs.kept hs.placed (failWord_in hs hw).1
  rw [cdHandle] at hu
  split at hu <;> cases hu

theorem mem_modify_of_ne {l : List Node} {f : Node → Node} {i : Nat} {n : Node} (hn : n ∈ l)
    (hf : l[i]? = some n → f n = n) : n ∈ l.modify i f := by
  have ⟨j, hj⟩ := List.mem_iff_getElem?.mp hn
  refine List.mem_iff_getElem?.mpr ⟨j, ?_⟩
  rw [List.getElem?_modify, hj, Option.map_eq_map, Option.map_some]
  split
  case isTrue he => rw [hf (he ▸ hj)]
  case isFalse   => rfl

theorem Maps.failed_records (hs : d.Sane others) (hn : status ≠ 0) (hcar : Careful hist d attr pgt)
    (h : Maps pf attr pgt d status d') {n : Node} (hm : n ∈ d.masters) (hcur : n.master.sid ∈ hist.current)
    (hb : n.master.smmu ≠ none) : n ∈ d'.masters := by
  cases h
  case rejected => exact hm
  case noRecord _ _ _ hl =>
    have ⟨_, w, hd⟩ := hl.no_record
    rw [hd]
    exact hm
  case done => exact absurd rfl hn
  case failed i m d₁ smmu' m' w' hg hk hb' hl hmap =>
    have hrec := hl.recordOf_eq
    rcases hl.record with ⟨rfl, hsid, n₁, hn₁, rfl, _⟩ | ⟨rfl, rfl, _, node, ptr, w₁, w₂, _, _, _, _, rfl⟩
    case inr => exact List.mem_cons_of_mem _ hm
    case inl =>
      refine mem_modify_of_ne hm fun hi => ?_
      have he : n₁ = n := Option.some.inj (hn₁.symm.trans hi)
      subst he
      have hbind : n₁.master.bind attr = n₁.master := by
        have ⟨k, hk⟩ := Option.ne_none_iff_exists'.mp hb
        simp [Master.bind, hk]
      have hc := (hcar (hsid ▸ hcur) (hrec ▸ hb)).resolve_left (fun hc => hc ⟨hg, hk, hb'⟩)
      rw [hrec] at hc
      rw [hbind] at hmap
      have ⟨k, hk⟩ := Option.ne_none_iff_exists'.mp hb
      have hbits := ((hs.kept.nodes n₁ hm).bound k hk).bits
      rw [mapMaster_failed (fun hp => hbits (.inl hp)) hc hmap]

-- A call does not change which SMMUs there are.
theorem Maps.takes (h : Maps pf attr pgt d status d') (ht : d'.Takes attr) : d.Takes attr := by
  cases h
  case rejected              => exact ht
  case noRecord hg hk hb _   => exact ⟨hg, hk, hb⟩
  case failed hg hk hb _ _   => exact ⟨hg, hk, hb⟩
  case done hg hk hb _ _ _   => exact ⟨hg, hk, hb⟩

-- In every run whose calls are safe, a map that fails leaves everything as it was.
theorem smmu_map_fails_cleanly {info : IovirtSmmuInfo} {fuel fuel' status₀ : Nat} {w₀ : World} {d₀ : Driver}
    (ha : pf.alloc.Sound) (h₀ : w₀.Owns others) (hw : w₀.heap.Laid)
    (hi : valSmmuInit pf info fuel (.boot w₀) = some (status₀, d₀)) (hz : d₀.Sized)
    (h : Run pf (fun _ d c => d.CallSafe pf c) d₀ hist d) (hmap : valSmmuMap pf fuel' attr pgt d = some (status, d'))
    (hn : status ≠ 0) (hc : d.CallSafe pf (.map attr pgt)) (hcar : Careful hist d attr pgt) :
    FailsCleanly pf others hist attr d d' := by
  have hs : d.Sane others :=
    h.invariant (I := fun _ d => d.Sane others) (init_sane ha h₀ hw hz hi) fun hs hk hst => hst.sane ha hs hk
  have hm := map_cases hmap
  have hs' : d'.Sane others := hm.sane ha hs hc
  refine ⟨?_, ?_, ?_, hs'.kept.owns, ?_, ?_⟩
  · exact fun k hk hb sid he => hm.failed_stes ha hs hc hn hk hb he
  · exact fun n hn' hb ssid he x hx => hm.failed_cds ha hs hc hn hn' hb he hx
  · exact fun n hn' hcur hb => hm.failed_records hs hn hcar hn' hcur hb
  · intro attr' _ d'' hst
    have hok : d'.CallOk (.unmap attr') := hs'.unmapOk
    have ⟨hk, hf⟩ := hst.kept ha.fresh hs'.kept hok
    exact ⟨hf, hk.owns.tame⟩
  · intro pgt' status' d'' hst
    have hok : d'.CallOk (.map attr pgt') := fun ht => hs'.mapOk ht fun h1 => (hc (hm.takes ht) h1).1
    have ⟨hk, hf⟩ := hst.kept ha.fresh hs'.kept hok
    exact ⟨hf, hk.owns.tame⟩

end

-- An allocator that puts each block above all others, as long as there is room.

def top (live : List (Nat × Nat)) : Nat :=
  (live.map fun b => b.1 + b.2).foldr max 0

def topAlloc (live : List (Nat × Nat)) (size : Nat) : Nat :=
  if top live + 0x1000 + size ≤ 2 ^ 64 then top live + 0x1000 else 0

theorem le_top {live : List (Nat × Nat)} {b : Nat × Nat} (hb : b ∈ live) : b.1 + b.2 ≤ top live := by
  induction live
  case nil => cases hb
  case cons c live hi =>
    rcases List.mem_cons.mp hb with rfl | hb
    case inl => exact le_max_left ..
    case inr => exact (hi hb).trans (le_max_right ..)

-- The allocation with the number `bad` fails.
def topPlatform (answers : List Nat) (bad : Nat) : Platform :=
  { mmio := fun n => answers.getD n 0, alloc := fun n live size => if n = bad then 0 else topAlloc live size }

theorem topPlatform_sound {answers : List Nat} {bad : Nat} : (topPlatform answers bad).alloc.Sound := by
  have above {n : Nat} {live : List (Nat × Nat)} {size : Nat} (hn : (topPlatform answers bad).alloc n live size ≠ 0) :
      (topPlatform answers bad).alloc n live size = top live + 0x1000 := by
    simp only [topPlatform, topAlloc] at hn ⊢
    split at hn
    case isTrue => exact absurd rfl hn
    case isFalse hb =>
      rw [if_neg hb]
      split at hn
      case isTrue ht => rw [if_pos ht]
      case isFalse   => exact absurd rfl hn
  refine ⟨?_, ?_, ?_⟩
  · intro n live size hn hm
    have ⟨b, hb, he⟩ := List.mem_map.mp hm
    have hle := le_top hb
    rw [above hn] at he
    omega
  · intro n live size hn b hb
    have hle := le_top hb
    rw [above hn]
    refine .inr ?_
    simp only
    omega
  · intro n live size hs
    simp only [topPlatform, topAlloc]
    split
    case isTrue => omega
    case isFalse => split <;> omega

def substream (sid : Nat) : SmmuMasterAttributes :=
  { smmuIndex := 0, streamid := sid, substreamid := 1, ssidBits := 0, stage2 := 0 }

-- A stream is mapped, and the map of a second one fails.
theorem smmu_map_fails_cleanly_new_stream :
    ∃ d₀ d₁ d₂, valSmmuInit (topPlatform bootAnswers 100) oneCtrl 1 (.boot .start) = some (0, d₀) ∧
      Step (topPlatform bootAnswers 100) d₀ (.map stage1Attr somePgt) 0 d₁ ∧
      valSmmuMap (topPlatform bootAnswers 100) 1 (substream 6) somePgt d₁ = some (1, d₂) ∧
      FailsCleanly (topPlatform bootAnswers 100) [] [(.map stage1Attr somePgt, 0)] (substream 6) d₁ d₂ := by
  have hrun : ((valSmmuInit (topPlatform bootAnswers 100) oneCtrl 1 (.boot .start)).bind fun r₀ =>
      (valSmmuMap (topPlatform bootAnswers 100) 1 stage1Attr somePgt r₀.2).bind fun r₁ =>
      (valSmmuMap (topPlatform bootAnswers 100) 1 (substream 6) somePgt r₁.2).map fun r₂ =>
        ([r₀.1, r₁.1, r₂.1, r₀.2.numSmmus, (r₀.2.smmus 0).cmdq.queue.log2nent, (r₀.2.smmus 0).sidBits,
            (r₀.2.target stage1Attr).ssidBits, (r₁.2.target (substream 6)).ssidBits],
          [(r₀.2.smmus 0).supported.stLevel2lvl, r₀.2.targetCd2l stage1Attr, r₁.2.targetCd2l (substream 6)])) =
      some ([0, 0, 1, 1, 1, 4, 0, 0], [false, false, false]) := by
    decide +kernel
  have ⟨⟨s₀, d₀⟩, h₀, h⟩ := Option.bind_eq_some_iff.mp hrun
  have ⟨⟨s₁, d₁⟩, h₁, h⟩ := Option.bind_eq_some_iff.mp h
  have ⟨⟨s₂, d₂⟩, h₂, he⟩ := Option.map_eq_some_iff.mp h
  simp only [Prod.mk.injEq, List.cons.injEq, and_true] at he
  have ⟨⟨hs₀, hs₁, hs₂, hn, hq, hb, hb₁, hb₂⟩, hl, hc₁, hc₂⟩ := he
  subst hs₀ hs₁ hs₂
  have hz : d₀.Sized := by
    intro k hk _
    rw [hn, Nat.lt_one_iff] at hk
    rw [hk, SizesFit, hq, hl, hb]
    decide
  have k₁ : d₀.CallSafe (topPlatform bootAnswers 100) (.map stage1Attr somePgt) := by
    intro _ _
    rw [hc₁, hb₁]
    exact ⟨by decide, fun _ => ⟨.inl (by decide), fun hc => absurd hc (by decide)⟩⟩
  have k₂ : d₁.CallSafe (topPlatform bootAnswers 100) (.map (substream 6) somePgt) := by
    intro _ _
    rw [hc₂, hb₂]
    exact ⟨by decide, fun _ => ⟨.inl (by decide), fun hc => absurd hc (by decide)⟩⟩
  have hnew : Careful [(.map stage1Attr somePgt, 0)] d₁ (substream 6) somePgt := fun hm => absurd hm (by decide)
  have hw : World.start.Owns [] := ⟨.nil, List.nodup_nil, rfl⟩
  exact ⟨d₀, d₁, d₂, h₀, .map h₁, h₂, smmu_map_fails_cleanly topPlatform_sound hw
    ⟨.nil, fun _ hm => by cases hm⟩ h₀ hz (.cons .nil k₁ (.map h₁)) h₂ (by decide) k₂ hnew⟩

-- A table of two levels, and no memory for the array of its level-1 descriptors.
def wideAnswers : List Nat :=
  [0x8000A, 0x200004, 5, 0, 8, 0, 1, 2, 3, 3, 9] ++ [3, 0, 1, 2, 2]

def wideAttr : SmmuMasterAttributes :=
  { smmuIndex := 0, streamid := 5, substreamid := 0, ssidBits := 11, stage2 := 0 }

-- The failed map of a second substream changes what is recorded of a mapped stream. After the failed map
-- of a stream with a table of two levels, the unmap follows a pointer that is null.
theorem smmu_map_failure_leaves_traces :
    (∃ d₀ d₁ d₂, valSmmuInit (topPlatform bootAnswers 100) oneCtrl 1 (.boot .start) = some (0, d₀) ∧
      Step (topPlatform bootAnswers 100) d₀ (.map stage1Attr somePgt) 0 d₁ ∧
      valSmmuMap (topPlatform bootAnswers 100) 1 (substream 5) somePgt d₁ = some (1, d₂) ∧
      ¬FailsCleanly (topPlatform bootAnswers 100) [] [(.map stage1Attr somePgt, 0)] (substream 5) d₁ d₂) ∧
    (∃ d₀ d₁, valSmmuInit (topPlatform wideAnswers 5) oneCtrl 1 (.boot .start) = some (0, d₀) ∧
      valSmmuMap (topPlatform wideAnswers 5) 1 wideAttr somePgt d₀ = some (1, d₁) ∧
      ¬FailsCleanly (topPlatform wideAnswers 5) [] [] wideAttr d₀ d₁) := by
  constructor
  · have hrun : ((valSmmuInit (topPlatform bootAnswers 100) oneCtrl 1 (.boot .start)).bind fun r₀ =>
        (valSmmuMap (topPlatform bootAnswers 100) 1 stage1Attr somePgt r₀.2).bind fun r₁ =>
        (valSmmuMap (topPlatform bootAnswers 100) 1 (substream 5) somePgt r₁.2).map fun r₂ =>
          ([r₀.1, r₁.1, r₂.1], (r₁.2.masters.map fun n => [n.master.sid, n.master.ssid, n.master.smmu.getD 8]),
            r₂.2.masters.map fun n => n.master.ssid)) = some ([0, 0, 1], [[5, 0, 0]], [1]) := by
      decide +kernel
    have ⟨⟨s₀, d₀⟩, h₀, h⟩ := Option.bind_eq_some_iff.mp hrun
    have ⟨⟨s₁, d₁⟩, h₁, h⟩ := Option.bind_eq_some_iff.mp h
    have ⟨⟨s₂, d₂⟩, h₂, he⟩ := Option.map_eq_some_iff.mp h
    simp only [Prod.mk.injEq, List.cons.injEq, and_true] at he
    have ⟨⟨hs₀, hs₁, hs₂⟩, hm₁, hm₂⟩ := he
    subst hs₀ hs₁ hs₂
    refine ⟨d₀, d₁, d₂, h₀, .map h₁, h₂, fun hf => ?_⟩
    have ⟨n, hn, he⟩ := List.mem_map.mp (hm₁ ▸ List.mem_singleton.mpr rfl)
    simp only [List.cons.injEq, and_true] at he
    have hn' := hf.records n hn (by rw [he.1]; decide) fun hc => by rw [hc] at he; cases he.2.2
    have hssid : n.master.ssid ∈ d₂.masters.map fun n => n.master.ssid := List.mem_map_of_mem hn'
    rw [hm₂, List.mem_singleton, he.2.1] at hssid
    cases hssid
  · have hrun : ((valSmmuInit (topPlatform wideAnswers 5) oneCtrl 1 (.boot .start)).bind fun r₀ =>
        (valSmmuMap (topPlatform wideAnswers 5) 1 wideAttr somePgt r₀.2).bind fun r₁ =>
        (valSmmuUnmap (topPlatform wideAnswers 5) 1 wideAttr r₁.2).map fun d₂ =>
          [r₀.1, r₁.1, r₁.2.world.faults, d₂.world.faults]) = some [0, 1, 0, 1] := by
      decide +kernel
    have ⟨⟨s₀, d₀⟩, h₀, h⟩ := Option.bind_eq_some_iff.mp hrun
    have ⟨⟨s₁, d₁⟩, h₁, h⟩ := Option.bind_eq_some_iff.mp h
    have ⟨d₂, h₂, he⟩ := Option.map_eq_some_iff.mp h
    simp only [List.cons.injEq, and_true] at he
    have ⟨hs₀, hs₁, hf₁, hf₂⟩ := he
    subst hs₀ hs₁
    refine ⟨d₀, d₁, h₀, h₁, fun hf => ?_⟩
    have := (hf.unmap wideAttr rfl d₂ (.unmap h₂)).1
    omega

end Smmu
