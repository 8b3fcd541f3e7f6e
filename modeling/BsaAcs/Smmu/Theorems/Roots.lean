import BsaAcs.Smmu.Theorems.Contexts
import BsaAcs.Smmu.Theorems.Registry

namespace Smmu

-- The blocks of a node: its own, that of the record, and the tables of the record.
def Node.blocks (n : Node) : List Nat :=
  n.node :: n.ptr :: n.master.stage1.blocks

-- A record is bound to an SMMU as soon as a map has used it, and again unbound by an unmap.
structure Node.Sound (smmus : Nat → SmmuDev) (n : Node) : Prop where
  node   : n.node ≠ 0
  ptr    : n.ptr ≠ 0
  unused : n.master.smmu = none → n.master = .zero
  bound  : ∀ k, n.master.smmu = some k → CdOk (smmus k).supported.cd2l n.master.ssidBits n.master.stage1

namespace Driver

-- The blocks that the variables of the driver point to.
def roots (d : Driver) : List Nat :=
  d.gSmmu :: (d.smmuBlocks ++ d.masters.flatMap Node.blocks)

-- All blocks of the driver are found from its variables. The blocks in `others` are those of the rest of
-- the program.
structure Kept (others : List Nat) (d : Driver) : Prop where
  owns  : d.world.Owns (d.roots ++ others)
  ready : ∀ i < d.numSmmus, (d.smmus i).base ≠ 0 → (d.smmus i).Ready
  nodes : ∀ n ∈ d.masters, n.Sound d.smmus

-- What is left of the roots without the `k`-th SMMU's stream table and the context tables of the
-- `i`-th record, which is `n`.
def rest (d : Driver) (others : List Nat) (k i : Nat) (n : Node) : List Nat :=
  n.node :: n.ptr :: (d.smmus k).cmdq.basePtr :: d.gSmmu ::
    (d.otherSmmus k ++ (d.masters.eraseIdx i).flatMap Node.blocks ++ others)

variable {d : Driver} {others : List Nat} {k i : Nat} {n : Node}

theorem masters_perm (hn : d.masters[i]? = some n) :
    (d.masters.flatMap Node.blocks).Perm (n.blocks ++ (d.masters.eraseIdx i).flatMap Node.blocks) := by
  have ⟨hl, he⟩ := List.getElem?_eq_some_iff.mp hn
  have hp := (List.getElem_cons_eraseIdx_perm hl).flatMap_right Node.blocks
  rw [List.flatMap_cons, he] at hp
  exact hp.symm

theorem roots_perm (hk : k < d.numSmmus) (hb : (d.smmus k).base ≠ 0) (hn : d.masters[i]? = some n) :
    (d.roots ++ others).Perm (n.master.stage1.blocks ++ ((d.smmus k).tables ++ d.rest others k i n)) := by
  have h₁ := smmuBlocks_perm hk
  have h₂ := masters_perm hn
  rw [SmmuDev.owned, if_neg hb] at h₁
  refine List.perm_iff_count.mpr fun a => ?_
  have h₁ := h₁.count_eq a
  have h₂ := h₂.count_eq a
  simp only [roots, rest, Node.blocks, List.count_append, List.count_cons, List.cons_append] at *
  omega

theorem rest_mapped {smmu : SmmuDev} {master : Master} {w : World} (hq : smmu.cmdq = (d.smmus k).cmdq) :
    (d.mapped k i smmu master w).rest others k i { n with master := master } = d.rest others k i n := by
  have h₁ : (d.mapped k i smmu master w).otherSmmus k = d.otherSmmus k := otherSmmus_setSmmu
  have h₂ : (d.mapped k i smmu master w).masters.eraseIdx i = d.masters.eraseIdx i := List.eraseIdx_modify_of_eq ..
  have h₃ : (d.mapped k i smmu master w).smmus k = smmu := if_pos rfl
  rw [rest, rest, h₁, h₂, h₃, hq]
  rfl

end Driver

section

variable {pf : Platform} {d d' : Driver} {others roots : List Nat}

theorem CdOk.zero {cd2l : Bool} {ssidBits : Nat} : CdOk cd2l ssidBits Master.zero.stage1 where
  flat   := fun _ => rfl
  leaf   := fun _ hi => absurd rfl hi
  format := fun hc => absurd rfl hc
  bits   := fun hc => hc.elim (absurd rfl) (absurd rfl)

theorem owns_zero_blocks {w : World} : w.Owns (Master.zero.stage1.blocks ++ roots) ↔ w.Owns roots :=
  owns_of_no_blocks rfl rfl fun _ => rfl

theorem Node.Sound.cdOk_bind {n : Node} {attr : SmmuMasterAttributes} {k : Nat} (hn : n.Sound d.smmus) :
    CdOk (d.boundCd2l (n.master.bind attr) k) (n.master.bind attr).ssidBits (n.master.bind attr).stage1 := by
  cases hs : n.master.smmu
  case none =>
    rw [hn.unused hs]
    exact .zero
  case some j =>
    have hb : n.master.bind attr = n.master := by simp [Master.bind, hs]
    rw [hb, Driver.boundCd2l, hs]
    exact hn.bound j hs

-- The lookup may add a record that has no tables yet.
theorem Lookup.kept {sid : Nat} {r : Option (Nat × Master)} (hf : pf.alloc.Fresh) (hk : d.Kept others)
    (h : Lookup pf sid d r d') : d'.Kept others := by
  cases h
  case found => exact hk
  case noNode w _ ha =>
    have ho := hk.owns.alloc hf sizeofSmmuMasterNode
    rw [ha] at ho
    exact ⟨Heap.Owns.zero_cons_iff.mp ho, hk.ready, hk.nodes⟩
  case noMaster node w₁ w₂ _ ha hn hb =>
    have ho := hk.owns.alloc hf sizeofSmmuMasterNode
    rw [ha] at ho
    have ho := ho.alloc hf sizeofSmmuMaster
    rw [hb] at ho
    exact ⟨(Heap.Owns.zero_cons_iff.mp ho).free, hk.ready, hk.nodes⟩
  case created node ptr w₁ w₂ _ ha hn hb hp =>
    have ho := hk.owns.alloc hf sizeofSmmuMasterNode
    rw [ha] at ho
    have ho := ho.alloc hf sizeofSmmuMaster
    rw [hb] at ho
    refine ⟨?_, hk.ready, ?_⟩
    · refine (owns_zero_blocks.mpr ho).of_perm (List.perm_iff_count.mpr fun a => ?_)
      simp only [Driver.roots, Driver.smmuBlocks, Node.blocks, List.count_append, List.count_cons, List.cons_append,
        List.flatMap_cons]
      omega
    · intro n hm
      rcases List.mem_cons.mp hm with rfl | hm
      case inl => exact ⟨hn, hp, fun _ => rfl, fun _ hs => by cases hs⟩
      case inr => exact hk.nodes n hm

-- The record that the lookup returns is in the list.
theorem Lookup.listed {sid i : Nat} {m : Master} (h : Lookup pf sid d (some (i, m)) d') :
    ∃ n, d'.masters[i]? = some n ∧ n.master = m ∧ (m.sid = sid ∨ m.smmu = none) := by
  rcases h.record with ⟨rfl, hs, n, hn, hm, _⟩ | ⟨rfl, rfl, _, node, ptr, w₁, w₂, _, _, _, _, rfl⟩
  case inl => exact ⟨n, hn, hm, .inl hs⟩
  case inr => exact ⟨⟨node, ptr, .zero⟩, rfl, rfl, .inr rfl⟩

end

-- What a map does to the tables.
section

variable {pf : Platform} {smmu smmu' : SmmuDev} {cd2l ok : Bool} {attr : SmmuMasterAttributes} {pgt : PgtDescriptor}
variable {m m' : Master} {w w' : World} {roots : List Nat}

-- The stream table changes only in its second level, where tables may be added.
def SmmuDev.SameBut (smmu smmu' : SmmuDev) : Prop :=
  ∃ l1Desc, (∀ j, (smmu.strtabCfg.l1Desc j).l2ptr ≠ 0 → l1Desc j = smmu.strtabCfg.l1Desc j) ∧
    smmu' = smmu.setStrtab { smmu.strtabCfg with l1Desc := l1Desc }

theorem SmmuDev.SameBut.refl : smmu.SameBut smmu :=
  ⟨smmu.strtabCfg.l1Desc, fun _ _ => rfl, rfl⟩

theorem SmmuDev.SameBut.base_eq (h : smmu.SameBut smmu') : smmu'.base = smmu.base := by
  have ⟨_, _, h⟩ := h
  rw [h]
  rfl

theorem SmmuDev.SameBut.ready (h : smmu.SameBut smmu') (hr : smmu.Ready) : smmu'.Ready := by
  have ⟨_, _, h⟩ := h
  rw [h]
  exact ⟨hr.strtab, hr.l1, hr.count⟩

theorem mapTables_owns (hf : pf.alloc.Fresh) (hk : CdOk cd2l m.ssidBits m.stage1)
    (hh : m.stage = .s1 → m.stage1.cdcfg.cdtabPtr = 0 → m.stage1.cdcfg.l1Ptr = 0) (hs : m.stage = .s1 → m.ssid < 2 ^ 31)
    (hi : smmu.supported.stLevel2lvl = true → m.sid >>> strtabSplit < smmu.strtabCfg.l1EntCount)
    (ho : w.Owns (m.stage1.blocks ++ (smmu.tables ++ roots)))
    (h : mapTables pf smmu cd2l pgt m w = (ok, smmu', m', w')) :
    w'.Owns (m'.stage1.blocks ++ (smmu'.tables ++ roots)) ∧ CdOk cd2l m'.ssidBits m'.stage1 ∧ w'.faults = w.faults := by
  have level2 {ok : Bool} {smmu' : SmmuDev} {w' : World}
      (h : (if smmu.supported.stLevel2lvl then smmuStrtabInitLevel2 pf smmu m.sid w else (true, smmu, w)) =
        (ok, smmu', w')) :
      w'.Owns (m.stage1.blocks ++ (smmu'.tables ++ roots)) ∧ w'.faults = w.faults := by
    split at h
    case isTrue hl =>
      have swap {smmu : SmmuDev} : (m.stage1.blocks ++ (smmu.tables ++ roots)).Perm
          (smmu.tables ++ (m.stage1.blocks ++ roots)) := List.perm_append_comm_assoc ..
      obtain ⟨h₁, h₂⟩ := initLevel2_owns hf hl (hi hl) (ho.of_perm swap) h
      exact ⟨h₁.of_perm swap.symm, h₂⟩
    case isFalse =>
      cases h
      exact ⟨ho, rfl⟩
  simp only [mapTables] at h
  split at h
  case h_1 he =>
    cases h
    obtain ⟨h₁, h₂⟩ := level2 he
    exact ⟨h₁, hk, h₂⟩
  case h_2 w₁ he =>
    obtain ⟨h₁, h₂⟩ := level2 he
    split at h
    case h_1 =>
      cases h
      exact ⟨h₁, hk, h₂⟩
    case h_2 hst =>
      rcases hm : mapStage1 pf cd2l m.ssid m.ssidBits pgt m.stage1 w₁ with ⟨ok₁, cfg, w₂⟩
      rw [hm] at h
      cases h
      obtain ⟨g₁, g₂, g₃⟩ := mapStage1_owns hf hk (hh hst) (hs hst) h₁ hm
      exact ⟨g₁, g₂, g₃.trans h₂⟩

theorem selectStage_cases (h : m.selectStage smmu attr = some m') :
    (attr.stage2 ≠ 0 ∧ smmu.supported.s2p = true ∧ m' = { m with stage := .s2 }) ∨
    (attr.stage2 = 0 ∧ smmu.supported.s1p = true ∧ m' = { m with stage := .s1, ssid := attr.substreamid }) := by
  simp only [Master.selectStage] at h
  split at h
  case isTrue h2 =>
    split at h <;> cases h
    rename_i hp
    exact .inl ⟨h2, hp, rfl⟩
  case isFalse h2 =>
    split at h <;> cases h
    rename_i hp
    exact .inr ⟨not_not.mp h2, hp, rfl⟩

-- The tables of the master stay, and only stage 1 looks at the substream.
theorem selectStage_kept (h : m.selectStage smmu attr = some m') :
    m'.stage1 = m.stage1 ∧ m'.ssidBits = m.ssidBits ∧
      (m'.stage = .s1 → attr.stage2 = 0 ∧ m'.ssid = attr.substreamid) := by
  rcases selectStage_cases h with ⟨_, _, rfl⟩ | ⟨h2, _, rfl⟩
  case inl => exact ⟨rfl, rfl, fun hs => by cases hs⟩
  case inr => exact ⟨rfl, rfl, fun _ => ⟨h2, rfl⟩⟩

theorem initLevel2_sameBut {sid : Nat} (h : smmuStrtabInitLevel2 pf smmu sid w = (ok, smmu', w')) :
    smmu.SameBut smmu' := by
  simp only [smmuStrtabInitLevel2] at h
  split at h
  case isTrue =>
    simp only [Prod.mk.injEq] at h
    exact h.2.1 ▸ .refl
  case isFalse hz =>
    have update {desc : StrtabL1Desc} : smmu.SameBut (smmu.setL1Desc (sid >>> strtabSplit) desc) := by
      refine ⟨_, fun j hj => if_neg ?_, rfl⟩
      rintro rfl
      exact hz hj
    split at h
    all_goals
      simp only [Prod.mk.injEq] at h
      rw [← h.2.1]
      exact update

theorem mapMaster_sameBut (h : mapMaster pf smmu cd2l attr pgt m w = (ok, smmu', m', w')) : smmu.SameBut smmu' := by
  have tables {m : Master} {ok : Bool} {m' : Master} {w' : World}
      (h : mapTables pf smmu cd2l pgt m w = (ok, smmu', m', w')) : smmu.SameBut smmu' := by
    have level2 {ok : Bool} {w' : World}
        (h : (if smmu.supported.stLevel2lvl then smmuStrtabInitLevel2 pf smmu m.sid w else (true, smmu, w)) =
          (ok, smmu', w')) : smmu.SameBut smmu' := by
      split at h
      case isTrue  => exact initLevel2_sameBut h
      case isFalse => cases h; exact .refl
    simp only [mapTables] at h
    split at h
    case h_1 he => cases h; exact level2 he
    case h_2 he => split at h <;> cases h <;> exact level2 he
  simp only [mapMaster] at h
  split at h
  case h_1 => cases h; exact .refl
  case h_2 =>
    split at h
    case isTrue =>
      split at h
      all_goals
        rename_i ht
        cases h
        exact tables ht
    case isFalse => cases h; exact .refl

-- What may be wrong with a map, as far as the blocks of the driver are concerned: the array of level-1
-- descriptors of an earlier map is still there without its table, the substream id is negative, or the
-- stream is out of the bounds of the array of level-1 descriptors.
structure MapOk (smmu : SmmuDev) (attr : SmmuMasterAttributes) (m : Master) : Prop where
  whole : attr.stage2 = 0 → m.stage1.cdcfg.cdtabPtr = 0 → m.stage1.cdcfg.l1Ptr = 0
  ssid  : attr.stage2 = 0 → attr.substreamid < 2 ^ 31
  index : smmu.supported.stLevel2lvl = true → sidInRange smmu attr.streamid = true →
    attr.streamid >>> strtabSplit < smmu.strtabCfg.l1EntCount

theorem mapMaster_owns (hf : pf.alloc.Fresh) (hk : CdOk cd2l m.ssidBits m.stage1) (ha : MapOk smmu attr m)
    (hs : m.sid = attr.streamid) (ho : w.Owns (m.stage1.blocks ++ (smmu.tables ++ roots)))
    (h : mapMaster pf smmu cd2l attr pgt m w = (ok, smmu', m', w')) :
    w'.Owns (m'.stage1.blocks ++ (smmu'.tables ++ roots)) ∧ CdOk cd2l m'.ssidBits m'.stage1 ∧ w'.faults = w.faults := by
  simp only [mapMaster] at h
  split at h
  case h_1 =>
    cases h
    exact ⟨ho, hk, rfl⟩
  case h_2 m₁ hm =>
    obtain ⟨h₁, h₂, h₄⟩ := selectStage_kept hm
    have h₃ : m₁.sid = attr.streamid := hs ▸ congrArg Prod.fst (selectStage_key hm)
    rw [← h₁] at ho
    rw [← h₁, ← h₂] at hk
    split at h
    case isTrue hr =>
      have tables {ok : Bool} {smmu' : SmmuDev} {m' : Master} {w' : World}
          (ht : mapTables pf smmu cd2l pgt m₁ w = (ok, smmu', m', w')) :
          w'.Owns (m'.stage1.blocks ++ (smmu'.tables ++ roots)) ∧ CdOk cd2l m'.ssidBits m'.stage1 ∧
            w'.faults = w.faults := by
        refine mapTables_owns hf hk ?_ ?_ ?_ ho ht
        · exact fun hc => h₁ ▸ ha.whole (h₄ hc).1
        · exact fun hc => (h₄ hc).2 ▸ ha.ssid (h₄ hc).1
        · exact fun hl => h₃ ▸ ha.index hl hr
      split at h
      case h_1 ht =>
        cases h
        exact tables ht
      case h_2 ht =>
        cases h
        obtain ⟨g₁, g₂, g₃⟩ := tables ht
        exact ⟨g₁.same writeSte_same, g₂, writeSte_same.faults.trans g₃⟩
    case isFalse =>
      cases h
      exact ⟨ho, hk, rfl⟩

end

-- What a call does to the blocks of the driver.

namespace Driver

-- The record of a stream, which is empty if there is none yet.
def recordOf (d : Driver) (sid : Nat) : Master :=
  ((d.masters.find? (·.master.sid == sid)).map (·.master)).getD .zero

-- Whether `val_smmu_map` gets as far as the lookup of the record.
def Takes (d : Driver) (attr : SmmuMasterAttributes) : Prop :=
  d.gSmmu ≠ 0 ∧ attr.smmuIndex < d.numSmmus ∧ (d.smmus attr.smmuIndex).base ≠ 0

-- A table of two levels has its array of level-1 descriptors.
def UnmapOk (d : Driver) (attr : SmmuMasterAttributes) : Prop :=
  ∀ k, (d.recordOf attr.streamid).smmu = some k → sidInRange (d.smmus k) attr.streamid = true →
    twoLevel (d.smmus k).supported.cd2l (d.recordOf attr.streamid).stage1.s1cdmax = true →
    (d.recordOf attr.streamid).stage1.cdcfg.l1Ptr ≠ 0

-- The calls that keep track of every block.
def CallOk (d : Driver) : Call → Prop
  | .map attr _ => d.Takes attr → MapOk (d.smmus attr.smmuIndex) attr (d.recordOf attr.streamid)
  | .unmap attr => d.UnmapOk attr

end Driver

section

variable {pf : Platform} {d d' : Driver} {others : List Nat} {attr : SmmuMasterAttributes} {pgt : PgtDescriptor}

theorem Lookup.recordOf_eq {sid i : Nat} {m : Master} (h : Lookup pf sid d (some (i, m)) d') : d.recordOf sid = m := by
  rcases h.record with ⟨rfl, hs, n, hn, rfl, hb⟩ | ⟨_, rfl, ha, _⟩
  case inl =>
    have ⟨hl, he⟩ := List.getElem?_eq_some_iff.mp hn
    have hf : d'.masters.find? (·.master.sid == sid) = some n := by
      refine List.find?_eq_some_iff_getElem.mpr ⟨beq_iff_eq.mpr hs, i, hl, he, ?_⟩
      intro j hj
      have hjl : j < d'.masters.length := by omega
      simpa using hb j hj _ (List.getElem?_eq_getElem hjl)
    rw [Driver.recordOf, hf]
    rfl
  case inr =>
    have hf : d.masters.find? (·.master.sid == sid) = none := by
      refine List.find?_eq_none.mpr ?_
      intro n hn
      simpa using ha n hn
    rw [Driver.recordOf, hf]
    rfl

theorem Lookup.numSmmus_eq {sid : Nat} {r : Option (Nat × Master)} (h : Lookup pf sid d r d') :
    d'.numSmmus = d.numSmmus ∧ d'.world.faults = d.world.faults := by
  cases h
  case found => exact ⟨rfl, rfl⟩
  case noNode ha =>
    have hw := congrArg (fun p => p.2.faults) ha
    exact ⟨rfl, hw.symm⟩
  case noMaster ha _ hb =>
    have hw := congrArg (fun p => p.2.faults) ha
    have hv := congrArg (fun p => p.2.faults) hb
    exact ⟨rfl, hv.symm.trans hw.symm⟩
  case created ha _ hb _ =>
    have hw := congrArg (fun p => p.2.faults) ha
    have hv := congrArg (fun p => p.2.faults) hb
    exact ⟨rfl, hv.symm.trans hw.symm⟩

theorem Node.Sound.congr {n : Node} {smmus smmus' : Nat → SmmuDev} (h : n.Sound smmus)
    (hs : ∀ k, (smmus' k).supported.cd2l = (smmus k).supported.cd2l) : n.Sound smmus' :=
  ⟨h.node, h.ptr, h.unused, fun k hk => hs k ▸ h.bound k hk⟩

theorem bind_stage1 {m : Master} : (m.bind attr).stage1 = m.stage1 := by
  rw [Master.bind]
  split <;> rfl

theorem mem_modify {i : Nat} {f : Node → Node} {n : Node} {l : List Node} (h : n ∈ l.modify i f) :
    n ∈ l ∨ ∃ m, l[i]? = some m ∧ n = f m := by
  have ⟨j, hj⟩ := List.mem_iff_getElem?.mp h
  rw [List.getElem?_modify] at hj
  split at hj
  case isTrue he =>
    have ⟨m, hm, hf⟩ := Option.map_eq_some_iff.mp hj
    exact .inr ⟨m, he ▸ hm, hf.symm⟩
  case isFalse =>
    rw [id_map'] at hj
    exact .inl (List.mem_of_getElem? hj)

-- The record that was looked up, the SMMU and the tables change, and all blocks are still found.
theorem Driver.Kept.mapped {i k : Nat} {n : Node} {m' : Master} {smmu' : SmmuDev} {w' : World} (hd : d.Kept others)
    (hk : k < d.numSmmus) (hb : (d.smmus k).base ≠ 0) (hn : d.masters[i]? = some n) (hs : (d.smmus k).SameBut smmu')
    (hm : ({ n with master := m' } : Node).Sound d.smmus)
    (ho : w'.Owns (m'.stage1.blocks ++ (smmu'.tables ++ d.rest others k i n))) :
    (d.mapped k i smmu' m' w').Kept others := by
  have ⟨l1Desc, _, he⟩ := hs
  have h₁ : (d.mapped k i smmu' m' w').smmus k = smmu' := if_pos rfl
  have h₂ : (d.mapped k i smmu' m' w').masters[i]? = some { n with master := m' } := by
    have hm : (d.mapped k i smmu' m' w').masters = d.masters.modify i ({ · with master := m' }) := rfl
    rw [hm, List.getElem?_modify_eq, hn]
    rfl
  have h₃ (j : Nat) : (d.mapped k i smmu' m' w').smmus j = if j = k then smmu' else d.smmus j := rfl
  have h₄ (j : Nat) : ((d.mapped k i smmu' m' w').smmus j).supported.cd2l = (d.smmus j).supported.cd2l := by
    rw [h₃]
    split
    case isTrue hj =>
      rw [hj, he]
      rfl
    case isFalse => rfl
  refine ⟨?_, ?_, ?_⟩
  · have hb' : ((d.mapped k i smmu' m' w').smmus k).base ≠ 0 := by
      rw [h₁, he]
      exact hb
    have hp : ((d.mapped k i smmu' m' w').roots ++ others).Perm _ := Driver.roots_perm hk hb' h₂
    rw [h₁, Driver.rest_mapped (by rw [he]; rfl)] at hp
    exact Heap.Owns.of_perm ho hp.symm
  · intro j hj hbj
    rw [h₃] at hbj ⊢
    split at hbj
    case isTrue hjk =>
      rw [if_pos hjk]
      exact hs.ready (hd.ready k hk hb)
    case isFalse hjk =>
      rw [if_neg hjk]
      exact hd.ready j hj hbj
  · intro n' hn'
    rcases mem_modify hn' with hn' | ⟨n₁, hn₁, rfl⟩
    case inl => exact (hd.nodes n' hn').congr h₄
    case inr =>
      cases hn.symm.trans hn₁
      exact hm.congr h₄

-- What `val_smmu_map` does once it has a record.
theorem record_mapped {i : Nat} {m m' : Master} {smmu' : SmmuDev} {w' : World} {d₁ : Driver} {ok : Bool}
    (hf : pf.alloc.Fresh) (hd : d.Kept others) (ht : d.Takes attr)
    (hc : MapOk (d.smmus attr.smmuIndex) attr (d.recordOf attr.streamid))
    (hl : Lookup pf attr.streamid d (some (i, m)) d₁)
    (hm : mapMaster pf (d.smmus attr.smmuIndex) (d₁.boundCd2l (m.bind attr) attr.smmuIndex) attr pgt (m.bind attr)
      d₁.world = (ok, smmu', m', w')) :
    (d₁.mapped attr.smmuIndex i smmu' m' w').Kept others ∧ w'.faults = d.world.faults := by
  have ⟨_, hk, hb⟩ := ht
  have hd₁ := hl.kept hf hd
  have ⟨hnum, hfault⟩ := hl.numSmmus_eq
  have ⟨n, hn, he, hsid⟩ := hl.listed
  have hsound := hd₁.nodes n (List.mem_of_getElem? hn)
  rw [hl.recordOf_eq] at hc
  subst he
  rw [← hl.smmus_eq] at hb hc hm
  rw [← hnum] at hk
  have hperm : (d₁.roots ++ others).Perm _ := Driver.roots_perm hk hb hn
  have ho := hd₁.owns.of_perm hperm
  have hs₁ : (n.master.bind attr).stage1 = n.master.stage1 := bind_stage1
  rw [← hs₁] at ho
  have hok : MapOk (d₁.smmus attr.smmuIndex) attr (n.master.bind attr) :=
    ⟨by rw [bind_stage1]; exact hc.whole, hc.ssid, hc.index⟩
  have hkey : (n.master.bind attr).key = _ := bind_key hsid
  have ⟨g₁, g₂, g₃⟩ := mapMaster_owns hf hsound.cdOk_bind hok (congrArg Prod.fst hkey) ho hm
  have g₄ := mapMaster_sameBut hm
  have hsmmu : m'.smmu = (n.master.bind attr).smmu := congrArg Prod.snd (mapMaster_key hm)
  have hsome : (n.master.bind attr).smmu = some (n.master.smmu.getD attr.smmuIndex) := congrArg Prod.snd hkey
  refine ⟨hd₁.mapped hk hb hn g₄ ⟨hsound.node, hsound.ptr, ?_, ?_⟩ g₁, g₃.trans hfault⟩
  · intro hz
    rw [hsmmu, hsome] at hz
    cases hz
  · intro j hj
    have hcd : d₁.boundCd2l (n.master.bind attr) attr.smmuIndex = (d₁.smmus j).supported.cd2l := by
      rw [Driver.boundCd2l, ← hsmmu, hj]
      rfl
    exact hcd ▸ g₂

theorem Maps.kept {status : Nat} (hf : pf.alloc.Fresh) (hd : d.Kept others) (hc : d.CallOk (.map attr pgt))
    (h : Maps pf attr pgt d status d') : d'.Kept others ∧ d'.world.faults = d.world.faults := by
  cases h
  case rejected           => exact ⟨hd, rfl⟩
  case noRecord _ _ _ hl  => exact ⟨hl.kept hf hd, hl.numSmmus_eq.2⟩
  case failed hg hk hb hl hm =>
    exact record_mapped hf hd ⟨hg, hk, hb⟩ (hc ⟨hg, hk, hb⟩) hl hm
  case done hg hk hb hl hm ht =>
    have ⟨h₁, h₂⟩ := record_mapped hf hd ⟨hg, hk, hb⟩ (hc ⟨hg, hk, hb⟩) hl hm
    have hs := tlbiCfgi_same ht
    exact ⟨⟨h₁.owns.same hs, h₁.ready, h₁.nodes⟩, hs.faults.trans h₂⟩

theorem cdtabFree_faults {cd2l : Bool} {cfg : Stage1Config} {w : World}
    (hl : twoLevel cd2l cfg.s1cdmax = true → cfg.cdcfg.l1Ptr ≠ 0) : (smmuCdtabFree cd2l cfg w).faults = w.faults := by
  simp only [smmuCdtabFree]
  split
  case isTrue ht =>
    rw [if_neg (hl ht), freeLeaves_eq]
    exact free_faults
  case isFalse => rfl

theorem Unmaps.kept (hf : pf.alloc.Fresh) (hd : d.Kept others) (hc : d.UnmapOk attr) (h : Unmaps pf attr d d') :
    d'.Kept others ∧ d'.world.faults = d.world.faults := by
  cases h
  case noRecord hl       => exact ⟨hl.kept hf hd, hl.numSmmus_eq.2⟩
  case unused _ hl       => exact ⟨hl.kept hf hd, hl.numSmmus_eq.2⟩
  case outOfRange _ _ hl => exact ⟨hl.kept hf hd, hl.numSmmus_eq.2⟩
  case done i m k d₁ fuel timedOut w' hl hs hr ht =>
    have hd₁ := hl.kept hf hd
    have ⟨n, hn, he, _⟩ := hl.listed
    have hsound := hd₁.nodes n (List.mem_of_getElem? hn)
    subst he
    rw [Driver.UnmapOk, hl.recordOf_eq] at hc
    have hl₁ := hc k hs hr
    have hmask := Driver.masters_perm hn
    have hok := hsound.bound k hs
    rw [hl.smmus_eq] at hok
    have hsplit : (d₁.roots ++ others).Perm (n.master.stage1.blocks ++ (n.node :: n.ptr :: d₁.gSmmu ::
        (d₁.smmuBlocks ++ (d₁.masters.eraseIdx i).flatMap Node.blocks ++ others))) := by
      refine List.perm_iff_count.mpr fun a => ?_
      have h₂ := hmask.count_eq a
      simp only [Driver.roots, Node.blocks, List.count_append, List.count_cons, List.cons_append] at *
      omega
    have hfreed {cfg : Option SteConfig} {ste : Nat} : World.Owns (smmuCdtabFree (d.smmus k).supported.cd2l
        n.master.stage1 (smmuStrtabWriteSte cfg ste d₁.world)) _ :=
      cdtabFree_owns hok hl₁ ((hd₁.owns.of_perm hsplit).same writeSte_same)
    have hfault : w'.faults = d.world.faults := by
      rw [(tlbiCfgi_same ht).faults, cdtabFree_faults hl₁, writeSte_same.faults, hl.numSmmus_eq.2]
    have hmem : (d₁.setMaster i .zero).masters[i]? = some { n with master := .zero } := by
      have hm : (d₁.setMaster i .zero).masters = d₁.masters.modify i ({ · with master := .zero }) := rfl
      rw [hm, List.getElem?_modify_eq, hn]
      rfl
    refine ⟨⟨?_, hd₁.ready, ?_⟩, hfault⟩
    · refine (owns_zero_blocks.mpr (hfreed.same (tlbiCfgi_same ht))).of_perm (List.perm_iff_count.mpr fun a => ?_)
      have h₂ := (Driver.masters_perm hmem).count_eq a
      have h₃ : (d₁.setMaster i .zero).masters.eraseIdx i = d₁.masters.eraseIdx i := List.eraseIdx_modify_of_eq ..
      rw [h₃] at h₂
      simp only [Driver.roots, Driver.smmuBlocks, Node.blocks, List.count_append, List.count_cons, List.cons_append] at *
      have h₄ : (d₁.setMaster i .zero).gSmmu = d₁.gSmmu := rfl
      have h₅ : (d₁.setMaster i .zero).smmus = d₁.smmus := rfl
      have h₆ : (d₁.setMaster i .zero).numSmmus = d₁.numSmmus := rfl
      rw [h₄, h₅, h₆]
      omega
    · intro n' hn'
      rcases mem_modify hn' with hn' | ⟨n₁, hn₁, rfl⟩
      case inl => exact hd₁.nodes n' hn'
      case inr =>
        cases hn.symm.trans hn₁
        exact ⟨hsound.node, hsound.ptr, fun _ => rfl, fun _ hc => by cases hc⟩

-- A call that meets the condition keeps track of every block, and does not follow a null pointer.
theorem Step.kept {c : Call} {status : Nat} (hf : pf.alloc.Fresh) (hd : d.Kept others) (hc : d.CallOk c)
    (h : Step pf d c status d') : d'.Kept others ∧ d'.world.faults = d.world.faults := by
  cases h
  case map h   => exact (map_cases h).kept hf hd hc
  case unmap h => exact (unmap_cases h).kept hf hd hc

end

end Smmu
