import BsaAcs.Smmu.Theorems.Ownership

namespace Smmu

-- The blocks of a table of context descriptors.

def Stage1Config.leaves (cfg : Stage1Config) : List Nat :=
  (List.range (numL1Ents cfg.s1cdmax)).map fun i => (cfg.cdcfg.l1Desc i).l2ptr

def Stage1Config.blocks (cfg : Stage1Config) : List Nat :=
  cfg.cdcfg.cdtabPtr :: cfg.cdcfg.l1Ptr :: cfg.leaves

-- There is an array of level-1 descriptors only for a table of two levels, and leaves only with such
-- an array. Once there is a table, its size does not change any more.
structure CdOk (cd2l : Bool) (ssidBits : Nat) (cfg : Stage1Config) : Prop where
  flat   : twoLevel cd2l cfg.s1cdmax = false → cfg.cdcfg.l1Ptr = 0
  leaf   : ∀ i, (cfg.cdcfg.l1Desc i).l2ptr ≠ 0 → cfg.cdcfg.l1Ptr ≠ 0 ∧ i < numL1Ents cfg.s1cdmax
  format : cfg.cdcfg.cdtabPtr ≠ 0 → cfg.s1fmt ≠ strtabSte0S1fmtLinear → cfg.cdcfg.l1Ptr ≠ 0
  bits   : cfg.cdcfg.cdtabPtr ≠ 0 ∨ cfg.cdcfg.l1Ptr ≠ 0 → cfg.s1cdmax = ssidBits % 2 ^ 8

section

variable {pf : Platform} {w w' : World} {cd2l ok : Bool} {ssid ssidBits : Nat} {cfg cfg' : Stage1Config} {roots : List Nat}

theorem CdOk.leaf_zero (h : CdOk cd2l ssidBits cfg) (hz : cfg.cdcfg.l1Ptr = 0) (i : Nat) :
    (cfg.cdcfg.l1Desc i).l2ptr = 0 := by
  by_contra hn
  exact (h.leaf i hn).1 hz

-- Without a table there are no blocks.
theorem blocks_filter_zero (hp : cfg.cdcfg.cdtabPtr = 0) (hl : cfg.cdcfg.l1Ptr = 0)
    (hz : ∀ i, (cfg.cdcfg.l1Desc i).l2ptr = 0) : cfg.blocks.filter (· ≠ 0) = [] := by
  have hn : cfg.leaves.filter (· ≠ 0) = [] := Heap.filter_map_zero fun i _ => hz i
  rw [Stage1Config.blocks, hp, hl]
  exact hn

theorem owns_of_no_blocks (hp : cfg.cdcfg.cdtabPtr = 0) (hl : cfg.cdcfg.l1Ptr = 0)
    (hz : ∀ i, (cfg.cdcfg.l1Desc i).l2ptr = 0) : w.Owns (cfg.blocks ++ roots) ↔ w.Owns roots := by
  have he : (cfg.blocks ++ roots).filter (· ≠ 0) = roots.filter (· ≠ 0) := by
    rw [List.filter_append, blocks_filter_zero hp hl hz, List.nil_append]
  exact ⟨fun ho => ho.of_filter_eq he, fun ho => ho.of_filter_eq he.symm⟩

theorem cdtabAllocTable_owns {size : Nat} (hf : pf.alloc.Fresh) (h : cdtabAllocTable pf size cfg w = (ok, cfg', w'))
    (ho : w.Owns (cfg.cdcfg.l1Ptr :: roots)) (hz : ∀ i, (cfg.cdcfg.l1Desc i).l2ptr = 0) :
    w'.Owns (cfg'.blocks ++ roots) ∧ cfg'.cdcfg.l1Ptr = cfg.cdcfg.l1Ptr ∧ cfg'.cdcfg.l1Desc = cfg.cdcfg.l1Desc ∧
      cfg'.s1fmt = cfg.s1fmt ∧ cfg'.s1cdmax = cfg.s1cdmax ∧ (ok = true → cfg'.cdcfg.cdtabPtr ≠ 0) := by
  have blocks {cfg' : Stage1Config} {ptr : Nat} (h₀ : cfg'.cdcfg.cdtabPtr = ptr)
      (h₁ : cfg'.cdcfg.l1Ptr = cfg.cdcfg.l1Ptr) (h₂ : cfg'.cdcfg.l1Desc = cfg.cdcfg.l1Desc) :
      (ptr :: cfg.cdcfg.l1Ptr :: roots).filter (· ≠ 0) = (cfg'.blocks ++ roots).filter (· ≠ 0) := by
    have hn : cfg'.leaves.filter (· ≠ 0) = [] := Heap.filter_map_zero fun i _ => by rw [h₂, hz i]
    have hc : cfg'.blocks ++ roots = [ptr, cfg.cdcfg.l1Ptr] ++ (cfg'.leaves ++ roots) := by
      rw [Stage1Config.blocks, h₀, h₁]
      rfl
    rw [hc, List.filter_append, List.filter_append, hn, List.nil_append, ← List.filter_append]
    rfl
  simp only [cdtabAllocTable] at h
  have ha := ho.alloc hf (size * 2)
  split at h
  case isTrue hp =>
    cases h
    rw [hp] at ha
    refine ⟨ha.of_filter_eq ?_, rfl, rfl, rfl, rfl, by simp⟩
    refine blocks ?_ ?_ ?_ <;> rfl
  case isFalse hp =>
    cases h
    refine ⟨(ha.same World.memorySet_same).of_filter_eq ?_, rfl, rfl, rfl, rfl, fun _ => hp⟩
    refine blocks ?_ ?_ ?_ <;> rfl

theorem cdtabAlloc_owns (hf : pf.alloc.Fresh) (hk : CdOk cd2l ssidBits cfg) (hb : cfg.s1cdmax = ssidBits % 2 ^ 8)
    (hp : cfg.cdcfg.cdtabPtr = 0) (hl : cfg.cdcfg.l1Ptr = 0) (ho : w.Owns roots)
    (h : smmuCdtabAlloc pf cd2l cfg w = (ok, cfg', w')) :
    w'.Owns (cfg'.blocks ++ roots) ∧ CdOk cd2l ssidBits cfg' ∧ (ok = true → cfg'.cdcfg.cdtabPtr ≠ 0) ∧
      cfg'.s1cdmax = cfg.s1cdmax := by
  have hz := hk.leaf_zero hl
  simp only [smmuCdtabAlloc] at h
  split at h
  case isTrue ht =>
    have ha := ho.alloc hf (numL1Ents cfg.s1cdmax * sizeofCdtabL1CtxDesc)
    split at h
    case isTrue hn =>
      cases h
      rw [hn] at ha
      refine ⟨?_, ⟨?_, ?_, ?_, ?_⟩, by simp, rfl⟩
      · refine (owns_of_no_blocks ?_ ?_ ?_).mpr (Heap.Owns.zero_cons_iff.mp ha)
        · exact hp
        · exact hn
        · exact hz
      · exact fun _ => hn
      · exact fun i hi => absurd (hz i) hi
      · exact fun hc => absurd hp hc
      · exact fun _ => hb
    case isFalse hn =>
      have ⟨h₁, h₂, h₃, h₄, h₅, h₆⟩ := cdtabAllocTable_owns hf h ha (fun _ => rfl)
      refine ⟨h₁, ⟨?_, ?_, ?_, ?_⟩, h₆, h₅⟩
      · intro hc
        rw [h₅] at hc
        exact absurd ht (by simp [hc])
      · intro i hi
        rw [h₃] at hi
        exact absurd rfl hi
      · intro _ _
        rw [h₂]
        exact hn
      · intro _
        rw [h₅]
        exact hb
  case isFalse ht =>
    have hc : w.Owns (cfg.cdcfg.l1Ptr :: roots) := by
      rw [hl]
      exact Heap.Owns.zero_cons_iff.mpr ho
    have ⟨h₁, h₂, h₃, h₄, h₅, h₆⟩ := cdtabAllocTable_owns hf h hc hz
    refine ⟨h₁, ⟨?_, ?_, ?_, ?_⟩, h₆, h₅⟩
    · intro _
      rw [h₂]
      exact hl
    · intro i hi
      rw [h₃] at hi
      exact absurd (hz i) hi
    · intro _ hn
      exact absurd h₄ hn
    · intro _
      rw [h₅]
      exact hb

theorem cdtabAllocTable_faults {size : Nat} : (cdtabAllocTable pf size cfg w).2.2.faults = w.faults := by
  simp only [cdtabAllocTable]
  split <;> rfl

theorem cdtabAlloc_faults : (smmuCdtabAlloc pf cd2l cfg w).2.2.faults = w.faults := by
  simp only [smmuCdtabAlloc]
  split
  case isTrue =>
    split
    case isTrue  => rfl
    case isFalse => exact cdtabAllocTable_faults
  case isFalse => exact cdtabAllocTable_faults

-- A substream id that passes the check has its leaf in the array.
theorem leaf_index_lt {s1cdmax : Nat} (hs : ssid < 2 ^ 31) (h : toInt ssid < toInt (shl1 s1cdmax)) :
    ssid >>> cdtabSplit < numL1Ents s1cdmax := by
  have hk : s1cdmax % 32 < 32 := Nat.mod_lt _ (by decide)
  have ht : toInt ssid = ssid := by rw [toInt, if_pos hs]
  by_cases hm : s1cdmax % 32 = 31
  case pos =>
    have hn : toInt (shl1 s1cdmax) = -2 ^ 31 := by
      rw [shl1, hm]
      rfl
    rw [ht, hn] at h
    omega
  case neg =>
    have hp : 2 ^ (s1cdmax % 32) ≤ 2 ^ 30 := Nat.pow_le_pow_right two_pos (by omega)
    have h₁ : toInt (shl1 s1cdmax) = (2 ^ (s1cdmax % 32) : Nat) := by
      rw [toInt, shl1, if_pos (by omega)]
    have h₂ : maxContexts s1cdmax = 2 ^ (s1cdmax % 32) := by
      rw [maxContexts, signExtend, shl1, if_pos (by omega)]
    have hlt : ssid < 2 ^ (s1cdmax % 32) := by
      rw [ht, h₁] at h
      exact Int.ofNat_lt.mp h
    have hc : cdtabL2EntryCount = 1024 := rfl
    rw [numL1Ents, h₂, Nat.shiftRight_eq_div_pow, cdtabSplit, hc, Nat.mod_eq_of_lt (by omega)]
    omega

-- A new leaf.
theorem blocks_setL1Desc_perm {i p a b : Nat} (hi : i < numL1Ents cfg.s1cdmax)
    (hz : (cfg.cdcfg.l1Desc i).l2ptr = 0) :
    ((p :: (cfg.blocks ++ roots)).filter (· ≠ 0)).Perm
      ((({ cfg with cdcfg := cfg.cdcfg.setL1Desc i ⟨p, a, b⟩ } : Stage1Config).blocks ++ roots).filter (· ≠ 0)) := by
  have hl : ({ cfg with cdcfg := cfg.cdcfg.setL1Desc i ⟨p, a, b⟩ } : Stage1Config).leaves =
      (List.range (numL1Ents cfg.s1cdmax)).map fun j => if j = i then p else (cfg.cdcfg.l1Desc j).l2ptr := by
    refine List.map_congr_left fun j _ => ?_
    simp only [CdtabConfig.setL1Desc]
    split <;> rfl
  have hp := Heap.map_range_update_perm (f := fun j => (cfg.cdcfg.l1Desc j).l2ptr) (p := p) hi hz
  have hb : ({ cfg with cdcfg := cfg.cdcfg.setL1Desc i ⟨p, a, b⟩ } : Stage1Config).blocks ++ roots =
      [cfg.cdcfg.cdtabPtr, cfg.cdcfg.l1Ptr] ++
        ({ cfg with cdcfg := cfg.cdcfg.setL1Desc i ⟨p, a, b⟩ } : Stage1Config).leaves ++ roots := rfl
  have hc : (p :: (cfg.blocks ++ roots)).Perm
      ([cfg.cdcfg.cdtabPtr, cfg.cdcfg.l1Ptr] ++ (p :: cfg.leaves) ++ roots) := by
    have hm : ([cfg.cdcfg.cdtabPtr, cfg.cdcfg.l1Ptr] ++ p :: (cfg.leaves ++ roots)).Perm
        (p :: ([cfg.cdcfg.cdtabPtr, cfg.cdcfg.l1Ptr] ++ (cfg.leaves ++ roots))) := List.perm_middle
    exact hm.symm
  refine (hc.filter _).trans ?_
  rw [hb, hl, List.filter_append, List.filter_append, List.filter_append, List.filter_append]
  exact (hp.symm.append_left _).append_right _

theorem getCtxDesc_owns {r : Option Nat} {cdcfg' : CdtabConfig} (hf : pf.alloc.Fresh) (hk : CdOk cd2l ssidBits cfg)
    (hp : cfg.cdcfg.cdtabPtr ≠ 0) (hi : ssid >>> cdtabSplit < numL1Ents cfg.s1cdmax)
    (ho : w.Owns (cfg.blocks ++ roots))
    (h : smmuCdtabGetCtxDesc pf cfg.s1fmt ssid cfg.cdcfg w = (r, cdcfg', w')) :
    w'.Owns (({ cfg with cdcfg := cdcfg' } : Stage1Config).blocks ++ roots) ∧
      CdOk cd2l ssidBits { cfg with cdcfg := cdcfg' } ∧ w'.faults = w.faults := by
  simp only [smmuCdtabGetCtxDesc] at h
  split at h
  case isTrue => cases h; exact ⟨ho, hk, rfl⟩
  case isFalse hfmt =>
    have hl := hk.format hp hfmt
    rw [if_neg hl] at h
    split at h
    case isTrue => cases h; exact ⟨ho, hk, rfl⟩
    case isFalse hn =>
      have hz := not_not.mp hn
      have ha := ho.alloc hf (cdtabL2EntryCount * (cdtabCdDwords <<< 3) * 2)
      simp only [smmuCdtabAllocLeafTable] at h
      by_cases hq : (w.valMemoryAlloc pf (cdtabL2EntryCount * (cdtabCdDwords <<< 3) * 2)).1 = 0
      case pos =>
        rw [if_pos hq] at h
        cases h
        rw [hq] at ha
        exact ⟨Heap.Owns.zero_cons_iff.mp ha, hk, rfl⟩
      case neg =>
        rw [if_neg hq] at h
        cases h
        refine ⟨?_, ⟨hk.flat, ?_, fun _ _ => hl, fun _ => hk.bits (.inl hp)⟩, rfl⟩
        · refine World.Owns.same ?_ World.store_same
          exact ⟨ha.perm.trans (blocks_setL1Desc_perm hi hz), ha.nodup, ha.tame⟩
        · intro i hne
          simp only [CdtabConfig.setL1Desc] at hne ⊢
          split at hne
          case isTrue he  => exact ⟨hl, he ▸ hi⟩
          case isFalse he => exact hk.leaf i hne

theorem writeCtxDesc_owns (hf : pf.alloc.Fresh) (hk : CdOk cd2l ssidBits cfg) (hp : cfg.cdcfg.cdtabPtr ≠ 0)
    (hs : ssid < 2 ^ 31) (ho : w.Owns (cfg.blocks ++ roots))
    (h : smmuCdtabWriteCtxDesc pf ssid cfg w = (ok, cfg', w')) :
    w'.Owns (cfg'.blocks ++ roots) ∧ CdOk cd2l ssidBits cfg' ∧ w'.faults = w.faults := by
  simp only [smmuCdtabWriteCtxDesc] at h
  split at h
  case isTrue => cases h; exact ⟨ho, hk, rfl⟩
  case isFalse hc =>
    have hi := leaf_index_lt hs (lt_of_not_ge hc)
    split at h
    all_goals
      rename_i hg
      cases h
      have ⟨h₁, h₂, h₃⟩ := getCtxDesc_owns hf hk hp hi ho hg
    case h_1 => exact ⟨h₁, h₂, h₃⟩
    case h_2 => exact ⟨h₁.same writeCtxDesc_same, h₂, h₃⟩

-- The table of a stream before and after the stage 1 part of `val_smmu_map`.
theorem mapStage1_owns {pgt : PgtDescriptor} (hf : pf.alloc.Fresh) (hk : CdOk cd2l ssidBits cfg)
    (hh : cfg.cdcfg.cdtabPtr = 0 → cfg.cdcfg.l1Ptr = 0) (hs : ssid < 2 ^ 31) (ho : w.Owns (cfg.blocks ++ roots))
    (h : mapStage1 pf cd2l ssid ssidBits pgt cfg w = (ok, cfg', w')) :
    w'.Owns (cfg'.blocks ++ roots) ∧ CdOk cd2l ssidBits cfg' ∧ w'.faults = w.faults := by
  simp only [mapStage1] at h
  by_cases hp : cfg.cdcfg.cdtabPtr = 0
  case pos =>
    have hl := hh hp
    have hz := hk.leaf_zero hl
    have ho := (owns_of_no_blocks hp hl hz).mp ho
    have hk₀ : CdOk cd2l ssidBits { cfg with s1cdmax := ssidBits % 2 ^ 8 } :=
      ⟨fun _ => hl, fun i hi => absurd (hz i) hi, fun hc => absurd hp hc, fun _ => rfl⟩
    rw [if_pos hp] at h
    rcases ha : smmuCdtabAlloc pf cd2l { cfg with s1cdmax := ssidBits % 2 ^ 8 } w with ⟨ok₁, cfg₁, w₁⟩
    have ⟨h₁, h₂, h₃, h₄⟩ := cdtabAlloc_owns hf hk₀ rfl hp hl ho ha
    have h₅ : (smmuCdtabAlloc pf cd2l { cfg with s1cdmax := ssidBits % 2 ^ 8 } w).2.2.faults = w.faults :=
      cdtabAlloc_faults
    rw [ha] at h₅
    rw [ha] at h
    cases ok₁
    case false => cases h; exact ⟨h₁, h₂, h₅⟩
    case true =>
      have hk₁ : CdOk cd2l ssidBits { cfg₁ with cd := ctxDesc pgt } := ⟨h₂.flat, h₂.leaf, h₂.format, h₂.bits⟩
      have ⟨g₁, g₂, g₃⟩ := writeCtxDesc_owns hf hk₁ (h₃ rfl) hs h₁ h
      exact ⟨g₁, g₂, g₃.trans h₅⟩
  case neg =>
    have hb := hk.bits (.inl hp)
    rw [if_neg hp, ← hb] at h
    have hk₁ : CdOk cd2l ssidBits { cfg with cd := ctxDesc pgt } := ⟨hk.flat, hk.leaf, hk.format, hk.bits⟩
    exact writeCtxDesc_owns hf hk₁ hp hs ho h

theorem freeLeaves_eq :
    freeLeaves cfg.cdcfg (numL1Ents cfg.s1cdmax) w = cfg.leaves.foldl (fun w p => w.valMemoryFree p) w := by
  rw [← foldl_free_if, Stage1Config.leaves, List.foldl_map]
  rfl

-- An unmap frees the whole table.
theorem cdtabFree_owns (hk : CdOk cd2l ssidBits cfg) (hl : twoLevel cd2l cfg.s1cdmax = true → cfg.cdcfg.l1Ptr ≠ 0)
    (ho : w.Owns (cfg.blocks ++ roots)) : (smmuCdtabFree cd2l cfg w).Owns roots := by
  simp only [smmuCdtabFree]
  have hc : (cfg.blocks ++ roots).Perm (cfg.leaves ++ cfg.cdcfg.l1Ptr :: cfg.cdcfg.cdtabPtr :: roots) := by
    have h₁ : (cfg.blocks ++ roots).Perm (cfg.cdcfg.l1Ptr :: cfg.cdcfg.cdtabPtr :: (cfg.leaves ++ roots)) := .swap ..
    refine h₁.trans ?_
    exact (List.perm_middle.symm.cons _).trans List.perm_middle.symm
  split
  case isTrue ht =>
    rw [if_neg (hl ht), freeLeaves_eq]
    exact (World.Owns.freeAll (ho.of_perm hc)).free.free
  case isFalse ht =>
    have hz := hk.flat (Bool.eq_false_of_not_eq_true ht)
    have hn : cfg.leaves.filter (· ≠ 0) = [] := Heap.filter_map_zero fun i _ => hk.leaf_zero hz i
    refine World.Owns.free (ho.of_filter_eq ?_)
    have hb : cfg.blocks ++ roots = [cfg.cdcfg.cdtabPtr, 0] ++ (cfg.leaves ++ roots) := by
      rw [Stage1Config.blocks, hz]
      rfl
    rw [hb, List.filter_append, List.filter_append, hn]
    simp only [List.filter_cons, List.filter_nil]
    split <;> rfl

end

end Smmu
