import BsaAcs.Lib.Blocks
import BsaAcs.Smmu.Theorems.Roots
import BsaAcs.Smmu.Theorems.Sizes

namespace Smmu

open Heap (Frame Inside)

-- Which words of the blocks in use the driver changes.

section

variable {pf : Platform} {w w' : World} {smmu smmu' : SmmuDev} {ok cd2l : Bool} {S : Nat → Prop} {a v size : Nat}

theorem World.alloc_frame (ha : pf.alloc.Sound) (size : Nat) : Frame S w.heap (w.valMemoryAlloc pf size).2.heap :=
  Frame.alloc ha (Nat.mod_lt _ (by decide))

theorem World.alloc_new (ha : pf.alloc.Sound) (hp : (w.valMemoryAlloc pf size).1 ≠ 0) :
    ((w.valMemoryAlloc pf size).1, size % 2 ^ 32) ∈ (w.valMemoryAlloc pf size).2.heap.live ∧
      ∀ c ∈ w.heap.live, Heap.Apart ((w.valMemoryAlloc pf size).1, size % 2 ^ 32) c :=
  Heap.alloc_new ha hp

theorem World.alloc_fits (ha : pf.alloc.Sound) (hs : size < 2 ^ 32) : (w.valMemoryAlloc pf size).1 + size ≤ 2 ^ 64 := by
  have h := ha.fits w.heap.requests.length w.heap.live size hs
  rw [World.valMemoryAlloc, Nat.mod_eq_of_lt hs]
  exact h

theorem World.store_frame (hs : S a) : Frame S w.heap (w.store a v).heap :=
  Frame.write.mono fun _ hx => hx ▸ hs

theorem World.memorySet_frame (hs : ∀ x, a ≤ x → x < a + size % 2 ^ 32 → S x) :
    Frame S w.heap (w.valMemorySet a size v).heap :=
  Frame.set.mono fun x hx => hs x hx.1 hx.2

theorem World.SameBlocks.frame (h : w.SameBlocks w') (hm : ∀ x, ¬S x → w'.heap.mem x = w.heap.mem x) :
    Frame S w.heap w'.heap :=
  Frame.of_same h.live hm

-- The table in a block that has room to align it.
theorem aligned_inside {ptr k x : Nat} (hf : ptr + 2 * 2 ^ k ≤ 2 ^ 64) (hx : Inside (alignToSize ptr (2 ^ k), 2 ^ k) x) :
    Inside (ptr, 2 * 2 ^ k) x := by
  have ⟨h₁, h₂⟩ := alignToSize_bounds hf
  have ⟨_, _⟩ := hx
  refine ⟨?_, ?_⟩ <;> simp only at * <;> omega

-- Stream table entries.

theorem writeSte_frame {cfg : Option SteConfig} {ste : Nat} (hs : ∀ x, Inside (ste, 64) x → S x) :
    Frame S w.heap (smmuStrtabWriteSte cfg ste w).heap := by
  have hi (i : Nat) (h : i < 64) : S (ste + i) := hs _ ⟨Nat.le_add_right .., Nat.add_lt_add_left h ste⟩
  have h₀ : S ste := hi 0 (by decide)
  simp only [smmuStrtabWriteSte]
  split
  case h_1 =>
    exact ((World.store_frame h₀).trans (World.store_frame (hi 8 (by decide)))).trans
      (World.store_frame (hi 16 (by decide)))
  case h_2 =>
    exact (((World.store_frame (hi 8 (by decide))).trans (World.store_frame (hi 16 (by decide)))).trans
      (World.store_frame (hi 24 (by decide)))).trans (World.store_frame h₀)
  case h_3 => exact (World.store_frame (hi 8 (by decide))).trans (World.store_frame h₀)

theorem abortStes_frame {ste n : Nat} {w : World} (hs : ∀ x, Inside (ste, 64 * n) x → S x) :
    Frame S w.heap (abortStes ste n w).heap := by
  induction n generalizing ste w
  case zero => exact .refl
  case succ n hi =>
    refine (writeSte_frame fun x hx => hs x ?_).trans (hi fun x hx => hs x ?_)
    all_goals
      obtain ⟨_, _⟩ := hx
      simp only [strtabSteDwords] at *
      refine ⟨?_, ?_⟩ <;> simp only <;> omega

-- The level-1 descriptor of a stream.
def l1Word (smmu : SmmuDev) (sid : Nat) : Nat :=
  smmu.strtabCfg.strtab64 + (sid >>> strtabSplit) * strtabL1DescDwords * 8

-- A new table of the second level fills the level-1 descriptor.
theorem initLevel2_frame {sid : Nat} (ha : pf.alloc.Sound) (h : smmuStrtabInitLevel2 pf smmu sid w = (ok, smmu', w')) :
    Frame (fun x => (smmu.strtabCfg.l1Desc (sid >>> strtabSplit)).l2ptr = 0 ∧ x = l1Word smmu sid) w.heap w'.heap := by
  have hsize : (1 <<< strtabSplit) * strtabSteDwords * bytesPerDword * 2 = 2 * 2 ^ 14 := rfl
  have hset : (1 <<< strtabSplit) * strtabSteDwords * bytesPerDword = 2 ^ 14 := rfl
  simp only [smmuStrtabInitLevel2] at h
  split at h
  case isTrue =>
    cases h
    exact .refl
  case isFalse hn =>
    rw [hsize] at h
    split at h
    case isTrue hp =>
      cases h
      exact World.alloc_frame ha _
    case isFalse hp =>
      simp only [Prod.mk.injEq] at h
      obtain ⟨_, _, hm⟩ := h
      rw [← hm, hset]
      have hnew := (World.alloc_new ha hp).2
      have hfit := World.alloc_fits (w := w) ha (show 2 * 2 ^ 14 < 2 ^ 32 by decide)
      refine Frame.forget ?_ hnew
      refine (((World.alloc_frame ha _).trans (World.memorySet_frame ?_)).trans (abortStes_frame ?_)).trans
        (World.store_frame (.inl ⟨not_not.mp hn, rfl⟩))
      · exact fun x h₁ h₂ => .inr (aligned_inside hfit ⟨h₁, h₂⟩)
      · exact fun x hx => .inr (aligned_inside hfit hx)

end

-- The sizes of the tables of context descriptors.

-- The size that `smmu_cdtab_alloc` computes.
def cdtabSize (cd2l : Bool) (s1cdmax : Nat) : Nat :=
  if twoLevel cd2l s1cdmax then numL1Ents s1cdmax * (cdtabL1DescDwords <<< 3) % 2 ^ 32
  else maxContexts s1cdmax * (cdtabCdDwords <<< 3) % 2 ^ 64

-- The table fits into 32 bits.
def CdFits (cd2l : Bool) (s1cdmax : Nat) : Prop :=
  s1cdmax % 32 ≤ 24 ∨ cd2l = true ∧ s1cdmax % 32 ≤ 30

def cdtabLog (cd2l : Bool) (s1cdmax : Nat) : Nat :=
  if twoLevel cd2l s1cdmax then s1cdmax % 32 - 7 else s1cdmax % 32 + 6

section

variable {cd2l : Bool} {s1cdmax : Nat}

theorem maxContexts_eq (h : s1cdmax % 32 ≤ 30) : maxContexts s1cdmax = 2 ^ (s1cdmax % 32) := by
  have hp : 2 ^ (s1cdmax % 32) ≤ 2 ^ 30 := Nat.pow_le_pow_right two_pos h
  rw [maxContexts, signExtend, shl1, if_pos (by omega)]

theorem CdFits.le (h : CdFits cd2l s1cdmax) : s1cdmax % 32 ≤ 30 := by
  rcases h with h | ⟨_, h⟩ <;> omega

theorem twoLevel_iff (h : CdFits cd2l s1cdmax) : twoLevel cd2l s1cdmax = true ↔ cd2l = true ∧ 10 < s1cdmax % 32 := by
  have hc : cdtabL2EntryCount = 2 ^ 10 := rfl
  rw [twoLevel, Bool.and_eq_true, decide_eq_true_iff, maxContexts_eq h.le, hc, gt_iff_lt,
    Nat.pow_lt_pow_iff_right one_lt_two]

theorem numL1Ents_eq (h : CdFits cd2l s1cdmax) (ht : twoLevel cd2l s1cdmax = true) :
    numL1Ents s1cdmax = 2 ^ (s1cdmax % 32 - 10) := by
  have ⟨_, h₁₀⟩ := (twoLevel_iff h).mp ht
  have hc : cdtabL2EntryCount = 2 ^ 10 := rfl
  have hp : 2 ^ (s1cdmax % 32) = 2 ^ (s1cdmax % 32 - 10) * 2 ^ 10 := by
    rw [← Nat.pow_add, Nat.sub_add_cancel (by omega)]
  have hl : 2 ^ (s1cdmax % 32 - 10) ≤ 2 ^ 20 := Nat.pow_le_pow_right two_pos (by have := h.le; omega)
  rw [numL1Ents, maxContexts_eq h.le, hc, hp]
  omega

theorem cdtabSize_eq (h : CdFits cd2l s1cdmax) :
    cdtabSize cd2l s1cdmax = 2 ^ cdtabLog cd2l s1cdmax ∧ 2 * 2 ^ cdtabLog cd2l s1cdmax < 2 ^ 32 := by
  rw [cdtabSize, cdtabLog]
  split
  case isTrue ht =>
    have ⟨_, h₁₀⟩ := (twoLevel_iff h).mp ht
    have hd : cdtabL1DescDwords <<< 3 = 2 ^ 3 := rfl
    have he : 2 ^ (s1cdmax % 32 - 10) * 2 ^ 3 = 2 ^ (s1cdmax % 32 - 7) := by
      rw [← Nat.pow_add]
      congr 1
      omega
    have hl : 2 ^ (s1cdmax % 32 - 7) ≤ 2 ^ 23 := Nat.pow_le_pow_right two_pos (by have := h.le; omega)
    rw [numL1Ents_eq h ht, hd, he, Nat.mod_eq_of_lt (by omega)]
    exact ⟨rfl, by omega⟩
  case isFalse ht =>
    have h₂₄ : s1cdmax % 32 ≤ 24 := by
      rcases h with h | ⟨hc, hs⟩
      case inl => exact h
      case inr =>
        have hn : ¬10 < s1cdmax % 32 := fun h₁₀ => ht ((twoLevel_iff (.inr ⟨hc, hs⟩)).mpr ⟨hc, h₁₀⟩)
        omega
    have hd : cdtabCdDwords <<< 3 = 2 ^ 6 := rfl
    have hl : 2 ^ (s1cdmax % 32 + 6) ≤ 2 ^ 30 := Nat.pow_le_pow_right two_pos (by omega)
    rw [maxContexts_eq h.le, hd, ← Nat.pow_add, Nat.mod_eq_of_lt (by omega)]
    exact ⟨rfl, by omega⟩

end

-- Context descriptors.

section

variable {pf : Platform} {w w' : World} {ok cd2l : Bool} {ssid ssidBits : Nat} {cfg cfg' : Stage1Config} {S : Nat → Prop}

theorem cdtabAllocTable_frame {k : Nat} (ha : pf.alloc.Sound) (hk : 2 * 2 ^ k < 2 ^ 32)
    (h : cdtabAllocTable pf (2 ^ k) cfg w = (ok, cfg', w')) : Frame S w.heap w'.heap := by
  simp only [cdtabAllocTable, Nat.mul_comm (2 ^ k) 2] at h
  split at h
  case isTrue =>
    cases h
    exact World.alloc_frame ha _
  case isFalse hp =>
    cases h
    have hnew := (World.alloc_new ha hp).2
    have hfit := World.alloc_fits (w := w) ha hk
    rw [Nat.mod_eq_of_lt hk] at hnew
    refine Frame.forget ?_ hnew
    refine (World.alloc_frame ha _).trans (World.memorySet_frame ?_)
    intro x h₁ h₂
    rw [Nat.mod_eq_of_lt (by omega)] at h₂
    exact .inr (aligned_inside hfit ⟨h₁, h₂⟩)

theorem cdtabAlloc_frame (ha : pf.alloc.Sound) (hc : CdFits cd2l cfg.s1cdmax)
    (h : smmuCdtabAlloc pf cd2l cfg w = (ok, cfg', w')) : Frame S w.heap w'.heap := by
  have ⟨he, hk⟩ := cdtabSize_eq hc
  simp only [smmuCdtabAlloc] at h
  rw [cdtabSize] at he
  split at h
  case isTrue ht =>
    rw [if_pos ht] at he
    split at h
    case isTrue =>
      cases h
      exact World.alloc_frame ha _
    case isFalse =>
      rw [he] at h
      exact (World.alloc_frame ha _).trans (cdtabAllocTable_frame ha hk h)
  case isFalse ht =>
    rw [if_neg ht] at he
    rw [he] at h
    exact cdtabAllocTable_frame ha hk h

-- Where the descriptor of a substream is.
def cdEntry (cfg : Stage1Config) (ssid : Nat) : Nat :=
  if cfg.s1fmt = strtabSte0S1fmtLinear then cfg.cdcfg.cdtab64 + ssid * cdtabCdDwords % 2 ^ 32 * 8
  else (cfg.cdcfg.l1Desc (ssid >>> cdtabSplit)).l2desc64 + (ssid &&& (cdtabL2EntryCount - 1)) * cdtabCdDwords * 8

-- The level-1 descriptor of a substream.
def cdL1Word (cfg : Stage1Config) (ssid : Nat) : Nat :=
  cfg.cdcfg.cdtab64 + (ssid >>> cdtabSplit) * cdtabL1DescDwords * 8

-- The word that a new leaf fills in.
def NewLeaf (cfg : Stage1Config) (ssid x : Nat) : Prop :=
  cfg.s1fmt ≠ strtabSte0S1fmtLinear ∧ (cfg.cdcfg.l1Desc (ssid >>> cdtabSplit)).l2ptr = 0 ∧ x = cdL1Word cfg ssid

theorem getCtxDesc_frame {r : Option Nat} {cdcfg' : CdtabConfig} (ha : pf.alloc.Sound)
    (h : smmuCdtabGetCtxDesc pf cfg.s1fmt ssid cfg.cdcfg w = (r, cdcfg', w')) :
    Frame (fun x => r.isSome = true ∧ NewLeaf cfg ssid x) w.heap w'.heap ∧
      ∀ p, r = some p → p = cdEntry { cfg with cdcfg := cdcfg' } ssid := by
  simp only [smmuCdtabGetCtxDesc] at h
  split at h
  case isTrue hf =>
    cases h
    refine ⟨.refl, ?_⟩
    intro p hp
    cases hp
    rw [cdEntry, if_pos hf]
  case isFalse hf =>
    split at h
    case isTrue =>
      cases h
      exact ⟨.of_same rfl fun _ _ => rfl, fun _ hp => by cases hp⟩
    case isFalse hl =>
      split at h
      case isTrue =>
        cases h
        refine ⟨.refl, ?_⟩
        intro p hp
        cases hp
        rw [cdEntry, if_neg hf]
      case isFalse hz =>
        simp only [smmuCdtabAllocLeafTable] at h
        split at h
        case h_1 he =>
          cases h
          split at he <;> cases he
          exact ⟨World.alloc_frame ha _, fun _ hp => by cases hp⟩
        case h_2 he =>
          cases h
          split at he <;> cases he
          refine ⟨?_, ?_⟩
          · exact (World.alloc_frame ha _).trans (World.store_frame ⟨rfl, hf, not_not.mp hz, rfl⟩)
          · intro p hp
            cases hp
            rw [cdEntry, if_neg hf]
            simp [CdtabConfig.setL1Desc]

theorem writeCtxDesc_frame {cdptr : Nat} {cd : CtxDesc} (hs : ∀ x, Inside (cdptr, 64) x → S x) :
    Frame S w.heap (writeCtxDesc cdptr cd w).heap := by
  have hi (i : Nat) (h : i < 64) : S (cdptr + i) := hs _ ⟨Nat.le_add_right .., Nat.add_lt_add_left h cdptr⟩
  exact (((World.store_frame (hi 8 (by decide))).trans (World.store_frame (hi 16 (by decide)))).trans
    (World.store_frame (hi 24 (by decide)))).trans (World.store_frame (hi 0 (by decide)))

-- The words that a successful stage 1 map changes in the tables of the stream: the level-1 descriptor of
-- a new leaf, and the descriptor of the substream.
theorem cdtabWrite_frame (ha : pf.alloc.Sound) (h : smmuCdtabWriteCtxDesc pf ssid cfg w = (ok, cfg', w')) :
    Frame (fun x => ok = true ∧ (NewLeaf cfg ssid x ∨ Inside (cdEntry cfg' ssid, 64) x)) w.heap w'.heap := by
  simp only [smmuCdtabWriteCtxDesc] at h
  split at h
  case isTrue =>
    cases h
    exact .refl
  case isFalse =>
    split at h
    case h_1 hg =>
      cases h
      exact (getCtxDesc_frame ha hg).1.mono fun x hx => by simp at hx
    case h_2 hg =>
      cases h
      obtain ⟨h₁, h₂⟩ := getCtxDesc_frame ha hg
      have hp := h₂ _ rfl
      refine (h₁.mono fun x hx => ⟨rfl, .inl hx.2⟩).trans (writeCtxDesc_frame fun x hx => ⟨rfl, .inr ?_⟩)
      rw [hp] at hx
      exact hx

-- The words of the tables of a stream that a map of a substream can change.
def CdWords (cfg : Stage1Config) (ssid x : Nat) : Prop :=
  cfg.s1fmt ≠ strtabSte0S1fmtLinear ∧ x = cdL1Word cfg ssid ∨ Inside (cdEntry cfg ssid, 64) x

theorem cdtabWrite_format (h : smmuCdtabWriteCtxDesc pf ssid cfg w = (ok, cfg', w')) :
    cfg'.s1fmt = cfg.s1fmt ∧ cfg'.s1cdmax = cfg.s1cdmax ∧ cfg'.cd = cfg.cd ∧ cfg'.cdcfg.cdtabPtr = cfg.cdcfg.cdtabPtr ∧
      cfg'.cdcfg.cdtab64 = cfg.cdcfg.cdtab64 ∧ cfg'.cdcfg.cdtabPhys = cfg.cdcfg.cdtabPhys := by
  have desc {r : Option Nat} {cdcfg' : CdtabConfig} {w' : World}
      (hg : smmuCdtabGetCtxDesc pf cfg.s1fmt ssid cfg.cdcfg w = (r, cdcfg', w')) :
      cdcfg'.cdtabPtr = cfg.cdcfg.cdtabPtr ∧ cdcfg'.cdtab64 = cfg.cdcfg.cdtab64 ∧
        cdcfg'.cdtabPhys = cfg.cdcfg.cdtabPhys := by
    simp only [smmuCdtabGetCtxDesc] at hg
    split at hg
    case isTrue => cases hg; exact ⟨rfl, rfl, rfl⟩
    case isFalse =>
      split at hg
      case isTrue => cases hg; exact ⟨rfl, rfl, rfl⟩
      case isFalse =>
        split at hg
        case isTrue => cases hg; exact ⟨rfl, rfl, rfl⟩
        case isFalse => split at hg <;> cases hg <;> exact ⟨rfl, rfl, rfl⟩
  simp only [smmuCdtabWriteCtxDesc] at h
  split at h
  case isTrue => cases h; exact ⟨rfl, rfl, rfl, rfl, rfl, rfl⟩
  case isFalse =>
    split at h
    all_goals
      rename_i hg
      cases h
      obtain ⟨h₁, h₂, h₃⟩ := desc hg
      exact ⟨rfl, rfl, rfl, h₁, h₂, h₃⟩

theorem mapStage1_frame {pgt : PgtDescriptor} (ha : pf.alloc.Sound)
    (hc : cfg.cdcfg.cdtabPtr = 0 → CdFits cd2l (ssidBits % 2 ^ 8))
    (h : mapStage1 pf cd2l ssid ssidBits pgt cfg w = (ok, cfg', w')) :
    Frame (fun x => ok = true ∧ CdWords cfg' ssid x) w.heap w'.heap := by
  have write {cfg : Stage1Config} {w : World} (h : smmuCdtabWriteCtxDesc pf ssid cfg w = (ok, cfg', w')) :
      Frame (fun x => ok = true ∧ CdWords cfg' ssid x) w.heap w'.heap := by
    refine (cdtabWrite_frame ha h).mono ?_
    rintro x ⟨hok, hn | hx⟩
    case inr => exact ⟨hok, .inr hx⟩
    case inl =>
      have ⟨h₁, _, _, _, h₂, _⟩ := cdtabWrite_format h
      refine ⟨hok, .inl ⟨h₁ ▸ hn.1, ?_⟩⟩
      rw [hn.2.2, cdL1Word, cdL1Word, h₂]
  simp only [mapStage1] at h
  split at h
  case h_1 he =>
    split at he
    case isTrue hz =>
      cases h
      exact cdtabAlloc_frame ha (hc hz) he
    case isFalse => cases he
  case h_2 he =>
    split at he
    case isTrue hz => exact (cdtabAlloc_frame ha (hc hz) he).trans (write h)
    case isFalse =>
      cases he
      exact write h

end

-- What a map changes.

section

variable {pf : Platform} {smmu smmu' : SmmuDev} {cd2l ok : Bool} {attr : SmmuMasterAttributes} {pgt : PgtDescriptor}
variable {m m' : Master} {w w' : World} {d d' : Driver}

-- The level-1 descriptor of a stream, if there is no table of the second level for it yet.
def NewLevel2 (smmu : SmmuDev) (sid x : Nat) : Prop :=
  smmu.supported.stLevel2lvl = true ∧ (smmu.strtabCfg.l1Desc (sid >>> strtabSplit)).l2ptr = 0 ∧ x = l1Word smmu sid

-- The size of the table of context descriptors that the call has to allocate.
def TableFits (cd2l : Bool) (attr : SmmuMasterAttributes) (m : Master) : Prop :=
  attr.stage2 = 0 → m.stage1.cdcfg.cdtabPtr = 0 → CdFits cd2l (m.ssidBits % 2 ^ 8)

-- The stream table comes first, and then the tables of context descriptors.
theorem mapTables_steps (ha : pf.alloc.Sound)
    (hc : m.stage = .s1 → m.stage1.cdcfg.cdtabPtr = 0 → CdFits cd2l (m.ssidBits % 2 ^ 8))
    (h : mapTables pf smmu cd2l pgt m w = (ok, smmu', m', w')) :
    ∃ ok₁ w₁, (if smmu.supported.stLevel2lvl then smmuStrtabInitLevel2 pf smmu m.sid w else (true, smmu, w)) =
        (ok₁, smmu', w₁) ∧
      Frame (fun x => ok = true ∧ m'.stage = .s1 ∧ CdWords m'.stage1 m'.ssid x) w₁.heap w'.heap := by
  simp only [mapTables] at h
  split at h
  case h_1 he =>
    cases h
    exact ⟨_, _, he, .refl⟩
  case h_2 w₁ he =>
    split at h
    case h_1 =>
      cases h
      exact ⟨_, _, he, .refl⟩
    case h_2 hst =>
      rcases hm : mapStage1 pf cd2l m.ssid m.ssidBits pgt m.stage1 w₁ with ⟨ok₁, cfg, w₂⟩
      rw [hm] at h
      cases h
      exact ⟨_, _, he, (mapStage1_frame ha (hc hst) hm).mono fun x hx => ⟨hx.1, hst, hx.2⟩⟩

theorem mapTables_frame (ha : pf.alloc.Sound)
    (hc : m.stage = .s1 → m.stage1.cdcfg.cdtabPtr = 0 → CdFits cd2l (m.ssidBits % 2 ^ 8))
    (h : mapTables pf smmu cd2l pgt m w = (ok, smmu', m', w')) :
    Frame (fun x => NewLevel2 smmu m.sid x ∨ ok = true ∧ m'.stage = .s1 ∧ CdWords m'.stage1 m'.ssid x) w.heap w'.heap := by
  have ⟨ok₁, w₁, he, hf⟩ := mapTables_steps ha hc h
  refine Frame.trans ?_ (hf.mono fun x hx => .inr hx)
  split at he
  case isTrue hl => exact (initLevel2_frame ha he).mono fun x hx => .inl ⟨hl, hx.1, hx.2⟩
  case isFalse =>
    cases he
    exact .refl

-- The words that `val_smmu_map` writes in blocks that were there before, up to the invalidation.
def MapWords (smmu smmu' : SmmuDev) (ok : Bool) (m' : Master) (x : Nat) : Prop :=
  sidInRange smmu m'.sid = true ∧ NewLevel2 smmu m'.sid x ∨
  ok = true ∧ (m'.stage = .s1 ∧ CdWords m'.stage1 m'.ssid x ∨ Inside (smmuStrtabGetSteForSid smmu' m'.sid, 64) x)

theorem mapMaster_frame (ha : pf.alloc.Sound) (hc : TableFits cd2l attr m) (hs : m.sid = attr.streamid)
    (h : mapMaster pf smmu cd2l attr pgt m w = (ok, smmu', m', w')) :
    Frame (MapWords smmu smmu' ok m') w.heap w'.heap := by
  simp only [mapMaster] at h
  split at h
  case h_1 =>
    cases h
    exact .refl
  case h_2 m₁ hm =>
    have h₁ : m₁.stage = .s1 → m₁.stage1.cdcfg.cdtabPtr = 0 → CdFits cd2l (m₁.ssidBits % 2 ^ 8) := by
      obtain ⟨h₁, h₂, h₃⟩ := selectStage_kept hm
      rw [h₁, h₂]
      exact fun hs => hc (h₃ hs).1
    have h₂ : m₁.sid = attr.streamid := hs ▸ congrArg Prod.fst (selectStage_key hm)
    split at h
    case isTrue hr =>
      rw [← h₂] at hr
      split at h
      all_goals
        rename_i ht
        cases h
        have hsid : _ = m₁.sid := congrArg Prod.fst (mapTables_key ht)
        have ht := mapTables_frame ha h₁ ht
        rw [← hsid] at ht hr
      case h_1 => exact ht.mono fun x hx => hx.imp (⟨hr, ·⟩) fun hx => absurd hx.1 Bool.false_ne_true
      case h_2 =>
        refine (ht.mono fun x hx => hx.imp (⟨hr, ·⟩) fun hx => ⟨rfl, .inl hx.2⟩).trans ?_
        exact writeSte_frame fun x hx => .inr ⟨rfl, .inr hx⟩
    case isFalse =>
      cases h
      exact .refl

-- The slots of a command queue.
def QueueWords (cmdq : CmdQueue) (x : Nat) : Prop :=
  ∃ prod, x = slot cmdq prod ∨ x = slot cmdq prod + 8

theorem tlbiCfgi_mem {base fuel x : Nat} {cmdq : CmdQueue} {hyp timedOut : Bool}
    (h : smmuTlbiCfgi pf base cmdq hyp fuel w = some (timedOut, w')) (hx : ¬QueueWords cmdq x) :
    w'.heap.mem x = w.heap.mem x := by
  have issue {opcodes : List Nat} {w : World} (ho : ∀ o ∈ opcodes, (smmuCmdqBuildCmd o).isSome) :
      (opcodes.foldl (fun w opcode => (smmuCmdqIssueCmd pf base cmdq opcode w).2) w).heap.mem x = w.heap.mem x := by
    induction opcodes generalizing w
    case nil => rfl
    case cons o os hi =>
      have ⟨_, he⟩ := issue_eq pf base cmdq w (ho o (List.mem_cons_self ..))
      rw [List.foldl_cons, hi fun p hp => ho p (List.mem_cons_of_mem _ hp), he]
      have h₁ : x ≠ slot cmdq (pf.answer w.reads) := fun hc => hx ⟨_, .inl hc⟩
      have h₂ : x ≠ slot cmdq (pf.answer w.reads) + 8 := fun hc => hx ⟨_, .inr hc⟩
      exact (Memory.write_ne h₂).trans (Memory.write_ne h₁)
  have read {i : Nat} {w : World} : (w.readCons pf base i).heap = w.heap := by
    induction i generalizing w
    case zero      => rfl
    case succ i hi => exact hi
  have ⟨_, i, hw, _⟩ := tlbiCfgi_some h
  rw [hw, read]
  exact issue fun _ => buildCmd_invalidation

theorem tlbiCfgi_frame {base fuel : Nat} {cmdq : CmdQueue} {hyp timedOut : Bool}
    (h : smmuTlbiCfgi pf base cmdq hyp fuel w = some (timedOut, w')) : Frame (QueueWords cmdq) w.heap w'.heap :=
  .of_same (tlbiCfgi_same h).live fun _ hx => tlbiCfgi_mem h hx

-- A block that is freed again before the next call is not missed.
theorem alloc_free_frame {S : Nat → Prop} {node size : Nat} {w₁ w₂ : World} (ha : pf.alloc.Sound) (hn : node ≠ 0)
    (h₁ : w.valMemoryAlloc pf size = (node, w₁)) (h₂ : Frame S w₁.heap w₂.heap) :
    Frame S w.heap (w₂.valMemoryFree node).heap := by
  have hf : Frame S w.heap w₁.heap := by
    have := World.alloc_frame (S := S) (w := w) ha size
    rwa [h₁] at this
  have hfresh : node ∉ w.heap.live.map Prod.fst := by
    have he : node = pf.alloc w.heap.requests.length w.heap.live (size % 2 ^ 32) :=
      (congrArg Prod.fst h₁).symm
    rw [he] at hn ⊢
    exact ha.fresh _ _ _ hn
  have ht := hf.trans h₂
  refine ⟨?_, fun hl => (ht.laid hl).free, ?_⟩
  · intro b hb
    refine Heap.mem_free (ht.live b hb) ?_
    rintro rfl
    exact hfresh (List.mem_map_of_mem hb)
  · intro b hb x hx hs
    have hm : (w₂.valMemoryFree node).heap.mem = w₂.heap.mem := Heap.free_mem
    rw [hm]
    exact ht.mem b hb x hx hs

theorem Lookup.frame {S : Nat → Prop} {sid : Nat} {r : Option (Nat × Master)} (ha : pf.alloc.Sound)
    (h : Lookup pf sid d r d') : Frame S d.world.heap d'.world.heap := by
  have alloc {size p : Nat} {w w' : World} (h : w.valMemoryAlloc pf size = (p, w')) : Frame S w.heap w'.heap := by
    have := World.alloc_frame (S := S) (w := w) ha size
    rwa [h] at this
  cases h
  case found => exact .refl
  case noNode _ h₁ => exact alloc h₁
  case noMaster _ h₁ hn h₂ => exact alloc_free_frame ha hn h₁ (alloc h₂)
  case created _ h₁ _ h₂ _ => exact (alloc h₁).trans (alloc h₂)

end

end Smmu
