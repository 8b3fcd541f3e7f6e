import BsaAcs.Smmu.Theorems.Descriptors
import BsaAcs.Smmu.Theorems.Isolation

namespace Smmu

open Heap (Answers Frame Inside Tidy)

-- What the tables of context descriptors hold.

-- The words of the tables of a record.
def Stage1Config.Word (cfg : Stage1Config) (x : Nat) : Prop :=
  cfg.cdcfg.cdtabPtr ≠ 0 ∧
    ((cfg.s1fmt ≠ strtabSte0S1fmtLinear ∧ ∃ ssid < 2 ^ (cfg.s1cdmax % 32), x = cdL1Word cfg ssid) ∨
      ∃ ssid, cfg.HasCd ssid ∧ Inside (cdEntry cfg ssid, 64) x)

-- The level-1 descriptor of a substream in memory.
def Stage1Config.level1 (cfg : Stage1Config) (ssid : Nat) : Nat :=
  if (cfg.cdcfg.l1Desc (ssid >>> cdtabSplit)).l2ptr = 0 then 0
  else cdtabL1Desc (cfg.cdcfg.l1Desc (ssid >>> cdtabSplit)).l2descPhys

-- The tables of a record hold the substreams `s` and no others, and the SMMU can reach them.
structure Stage1Config.Holds (mem : Memory) (cfg : Stage1Config) (s : Nat → Option PgtDescriptor) : Prop where
  table    : cfg.cdcfg.cdtabPtr ≠ 0 → 64 ∣ cfg.cdcfg.cdtab64 ∧ cfg.cdcfg.cdtab64 < 2 ^ 46
  level1   : cfg.cdcfg.cdtabPtr ≠ 0 → cfg.s1fmt ≠ strtabSte0S1fmtLinear → ∀ ssid < 2 ^ (cfg.s1cdmax % 32),
    mem (cdL1Word cfg ssid) = cfg.level1 ssid
  leaves   : ∀ j, (cfg.cdcfg.l1Desc j).l2ptr ≠ 0 → (cfg.cdcfg.l1Desc j).l2desc64 < 2 ^ 40
  mapped   : ∀ ssid pgt, s ssid = some pgt → cfg.HasCd ssid ∧ cdValid mem (cdEntry cfg ssid) = true ∧
    cdFields mem (cdEntry cfg ssid) = pgtFields pgt
  unmapped : ∀ ssid, s ssid = none → cfg.HasCd ssid → cdValid mem (cdEntry cfg ssid) = false

-- Different words of the tables of a record do not overlap.
structure Stage1Config.Separate (cfg : Stage1Config) : Prop where
  cds    : ∀ ssid ssid' x, cfg.HasCd ssid → cfg.HasCd ssid' → Inside (cdEntry cfg ssid, 64) x →
    Inside (cdEntry cfg ssid', 64) x → ssid = ssid'
  level1 : ∀ ssid ssid', cfg.HasCd ssid → cfg.s1fmt ≠ strtabSte0S1fmtLinear → ssid' < 2 ^ (cfg.s1cdmax % 32) →
    ¬Inside (cdEntry cfg ssid, 64) (cdL1Word cfg ssid')

-- A table of the second level that the allocator may answer with: the first level can name it, and no context
-- descriptor in it is valid.
def Blank (mem : Memory) (ptr : Nat) : Prop :=
  alignToSize ptr (2 ^ 16) < 2 ^ 40 ∧ ∀ j < 2 ^ 10, cdValid mem (alignToSize ptr (2 ^ 16) + 64 * j) = false

-- A table of the first level that an entry can name.
def Nameable (size ptr : Nat) : Prop :=
  64 ∣ alignToSize ptr size ∧ alignToSize ptr size < 2 ^ 46

section

variable {mem mem' : Memory} {cfg : Stage1Config} {cd ssid : Nat} {s : Nat → Option PgtDescriptor}

theorem inside_cd {i : Nat} (hi : i < 64) : Inside (cd, 64) (cd + i) :=
  ⟨Nat.le_add_right .., Nat.add_lt_add_left hi cd⟩

theorem cdValid_congr (hm : ∀ x, Inside (cd, 64) x → mem' x = mem x) : cdValid mem' cd = cdValid mem cd := by
  have h₀ : mem' cd = mem cd := hm (cd + 0) (inside_cd (by decide))
  rw [cdValid, cdValid, h₀]

theorem cdFields_congr (hm : ∀ x, Inside (cd, 64) x → mem' x = mem x) : cdFields mem' cd = cdFields mem cd := by
  have h₀ : mem' cd = mem cd := hm (cd + 0) (inside_cd (by decide))
  simp only [cdFields, h₀, hm (cd + 8) (inside_cd (by decide)), hm (cd + 24) (inside_cd (by decide))]

theorem Stage1Config.Holds.congr (h : cfg.Holds mem s) (hm : ∀ x, cfg.Word x → mem' x = mem x) : cfg.Holds mem' s := by
  have entry {ssid : Nat} (hc : cfg.HasCd ssid) (x : Nat) (hx : Inside (cdEntry cfg ssid, 64) x) : mem' x = mem x :=
    hm x ⟨hc.1, .inr ⟨ssid, hc, hx⟩⟩
  refine ⟨h.table, ?_, h.leaves, ?_, ?_⟩
  · intro hp hf ssid hs
    rw [hm _ ⟨hp, .inl ⟨hf, ssid, hs, rfl⟩⟩]
    exact h.level1 hp hf ssid hs
  · intro ssid pgt hs
    have ⟨hc, hv, hp⟩ := h.mapped ssid pgt hs
    exact ⟨hc, (cdValid_congr (entry hc)).trans hv, (cdFields_congr (entry hc)).trans hp⟩
  · intro ssid hs hc
    exact (cdValid_congr (entry hc)).trans (h.unmapped ssid hs hc)

-- A record without a table holds nothing.
theorem Stage1Config.Holds.of_no_table (hp : cfg.cdcfg.cdtabPtr = 0) (hl : ∀ j, (cfg.cdcfg.l1Desc j).l2ptr = 0)
    (hs : ∀ ssid, s ssid = none) : cfg.Holds mem s := by
  refine ⟨fun hc => absurd hp hc, fun hc => absurd hp hc, fun j hj => absurd (hl j) hj, ?_, ?_⟩
  · intro ssid pgt hc
    rw [hs] at hc
    cases hc
  · exact fun _ _ hc => absurd hp hc.1

end

-- The steps of a map with stage 1.

section

variable {pf : Platform} {w w' : World} {ok cd2l : Bool} {ssid ssidBits : Nat} {cfg cfg' : Stage1Config}
variable {s : Nat → Option PgtDescriptor} {pgt : PgtDescriptor} {h₀ : Heap}

theorem writeCtxDesc_mem {cdptr x : Nat} {cd : CtxDesc} (hx : ¬Inside (cdptr, 64) x) :
    (writeCtxDesc cdptr cd w).heap.mem x = w.heap.mem x := by
  have hn (i : Nat) (hi : i < 64) : x ≠ cdptr + i := by
    rintro rfl
    exact hx ⟨Nat.le_add_right .., Nat.add_lt_add_left hi cdptr⟩
  have h₀ : x ≠ cdptr := hn 0 (by decide)
  simp [writeCtxDesc, World.store, Heap.write, Memory.write, h₀, hn 8 (by decide), hn 16 (by decide), hn 24 (by decide)]

-- The descriptor that is written says what the page table descriptor asks for.
theorem writeCtxDesc_fields {cdptr : Nat} (hb : Bits.slice 51 48 pgt.pgtBase = 0) :
    cdValid (writeCtxDesc cdptr (ctxDesc pgt) w).heap.mem cdptr = true ∧
      cdFields (writeCtxDesc cdptr (ctxDesc pgt) w).heap.mem cdptr = pgtFields pgt := by
  have h₀ : (writeCtxDesc cdptr (ctxDesc pgt) w).heap.mem cdptr = ctxDescWord0 (ctxDesc pgt) := by
    simp [writeCtxDesc, World.store, Heap.write, Memory.write]
  have h₈ : (writeCtxDesc cdptr (ctxDesc pgt) w).heap.mem (cdptr + 8) = ctxDescWord1 (ctxDesc pgt) := by
    simp [writeCtxDesc, World.store, Heap.write, Memory.write]
  have h₂₄ : (writeCtxDesc cdptr (ctxDesc pgt) w).heap.mem (cdptr + 24) = pgt.mair := by
    simp [writeCtxDesc, World.store, Heap.write, Memory.write, ctxDesc]
  obtain ⟨f₁, f₂, f₃, f₄, f₅, f₆⟩ := @ctxDescWord0_fields pgt
  refine ⟨?_, ?_⟩
  · rw [cdValid, h₀]
    exact ctxDesc_valid
  · simp only [cdFields, pgtFields, h₀, h₈, h₂₄, f₁, f₂, f₃, f₄, f₅, f₆, ctxDescWord1_ttb0 hb]

theorem writeCtxDesc_holds (h : cfg.Holds w.heap.mem s) (hsep : cfg.Separate) (hc : cfg.HasCd ssid)
    (hb : Bits.slice 51 48 pgt.pgtBase = 0) :
    cfg.Holds (writeCtxDesc (cdEntry cfg ssid) (ctxDesc pgt) w).heap.mem (Function.update s ssid (some pgt)) := by
  have other {ssid' : Nat} (hc' : cfg.HasCd ssid') (hne : ssid' ≠ ssid) (x : Nat)
      (hx : Inside (cdEntry cfg ssid', 64) x) :
      (writeCtxDesc (cdEntry cfg ssid) (ctxDesc pgt) w).heap.mem x = w.heap.mem x :=
    writeCtxDesc_mem fun hx' => hne (hsep.cds _ _ x hc' hc hx hx')
  refine ⟨h.table, ?_, h.leaves, ?_, ?_⟩
  · intro hp hf ssid' hs
    rw [writeCtxDesc_mem (hsep.level1 ssid ssid' hc hf hs)]
    exact h.level1 hp hf ssid' hs
  · intro ssid' pgt' hs
    by_cases he : ssid' = ssid
    case pos =>
      subst he
      rw [Function.update_self, Option.some.injEq] at hs
      subst hs
      exact ⟨hc, writeCtxDesc_fields hb⟩
    case neg =>
      rw [Function.update_of_ne he] at hs
      have ⟨hc', hv, hf⟩ := h.mapped ssid' pgt' hs
      exact ⟨hc', (cdValid_congr (other hc' he)).trans hv, (cdFields_congr (other hc' he)).trans hf⟩
  · intro ssid' hs hc'
    have he : ssid' ≠ ssid := by
      rintro rfl
      rw [Function.update_self] at hs
      cases hs
    rw [Function.update_of_ne he] at hs
    exact (cdValid_congr (other hc' he)).trans (h.unmapped ssid' hs hc')

-- The record with a new table of the second level.
def Stage1Config.addLeaf (cfg : Stage1Config) (ssid ptr leaf : Nat) : Stage1Config :=
  { cfg with cdcfg := cfg.cdcfg.setL1Desc (ssid >>> cdtabSplit) ⟨ptr, leaf, leaf⟩ }

section

variable {ssid' ptr leaf : Nat} {mem : Memory}

theorem addLeaf_same (he : ssid' >>> cdtabSplit = ssid >>> cdtabSplit) :
    (cfg.addLeaf ssid ptr leaf).cdcfg.l1Desc (ssid' >>> cdtabSplit) = ⟨ptr, leaf, leaf⟩ :=
  if_pos he

theorem addLeaf_ne (he : ssid' >>> cdtabSplit ≠ ssid >>> cdtabSplit) :
    (cfg.addLeaf ssid ptr leaf).cdcfg.l1Desc (ssid' >>> cdtabSplit) = cfg.cdcfg.l1Desc (ssid' >>> cdtabSplit) :=
  if_neg he

theorem addLeaf_entry (hf : cfg.s1fmt ≠ strtabSte0S1fmtLinear) (he : ssid' >>> cdtabSplit ≠ ssid >>> cdtabSplit) :
    cdEntry (cfg.addLeaf ssid ptr leaf) ssid' = cdEntry cfg ssid' := by
  have hf' : (cfg.addLeaf ssid ptr leaf).s1fmt ≠ strtabSte0S1fmtLinear := hf
  rw [cdEntry, cdEntry, if_neg hf, if_neg hf', addLeaf_ne he]

theorem addLeaf_new_entry (hf : cfg.s1fmt ≠ strtabSte0S1fmtLinear) (he : ssid' >>> cdtabSplit = ssid >>> cdtabSplit) :
    cdEntry (cfg.addLeaf ssid ptr leaf) ssid' = leaf + 64 * (ssid' % 2 ^ 10) := by
  have hf' : (cfg.addLeaf ssid ptr leaf).s1fmt ≠ strtabSte0S1fmtLinear := hf
  have hm : ssid' &&& (cdtabL2EntryCount - 1) = ssid' % 2 ^ 10 := Nat.and_two_pow_sub_one_eq_mod ssid' 10
  rw [cdEntry, if_neg hf', addLeaf_same he, hm, cdtabCdDwords]
  simp only
  omega

theorem addLeaf_hasCd_iff (he : ssid' >>> cdtabSplit ≠ ssid >>> cdtabSplit) :
    (cfg.addLeaf ssid ptr leaf).HasCd ssid' ↔ cfg.HasCd ssid' := by
  rw [Stage1Config.HasCd, Stage1Config.HasCd, addLeaf_ne he]
  rfl

-- The new table adds no valid descriptor.
theorem Stage1Config.Holds.addLeaf (hh : cfg.Holds mem s) (hf : cfg.s1fmt ≠ strtabSte0S1fmtLinear)
    (hz : (cfg.cdcfg.l1Desc (ssid >>> cdtabSplit)).l2ptr = 0) (hp : ptr ≠ 0) (hs : ssid < 2 ^ (cfg.s1cdmax % 32))
    (hlow : leaf < 2 ^ 40) (hblank : ∀ j < 2 ^ 10, cdValid mem (leaf + 64 * j) = false)
    (hsep : (cfg.addLeaf ssid ptr leaf).Separate) :
    (cfg.addLeaf ssid ptr leaf).Holds (mem.write (cdL1Word cfg ssid) (cdtabL1Desc leaf)) s := by
  have old {ssid' : Nat} (hc : cfg.HasCd ssid') : ssid' >>> cdtabSplit ≠ ssid >>> cdtabSplit := by
    intro he
    exact hc.2.2 hf (he ▸ hz)
  have keep {ssid' : Nat} (hc : (cfg.addLeaf ssid ptr leaf).HasCd ssid') (x : Nat)
      (hx : Inside (cdEntry (cfg.addLeaf ssid ptr leaf) ssid', 64) x) :
      mem.write (cdL1Word cfg ssid) (cdtabL1Desc leaf) x = mem x := by
    refine Memory.write_ne ?_
    rintro rfl
    exact hsep.level1 ssid' ssid hc hf hs hx
  refine ⟨hh.table, ?_, ?_, ?_, ?_⟩
  · intro hptr _ ssid' hs'
    rw [Stage1Config.level1]
    by_cases he : ssid' >>> cdtabSplit = ssid >>> cdtabSplit
    case pos =>
      have hw : cdL1Word (cfg.addLeaf ssid ptr leaf) ssid' = cdL1Word cfg ssid := by
        rw [cdL1Word, cdL1Word, he]
        rfl
      rw [hw, Memory.write_same, addLeaf_same he, if_neg hp]
    case neg =>
      have hw : cdL1Word (cfg.addLeaf ssid ptr leaf) ssid' = cdL1Word cfg ssid' := rfl
      have hne : cdL1Word cfg ssid' ≠ cdL1Word cfg ssid := by
        simp only [cdL1Word, cdtabL1DescDwords]
        omega
      rw [hw, Memory.write_ne hne, addLeaf_ne he]
      exact hh.level1 hptr hf ssid' hs'
  · intro j hj
    by_cases he : j = ssid >>> cdtabSplit
    case pos =>
      have hd : (cfg.addLeaf ssid ptr leaf).cdcfg.l1Desc j = ⟨ptr, leaf, leaf⟩ := if_pos he
      rw [hd]
      exact hlow
    case neg =>
      have hd : (cfg.addLeaf ssid ptr leaf).cdcfg.l1Desc j = cfg.cdcfg.l1Desc j := if_neg he
      rw [hd] at hj ⊢
      exact hh.leaves j hj
  · intro ssid' pgt' hm
    obtain ⟨hc, hv, hfields⟩ := hh.mapped ssid' pgt' hm
    have hne := old hc
    have hc' : (cfg.addLeaf ssid ptr leaf).HasCd ssid' := (addLeaf_hasCd_iff hne).mpr hc
    rw [cdValid_congr (keep hc'), cdFields_congr (keep hc'), addLeaf_entry hf hne]
    exact ⟨hc', hv, hfields⟩
  · intro ssid' hm hc
    rw [cdValid_congr (keep hc)]
    by_cases he : ssid' >>> cdtabSplit = ssid >>> cdtabSplit
    case pos =>
      rw [addLeaf_new_entry hf he]
      exact hblank _ (Nat.mod_lt _ (by decide))
    case neg =>
      rw [addLeaf_entry hf he]
      exact hh.unmapped ssid' hm ((addLeaf_hasCd_iff he).mp hc)

end

-- The place of a context descriptor.
theorem getCtxDesc_holds {r : Option Nat} {cdcfg' : CdtabConfig} (ha : pf.alloc.Sound) (ht : Tidy h₀ w.heap)
    (hh : cfg.Holds w.heap.mem s) (hs : ssid < 2 ^ (cfg.s1cdmax % 32))
    (hleaf : cfg.s1fmt ≠ strtabSte0S1fmtLinear → (cfg.cdcfg.l1Desc (ssid >>> cdtabSplit)).l2ptr = 0 →
      Answers pf.alloc w.heap 1 (2 * 2 ^ 16) (Blank h₀.mem))
    (h : smmuCdtabGetCtxDesc pf cfg.s1fmt ssid cfg.cdcfg w = (r, cdcfg', w'))
    (hsep : r ≠ none → ({ cfg with cdcfg := cdcfg' } : Stage1Config).Separate) :
    ({ cfg with cdcfg := cdcfg' } : Stage1Config).Holds w'.heap.mem s := by
  have hsize : 2 ^ 16 * 2 = 2 * 2 ^ 16 := rfl
  have halign : cdtabL2EntryCount * (cdtabCdDwords <<< 3) = 2 ^ 16 := rfl
  simp only [smmuCdtabGetCtxDesc] at h
  split at h
  case isTrue => cases h; exact hh
  case isFalse hf =>
    split at h
    case isTrue => cases h; exact hh
    case isFalse =>
      split at h
      case isTrue => cases h; exact hh
      case isFalse hz =>
        have hz := not_not.mp hz
        simp only [smmuCdtabAllocLeafTable, halign, hsize] at h
        split at h
        case h_1 he =>
          cases h
          split at he <;> cases he
          exact hh
        case h_2 desc w₁ he =>
          cases h
          split at he
          case isTrue => cases he
          case isFalse hp =>
            cases he
            have hfit := World.alloc_fits (w := w) ha (show 2 * 2 ^ 16 < 2 ^ 32 by decide)
            obtain ⟨hlow, hblank⟩ := (hleaf hf hz).alloc (by decide) hp
            refine hh.addLeaf hf hz hp hs hlow (fun j hj => ?_) (hsep (Option.some_ne_none _))
            rw [← hblank j hj, cdValid, cdValid]
            congr 1
            refine ht.new_mem ha hp (aligned_inside hfit ⟨Nat.le_add_right .., ?_⟩)
            simp only
            omega

theorem cdtabWrite_holds (ha : pf.alloc.Sound) (ht : Tidy h₀ w.heap) (hh : cfg.Holds w.heap.mem s)
    (hp : cfg.cdcfg.cdtabPtr ≠ 0) (hs : ssid < 2 ^ 31) (hk : cfg.s1cdmax % 32 ≤ 30) (hcd : cfg.cd = ctxDesc pgt)
    (hb : Bits.slice 51 48 pgt.pgtBase = 0)
    (hleaf : cfg.s1fmt ≠ strtabSte0S1fmtLinear → (cfg.cdcfg.l1Desc (ssid >>> cdtabSplit)).l2ptr = 0 →
      Answers pf.alloc w.heap 1 (2 * 2 ^ 16) (Blank h₀.mem))
    (h : smmuCdtabWriteCtxDesc pf ssid cfg w = (ok, cfg', w')) (hsep : ok = true → cfg'.Separate) :
    cfg'.Holds w'.heap.mem (if ok then Function.update s ssid (some pgt) else s) := by
  have hok := h
  simp only [smmuCdtabWriteCtxDesc] at h
  split at h
  case isTrue => cases h; exact hh
  case isFalse hlt =>
    rw [shl1_toInt hk, toInt, if_pos hs] at hlt
    have hlt : ssid < 2 ^ (cfg.s1cdmax % 32) := by omega
    split at h
    case h_1 hg =>
      cases h
      exact getCtxDesc_holds ha ht hh hlt hleaf hg fun hc => absurd rfl hc
    case h_2 hg =>
      cases h
      have hget := getCtxDesc_holds ha ht hh hlt hleaf hg fun _ => hsep rfl
      have hentry := (getCtxDesc_frame ha hg).2 _ rfl
      have hwrite := writeCtxDesc_holds hget (hsep rfl) (cdtabWrite_hasCd hs hk hp hok) hb
      rw [← hentry, ← hcd] at hwrite
      rw [if_pos rfl]
      exact hwrite

-- A new table of the first level is empty.
theorem cdtabAllocTable_holds {k : Nat} (hk : 2 * 2 ^ k < 2 ^ 32)
    (hl : ∀ j, (cfg.cdcfg.l1Desc j).l2ptr = 0)
    (hans : Answers pf.alloc w.heap 1 (2 * 2 ^ k) (Nameable (2 ^ k)))
    (hroom : ∀ ssid < 2 ^ (cfg.s1cdmax % 32),
      if cfg.s1fmt = strtabSte0S1fmtLinear then ssid * cdtabCdDwords % 2 ^ 32 * 8 < 2 ^ k
      else (ssid >>> cdtabSplit) * cdtabL1DescDwords * 8 < 2 ^ k)
    (h : cdtabAllocTable pf (2 ^ k) cfg w = (ok, cfg', w')) : cfg'.Holds w'.heap.mem (fun _ => none) := by
  simp only [cdtabAllocTable, Nat.mul_comm (2 ^ k) 2] at h
  split at h
  case isTrue =>
    cases h
    exact .of_no_table rfl hl fun _ => rfl
  case isFalse hp =>
    cases h
    have hsize : 2 * 2 ^ k % 2 ^ 32 = 2 * 2 ^ k := Nat.mod_eq_of_lt hk
    have hname : Nameable (2 ^ k) (w.valMemoryAlloc pf (2 * 2 ^ k)).1 := by
      have hp' : (w.heap.alloc pf.alloc (2 * 2 ^ k)).1 ≠ 0 := by
        rw [← hsize]
        exact hp
      have hn := hans.alloc (by decide) hp'
      rw [← hsize] at hn
      exact hn
    generalize hptr : (w.valMemoryAlloc pf (2 * 2 ^ k)).1 = ptr at hp hname
    have hzero {i : Nat} (hi : i < 2 ^ k) :
        ((w.valMemoryAlloc pf (2 * 2 ^ k)).2.valMemorySet (alignToSize ptr (2 ^ k)) (2 ^ k) 0).heap.mem
          (alignToSize ptr (2 ^ k) + i) = 0 := by
      refine Memory.set_mem (Nat.le_add_right ..) ?_
      rw [Nat.mod_eq_of_lt (by omega)]
      omega
    refine ⟨fun _ => hname, ?_, fun j hj => absurd (hl j) hj, fun _ _ hc => absurd hc.symm (Option.some_ne_none _), ?_⟩
    · intro _ hf ssid hs
      have hr := hroom ssid hs
      rw [if_neg hf] at hr
      have hlevel : Stage1Config.level1 { cfg with cdcfg := { cfg.cdcfg with
          cdtabPtr := ptr, cdtabPhys := alignToSize ptr (2 ^ k), cdtab64 := alignToSize ptr (2 ^ k) } } ssid = 0 :=
        if_pos (hl _)
      rw [hlevel]
      exact hzero hr
    · intro ssid _ hc
      by_cases hf : cfg.s1fmt = strtabSte0S1fmtLinear
      case neg => exact absurd (hl _) (hc.2.2 hf)
      case pos =>
        have hr := hroom ssid hc.2.1
        rw [if_pos hf] at hr
        have hentry : cdEntry { cfg with cdcfg := { cfg.cdcfg with
            cdtabPtr := ptr, cdtabPhys := alignToSize ptr (2 ^ k), cdtab64 := alignToSize ptr (2 ^ k) } } ssid =
              alignToSize ptr (2 ^ k) + ssid * cdtabCdDwords % 2 ^ 32 * 8 := if_pos hf
        rw [cdValid, hentry, hzero hr]
        exact Nat.zero_testBit 31

-- The first level has room for what is read of it.
theorem cdtabLog_room (hc : CdFits cd2l cfg.s1cdmax) {ssid : Nat} (hs : ssid < 2 ^ (cfg.s1cdmax % 32)) :
    if twoLevel cd2l cfg.s1cdmax then (ssid >>> cdtabSplit) * cdtabL1DescDwords * 8 < 2 ^ cdtabLog cd2l cfg.s1cdmax
    else ssid * cdtabCdDwords % 2 ^ 32 * 8 < 2 ^ cdtabLog cd2l cfg.s1cdmax := by
  have hlog := (cdtabSize_eq hc).2
  rw [cdtabLog] at hlog ⊢
  split
  case isTrue ht =>
    obtain ⟨_, h₁₀⟩ := (twoLevel_iff hc).mp ht
    have h₁ : 2 ^ (cfg.s1cdmax % 32) = 2 ^ (cfg.s1cdmax % 32 - 10) * 2 ^ 10 := by
      rw [← Nat.pow_add, Nat.sub_add_cancel (by omega)]
    have h₂ : 2 ^ (cfg.s1cdmax % 32 - 7) = 2 ^ (cfg.s1cdmax % 32 - 10) * 2 ^ 3 := by
      rw [← Nat.pow_add]
      congr 1
      omega
    rw [h₂, Nat.shiftRight_eq_div_pow, cdtabSplit, cdtabL1DescDwords]
    omega
  case isFalse ht =>
    rw [if_neg ht, Nat.pow_add] at hlog
    rw [Nat.pow_add, cdtabCdDwords, Nat.mod_eq_of_lt (by omega)]
    omega

theorem cdtabAlloc_holds (ha : pf.alloc.Sound) (hc : CdFits cd2l cfg.s1cdmax)
    (hz : cfg.cdcfg.cdtabPtr = 0) (hl : ∀ j, (cfg.cdcfg.l1Desc j).l2ptr = 0)
    (hans : Answers pf.alloc w.heap 2 (2 * 2 ^ cdtabLog cd2l cfg.s1cdmax) (Nameable (2 ^ cdtabLog cd2l cfg.s1cdmax)))
    (h : smmuCdtabAlloc pf cd2l cfg w = (ok, cfg', w')) : cfg'.Holds w'.heap.mem (fun _ => none) := by
  have ⟨he, hk⟩ := cdtabSize_eq hc
  have hroom := @cdtabLog_room cd2l cfg hc
  simp only [smmuCdtabAlloc] at h
  rw [cdtabSize] at he
  split at h
  case isTrue ht =>
    rw [if_pos ht] at he
    split at h
    case isTrue =>
      cases h
      exact .of_no_table hz hl fun _ => rfl
    case isFalse =>
      rw [he] at h
      have hlive := (World.alloc_frame (S := fun _ => False) (w := w) ha (numL1Ents cfg.s1cdmax * sizeofCdtabL1CtxDesc)).live
      refine cdtabAllocTable_holds hk ?_ ?_ ?_ h
      · exact fun _ => rfl
      · exact hans.later hlive (Nat.le_succ _) (Nat.le_refl _)
      · intro ssid hs
        have hr := hroom hs
        rw [if_pos ht] at hr
        have hf : strtabSte0S1fmt64kL2 ≠ strtabSte0S1fmtLinear := by decide
        simp only [if_neg hf]
        exact hr
  case isFalse ht =>
    rw [if_neg ht] at he
    rw [he] at h
    refine cdtabAllocTable_holds hk ?_ ?_ ?_ h
    · exact hl
    · exact hans.later (fun _ hb => hb) (Nat.le_refl _) (Nat.le_succ _)
    · intro ssid hs
      have hr := hroom hs
      rw [if_neg ht] at hr
      simp only [if_true]
      exact hr

-- What comes before a table of the second level changes no word outside the blocks in use.
theorem cdtabAlloc_tidy (ha : pf.alloc.Sound) (hc : CdFits cd2l cfg.s1cdmax)
    (h : smmuCdtabAlloc pf cd2l cfg w = (ok, cfg', w')) :
    Tidy w.heap w'.heap ∧ w.heap.requests.length ≤ w'.heap.requests.length ∧
      w'.heap.requests.length ≤ w.heap.requests.length + 2 := by
  obtain ⟨he, hk⟩ := cdtabSize_eq hc
  have table {k : Nat} {cfg : Stage1Config} {w : World} (hk : 2 * 2 ^ k < 2 ^ 32)
      (h : cdtabAllocTable pf (2 ^ k) cfg w = (ok, cfg', w')) :
      Tidy w.heap w'.heap ∧ w'.heap.requests.length = w.heap.requests.length + 1 := by
    have hf : Frame (fun _ => False) w.heap w'.heap := cdtabAllocTable_frame ha hk h
    simp only [cdtabAllocTable, Nat.mul_comm (2 ^ k) 2] at h
    split at h
    case isTrue =>
      cases h
      exact ⟨.of_frame hf fun _ => .inl rfl, rfl⟩
    case isFalse hp =>
      cases h
      refine ⟨.of_frame hf fun x => ?_, rfl⟩
      have hnew := (World.alloc_new ha hp).1
      have hfit := World.alloc_fits (w := w) ha hk
      rw [Nat.mod_eq_of_lt hk] at hnew
      by_cases hx : Inside (alignToSize (w.valMemoryAlloc pf (2 * 2 ^ k)).1 (2 ^ k), 2 ^ k) x
      case pos => exact .inr ⟨_, hnew, aligned_inside hfit hx⟩
      case neg =>
        refine .inl (Memory.set_not_mem ?_)
        rw [Nat.mod_eq_of_lt (by omega)]
        exact hx
  simp only [smmuCdtabAlloc] at h
  rw [cdtabSize] at he
  split at h
  case isTrue ht =>
    rw [if_pos ht] at he
    have hf := World.alloc_frame (S := fun _ => False) (w := w) ha (numL1Ents cfg.s1cdmax * sizeofCdtabL1CtxDesc)
    have hfirst : Tidy w.heap (w.valMemoryAlloc pf (numL1Ents cfg.s1cdmax * sizeofCdtabL1CtxDesc)).2.heap :=
      .of_frame hf fun _ => .inl rfl
    split at h
    case isTrue =>
      cases h
      exact ⟨hfirst, Nat.le_succ _, Nat.le_succ _⟩
    case isFalse =>
      rw [he] at h
      obtain ⟨h₁, h₂⟩ := table hk h
      rw [h₂]
      exact ⟨hfirst.trans h₁, Nat.le_add_right _ 2, Nat.le_refl _⟩
  case isFalse ht =>
    rw [if_neg ht] at he
    rw [he] at h
    obtain ⟨h₁, h₂⟩ := table hk h
    rw [h₂]
    exact ⟨h₁, Nat.le_succ _, Nat.le_succ _⟩

-- The tables of a stream before and after the stage 1 part of `val_smmu_map`.
theorem mapStage1_holds (ha : pf.alloc.Sound) (ht : Tidy h₀ w.heap) (hp : cfg.Placed cd2l w.heap.live)
    (hc : CdFits cd2l (ssidBits % 2 ^ 8)) (hbits : cfg.cdcfg.cdtabPtr ≠ 0 → cfg.s1cdmax = ssidBits % 2 ^ 8)
    (hz : cfg.cdcfg.cdtabPtr = 0 → ∀ j, (cfg.cdcfg.l1Desc j).l2ptr = 0) (hh : cfg.Holds w.heap.mem s)
    (hs : ssid < 2 ^ 31) (hb : Bits.slice 51 48 pgt.pgtBase = 0)
    (htable : cfg.cdcfg.cdtabPtr = 0 →
      Answers pf.alloc w.heap 2 (2 * 2 ^ cdtabLog cd2l (ssidBits % 2 ^ 8)) (Nameable (2 ^ cdtabLog cd2l (ssidBits % 2 ^ 8))))
    (hleaf : twoLevel cd2l (ssidBits % 2 ^ 8) = true → (cfg.cdcfg.l1Desc (ssid >>> cdtabSplit)).l2ptr = 0 →
      Answers pf.alloc w.heap 3 (2 * 2 ^ 16) (Blank h₀.mem))
    (h : mapStage1 pf cd2l ssid ssidBits pgt cfg w = (ok, cfg', w')) (hsep : ok = true → cfg'.Separate) :
    cfg'.Holds w'.heap.mem (if ok then Function.update s ssid (some pgt) else s) := by
  have format {cfg : Stage1Config} {live : List (Nat × Nat)} (hp : cfg.Placed cd2l live) (hn : cfg.cdcfg.cdtabPtr ≠ 0)
      (hbits : cfg.s1cdmax = ssidBits % 2 ^ 8) (hf : cfg.s1fmt ≠ strtabSte0S1fmtLinear) :
      twoLevel cd2l (ssidBits % 2 ^ 8) = true := by
    rw [← hbits]
    exact Bool.eq_true_of_not_eq_false fun hc => hf ((linear_iff hp hn).mpr hc)
  simp only [mapStage1] at h
  by_cases hn : cfg.cdcfg.cdtabPtr = 0
  case neg =>
    have hb' := hbits hn
    rw [if_neg hn, ← hb'] at h
    have hh₁ : ({ cfg with cd := ctxDesc pgt } : Stage1Config).Holds w.heap.mem s :=
      ⟨hh.table, hh.level1, hh.leaves, hh.mapped, hh.unmapped⟩
    refine cdtabWrite_holds ha ht hh₁ hn hs ?_ rfl hb (fun hf hl => ?_) h hsep
    · exact hb' ▸ hc.le
    · exact (hleaf (format hp hn hb' hf) hl).later (fun _ hb => hb) (Nat.le_refl _) (by omega)
  case pos =>
    have hnone : s = fun _ => none := by
      funext ssid
      cases hm : s ssid
      case none       => rfl
      case some pgt'  => exact absurd hn (hh.mapped ssid pgt' hm).1.1
    rw [if_pos hn] at h
    rcases hal : smmuCdtabAlloc pf cd2l { cfg with s1cdmax := ssidBits % 2 ^ 8 } w with ⟨ok₁, cfg₁, w₁⟩
    rw [hal] at h
    have hp₀ : ({ cfg with s1cdmax := ssidBits % 2 ^ 8 } : Stage1Config).Placed cd2l w.heap.live :=
      ⟨fun hc => absurd hn hc, hp.leaf⟩
    have hh₁ : cfg₁.Holds w₁.heap.mem fun _ => none := by
      refine cdtabAlloc_holds ha ?_ ?_ ?_ ?_ hal
      · exact hc
      · exact hn
      · exact hz hn
      · exact htable hn
    have hcfg : CdFits cd2l ({ cfg with s1cdmax := ssidBits % 2 ^ 8 } : Stage1Config).s1cdmax := hc
    obtain ⟨ht₁, hr, hr'⟩ := cdtabAlloc_tidy ha hcfg hal
    rw [hnone]
    cases ok₁
    case false =>
      cases h
      exact hh₁
    case true =>
      obtain ⟨hn₁, hb₁⟩ := cdtabAlloc_ptr hal
      have hp₁ : cfg₁.Placed cd2l w₁.heap.live := by
        refine cdtabAlloc_placed ha hp₀ ?_ ?_ hal
        · exact hc
        · exact hn
      have hh₂ : ({ cfg₁ with cd := ctxDesc pgt } : Stage1Config).Holds w₁.heap.mem fun _ => none :=
        ⟨hh₁.table, hh₁.level1, hh₁.leaves, hh₁.mapped, hh₁.unmapped⟩
      refine cdtabWrite_holds ha (ht.trans ht₁) hh₂ hn₁ hs ?_ rfl hb (fun hf _ => ?_) h hsep
      · exact hb₁ ▸ hc.le
      · exact (hleaf (format hp₁ hn₁ hb₁ hf) (hz hn _)).later ht₁.live hr (by omega)

end

end Smmu
