import BsaAcs.Smmu.Theorems.Blocks
import BsaAcs.Smmu.Theorems.Step

namespace Smmu

namespace SmmuDev

def l2ptrs (smmu : SmmuDev) : List Nat :=
  (List.range smmu.strtabCfg.l1EntCount).map fun i => (smmu.strtabCfg.l1Desc i).l2ptr

-- The blocks of the stream table.
def tables (smmu : SmmuDev) : List Nat :=
  if smmu.supported.stLevel2lvl then smmu.l2ptrs ++ [smmu.strtabCfg.l1Ptr, smmu.strtabCfg.strtabPtr]
  else [smmu.strtabCfg.strtabPtr]

-- The blocks that the record of an SMMU points to. If the initialisation has failed, then there may
-- be a queue.
def owned (smmu : SmmuDev) : List Nat :=
  if smmu.base = 0 then [smmu.cmdq.basePtr] else smmu.cmdq.basePtr :: smmu.tables

-- The queue of an SMMU that `val_smmu_stop` does not get to see.
def unstopped (smmu : SmmuDev) : List Nat :=
  if smmu.base = 0 then [smmu.cmdq.basePtr] else []

-- An SMMU that was set up.
structure Ready (smmu : SmmuDev) : Prop where
  strtab : smmu.strtabCfg.strtabPtr ≠ 0
  l1     : smmu.supported.stLevel2lvl = true → smmu.strtabCfg.l1Ptr ≠ 0
  count  : smmu.supported.stLevel2lvl = true →
    8 < smmu.sidBits ∧ smmu.strtabCfg.l1EntCount = shl1 (smmu.sidBits - strtabSplit)

end SmmuDev

section

variable {pf : Platform} {w w' : World} {smmu smmu' : SmmuDev} {ok : Bool} {roots : List Nat}

theorem cmdQueueInit_owns (hf : pf.alloc.Fresh) (ho : w.Owns roots)
    (h : smmuCmdQueueInit pf smmu w = (ok, smmu', w')) :
    w'.Owns (smmu'.cmdq.basePtr :: roots) ∧ smmu'.supported = smmu.supported ∧ smmu'.sidBits = smmu.sidBits := by
  simp only [smmuCmdQueueInit] at h
  have ha := ho.alloc hf (2 * cmdqSize smmu % 2 ^ 64)
  split at h
  case isTrue hz =>
    cases h
    rw [hz] at ha
    exact ⟨ha, rfl, rfl⟩
  case isFalse =>
    cases h
    exact ⟨ha.same World.memorySet_same, rfl, rfl⟩

-- The table of an SMMU that was set up, or nothing.
def strtabResult (ok : Bool) (smmu : SmmuDev) : List Nat :=
  if ok then smmu.tables else []

theorem strtabInitLinear_owns (hf : pf.alloc.Fresh) (ho : w.Owns roots) (hl : smmu.supported.stLevel2lvl = false)
    (h : smmuStrtabInitLinear pf smmu w = (ok, smmu', w')) :
    w'.Owns (strtabResult ok smmu' ++ roots) ∧ smmu'.cmdq = smmu.cmdq ∧ (ok = true → smmu'.Ready) := by
  simp only [smmuStrtabInitLinear] at h
  have ha := ho.alloc hf (2 * linearSize smmu % 2 ^ 32)
  split at h
  case isTrue hz =>
    cases h
    rw [hz] at ha
    exact ⟨Heap.Owns.zero_cons_iff.mp ha, rfl, by simp⟩
  case isFalse hz =>
    cases h
    have ht {cfg : StrtabConfig} : (smmu.setStrtab cfg).tables = [cfg.strtabPtr] := by
      simp [SmmuDev.tables, SmmuDev.setStrtab, hl]
    refine ⟨?_, rfl, fun _ => ⟨hz, ?_, ?_⟩⟩
    · rw [strtabResult, if_pos rfl, ht]
      exact (ha.same World.memorySet_same).same abortStes_same
    · simp [SmmuDev.setStrtab, hl]
    · simp [SmmuDev.setStrtab, hl]

theorem strtabInitLevel1_owns (hf : pf.alloc.Fresh) (ho : w.Owns roots)
    (h : smmuStrtabInitLevel1 pf smmu w = (ok, smmu', w')) :
    w'.Owns (smmu'.strtabCfg.l1Ptr :: roots) ∧ smmu'.cmdq = smmu.cmdq ∧ smmu'.supported = smmu.supported ∧
      smmu'.sidBits = smmu.sidBits ∧ smmu'.strtabCfg.strtabPtr = smmu.strtabCfg.strtabPtr ∧
      smmu'.strtabCfg.l1EntCount = smmu.strtabCfg.l1EntCount ∧
      (if ok then smmu'.strtabCfg.l1Ptr ≠ 0 ∧ ∀ i, smmu'.strtabCfg.l1Desc i = .zero
        else smmu'.strtabCfg.l1Ptr = 0) := by
  simp only [smmuStrtabInitLevel1] at h
  have ha := ho.alloc hf (sizeofStrtabL1Desc * smmu.strtabCfg.l1EntCount)
  split at h
  case isTrue hz =>
    cases h
    rw [hz] at ha
    exact ⟨ha, rfl, rfl, rfl, rfl, rfl, rfl⟩
  case isFalse hz =>
    cases h
    exact ⟨ha.same emptyL1_same, rfl, rfl, rfl, rfl, rfl, hz, fun _ => rfl⟩

-- Descriptors that point nowhere own nothing.
theorem filter_l2ptrs_zero (hz : ∀ i, smmu.strtabCfg.l1Desc i = .zero) : smmu.l2ptrs.filter (· ≠ 0) = [] := by
  refine Heap.filter_map_zero fun i _ => ?_
  rw [hz i]
  rfl

theorem strtabInit2level_owns (hf : pf.alloc.Fresh) (ho : w.Owns roots) (hl : smmu.supported.stLevel2lvl = true)
    (h₈ : 8 < smmu.sidBits) (h : smmuStrtabInit2level pf smmu w = (ok, smmu', w')) :
    w'.Owns (strtabResult ok smmu' ++ roots) ∧ smmu'.cmdq = smmu.cmdq ∧ (ok = true → smmu'.Ready) := by
  simp only [smmuStrtabInit2level] at h
  have ha := ho.alloc hf (2 * l1TblSize smmu % 2 ^ 32)
  split at h
  case isTrue hz =>
    cases h
    rw [hz] at ha
    exact ⟨Heap.Owns.zero_cons_iff.mp ha, rfl, by simp⟩
  case isFalse hz =>
    split at h
    case h_1 he =>
      cases h
      obtain ⟨ho₁, hc, _, _, hp, _, h₀⟩ := strtabInitLevel1_owns hf ha he
      rw [if_neg Bool.false_ne_true] at h₀
      rw [h₀] at ho₁
      exact ⟨(Heap.Owns.zero_cons_iff.mp ho₁).free, hc, by simp⟩
    case h_2 he =>
      cases h
      obtain ⟨ho₁, hc, hs, hb, hp, hn, h₀⟩ := strtabInitLevel1_owns hf ha he
      rw [if_pos rfl] at h₀
      refine ⟨?_, hc, fun _ => ⟨?_, fun _ => h₀.1, fun _ => ⟨?_, ?_⟩⟩⟩
      · refine ho₁.of_filter_eq ?_
        rw [strtabResult, if_pos rfl, SmmuDev.tables, if_pos (by rw [hs]; exact hl), List.append_assoc,
          List.filter_append, filter_l2ptrs_zero h₀.2, hp]
        rfl
      · rw [hp]
        exact hz
      · rw [hb]
        exact h₈
      · rw [hn, hb]
        rfl

theorem strtabInit_owns (hf : pf.alloc.Fresh) (ho : w.Owns roots)
    (h₈ : smmu.supported.stLevel2lvl = true → 8 < smmu.sidBits) (h : smmuStrtabInit pf smmu w = (ok, smmu', w')) :
    w'.Owns (strtabResult ok smmu' ++ roots) ∧ smmu'.cmdq = smmu.cmdq ∧ (ok = true → smmu'.Ready) := by
  have hi {ok : Bool} {smmu' : SmmuDev} {w' : World}
      (h : (if smmu.supported.stLevel2lvl then smmuStrtabInit2level pf smmu w else smmuStrtabInitLinear pf smmu w) =
        (ok, smmu', w')) :
      w'.Owns (strtabResult ok smmu' ++ roots) ∧ smmu'.cmdq = smmu.cmdq ∧ (ok = true → smmu'.Ready) := by
    split at h
    case isTrue hl  => exact strtabInit2level_owns hf ho hl (h₈ hl) h
    case isFalse hl => exact strtabInitLinear_owns hf ho (Bool.eq_false_of_not_eq_true hl) h
  simp only [smmuStrtabInit] at h
  split at h <;> cases h
  case h_1 he => exact hi he
  case h_2 he =>
    obtain ⟨h₁, h₂, h₃⟩ := hi he
    exact ⟨h₁, h₂, fun _ => ⟨(h₃ rfl).strtab, (h₃ rfl).l1, (h₃ rfl).count⟩⟩

-- What the setup of an SMMU leaves on the heap: everything, or only the queue.
theorem setup_owns (hf : pf.alloc.Fresh) (ho : w.Owns roots) (hz : smmu.cmdq.basePtr = 0)
    (h : smmuSetup pf smmu w = (ok, smmu', w')) :
    w'.Owns (smmu'.cmdq.basePtr :: strtabResult ok smmu' ++ roots) ∧ (ok = true → smmu'.Ready) := by
  simp only [smmuSetup] at h
  split at h
  case h_1 hp =>
    cases h
    refine ⟨?_, by simp⟩
    rw [(probe_probed hp).basePtr, hz]
    exact Heap.Owns.zero_cons_iff.mpr (ho.same (probe_same hp))
  case h_2 hp =>
    split at h
    case h_1 hq =>
      cases h
      exact ⟨(cmdQueueInit_owns hf (ho.same (probe_same hp)) hq).1, by simp⟩
    case h_2 hq =>
      obtain ⟨h₁, hs, hb⟩ := cmdQueueInit_owns hf (ho.same (probe_same hp)) hq
      obtain ⟨h₂, hc, hr⟩ := strtabInit_owns hf h₁ (fun hl => hb ▸ probe_twoLevel hp (hs ▸ hl)) h
      refine ⟨?_, hr⟩
      rw [hc]
      exact h₂.of_perm List.perm_middle

-- What `smmu_init` leaves on the heap.
theorem init_owns {fuel status : Nat} (hf : pf.alloc.Fresh) (ho : w.Owns roots) (hz : smmu.cmdq.basePtr = 0)
    (h : smmuInit pf smmu fuel w = some (status, smmu', w')) :
    if status = 0 then w'.Owns (smmu'.cmdq.basePtr :: smmu'.tables ++ roots) ∧ smmu'.Ready ∧ smmu'.base ≠ 0
    else w'.Owns (smmu'.cmdq.basePtr :: roots) := by
  have he : acsStatusErr ≠ 0 := by decide
  simp only [smmuInit] at h
  split at h
  case isTrue =>
    cases h
    rw [if_neg he, hz]
    exact Heap.Owns.zero_cons_iff.mpr ho
  case isFalse hb =>
    split at h
    case h_1 hs =>
      cases h
      rw [if_neg he]
      exact (setup_owns hf ho hz hs).1
    case h_2 hs =>
      split at h
      case h_1 => cases h
      case h_2 hr =>
        cases h
        obtain ⟨h₁, h₂⟩ := setup_owns hf ho hz hs
        rw [(reset_cases hr).1]
        simp only [if_neg Nat.one_ne_zero, if_true]
        refine ⟨h₁.same (reset_same hr), h₂ rfl, ?_⟩
        rw [(setup_prepares hs).base_eq]
        exact hb

-- What stopping an SMMU frees.

theorem foldl_free_if {ps : List Nat} {w : World} :
    ps.foldl (fun w p => if p ≠ 0 then w.valMemoryFree p else w) w = ps.foldl (fun w p => w.valMemoryFree p) w := by
  induction ps generalizing w
  case nil => rfl
  case cons p ps hi =>
    rw [List.foldl_cons, List.foldl_cons]
    split
    case isTrue => exact hi
    case isFalse hz =>
      rw [not_not.mp hz]
      exact hi

theorem free_faults {ps : List Nat} {w : World} : (ps.foldl (fun w p => w.valMemoryFree p) w).faults = w.faults := by
  induction ps generalizing w
  case nil          => rfl
  case cons p ps hi => exact hi

theorem freeL2_eq : freeL2 smmu w = smmu.l2ptrs.foldl (fun w p => w.valMemoryFree p) w := by
  rw [← foldl_free_if, SmmuDev.l2ptrs, List.foldl_map]
  rfl

theorem freeStrtab_owns (ho : w.Owns (smmu.tables ++ roots)) (hr : smmu.Ready) : (smmuFreeStrtab smmu w).Owns roots := by
  rw [smmuFreeStrtab, if_neg hr.strtab]
  rw [SmmuDev.tables] at ho
  split at ho
  case isTrue hl =>
    simp only
    rw [if_pos ⟨hl, hr.l1 hl⟩, freeL2_eq]
    rw [List.append_assoc] at ho
    exact ho.freeAll.free.free
  case isFalse hl =>
    simp only
    rw [if_neg (fun hc => hl hc.1)]
    exact ho.free

theorem stopSmmu_owns (hr : smmu.base ≠ 0 → smmu.Ready) (ho : w.Owns (smmu.owned ++ roots)) :
    (stopSmmu pf smmu w).Owns (smmu.unstopped ++ roots) := by
  simp only [stopSmmu, SmmuDev.unstopped]
  rw [SmmuDev.owned] at ho
  split at ho
  case isTrue hz =>
    rw [if_pos hz, if_pos hz]
    exact ho
  case isFalse hz =>
    rw [if_neg hz, if_neg hz]
    have h₁ : (smmuDevDisable pf smmu w).2.Owns (smmu.cmdq.basePtr :: smmu.tables ++ roots) := ho.same regWriteSync_same
    split
    case isTrue => exact freeStrtab_owns h₁.free (hr hz)
    case isFalse hp =>
      rw [not_not.mp hp] at h₁
      exact freeStrtab_owns (Heap.Owns.zero_cons_iff.mp h₁) (hr hz)

-- A new table of the second level.
theorem tables_setL1Desc_perm {i a p b c : Nat} (hl : smmu.supported.stLevel2lvl = true)
    (hi : i < smmu.strtabCfg.l1EntCount) (hz : (smmu.strtabCfg.l1Desc i).l2ptr = 0) :
    ((p :: (smmu.tables ++ roots)).filter (· ≠ 0)).Perm
      (((smmu.setL1Desc i ⟨a, p, b, c⟩).tables ++ roots).filter (· ≠ 0)) := by
  have ht : (smmu.setL1Desc i ⟨a, p, b, c⟩).l2ptrs =
      (List.range smmu.strtabCfg.l1EntCount).map fun j => if j = i then p else (smmu.strtabCfg.l1Desc j).l2ptr := by
    refine List.map_congr_left fun j _ => ?_
    simp only [SmmuDev.setL1Desc, SmmuDev.setStrtab]
    split <;> rfl
  have hp := Heap.map_range_update_perm (f := fun j => (smmu.strtabCfg.l1Desc j).l2ptr) (p := p) hi hz
  have h₁ : smmu.tables = smmu.l2ptrs ++ [smmu.strtabCfg.l1Ptr, smmu.strtabCfg.strtabPtr] := by
    rw [SmmuDev.tables, if_pos hl]
  have h₂ : (smmu.setL1Desc i ⟨a, p, b, c⟩).tables =
      (smmu.setL1Desc i ⟨a, p, b, c⟩).l2ptrs ++ [smmu.strtabCfg.l1Ptr, smmu.strtabCfg.strtabPtr] := by
    rw [SmmuDev.tables]
    exact if_pos hl
  rw [h₁, h₂, ht, List.append_assoc, List.append_assoc, ← List.cons_append]
  simp only [List.filter_append]
  exact hp.symm.append_right _

theorem level2Table_same {a size v ste n b x : Nat} :
    w.SameBlocks ((abortStes ste n (w.valMemorySet a size v)).store b x) :=
  (World.memorySet_same.trans abortStes_same).trans World.store_same

-- What `smmu_strtab_init_level2` does to an SMMU that is set up.
theorem initLevel2_owns {sid : Nat} (hf : pf.alloc.Fresh) (hl : smmu.supported.stLevel2lvl = true)
    (hi : sid >>> strtabSplit < smmu.strtabCfg.l1EntCount) (ho : w.Owns (smmu.tables ++ roots))
    (h : smmuStrtabInitLevel2 pf smmu sid w = (ok, smmu', w')) :
    w'.Owns (smmu'.tables ++ roots) ∧ w'.faults = w.faults := by
  simp only [smmuStrtabInitLevel2] at h
  split at h
  case isTrue =>
    cases h
    exact ⟨ho, rfl⟩
  case isFalse hn =>
    have ha := ho.alloc hf ((1 <<< strtabSplit) * strtabSteDwords * bytesPerDword * 2)
    have hw {a b c : Nat} : (w.valMemoryAlloc pf ((1 <<< strtabSplit) * strtabSteDwords * bytesPerDword * 2)).2.Owns
        ((smmu.setL1Desc (sid >>> strtabSplit) ⟨a, (w.valMemoryAlloc pf
          ((1 <<< strtabSplit) * strtabSteDwords * bytesPerDword * 2)).1, b, c⟩).tables ++ roots) :=
      ⟨ha.perm.trans (tables_setL1Desc_perm hl hi (not_not.mp hn)), ha.nodup, ha.tame⟩
    split at h
    case isTrue hp =>
      cases h
      exact ⟨hw, rfl⟩
    case isFalse hp =>
      simp only [Prod.mk.injEq] at h
      have ⟨_, hs, hm⟩ := h
      have hb := level2Table_same.trans_eq hm
      rw [← hs]
      exact ⟨hw.same hb, hb.faults⟩

end

-- The array of SMMUs.

namespace Driver

variable {d : Driver} {i : Nat} {smmu : SmmuDev}

def smmuBlocks (d : Driver) : List Nat :=
  (List.range d.numSmmus).flatMap fun i => (d.smmus i).owned

def otherSmmus (d : Driver) (i : Nat) : List Nat :=
  ((List.range d.numSmmus).erase i).flatMap fun i => (d.smmus i).owned

theorem smmuBlocks_perm (hi : i < d.numSmmus) : d.smmuBlocks.Perm ((d.smmus i).owned ++ d.otherSmmus i) := by
  have hp := (List.perm_cons_erase (List.mem_range.mpr hi)).flatMap_right fun i => (d.smmus i).owned
  rwa [List.flatMap_cons] at hp

theorem otherSmmus_setSmmu : (d.setSmmu i smmu).otherSmmus i = d.otherSmmus i := by
  rw [otherSmmus, otherSmmus, List.flatMap_def, List.flatMap_def]
  congr 1
  refine List.map_congr_left ?_
  intro j hj
  have hne : j ≠ i := by
    rintro rfl
    exact List.nodup_range.not_mem_erase hj
  simp [setSmmu, hne]

theorem setSmmu_smmuBlocks_perm (hi : i < d.numSmmus) :
    (d.setSmmu i smmu).smmuBlocks.Perm (smmu.owned ++ d.otherSmmus i) := by
  have hp := smmuBlocks_perm (d := d.setSmmu i smmu) hi
  rw [otherSmmus_setSmmu] at hp
  simpa [setSmmu] using hp

end Driver

end Smmu
