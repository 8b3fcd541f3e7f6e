import BsaAcs.Smmu.Theorems.Roots

namespace Smmu

namespace Driver

-- The driver before `val_smmu_init`.
def boot (w : World) : Driver :=
  { world := w, gSmmu := 0, numSmmus := 0, smmus := fun _ => .zero, masters := [] }

-- The nodes and records of the list of masters.
def registry (d : Driver) : List Nat :=
  d.masters.flatMap fun n => [n.node, n.ptr]

-- The tables of context descriptors.
def contexts (d : Driver) : List Nat :=
  d.masters.flatMap fun n => n.master.stage1.blocks

-- The queues that `val_smmu_stop` does not get to see.
def unstopped (d : Driver) : List Nat :=
  (List.range d.numSmmus).flatMap fun i => (d.smmus i).unstopped

theorem nodes_perm (d : Driver) : (d.masters.flatMap Node.blocks).Perm (d.registry ++ d.contexts) :=
  (List.flatMap_append_perm d.masters (fun n => [n.node, n.ptr]) fun n => n.master.stage1.blocks).symm

end Driver

section

variable {pf : Platform} {d d' : Driver} {others roots : List Nat}

-- The initialisation.

-- The SMMUs from the `i`-th one on are as `val_memory_set` has left them.
structure Fills (others : List Nat) (num i : Nat) (d : Driver) : Prop where
  kept    : d.Kept others
  count   : d.numSmmus = num
  masters : d.masters = []
  cleared : ∀ j, i ≤ j → d.smmus j = .zero

theorem Fills.setSmmu {num i : Nat} {smmu : SmmuDev} {w : World} (h : Fills others num i d) (hi : i < num)
    (hr : smmu.base ≠ 0 → smmu.Ready)
    (ho : w.Owns (smmu.owned ++ (d.gSmmu :: (d.otherSmmus i ++ others)))) :
    Fills others num (i + 1) { d.setSmmu i smmu with world := w } := by
  have hp : (d.setSmmu i smmu).smmuBlocks.Perm (smmu.owned ++ d.otherSmmus i) :=
    Driver.setSmmu_smmuBlocks_perm (h.count ▸ hi : i < d.numSmmus)
  refine ⟨⟨?_, ?_, ?_⟩, h.count, h.masters, ?_⟩
  · refine ho.of_perm (List.perm_iff_count.mpr fun a => ?_)
    have hc : List.count a (Driver.roots { d.setSmmu i smmu with world := w } ++ others) =
        List.count a (d.gSmmu :: ((d.setSmmu i smmu).smmuBlocks ++ d.masters.flatMap Node.blocks) ++ others) := rfl
    rw [hc, h.masters]
    have hp := hp.count_eq a
    simp only [List.count_append, List.count_cons, List.cons_append, List.flatMap_nil, List.count_nil] at *
    omega
  · intro j hj hb
    have hs : (d.setSmmu i smmu).smmus j = if j = i then smmu else d.smmus j := rfl
    change ((d.setSmmu i smmu).smmus j).base ≠ 0 at hb
    change ((d.setSmmu i smmu).smmus j).Ready
    rw [hs] at hb ⊢
    split at hb
    case isTrue hji =>
      rw [if_pos hji]
      exact hr hb
    case isFalse hji =>
      rw [if_neg hji]
      exact h.kept.ready j hj hb
  · intro n hn
    change n ∈ d.masters at hn
    rw [h.masters] at hn
    cases hn
  · intro j hj
    have hs : (d.setSmmu i smmu).smmus j = if j = i then smmu else d.smmus j := rfl
    change (d.setSmmu i smmu).smmus j = .zero
    rw [hs, if_neg (by omega)]
    exact h.cleared j (by omega)

-- What is there beside the `i`-th SMMU.
theorem Fills.owns {num i : Nat} (h : Fills others num i d) (hi : i < num) :
    d.world.Owns (d.gSmmu :: (d.otherSmmus i ++ others)) := by
  have hp := Driver.smmuBlocks_perm (h.count ▸ hi : i < d.numSmmus)
  rw [h.cleared i (Nat.le_refl i)] at hp
  have h₀ : SmmuDev.zero.owned = [0] := rfl
  rw [h₀] at hp
  refine Heap.Owns.zero_cons_iff.mp (h.kept.owns.of_perm (List.perm_iff_count.mpr fun a => ?_))
  rw [Driver.roots, h.masters]
  have hp := hp.count_eq a
  simp only [List.count_append, List.count_cons, List.cons_append, List.flatMap_nil, List.count_nil] at *
  omega

theorem Fills.succ {num i : Nat} (h : Fills others num i d) : Fills others num (i + 1) d :=
  ⟨h.kept, h.count, h.masters, fun j hj => h.cleared j (by omega)⟩

theorem initFrom_kept {info : IovirtSmmuInfo} {fuel n i num status : Nat} (hf : pf.alloc.Fresh)
    (hd : Fills others num i d) (hn : i + n = num) (h : initFrom pf info fuel n i d = some (status, d')) :
    d'.Kept others := by
  induction n generalizing i d
  case zero =>
    cases h
    exact hd.kept
  case succ n hi =>
    have hlt : i < num := by omega
    have hz : ({ d.smmus i with base := info.ctrlBase i } : SmmuDev).cmdq.basePtr = 0 := by
      rw [hd.cleared i (Nat.le_refl i)]
      rfl
    simp only [initFrom] at h
    split at h
    case isTrue => exact hi hd.succ (by omega) h
    case isFalse =>
      split at h
      case h_1 => cases h
      case h_2 smmu w he =>
        have ho := init_owns hf (hd.owns hlt) hz he
        split at h
        case isTrue hs =>
          cases h
          rw [if_neg hs] at ho
          exact (hd.setSmmu hlt (fun hc => absurd rfl hc) ho).kept
        case isFalse hs =>
          rw [if_pos (not_not.mp hs)] at ho
          have ⟨h₁, h₂, h₃⟩ := ho
          refine hi (hd.setSmmu hlt (fun _ => h₂) ?_) (by omega) h
          rw [SmmuDev.owned, if_neg h₃]
          exact h₁

-- SMMUs that are not set up own nothing.
theorem owns_unset {gSmmu num : Nat} {w : World} (ho : w.Owns (gSmmu :: others)) :
    Fills others num 0 { world := w, gSmmu := gSmmu, numSmmus := num, smmus := fun _ => .zero, masters := [] } := by
  refine ⟨⟨?_, ?_, ?_⟩, rfl, rfl, fun _ _ => rfl⟩
  · have hz : ∀ p ∈ (List.range num).flatMap (fun _ => SmmuDev.zero.owned), p = 0 := by
      intro p hp
      have ⟨_, _, hp⟩ := List.mem_flatMap.mp hp
      exact List.mem_singleton.mp hp
    have hn : ((List.range num).flatMap fun _ => SmmuDev.zero.owned).filter (· ≠ 0) = [] := by
      rw [List.filter_eq_nil_iff]
      intro p hp
      simpa using hz p hp
    refine Heap.Owns.of_filter_eq ho ?_
    have hr : Driver.roots { world := w, gSmmu := gSmmu, numSmmus := num, smmus := fun _ => .zero, masters := [] } ++ others =
        [gSmmu] ++ ((List.range num).flatMap fun _ => SmmuDev.zero.owned) ++ others := by
      simp [Driver.roots, Driver.smmuBlocks]
    rw [hr, List.filter_append, List.filter_append, hn, List.append_nil, ← List.filter_append]
    rfl
  · exact fun _ _ hc => absurd rfl hc
  · intro n hn
    cases hn

theorem init_kept {info : IovirtSmmuInfo} {fuel status : Nat} {w : World} (hf : pf.alloc.Fresh) (ho : w.Owns others)
    (h : valSmmuInit pf info fuel (.boot w) = some (status, d)) : d.Kept others := by
  have ha := ho.alloc hf (sizeofSmmuDev * info.numCtrl)
  simp only [valSmmuInit] at h
  split at h
  case isTrue =>
    cases h
    exact (owns_unset (Heap.Owns.zero_cons_iff.mpr ho)).kept
  case isFalse =>
    split at h
    case isTrue hz =>
      cases h
      exact (owns_unset ha).kept
    case isFalse hz => exact initFrom_kept hf (owns_unset ha) (Nat.zero_add _) h

-- Stopping the SMMUs.

theorem stopSmmus_owns {smmus : Nat → SmmuDev} {is : List Nat} {w : World}
    (hr : ∀ i ∈ is, (smmus i).base ≠ 0 → (smmus i).Ready)
    (ho : w.Owns (is.flatMap (fun i => (smmus i).owned) ++ roots)) :
    (is.foldl (fun w i => stopSmmu pf (smmus i) w) w).Owns (is.flatMap (fun i => (smmus i).unstopped) ++ roots) := by
  induction is generalizing w roots
  case nil => exact ho
  case cons i is hi =>
    rw [List.flatMap_cons, List.append_assoc] at ho
    have h₁ : (stopSmmu pf (smmus i) w).Owns _ := stopSmmu_owns (hr i (List.mem_cons_self ..)) ho
    have h₂ := hi (fun j hj => hr j (List.mem_cons_of_mem _ hj)) (h₁.of_perm (List.perm_append_comm_assoc ..))
    rw [List.flatMap_cons, List.append_assoc]
    exact h₂.of_perm (List.perm_append_comm_assoc ..)

theorem stop_owns (hd : d.Kept others) (hg : d.gSmmu = 0 → d.numSmmus = 0) :
    (valSmmuStop pf d).world.Owns ((d.unstopped ++ d.contexts) ++ (d.registry ++ others)) := by
  have hp : (d.roots ++ others).Perm (d.smmuBlocks ++ (d.gSmmu :: (d.contexts ++ (d.registry ++ others)))) := by
    refine List.perm_iff_count.mpr fun a => ?_
    have hn := d.nodes_perm.count_eq a
    simp only [Driver.roots, List.count_append, List.count_cons, List.cons_append] at *
    omega
  have ho := hd.owns.of_perm hp
  rw [valSmmuStop, List.append_assoc]
  split
  case isTrue hz =>
    rw [if_pos (hg hz)]
    have hb : d.smmuBlocks = [] := by rw [Driver.smmuBlocks, hg hz]; rfl
    have hu : d.unstopped = [] := by rw [Driver.unstopped, hg hz]; rfl
    rw [hb, hz] at ho
    rw [hu]
    exact Heap.Owns.zero_cons_iff.mp ho
  case isFalse =>
    refine World.Owns.free (Heap.Owns.of_perm ?_ List.perm_middle)
    exact stopSmmus_owns (fun i hi => hd.ready i (List.mem_range.mp hi)) ho

-- What can be left after `val_smmu_stop`: the queue of an SMMU whose initialisation has failed, and the
-- tables of streams that are still mapped. Without the array of SMMUs, it follows a null pointer.
structure StopOk (d : Driver) : Prop where
  array  : d.gSmmu = 0 → d.numSmmus = 0
  queues : ∀ i < d.numSmmus, (d.smmus i).base = 0 → (d.smmus i).cmdq.basePtr = 0
  tables : ∀ n ∈ d.masters, n.master.stage1.cdcfg.cdtabPtr = 0 ∧ n.master.stage1.cdcfg.l1Ptr = 0

-- Whether `val_smmu_stop` frees all blocks but those in `left`, without freeing any block a second time
-- or following a null pointer.
def StopLeaves (pf : Platform) (d : Driver) (left : List Nat) : Prop :=
  (valSmmuStop pf d).world.Owns left ∧ (valSmmuStop pf d).world.faults = d.world.faults

theorem unstopped_zero_iff :
    (∀ p ∈ d.unstopped, p = 0) ↔ ∀ i < d.numSmmus, (d.smmus i).base = 0 → (d.smmus i).cmdq.basePtr = 0 := by
  have he (i : Nat) : (∀ p ∈ (d.smmus i).unstopped, p = 0) ↔ ((d.smmus i).base = 0 → (d.smmus i).cmdq.basePtr = 0) := by
    rw [SmmuDev.unstopped]
    split
    case isTrue hz  => simp [hz]
    case isFalse hz => simp [hz]
  constructor
  case mp =>
    intro h i hi
    exact (he i).mp fun p hp => h p (List.mem_flatMap.mpr ⟨i, List.mem_range.mpr hi, hp⟩)
  case mpr =>
    intro h p hp
    obtain ⟨i, hi, hp⟩ := List.mem_flatMap.mp hp
    exact (he i).mpr (h i (List.mem_range.mp hi)) p hp

theorem Node.Sound.blocks_zero_iff {n : Node} (hn : n.Sound d.smmus) :
    (∀ p ∈ n.master.stage1.blocks, p = 0) ↔
      n.master.stage1.cdcfg.cdtabPtr = 0 ∧ n.master.stage1.cdcfg.l1Ptr = 0 := by
  constructor
  case mp =>
    intro h
    exact ⟨h _ (List.mem_cons_self ..), h _ (List.mem_cons_of_mem _ (List.mem_cons_self ..))⟩
  case mpr =>
    rintro ⟨h₁, h₂⟩ p hp
    have hz (i : Nat) : (n.master.stage1.cdcfg.l1Desc i).l2ptr = 0 := by
      cases hs : n.master.smmu
      case none =>
        rw [hn.unused hs]
        rfl
      case some k => exact (hn.bound k hs).leaf_zero h₂ i
    rcases List.mem_cons.mp hp with rfl | hp
    case inl => exact h₁
    case inr =>
      rcases List.mem_cons.mp hp with rfl | hp
      case inl => exact h₂
      case inr =>
        have ⟨i, _, hi⟩ := List.mem_map.mp hp
        exact hi ▸ hz i

theorem contexts_zero_iff (hd : d.Kept others) :
    (∀ p ∈ d.contexts, p = 0) ↔
      ∀ n ∈ d.masters, n.master.stage1.cdcfg.cdtabPtr = 0 ∧ n.master.stage1.cdcfg.l1Ptr = 0 := by
  constructor
  case mp =>
    intro h n hn
    exact (hd.nodes n hn).blocks_zero_iff.mp fun p hp => h p (List.mem_flatMap.mpr ⟨n, hn, hp⟩)
  case mpr =>
    intro h p hp
    have ⟨n, hn, hp⟩ := List.mem_flatMap.mp hp
    exact (hd.nodes n hn).blocks_zero_iff.mpr (h n hn) p hp

theorem stopSmmu_faults {smmu : SmmuDev} {w : World} : (stopSmmu pf smmu w).faults = w.faults := by
  have hfree {w : World} : (smmuFreeStrtab smmu w).faults = w.faults := by
    simp only [smmuFreeStrtab]
    split
    case isTrue => rfl
    case isFalse =>
      split
      case isTrue =>
        rw [freeL2_eq]
        exact free_faults
      case isFalse => rfl
  simp only [stopSmmu]
  split
  case isTrue => rfl
  case isFalse =>
    rw [hfree]
    split <;> exact regWriteSync_same.faults

theorem stop_faults : (valSmmuStop pf d).world.faults = d.world.faults ↔ (d.gSmmu = 0 → d.numSmmus = 0) := by
  have hl {is : List Nat} {w : World} : (is.foldl (fun w i => stopSmmu pf (d.smmus i) w) w).faults = w.faults := by
    induction is generalizing w
    case nil          => rfl
    case cons i is hi => exact hi.trans stopSmmu_faults
  rw [valSmmuStop]
  split
  case isTrue hz =>
    split
    case isTrue hn => simp [hn]
    case isFalse hn =>
      have hc : (d.world.fault).faults = d.world.faults + 1 := rfl
      simp [hc, hz, hn]
  case isFalse hz => exact iff_of_true hl fun hc => absurd hc hz

theorem registry_zero_iff (hd : d.Kept others) : (∀ p ∈ d.registry, p = 0) ↔ d.masters = [] := by
  constructor
  case mp =>
    intro h
    refine List.eq_nil_iff_forall_not_mem.mpr fun n hn => ?_
    exact (hd.nodes n hn).node (h _ (List.mem_flatMap.mpr ⟨n, hn, List.mem_cons_self ..⟩))
  case mpr =>
    intro h p hp
    rw [Driver.registry, h] at hp
    cases hp

theorem stopLeaves_registry_iff (hd : d.Kept others) : StopLeaves pf d (d.registry ++ others) ↔ StopOk d := by
  rw [StopLeaves, stop_faults]
  constructor
  case mp =>
    rintro ⟨ho, hg⟩
    have hz := (stop_owns hd hg).append_iff.mp ho
    rw [List.forall_mem_append, unstopped_zero_iff, contexts_zero_iff hd] at hz
    exact ⟨hg, hz.1, hz.2⟩
  case mpr =>
    intro h
    refine ⟨(stop_owns hd h.array).append_iff.mpr ?_, h.array⟩
    rw [List.forall_mem_append, unstopped_zero_iff, contexts_zero_iff hd]
    exact ⟨h.queues, h.tables⟩

theorem stopLeaves_iff (hd : d.Kept others) : StopLeaves pf d others ↔ StopOk d ∧ d.masters = [] := by
  rw [← registry_zero_iff hd]
  constructor
  case mp =>
    rintro ⟨ho, hf⟩
    have h₁ : (valSmmuStop pf d).world.Owns _ := stop_owns hd (stop_faults.mp hf)
    have h₂ := h₁
    rw [← List.append_assoc] at h₂
    have hz := h₂.append_iff.mp ho
    rw [List.forall_mem_append] at hz
    exact ⟨(stopLeaves_registry_iff hd).mp ⟨h₁.append_iff.mpr hz.1, hf⟩, hz.2⟩
  case mpr =>
    rintro ⟨hs, hz⟩
    have ⟨ho, hf⟩ : StopLeaves pf d (d.registry ++ others) := (stopLeaves_registry_iff hd).mpr hs
    exact ⟨(Heap.Owns.append_iff ho).mpr hz, hf⟩

-- Over any number of SMMUs, any failure of the initialisation and any sequence of calls.
theorem smmu_stop_frees {info : IovirtSmmuInfo} {fuel status : Nat} {w₀ : World} {d₀ : Driver} {hist : History}
    (hf : pf.alloc.Fresh) (h₀ : w₀.Owns others) (hi : valSmmuInit pf info fuel (.boot w₀) = some (status, d₀))
    (h : Run pf (fun _ d c => d.CallOk c) d₀ hist d) :
    (StopLeaves pf d (d.registry ++ others) ↔ StopOk d) ∧ (StopLeaves pf d others ↔ StopOk d ∧ d.masters = []) := by
  have hd : d.Kept others :=
    h.invariant (I := fun _ d => d.Kept others) (init_kept hf h₀ hi) fun hk hc hs => (hs.kept hf hk hc).1
  exact ⟨stopLeaves_registry_iff hd, stopLeaves_iff hd⟩

end

-- One SMMU with a linear stream table of 16 entries, on a platform whose allocator always takes an
-- address above all blocks in use.

def risingAlloc (live : List (Nat × Nat)) : Nat :=
  (live.map Prod.fst).foldr max 0 + 0x100000

theorem risingAlloc_not_mem {live : List (Nat × Nat)} : risingAlloc live ∉ live.map Prod.fst := by
  have hle (l : List Nat) : ∀ a ∈ l, a ≤ l.foldr max 0 := by
    induction l
    case nil => simp
    case cons b l hi =>
      intro a ha
      rcases List.mem_cons.mp ha with rfl | ha
      case inl => exact le_max_left ..
      case inr => exact (hi a ha).trans (le_max_right ..)
  intro hm
  have := hle _ _ hm
  rw [risingAlloc] at this
  omega

-- The allocation with the number `bad` fails.
def risingPlatform (answers : List Nat) (bad : Nat) : Platform :=
  { mmio := fun n => answers.getD n 0, alloc := fun n live _ => if n = bad then 0 else risingAlloc live }

theorem risingPlatform_fresh {answers : List Nat} {bad : Nat} : (risingPlatform answers bad).alloc.Fresh := by
  intro n live size hn
  simp only [risingPlatform] at hn ⊢
  split
  case isTrue hb => simp [hb] at hn
  case isFalse   => exact risingAlloc_not_mem

-- The identification registers, the acknowledgements and the queue during the initialisation, and the
-- queue during a map and an unmap.
def bootAnswers : List Nat :=
  [0xA, 0x200004, 5, 0, 8, 0, 1, 2, 3, 3, 9] ++ [3, 0, 1, 2, 2] ++ [2, 3, 0, 1, 1]

def oneCtrl : IovirtSmmuInfo :=
  { numCtrl := 1, archMajorRev := fun _ => 3, ctrlBase := fun _ => 0x2b400000 }

def stage1Attr : SmmuMasterAttributes :=
  { smmuIndex := 0, streamid := 5, substreamid := 0, ssidBits := 0, stage2 := 0 }

def Driver.firstTables (d : Driver) : List (Nat × Nat) :=
  d.masters.map fun n => (n.master.stage1.cdcfg.cdtabPtr, n.master.stage1.cdcfg.l1Ptr)

-- A stream is mapped and unmapped before the stop.
theorem smmu_stop_after_unmap :
    ∃ d₀ d₁ d₂, valSmmuInit (risingPlatform bootAnswers 100) oneCtrl 1 (.boot .start) = some (0, d₀) ∧
      Step (risingPlatform bootAnswers 100) d₀ (.map stage1Attr somePgt) 0 d₁ ∧
      Step (risingPlatform bootAnswers 100) d₁ (.unmap stage1Attr) 0 d₂ ∧
      StopLeaves (risingPlatform bootAnswers 100) d₂ (d₂.registry ++ []) := by
  have hrun : ((valSmmuInit (risingPlatform bootAnswers 100) oneCtrl 1 (.boot .start)).bind fun r₀ =>
      (valSmmuMap (risingPlatform bootAnswers 100) 1 stage1Attr somePgt r₀.2).bind fun r₁ =>
      (valSmmuUnmap (risingPlatform bootAnswers 100) 1 stage1Attr r₁.2).map fun d₂ =>
        ([r₀.1, r₁.1, (r₀.2.recordOf 5).stage1.cdcfg.l1Ptr, d₂.gSmmu, d₂.numSmmus, (d₂.smmus 0).base],
          [(r₀.2.smmus 0).supported.stLevel2lvl, (r₁.2.smmus 0).supported.cd2l], (r₁.2.recordOf 5).smmu, d₂.firstTables)) =
      some ([0, 0, 0, 0x100000, 1, 0x2b400000], [false, false], some 0, [(0, 0)]) := by
    decide +kernel
  have ⟨⟨s₀, d₀⟩, h₀, h⟩ := Option.bind_eq_some_iff.mp hrun
  have ⟨⟨s₁, d₁⟩, h₁, h⟩ := Option.bind_eq_some_iff.mp h
  have ⟨d₂, h₂, he⟩ := Option.map_eq_some_iff.mp h
  simp only [Prod.mk.injEq, List.cons.injEq, and_true] at he
  have ⟨⟨hs₀, hs₁, hz, hg, hn, hb⟩, ⟨hl, hcd⟩, hk, ht⟩ := he
  subst hs₀ hs₁
  have k₁ : d₀.CallOk (.map stage1Attr somePgt) :=
    fun _ => ⟨fun _ _ => hz, fun _ => by decide, fun hc => absurd hc (by simp [stage1Attr, hl])⟩
  have k₂ : d₁.CallOk (.unmap stage1Attr) := by
    intro k hk' _ h2
    have h0 : k = 0 := Option.some.inj (hk'.symm.trans hk)
    rw [h0, hcd] at h2
    cases h2
  refine ⟨d₀, d₁, d₂, h₀, .map h₁, .unmap h₂, ?_⟩
  have hw : World.start.Owns [] := ⟨.nil, List.nodup_nil, rfl⟩
  refine (smmu_stop_frees risingPlatform_fresh hw h₀
    (.cons (.cons .nil k₁ (.map h₁)) k₂ (.unmap h₂))).1.mpr ⟨?_, ?_, ?_⟩
  · exact fun hc => absurd (hg.symm.trans hc) (by decide)
  · intro i hi h0
    rw [hn, Nat.lt_one_iff] at hi
    rw [hi, hb] at h0
    cases h0
  · intro n hm
    have hmem : (n.master.stage1.cdcfg.cdtabPtr, n.master.stage1.cdcfg.l1Ptr) ∈ d₂.firstTables :=
      List.mem_map_of_mem hm
    rw [ht] at hmem
    exact Prod.mk.inj (List.mem_singleton.mp hmem)

-- The table of a stream that is still mapped is not freed, nor is the queue of an SMMU for which there
-- was no memory for a stream table.
theorem smmu_stop_leaks :
    (∃ d₀ d₁, valSmmuInit (risingPlatform bootAnswers 100) oneCtrl 1 (.boot .start) = some (0, d₀) ∧
      Step (risingPlatform bootAnswers 100) d₀ (.map stage1Attr somePgt) 0 d₁ ∧
      ¬StopLeaves (risingPlatform bootAnswers 100) d₁ (d₁.registry ++ [])) ∧
    (∃ d₀, valSmmuInit (risingPlatform bootAnswers 2) oneCtrl 1 (.boot .start) = some (acsStatusErr, d₀) ∧
      ¬StopLeaves (risingPlatform bootAnswers 2) d₀ (d₀.registry ++ [])) := by
  have leak {pf : Platform} {d : Driver} {left : List Nat}
      (hl : left.length < (valSmmuStop pf d).world.heap.owned.length) : ¬StopLeaves pf d left := by
    intro ⟨ho, _⟩
    have := ho.perm.length_eq
    have := List.length_filter_le (fun p => decide (p ≠ 0)) left
    omega
  constructor
  · have hrun : ((valSmmuInit (risingPlatform bootAnswers 100) oneCtrl 1 (.boot .start)).bind fun r₀ =>
        (valSmmuMap (risingPlatform bootAnswers 100) 1 stage1Attr somePgt r₀.2).map fun r₁ =>
          ((r₀.1, r₁.1), ((valSmmuStop (risingPlatform bootAnswers 100) r₁.2).world.heap.owned.length,
            (r₁.2.registry ++ []).length))) = some ((0, 0), (3, 2)) := by
      decide +kernel
    have ⟨⟨s₀, d₀⟩, h₀, h⟩ := Option.bind_eq_some_iff.mp hrun
    have ⟨⟨s₁, d₁⟩, h₁, he⟩ := Option.map_eq_some_iff.mp h
    simp only [Prod.mk.injEq] at he
    have ⟨⟨hs₀, hs₁⟩, ho, hr⟩ := he
    subst hs₀ hs₁
    exact ⟨d₀, d₁, h₀, .map h₁, leak (by omega)⟩
  · have hrun : ((valSmmuInit (risingPlatform bootAnswers 2) oneCtrl 1 (.boot .start)).map fun r₀ =>
        (r₀.1, ((valSmmuStop (risingPlatform bootAnswers 2) r₀.2).world.heap.owned.length,
          (r₀.2.registry ++ []).length))) = some (acsStatusErr, (1, 0)) := by
      decide +kernel
    have ⟨⟨s₀, d₀⟩, h₀, he⟩ := Option.map_eq_some_iff.mp hrun
    simp only [Prod.mk.injEq] at he
    have ⟨hs₀, ho, hr⟩ := he
    subst hs₀
    exact ⟨d₀, h₀, leak (by omega)⟩

end Smmu
