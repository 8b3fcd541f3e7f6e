import BsaAcs.Smmu.Theorems.Hardware
import BsaAcs.Smmu.Theorems.Substreams

namespace Smmu

open Heap (Frame Inside)

-- The driver shares the heap with the rest of the program, which runs between its calls.

-- A block of the rest of the program.
structure Driver.Foreign (d : Driver) (others : List Nat) (b : Nat × Nat) : Prop where
  live  : b ∈ d.world.heap.live
  owner : b.1 ∈ others

-- What the rest of the program may do. It allocates, frees and writes blocks of its own, but not those in `T`.
structure Elsewhere (T : Nat × Nat → Prop) (d : Driver) (others others' : List Nat) (w' : World) : Prop where
  owns : w'.Owns (d.roots ++ others')
  laid : w'.heap.Laid
  kept : ∀ b ∈ d.world.heap.live, b.1 ∉ others ∨ T b →
    b ∈ w'.heap.live ∧ ∀ x, Inside b x → w'.heap.mem x = d.world.heap.mem x

-- Calls of the driver that meet the condition `K`, in any order with steps of the rest of the program.
inductive Session (pf : Platform) (K : History → Driver → Call → Prop) (T : Nat × Nat → Prop) (hist₀ : History)
    (others₀ : List Nat) (d₀ : Driver) : History → List Nat → Driver → Prop
  | nil : Session pf K T hist₀ others₀ d₀ hist₀ others₀ d₀
  | call {hist others d c status d'} :
    (Session pf K T hist₀ others₀ d₀ hist others d) → (K hist d c) → (Step pf d c status d') →
    Session pf K T hist₀ others₀ d₀ ((c, status) :: hist) others d'
  | elsewhere {hist others d others' w'} :
    (Session pf K T hist₀ others₀ d₀ hist others d) → (Elsewhere T d others others' w') →
    Session pf K T hist₀ others₀ d₀ hist others' { d with world := w' }

theorem Session.invariant {pf : Platform} {K : History → Driver → Call → Prop} {T : Nat × Nat → Prop}
    {hist₀ hist : History} {others₀ others : List Nat} {d₀ d : Driver} {I : History → List Nat → Driver → Prop}
    (h₀ : I hist₀ others₀ d₀)
    (hcall : ∀ {hist others d c status d'}, I hist others d → K hist d c → Step pf d c status d' →
      I ((c, status) :: hist) others d')
    (helse : ∀ {hist others d others' w'}, I hist others d → Elsewhere T d others others' w' →
      I hist others' { d with world := w' })
    (h : Session pf K T hist₀ others₀ d₀ hist others d) : I hist others d := by
  induction h
  case nil                 => exact h₀
  case call hk hst hi      => exact hcall hi hk hst
  case elsewhere helse' hi => exact helse hi helse'

-- The calls of the driver leave the blocks of the rest of the program alone.

section

variable {pf : Platform} {d d' : Driver} {attr : SmmuMasterAttributes} {pgt : PgtDescriptor} {others : List Nat}
variable {b : Nat × Nat} {x status : Nat}

theorem Driver.Sane.not_other (hs : d.Sane others) {g : Handle} (hg : g ∈ d.handles) (hp : d.ptr g ≠ 0) :
    d.ptr g ∉ others := by
  intro ho
  have hn : ((d.roots ++ others).filter (· ≠ 0)).Nodup := hs.kept.owns.perm.nodup_iff.mp hs.kept.owns.nodup
  rw [List.filter_append, List.nodup_append] at hn
  have hr : d.ptr g ∈ d.roots := Driver.roots_eq ▸ List.mem_map_of_mem hg
  have hne : decide (d.ptr g ≠ 0) = true := by simpa using hp
  exact hn.2.2 _ (List.mem_filter.mpr ⟨hr, hne⟩) _ (List.mem_filter.mpr ⟨ho, hne⟩) rfl

theorem Driver.Foreign.not_in (hs : d.Sane others) (hf : d.Foreign others b) (hx : Inside b x) {g : Handle} :
    ¬d.In g x := by
  rintro ⟨hg, size, hlive, hin⟩
  have hne : (d.ptr g, size) ≠ b := by
    rintro rfl
    exact hs.not_other hg (Heap.Owns.ne_zero hs.kept.owns hlive) hf.owner
  exact hs.placed.laid.not_inside hlive hf.live hne hin hx

theorem Maps.foreign (ha : pf.alloc.Sound) (hs : d.Sane others) (hc : d.CallSafe pf (.map attr pgt))
    (h : Maps pf attr pgt d status d') (hf : d.Foreign others b) :
    d'.Foreign others b ∧ ∀ x, Inside b x → d'.world.heap.mem x = d.world.heap.mem x := by
  by_cases hstatus : status = 0
  case neg =>
    have ⟨hframe, _⟩ := h.failed_frame ha hs hc hstatus
    refine ⟨⟨hframe.live _ hf.live, hf.owner⟩, fun x hx => ?_⟩
    exact hframe.mem _ hf.live x hx fun hw => hf.not_in hs hx (failWord_in hs hw).1
  case pos =>
    subst hstatus
    obtain ⟨d₁, idx, m, smmu', m', w₁, w₂, w', hm⟩ := h.mapping
    have hs' := h.sane ha hs hc
    have hf' : d'.Foreign others b := ⟨hm.live ha hs hc b hf.live, hf.owner⟩
    have hlive₁ := (hm.frame₁ ha).live _ hf.live
    have hlive₂ := (hm.frame₂ hs hc ha).live _ hlive₁
    obtain ⟨hk, hsmmu, hbase⟩ := hm.target
    obtain ⟨n, hn, hmaster, _⟩ := hm.found.listed
    refine ⟨hf', fun x hx => ?_⟩
    have hlevel2 : ¬NewLevel2 (d.smmus attr.smmuIndex) attr.streamid x :=
      fun hw => hf.not_in hs hx (failWord_in hs ⟨hm.takes, hm.range, hw⟩).1
    have hcd : ¬(attr.stage2 = 0 ∧ CdWords m'.stage1 attr.substreamid x) := by
      rintro ⟨h1, hw⟩
      have hhas := hm.hasCd hs hc h1
      have hbound := hm.key.2
      rw [← hmaster] at hw hhas hbound
      rcases hs'.cdWords_in hn hbound hhas hw with hw | ⟨_, hw⟩
      all_goals exact hf'.not_in hs' hx hw
    have hlast : ¬(Inside (smmuStrtabGetSteForSid smmu' attr.streamid, 64) x ∨ QueueWords smmu'.cmdq x) := by
      rw [← hsmmu]
      rintro (hw | hw)
      case inl => exact hf'.not_in hs' hx (ste_in hs'.placed hk hbase (hs'.sized _ hk hbase) (hsmmu ▸ hm.hasSte) hw)
      case inr => exact hf'.not_in hs' hx (queue_in hs'.placed hk hbase (hs'.sized _ hk hbase) hw)
    rw [hm.frame₃.mem _ hlive₂ x hx hlast, (hm.frame₂ hs hc ha).mem _ hlive₁ x hx hcd,
      (hm.frame₁ ha).mem _ hf.live x hx hlevel2]

theorem Unmaps.foreign (ha : pf.alloc.Sound) (hs : d.Sane others) (hat : d.Attached)
    (hu : d.UnmapsLinear (.unmap attr)) (h : Unmaps pf attr d d') (hf : d.Foreign others b) :
    d'.Foreign others b ∧ ∀ x, Inside b x → d'.world.heap.mem x = d.world.heap.mem x := by
  have hs' := h.sane ha hs
  have keep {r : Option (Nat × Master)} {d₁ : Driver} (hl : Lookup pf attr.streamid d r d₁) :
      d₁.Foreign others b ∧ ∀ x, Inside b x → d₁.world.heap.mem x = d.world.heap.mem x := by
    have hframe := hl.frame (S := fun _ => False) ha
    exact ⟨⟨hframe.live _ hf.live, hf.owner⟩, fun x hx => hframe.mem _ hf.live x hx fun hc => hc⟩
  cases h
  case noRecord hl       => exact keep hl
  case unused _ hl       => exact keep hl
  case outOfRange _ _ hl => exact keep hl
  case done i m k d₁ fuel timedOut w' hl hm hr ht =>
    have hbound : (d.recordOf attr.streamid).smmu = some k := hl.recordOf_eq ▸ hm
    have hlin := hu _ hbound hr
    obtain ⟨hk, hbase⟩ := hat.recordOf hbound
    obtain ⟨hf₁, hmem₁⟩ := keep hl
    have hsub : w'.heap.live.Sublist d₁.world.heap.live := by
      rw [(tlbiCfgi_same ht).live, ← (writeSte_same (w := d₁.world)).live]
      exact cdtabFree_sublist
    have hlive : b ∈ w'.heap.live := Heap.Owns.mem_live (hl.kept ha.fresh hs.kept).owns hs'.kept.owns hsub hf₁.live
      (List.mem_append_right _ hf.owner)
    refine ⟨⟨hlive, hf.owner⟩, fun x hx => ?_⟩
    have hqueue : ¬QueueWords (d.smmus k).cmdq x :=
      fun hw => hf.not_in hs hx (queue_in hs.placed hk hbase (hs.sized _ hk hbase) hw)
    have hste : ¬Inside (smmuStrtabGetSteForSid (d.smmus k) attr.streamid, 64) x :=
      fun hw => hf.not_in hs hx (ste_in hs.placed hk hbase (hs.sized _ hk hbase) (linear_hasSte hlin hr) hw)
    rw [← linear_ste hlin] at ht
    exact (tlbiCfgi_mem ht hqueue).trans ((congrFun cdtabFree_mem _).trans ((writeSte_mem hste).trans (hmem₁ x hx)))

theorem Step.foreign {c : Call} (ha : pf.alloc.Sound) (hs : d.Sane others) (hat : d.Attached) (hc : d.CallSafe pf c)
    (hu : d.UnmapsLinear c) (h : Step pf d c status d') (hf : d.Foreign others b) :
    d'.Foreign others b ∧ ∀ x, Inside b x → d'.world.heap.mem x = d.world.heap.mem x := by
  cases h
  case map h   => exact (map_cases h).foreign ha hs hc hf
  case unmap h => exact (unmap_cases h).foreign ha hs hat hu hf

end

-- The rest of the program leaves the blocks of the driver alone.

section

variable {d : Driver} {others others' : List Nat} {w' : World} {T : Nat × Nat → Prop} {x : Nat}

namespace Elsewhere

variable (h : Elsewhere T d others others' w') (hs : d.Sane others)

include h hs

theorem block {g : Handle} {size : Nat} (hg : g ∈ d.handles) (hlive : (d.ptr g, size) ∈ d.world.heap.live) :
    (d.ptr g, size) ∈ w'.heap.live ∧ ∀ x, Inside (d.ptr g, size) x → w'.heap.mem x = d.world.heap.mem x :=
  h.kept _ hlive (.inl (hs.not_other hg (Heap.Owns.ne_zero hs.kept.owns hlive)))

theorem mem_eq {g : Handle} (hin : d.In g x) : w'.heap.mem x = d.world.heap.mem x := by
  obtain ⟨hg, size, hlive, hx⟩ := hin
  exact (h.block hs hg hlive).2 x hx

theorem smmu_placed {k : Nat} (hk : k < d.numSmmus) (hb : (d.smmus k).base ≠ 0) : (d.smmus k).Placed w'.heap.live := by
  have hp := hs.placed.smmus k hk hb
  have hqueue := h.block hs (Driver.mem_queue hk) hp.queue
  have hstrtab := h.block hs (Driver.mem_strtab hk hb) hp.strtab
  refine ⟨hqueue.1, hp.base, hstrtab.1, hp.aligned, hp.phys, fun j hj => ?_⟩
  obtain ⟨hblock, halign, hphys, htwo, hlt⟩ := hp.level2 j hj
  have hlevel2 := h.block hs (Driver.mem_level2 hk hb htwo hlt) hblock
  exact ⟨hlevel2.1, halign, hphys, htwo, hlt⟩

theorem node_placed {n : Node} {k : Nat} (hn : n ∈ d.masters) (hb : n.master.smmu = some k) :
    n.master.stage1.Placed (d.smmus k).supported.cd2l w'.heap.live := by
  obtain ⟨i, hi⟩ := List.mem_iff_getElem?.mp hn
  have hat : d.stage1At i = n.master.stage1 := by rw [Driver.stage1At, hi]; rfl
  have hp := hs.placed.nodes n hn k hb
  refine ⟨fun hz => ?_, fun j hj => ?_⟩
  · obtain ⟨hfit, hblock, hrest⟩ := hp.table hz
    have hptr : d.ptr (.cdtab i) = n.master.stage1.cdcfg.cdtabPtr := by rw [Driver.ptr, hat]
    have hcdtab := h.block hs (Driver.mem_cdtab hi) (hptr.symm ▸ hblock)
    exact ⟨hfit, hptr ▸ hcdtab.1, hrest⟩
  · obtain ⟨hblock, hrest⟩ := hp.leaf j hj
    obtain ⟨_, hlt⟩ := ((hs.kept.nodes n hn).bound k hb).leaf j hj
    have hptr : d.ptr (.leaf i j) = (n.master.stage1.cdcfg.l1Desc j).l2ptr := by rw [Driver.ptr, hat]
    have hleaf := h.block hs (Driver.mem_leaf hi hlt) (hptr.symm ▸ hblock)
    exact ⟨hptr ▸ hleaf.1, hrest⟩

theorem sane : Driver.Sane others' { d with world := w' } where
  kept   := ⟨h.owns, hs.kept.ready, hs.kept.nodes⟩
  placed := ⟨h.laid, fun _ hk hb => h.smmu_placed hs hk hb, fun _ hn _ hb => h.node_placed hs hn hb⟩
  whole  := hs.whole
  sized  := hs.sized

theorem foreign {b : Nat × Nat} (hf : d.Foreign others b) (ht : T b) :
    Driver.Foreign { d with world := w' } others' b ∧ ∀ x, Inside b x → w'.heap.mem x = d.world.heap.mem x := by
  obtain ⟨hlive, hmem⟩ := h.kept b hf.live (.inr ht)
  refine ⟨⟨hlive, ?_⟩, hmem⟩
  have hroot : b.1 ∈ d.roots ++ others' :=
    (List.mem_filter.mp (h.owns.perm.mem_iff.mp (List.mem_map_of_mem hlive))).1
  cases List.mem_append.mp hroot
  case inr ho => exact ho
  case inl hr =>
    rw [Driver.roots_eq] at hr
    obtain ⟨g, hg, he⟩ := List.mem_map.mp hr
    refine absurd hf.owner (he ▸ hs.not_other hg ?_)
    rw [he]
    exact Heap.Owns.ne_zero hs.kept.owns hf.live

end Elsewhere

end

end Smmu
