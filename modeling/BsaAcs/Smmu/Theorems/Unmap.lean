import BsaAcs.Smmu.Theorems.StreamTable

namespace Smmu

open Heap (Frame Inside)

section

variable {pf : Platform} {d d' : Driver} {attr : SmmuMasterAttributes} {pgt : PgtDescriptor} {smmu smmu' smmu'' : SmmuDev}

-- Where the tables of an SMMU are does not change after the initialisation.

theorem SmmuDev.SameBut.trans (h : smmu.SameBut smmu') (h' : smmu'.SameBut smmu'') : smmu.SameBut smmu'' := by
  have ⟨l1Desc, hk, he⟩ := h
  have ⟨l1Desc', hk', he'⟩ := h'
  refine ⟨l1Desc', ?_, ?_⟩
  · intro j hj
    rw [he] at hk'
    have hkeep := hk' j
    simp only [SmmuDev.setStrtab] at hkeep
    rw [hkeep (hk j hj ▸ hj), hk j hj]
  · rw [he', he]
    rfl

theorem Maps.sameBut {status : Nat} (h : Maps pf attr pgt d status d') :
    d'.numSmmus = d.numSmmus ∧ ∀ k, (d.smmus k).SameBut (d'.smmus k) := by
  have mapped {i : Nat} {d₁ : Driver} {m m' : Master} {smmu' : SmmuDev} {w w' : World} {ok cd2l : Bool}
      {r : Option (Nat × Master)} (hl : Lookup pf attr.streamid d r d₁)
      (hm : mapMaster pf (d.smmus attr.smmuIndex) cd2l attr pgt m w = (ok, smmu', m', w')) {w'' : World} :
      (d₁.mapped attr.smmuIndex i smmu' m' w'').numSmmus = d.numSmmus ∧
        ∀ k, (d.smmus k).SameBut ((d₁.mapped attr.smmuIndex i smmu' m' w'').smmus k) := by
    refine ⟨hl.numSmmus_eq.1, fun k => ?_⟩
    have he : (d₁.mapped attr.smmuIndex i smmu' m' w'').smmus k =
        if k = attr.smmuIndex then smmu' else d₁.smmus k := rfl
    rw [he, hl.smmus_eq]
    split
    case isTrue hk =>
      rw [hk]
      exact mapMaster_sameBut hm
    case isFalse => exact .refl
  cases h
  case rejected              => exact ⟨rfl, fun _ => .refl⟩
  case noRecord _ _ _ hl     => exact ⟨hl.numSmmus_eq.1, fun k => hl.smmus_eq ▸ .refl⟩
  case failed _ _ _ hl hm    => exact mapped hl hm
  case done _ _ _ hl hm _    => exact mapped hl hm

theorem Unmaps.smmus_eq (h : Unmaps pf attr d d') : d'.numSmmus = d.numSmmus ∧ d'.smmus = d.smmus := by
  cases h
  case noRecord hl         => exact ⟨hl.numSmmus_eq.1, hl.smmus_eq⟩
  case unused _ hl         => exact ⟨hl.numSmmus_eq.1, hl.smmus_eq⟩
  case outOfRange _ _ hl   => exact ⟨hl.numSmmus_eq.1, hl.smmus_eq⟩
  case done hl _ _ _       => exact ⟨hl.numSmmus_eq.1, hl.smmus_eq⟩

theorem Step.sameBut {c : Call} {status : Nat} (h : Step pf d c status d') :
    d'.numSmmus = d.numSmmus ∧ ∀ k, (d.smmus k).SameBut (d'.smmus k) := by
  cases h
  case map h   => exact (map_cases h).sameBut
  case unmap h =>
    have ⟨hn, hs⟩ := (unmap_cases h).smmus_eq
    exact ⟨hn, fun k => hs ▸ .refl⟩

theorem Run.sameBut {K : History → Driver → Call → Prop} {d₀ : Driver} {hist : History} (h : Run pf K d₀ hist d) :
    d.numSmmus = d₀.numSmmus ∧ ∀ k, (d₀.smmus k).SameBut (d.smmus k) := by
  refine h.invariant (I := fun _ d => d.numSmmus = d₀.numSmmus ∧ ∀ k, (d₀.smmus k).SameBut (d.smmus k))
    ⟨rfl, fun _ => .refl⟩ ?_
  intro hist d c status d' hi _ hst
  have ⟨hn, hs⟩ := hst.sameBut
  exact ⟨hn.trans hi.1, fun k => (hi.2 k).trans (hs k)⟩

-- Records name SMMUs that there are.
def Driver.Attached (d : Driver) : Prop :=
  ∀ n ∈ d.masters, ∀ k, n.master.smmu = some k → k < d.numSmmus ∧ (d.smmus k).base ≠ 0

theorem Lookup.attached {sid : Nat} {r : Option (Nat × Master)} (ha : d.Attached) (h : Lookup pf sid d r d') :
    d'.Attached := by
  intro n hn k hk
  cases h
  case found    => exact ha n hn k hk
  case noNode   => exact ha n hn k hk
  case noMaster => exact ha n hn k hk
  case created =>
    rcases List.mem_cons.mp hn with rfl | hn
    case inl => cases hk
    case inr => exact ha n hn k hk

theorem Driver.Attached.recordOf {sid k : Nat} (ha : d.Attached) (hk : (d.recordOf sid).smmu = some k) :
    k < d.numSmmus ∧ (d.smmus k).base ≠ 0 := by
  have ⟨n, hn, he, _⟩ := recordOf_mem hk
  exact ha n hn k (he ▸ hk)

theorem Maps.attached {status : Nat} (ha : d.Attached) (h : Maps pf attr pgt d status d') : d'.Attached := by
  have mapped {i : Nat} {d₁ : Driver} {m m' : Master} {smmu' : SmmuDev} {w w' : World} {ok cd2l : Bool}
      (hk : attr.smmuIndex < d.numSmmus) (hb : (d.smmus attr.smmuIndex).base ≠ 0)
      (hl : Lookup pf attr.streamid d (some (i, m)) d₁)
      (hm : mapMaster pf (d.smmus attr.smmuIndex) cd2l attr pgt (m.bind attr) w = (ok, smmu', m', w')) {n : Node}
      (hn : n ∈ d₁.masters.modify i ({ · with master := m' })) {k : Nat} (hs : n.master.smmu = some k) :
      k < d.numSmmus ∧ (d.smmus k).base ≠ 0 := by
    rcases mem_modify hn with hn | ⟨n₁, _, rfl⟩
    case inl =>
      have hold := hl.attached ha n hn k hs
      rw [hl.numSmmus_eq.1, hl.smmus_eq] at hold
      exact hold
    case inr =>
      have ⟨_, _, _, hsid⟩ := hl.listed
      have hkey : m'.smmu = some (m.smmu.getD attr.smmuIndex) :=
        congrArg Prod.snd ((mapMaster_key hm).trans (bind_key hsid))
      have he : m.smmu.getD attr.smmuIndex = k := Option.some.inj (hkey.symm.trans hs)
      cases hb' : m.smmu
      case none =>
        rw [hb', Option.getD_none] at he
        exact he ▸ ⟨hk, hb⟩
      case some k' =>
        rw [hb', Option.getD_some] at he
        exact he ▸ ha.recordOf (hl.recordOf_eq ▸ hb')
  intro n hn k hs
  have ⟨hnum, hsame⟩ := h.sameBut
  have ⟨_, _, he⟩ := hsame k
  rw [hnum, he]
  cases h
  case rejected => exact ha n hn k hs
  case noRecord _ _ _ hl =>
    have ⟨_, w, hd⟩ := hl.no_record
    rw [hd] at hn
    exact ha n hn k hs
  case failed _ hk hb hl hm => exact mapped hk hb hl hm hn hs
  case done _ hk hb hl hm _ => exact mapped hk hb hl hm hn hs

theorem Unmaps.attached (ha : d.Attached) (h : Unmaps pf attr d d') : d'.Attached := by
  cases h
  case noRecord hl         => exact hl.attached ha
  case unused _ hl         => exact hl.attached ha
  case outOfRange _ _ hl   => exact hl.attached ha
  case done hl _ _ _ =>
    intro n hn k hs
    rcases mem_modify hn with hn | ⟨n₁, _, rfl⟩
    case inl => exact hl.attached ha n hn k hs
    case inr => cases hs

theorem Step.attached {c : Call} {status : Nat} (ha : d.Attached) (h : Step pf d c status d') : d'.Attached := by
  cases h
  case map h   => exact (map_cases h).attached ha
  case unmap h => exact (unmap_cases h).attached ha

-- What the unmap of a stream that is bound to an SMMU does.

theorem cdtabFree_mem {cd2l : Bool} {cfg : Stage1Config} {w : World} :
    (smmuCdtabFree cd2l cfg w).heap.mem = w.heap.mem := by
  have free {ps : List Nat} {w : World} : (ps.foldl (fun w p => w.valMemoryFree p) w).heap.mem = w.heap.mem := by
    induction ps generalizing w
    case nil          => rfl
    case cons p ps hi => exact hi.trans Heap.free_mem
  simp only [smmuCdtabFree]
  refine Heap.free_mem.trans ?_
  split
  case isTrue =>
    split
    case isTrue => rfl
    case isFalse =>
      rw [freeLeaves_eq]
      exact Heap.free_mem.trans free
  case isFalse => rfl

-- The record is the one that the last map has left.
theorem Unmaps.bound {i k : Nat} {m : Master} (h : Unmaps pf attr d d')
    (hl : Lookup pf attr.streamid d (some (i, m)) d) (hb : m.smmu = some k)
    (hr : sidInRange (d.smmus k) attr.streamid = true) :
    d' = { d.setMaster i .zero with world := d'.world } ∧
    ∃ fuel timedOut, smmuTlbiCfgi pf (d.smmus k).base (d.smmus k).cmdq (d.smmus k).supported.hyp fuel
      (smmuCdtabFree (d.smmus k).supported.cd2l m.stage1 (smmuStrtabWriteSte none
        ((d.smmus k).strtabCfg.strtab64 + attr.streamid * strtabSteDwords % 2 ^ 32 * 8) d.world)) =
      some (timedOut, d'.world) := by
  have same {i' : Nat} {m' : Master} {d₁ : Driver} (hl' : Lookup pf attr.streamid d (some (i', m')) d₁) :
      m' = m ∧ (m'.smmu = some k → i' = i ∧ d₁ = d) := by
    have he : m' = m := hl'.recordOf_eq.symm.trans hl.recordOf_eq
    refine ⟨he, fun hb' => ?_⟩
    rcases hl'.record with ⟨rfl, hs', n', hn', rfl, hfirst'⟩ | ⟨_, rfl, _⟩
    case inl =>
      rcases hl.record with ⟨_, hs, n, hn, rfl, hfirst⟩ | ⟨_, rfl, _⟩
      case inl =>
        -- Both are the first record of the stream.
        exact ⟨le_antisymm (not_lt.mp fun hlt => hfirst' i hlt n hn hs)
          (not_lt.mp fun hlt => hfirst i' hlt n' hn' hs'), rfl⟩
      case inr => cases hb
    case inr => cases hb'
  cases h
  case noRecord hl' =>
    have ⟨n, hn, hm, hs⟩ := hl.listed
    have hsid : m.sid = attr.streamid := hs.resolve_right fun hc => by simp [hc] at hb
    exact absurd (hm ▸ hsid) (hl'.no_record.left n (List.mem_of_getElem? hn))
  case unused hs hl' =>
    rw [(same hl').left, hb] at hs
    cases hs
  case outOfRange k' hs hr' hl' =>
    rw [(same hl').left, hb] at hs
    cases hs
    rw [hr] at hr'
    cases hr'
  case done k' d₁ fuel timedOut w' hl' hs hr' ht =>
    have ⟨he, hd⟩ := same hl'
    subst he
    have hk : k' = k := Option.some.inj (hs.symm.trans hb)
    subst hk
    obtain ⟨rfl, rfl⟩ := hd hs
    exact ⟨rfl, fuel, timedOut, ht⟩

-- An SMMU with a linear stream table: the words that the unmap changes are those of the abort entry, and
-- the slots of the queue.
theorem Unmaps.linear {i k : Nat} {m : Master} (h : Unmaps pf attr d d')
    (hl : Lookup pf attr.streamid d (some (i, m)) d) (hb : m.smmu = some k)
    (hr : sidInRange (d.smmus k) attr.streamid = true) (hn : (d.smmus k).supported.stLevel2lvl = false) {x : Nat}
    (hx : ¬QueueWords (d.smmus k).cmdq x) :
    d'.world.heap.mem x =
      (smmuStrtabWriteSte none (smmuStrtabGetSteForSid (d.smmus k) attr.streamid) d.world).heap.mem x := by
  have ⟨_, fuel, timedOut, ht⟩ := h.bound hl hb hr
  rw [tlbiCfgi_mem ht hx, cdtabFree_mem, linear_ste hn]

theorem writeSte_none_mem {w : World} {ste x : Nat} (h₀ : x ≠ ste) (h₁ : x ≠ ste + 8) (h₂ : x ≠ ste + 16) :
    (smmuStrtabWriteSte none ste w).heap.mem x = w.heap.mem x := by
  simp [smmuStrtabWriteSte, World.store, Heap.write, Memory.write, h₀, h₁, h₂]

-- The queue and the entries of a linear stream table are where they were after the initialisation, in blocks
-- of their own.
theorem linear_ste_not_queue {others : List Nat} {k sid x : Nat} {smmu : SmmuDev} (hkept : d.Kept others)
    (hplaced : d.Placed) (hk : k < d.numSmmus) (hb : (d.smmus k).base ≠ 0) (hf : SizesFit (d.smmus k))
    (hl : (d.smmus k).supported.stLevel2lvl = false) (hsame : (d.smmus k).SameBut smmu)
    (hr : sidInRange smmu sid = true) (hx : Inside (smmuStrtabGetSteForSid smmu sid, 64) x) :
    ¬QueueWords smmu.cmdq x := by
  intro hq
  have ⟨_, _, he⟩ := hsame
  have hste : (d.smmus k).HasSte sid := by
    refine ⟨?_, fun hc => by rw [hl] at hc; cases hc⟩
    have hlt := sidInRange_iff.mp hr
    rw [he] at hlt
    exact hlt
  rw [(hsame.ste hste).2] at hx
  rw [he] at hq
  have hu := (ste_in hplaced hk hb hf hste hx).unique hkept hplaced (queue_in hplaced hk hb hf hq)
  rw [Driver.steHandle, hl] at hu
  cases hu

end

-- After an unmap, the entry of the stream is the one that `smmu_strtab_write_ste` writes without a master,
-- and the only other words that have changed are in the queue. Of the data of the driver, which is kept beside
-- the memory, the record of the stream has been cleared and nothing else has changed.
structure UnmapsCleanly (k sid : Nat) (d d' : Driver) : Prop where
  entry  : entryAt d'.world.heap.mem (smmuStrtabGetSteForSid (d'.smmus k) sid) =
    (entryAt d.world.heap.mem (smmuStrtabGetSteForSid (d.smmus k) sid)).write none
  others : ∀ x, x ≠ smmuStrtabGetSteForSid (d.smmus k) sid → x ≠ smmuStrtabGetSteForSid (d.smmus k) sid + 8 →
    x ≠ smmuStrtabGetSteForSid (d.smmus k) sid + 16 → ¬QueueWords (d.smmus k).cmdq x →
    d'.world.heap.mem x = d.world.heap.mem x
  record : ∃ i n, d.masters[i]? = some n ∧ n.master.sid = sid ∧ d' = { d.setMaster i .zero with world := d'.world }

theorem map_unmap_linear {pf : Platform} {info : IovirtSmmuInfo} {fuel₀ fuel₁ fuel₂ status : Nat} {w₀ : World}
    {others : List Nat} {d₀ d d₁ d₂ : Driver} {hist : History} {attr : SmmuMasterAttributes} {pgt : PgtDescriptor}
    (ha : pf.alloc.Sound) (ho : w₀.Owns others) (hw : w₀.heap.Laid)
    (hi : valSmmuInit pf info fuel₀ (.boot w₀) = some (status, d₀))
    (hf : SizesFit (d₀.smmus attr.smmuIndex)) (hl : (d₀.smmus attr.smmuIndex).supported.stLevel2lvl = false)
    (hrun : Run pf (fun _ _ _ => True) d₀ hist d)
    (hbound : ∀ k, (d.recordOf attr.streamid).smmu = some k → k = attr.smmuIndex)
    (hmap : valSmmuMap pf fuel₁ attr pgt d = some (0, d₁)) (hunmap : valSmmuUnmap pf fuel₂ attr d₁ = some d₂) :
    UnmapsCleanly attr.smmuIndex attr.streamid d₁ d₂ := by
  have hmaps := map_cases hmap
  have ⟨d', i, m, smmu', m', w₁, w₂, w', hm⟩ := hmaps.mapping
  have hunmaps := unmap_cases hunmap
  have hsame : (d₀.smmus attr.smmuIndex).SameBut (d₁.smmus attr.smmuIndex) :=
    (hrun.sameBut.2 _).trans (hmaps.sameBut.2 _)
  have hnum : d₁.numSmmus = d₀.numSmmus := hmaps.sameBut.1.trans hrun.sameBut.1
  have ⟨_, hk, hb⟩ := hm.takes
  have hr : sidInRange (d₁.smmus attr.smmuIndex) attr.streamid = true := by
    have ⟨_, _, he⟩ := hmaps.sameBut.2 attr.smmuIndex
    rw [he]
    exact hm.range
  have hl₁ : (d₁.smmus attr.smmuIndex).supported.stLevel2lvl = false := by
    have ⟨_, _, he⟩ := hsame
    rw [he]
    exact hl
  have hrecord : m'.smmu = some attr.smmuIndex := hm.smmu_eq hbound
  have hkept := init_kept ha.fresh ho hi
  have hplaced := (init_driver_placed ha hw hi).1
  have hk₀ : attr.smmuIndex < d₀.numSmmus := hrun.sameBut.1 ▸ hk
  have hb₀ : (d₀.smmus attr.smmuIndex).base ≠ 0 := by
    have ⟨_, _, he'⟩ := hrun.sameBut.2 attr.smmuIndex
    rw [he'] at hb
    exact hb
  have hapart {x : Nat} (hx : Inside (smmuStrtabGetSteForSid (d₁.smmus attr.smmuIndex) attr.streamid, 64) x) :
      ¬QueueWords (d₁.smmus attr.smmuIndex).cmdq x :=
    linear_ste_not_queue hkept hplaced hk₀ hb₀ hf hl hsame hr hx
  have hmem := @Unmaps.linear pf d₁ d₂ attr i attr.smmuIndex m' hunmaps hm.found hrecord hr hl₁
  refine ⟨?_, ?_, ?_⟩
  · rw [hunmaps.smmus_eq.2, ← writeSte_entry]
    exact entryAt_congr fun x hx => hmem (hapart hx)
  · intro x h₀ h₁ h₂ hq
    rw [hmem hq, writeSte_none_mem h₀ h₁ h₂]
  · have ⟨n, hn, hnm, hs⟩ := hm.found.listed
    have hsid : m'.sid = attr.streamid := hs.resolve_right fun hc => by simp [hc] at hrecord
    exact ⟨i, n, hn, hnm ▸ hsid, (hunmaps.bound hm.found hrecord hr).1⟩

theorem map_unmap_linear_stream :
    ∃ d₀ d₁ d₂, valSmmuInit (topPlatform bootAnswers 100) oneCtrl 1 (.boot .start) = some (0, d₀) ∧
      valSmmuMap (topPlatform bootAnswers 100) 1 stage1Attr somePgt d₀ = some (0, d₁) ∧
      valSmmuUnmap (topPlatform bootAnswers 100) 1 stage1Attr d₁ = some d₂ ∧ UnmapsCleanly 0 5 d₁ d₂ := by
  have hrun : ((valSmmuInit (topPlatform bootAnswers 100) oneCtrl 1 (.boot .start)).bind fun r₀ =>
      (valSmmuMap (topPlatform bootAnswers 100) 1 stage1Attr somePgt r₀.2).bind fun r₁ =>
      (valSmmuUnmap (topPlatform bootAnswers 100) 1 stage1Attr r₁.2).map fun d₂ =>
        ([r₀.1, r₁.1, (r₀.2.smmus 0).cmdq.queue.log2nent, (r₀.2.smmus 0).sidBits],
          (r₀.2.smmus 0).supported.stLevel2lvl, (r₀.2.recordOf 5).smmu)) = some ([0, 0, 1, 4], false, none) := by
    decide +kernel
  have ⟨⟨s₀, d₀⟩, h₀, h⟩ := Option.bind_eq_some_iff.mp hrun
  have ⟨⟨s₁, d₁⟩, h₁, h⟩ := Option.bind_eq_some_iff.mp h
  have ⟨d₂, h₂, he⟩ := Option.map_eq_some_iff.mp h
  simp only [Prod.mk.injEq, List.cons.injEq, and_true] at he
  have ⟨⟨hs₀, hs₁, hq, hb⟩, hl, hr⟩ := he
  subst hs₀ hs₁
  have hf : SizesFit (d₀.smmus 0) := by
    rw [SizesFit, hq, hl, hb]
    decide
  have hw : World.start.Owns [] := ⟨.nil, List.nodup_nil, rfl⟩
  have hbound : ∀ k, (d₀.recordOf stage1Attr.streamid).smmu = some k → k = stage1Attr.smmuIndex := by
    intro k hk
    have : (d₀.recordOf stage1Attr.streamid).smmu = none := hr
    rw [this] at hk
    cases hk
  exact ⟨d₀, d₁, d₂, h₀, h₁, h₂,
    map_unmap_linear topPlatform_sound hw ⟨.nil, fun _ hm => by cases hm⟩ h₀ hf hl .nil hbound h₁ h₂⟩

-- The entry becomes the abort entry, and nothing else changes at all.
def ChangesOnlyEntry (k sid : Nat) (d d' : Driver) : Prop :=
  entryAt d'.world.heap.mem (smmuStrtabGetSteForSid (d'.smmus k) sid) =
      (entryAt d.world.heap.mem (smmuStrtabGetSteForSid (d.smmus k) sid)).write none ∧
    ∀ x, ¬Inside (smmuStrtabGetSteForSid (d.smmus k) sid, 64) x → d'.world.heap.mem x = d.world.heap.mem x

-- A stream table of two levels, for 9-bit stream ids.
def twoLevelAnswers : List Nat :=
  [0x0800000A, 0x200009, 5, 0, 8, 0, 1, 2, 3, 3, 9] ++ [3, 0, 1, 2, 2] ++ [2, 3, 0, 1, 1]

-- The commands of the unmap go into the queue. In a stream table of two levels, the entry stays as it is.
theorem unmap_changes_queue :
    (∃ d₀ d₁ d₂, valSmmuInit (topPlatform bootAnswers 100) oneCtrl 1 (.boot .start) = some (0, d₀) ∧
      valSmmuMap (topPlatform bootAnswers 100) 1 stage1Attr somePgt d₀ = some (0, d₁) ∧
      valSmmuUnmap (topPlatform bootAnswers 100) 1 stage1Attr d₁ = some d₂ ∧ ¬ChangesOnlyEntry 0 5 d₁ d₂) ∧
    (∃ d₀ d₁ d₂, valSmmuInit (topPlatform twoLevelAnswers 100) oneCtrl 1 (.boot .start) = some (0, d₀) ∧
      valSmmuMap (topPlatform twoLevelAnswers 100) 1 stage1Attr somePgt d₀ = some (0, d₁) ∧
      valSmmuUnmap (topPlatform twoLevelAnswers 100) 1 stage1Attr d₁ = some d₂ ∧ ¬ChangesOnlyEntry 0 5 d₁ d₂) := by
  constructor
  · have hrun : ((valSmmuInit (topPlatform bootAnswers 100) oneCtrl 1 (.boot .start)).bind fun r₀ =>
        (valSmmuMap (topPlatform bootAnswers 100) 1 stage1Attr somePgt r₀.2).bind fun r₁ =>
        (valSmmuUnmap (topPlatform bootAnswers 100) 1 stage1Attr r₁.2).map fun d₂ =>
          [r₀.1, r₁.1, smmuStrtabGetSteForSid (r₁.2.smmus 0) 5, r₁.2.world.heap.mem 8384, d₂.world.heap.mem 8384]) =
        some [0, 0, 13632, 48, 70] := by
      decide +kernel
    have ⟨⟨s₀, d₀⟩, h₀, h⟩ := Option.bind_eq_some_iff.mp hrun
    have ⟨⟨s₁, d₁⟩, h₁, h⟩ := Option.bind_eq_some_iff.mp h
    have ⟨d₂, h₂, he⟩ := Option.map_eq_some_iff.mp h
    simp only [List.cons.injEq, and_true] at he
    have ⟨hs₀, hs₁, hste, hm₁, hm₂⟩ := he
    subst hs₀ hs₁
    refine ⟨d₀, d₁, d₂, h₀, h₁, h₂, fun hc => ?_⟩
    have := hc.2 8384 fun hx => absurd hx.1 (by rw [hste]; decide)
    omega
  · have hrun : ((valSmmuInit (topPlatform twoLevelAnswers 100) oneCtrl 1 (.boot .start)).bind fun r₀ =>
        (valSmmuMap (topPlatform twoLevelAnswers 100) 1 stage1Attr somePgt r₀.2).bind fun r₁ =>
        (valSmmuUnmap (topPlatform twoLevelAnswers 100) 1 stage1Attr r₁.2).map fun d₂ =>
          [r₀.1, r₁.1, d₂.world.heap.mem (smmuStrtabGetSteForSid (d₂.smmus 0) 5)]) = some [0, 0, 66059] := by
      decide +kernel
    have ⟨⟨s₀, d₀⟩, h₀, h⟩ := Option.bind_eq_some_iff.mp hrun
    have ⟨⟨s₁, d₁⟩, h₁, h⟩ := Option.bind_eq_some_iff.mp h
    have ⟨d₂, h₂, he⟩ := Option.map_eq_some_iff.mp h
    simp only [List.cons.injEq, and_true] at he
    have ⟨hs₀, hs₁, hm⟩ := he
    subst hs₀ hs₁
    refine ⟨d₀, d₁, d₂, h₀, h₁, h₂, fun hc => ?_⟩
    have hword : d₂.world.heap.mem (smmuStrtabGetSteForSid (d₂.smmus 0) 5) = steAbort0 := congrFun hc.1 0
    rw [hm] at hword
    exact absurd hword (by decide)

end Smmu
