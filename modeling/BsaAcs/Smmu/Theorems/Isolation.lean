import BsaAcs.Smmu.Theorems.Alike
import BsaAcs.Smmu.Theorems.Entries

namespace Smmu

open Heap (Frame Inside)

def Call.smmuIndex : Call → Nat
  | .map attr _ => attr.smmuIndex
  | .unmap attr => attr.smmuIndex

-- A word of the blocks of a record: its own and its tables of context descriptors.
def Driver.InNode (d : Driver) (n : Node) (x : Nat) : Prop :=
  ∃ b ∈ d.world.heap.live, b.1 ∈ n.blocks ∧ Inside b x

-- What a call that names the SMMU `i` and the stream `sid` leaves alone: the other SMMUs, the entries of all other
-- streams, the records of all other streams and their tables, and the queues and registers of the other SMMUs.
structure Confined (i sid : Nat) (d d' : Driver) : Prop where
  smmus    : ∀ k ≠ i, d'.smmus k = d.smmus k
  entries  : ∀ k < d.numSmmus, (d.smmus k).base ≠ 0 → ∀ s, (k, s) ≠ (i, sid) → d'.entry k s = d.entry k s
  contexts : ∀ n ∈ d.masters, ∀ k, n.master.smmu = some k → (k, n.master.sid) ≠ (i, sid) →
    n ∈ d'.masters ∧ ∀ x, d.InNode n x → d'.InNode n x ∧ d'.world.heap.mem x = d.world.heap.mem x
  queues   : ∀ k < d.numSmmus, (d.smmus k).base ≠ 0 → k ≠ i → ∀ x, QueueWords (d.smmus k).cmdq x →
    d'.world.heap.mem x = d.world.heap.mem x
  commands : ∃ l, d.world.Did d'.world l ∧ ∀ a ∈ l,
    a.address = (d.smmus i).base + cmdqProdOffset ∨ a.address = (d.smmus i).base + cmdqConsOffset

-- The call names the SMMU that the record of the stream is bound to, if it is bound.
def Driver.NamesBound (d : Driver) (c : Call) : Prop :=
  ∀ k, (d.recordOf c.streamid).smmu = some k → k = c.smmuIndex

-- Which SMMU or which record a block belongs to.

def Handle.smmu : Handle → Option Nat
  | .queue k | .level2 k _ | .level1 k | .strtab k => some k
  | _ => none

def Handle.position : Handle → Option Nat
  | .node i | .record i | .cdtab i | .cdLevel1 i | .leaf i _ => some i
  | _ => none

section

variable {pf : Platform} {w w' : World} {d d' : Driver}

-- The tables are made without an access to a register.

theorem initLevel2_trace {smmu : SmmuDev} {sid : Nat} : (smmuStrtabInitLevel2 pf smmu sid w).2.2.trace = w.trace := by
  simp only [smmuStrtabInitLevel2]
  split
  case isTrue => rfl
  case isFalse =>
    split
    case isTrue  => rfl
    case isFalse =>
      rw [World.store_trace, abortStes_trace]
      rfl

theorem getCtxDesc_trace {s1fmt ssid : Nat} {cdcfg : CdtabConfig} :
    (smmuCdtabGetCtxDesc pf s1fmt ssid cdcfg w).2.2.trace = w.trace := by
  have hleaf : (smmuCdtabAllocLeafTable pf w).2.trace = w.trace := by
    simp only [smmuCdtabAllocLeafTable]
    split <;> rfl
  simp only [smmuCdtabGetCtxDesc]
  split
  case isTrue => rfl
  case isFalse =>
    split
    case isTrue => rfl
    case isFalse =>
      split
      case isTrue => rfl
      case isFalse =>
        split
        case h_1 he => rw [← hleaf, he]
        case h_2 he =>
          rw [← hleaf, he]
          rfl

theorem cdtabWrite_trace {ssid : Nat} {cfg : Stage1Config} : (smmuCdtabWriteCtxDesc pf ssid cfg w).2.2.trace = w.trace := by
  have hget := @getCtxDesc_trace pf w cfg.s1fmt ssid cfg.cdcfg
  simp only [smmuCdtabWriteCtxDesc]
  split
  case isTrue => rfl
  case isFalse =>
    split
    case h_1 he => rw [← hget, he]
    case h_2 he =>
      rw [← hget, he]
      rfl

theorem cdtabAlloc_trace {cd2l : Bool} {cfg : Stage1Config} : (smmuCdtabAlloc pf cd2l cfg w).2.2.trace = w.trace := by
  have table {size : Nat} {cfg : Stage1Config} {w : World} : (cdtabAllocTable pf size cfg w).2.2.trace = w.trace := by
    simp only [cdtabAllocTable]
    split <;> rfl
  simp only [smmuCdtabAlloc]
  split
  case isTrue =>
    split
    case isTrue  => rfl
    case isFalse => exact table
  case isFalse => exact table

theorem mapStage1_trace {cd2l : Bool} {ssid ssidBits : Nat} {pgt : PgtDescriptor} {cfg : Stage1Config} :
    (mapStage1 pf cd2l ssid ssidBits pgt cfg w).2.2.trace = w.trace := by
  have htable : (if cfg.cdcfg.cdtabPtr = 0 then smmuCdtabAlloc pf cd2l { cfg with s1cdmax := ssidBits % 2 ^ 8 } w
      else (true, { cfg with s1cdmax := ssidBits % 2 ^ 8 }, w)).2.2.trace = w.trace := by
    split
    case isTrue  => exact cdtabAlloc_trace
    case isFalse => rfl
  simp only [mapStage1]
  split
  case h_1 he => rw [← htable, he]
  case h_2 he =>
    rw [← htable, he]
    exact cdtabWrite_trace

theorem mapTables_trace {smmu : SmmuDev} {cd2l : Bool} {pgt : PgtDescriptor} {m : Master} :
    (mapTables pf smmu cd2l pgt m w).2.2.2.trace = w.trace := by
  have hlevel : (if smmu.supported.stLevel2lvl then smmuStrtabInitLevel2 pf smmu m.sid w
      else (true, smmu, w)).2.2.trace = w.trace := by
    split
    case isTrue  => exact initLevel2_trace
    case isFalse => rfl
  simp only [mapTables]
  split
  case h_1 he => rw [← hlevel, he]
  case h_2 he =>
    rw [← hlevel, he]
    split
    case h_1 => rfl
    case h_2 => exact mapStage1_trace

theorem mapMaster_trace {smmu : SmmuDev} {cd2l : Bool} {attr : SmmuMasterAttributes} {pgt : PgtDescriptor} {m : Master} :
    (mapMaster pf smmu cd2l attr pgt m w).2.2.2.trace = w.trace := by
  simp only [mapMaster]
  split
  case h_1 => rfl
  case h_2 m₁ _ =>
    split
    case isFalse => rfl
    case isTrue =>
      have htables := @mapTables_trace pf w smmu cd2l pgt m₁
      split
      case h_1 he => rw [← htables, he]
      case h_2 he =>
        rw [← htables, he]
        exact writeSte_alike.trace

theorem cdtabFree_trace {cd2l : Bool} {cfg : Stage1Config} : (smmuCdtabFree cd2l cfg w).trace = w.trace := by
  have free {ps : List Nat} {w : World} : (ps.foldl (fun w p => w.valMemoryFree p) w).trace = w.trace := by
    induction ps generalizing w
    case nil          => rfl
    case cons p ps hi => exact hi
  change (if twoLevel cd2l cfg.s1cdmax then _ else _ : World).trace = w.trace
  split
  case isTrue =>
    split
    case isTrue => rfl
    case isFalse =>
      rw [freeLeaves_eq]
      exact free
  case isFalse => rfl

theorem Lookup.trace {sid : Nat} {r : Option (Nat × Master)} (h : Lookup pf sid d r d') : d'.world.trace = d.world.trace := by
  have alloc {size p : Nat} {w w' : World} (h : w.valMemoryAlloc pf size = (p, w')) : w'.trace = w.trace :=
    (congrArg (·.2.trace) h).symm
  cases h
  case found               => rfl
  case noNode _ h₁         => exact alloc h₁
  case noMaster _ h₁ _ h₂  => exact (alloc h₂).trans (alloc h₁)
  case created _ h₁ _ h₂ _ => exact (alloc h₂).trans (alloc h₁)

-- A call uses the queue of the SMMU that it names.

variable {attr : SmmuMasterAttributes} {pgt : PgtDescriptor}

theorem Maps.commands {status : Nat} (h : Maps pf attr pgt d status d') :
    ∃ l, d.world.Did d'.world l ∧ ∀ a ∈ l, a.address = (d.smmus attr.smmuIndex).base + cmdqProdOffset ∨
      a.address = (d.smmus attr.smmuIndex).base + cmdqConsOffset := by
  cases h
  case rejected          => exact ⟨[], .refl, by simp⟩
  case noRecord _ _ _ hl => exact ⟨[], .of_trace_eq hl.trace, by simp⟩
  case failed hl hm =>
    have htrace := congrArg (·.2.2.2.trace) hm
    exact ⟨[], .of_trace_eq ((htrace.symm.trans mapMaster_trace).trans hl.trace), by simp⟩
  case done smmu' _ w₁ _ _ w' _ _ _ hl hm ht =>
    have htrace : w₁.trace = d.world.trace :=
      ((congrArg (·.2.2.2.trace) hm).symm.trans mapMaster_trace).trans hl.trace
    have ⟨l, hd, ha⟩ := tlbiCfgi_did ht
    have hbase : smmu'.base = (d.smmus attr.smmuIndex).base := (mapMaster_sameBut hm).base_eq
    exact ⟨l, (World.Did.of_trace_eq htrace).trans hd, hbase ▸ ha⟩

theorem Unmaps.commands (hb : d.NamesBound (.unmap attr)) (h : Unmaps pf attr d d') :
    ∃ l, d.world.Did d'.world l ∧ ∀ a ∈ l, a.address = (d.smmus attr.smmuIndex).base + cmdqProdOffset ∨
      a.address = (d.smmus attr.smmuIndex).base + cmdqConsOffset := by
  cases h
  case noRecord hl       => exact ⟨[], .of_trace_eq hl.trace, by simp⟩
  case unused _ hl       => exact ⟨[], .of_trace_eq hl.trace, by simp⟩
  case outOfRange _ _ hl => exact ⟨[], .of_trace_eq hl.trace, by simp⟩
  case done k d₁ _ _ w' hl hm hr ht =>
    have hk : k = attr.smmuIndex := hb k (hl.recordOf_eq ▸ hm)
    subst hk
    have ⟨l, hd, ha⟩ := tlbiCfgi_did ht
    have htrace : d.world.Did d₁.world [] := .of_trace_eq hl.trace
    refine ⟨l, htrace.trans ?_, ha⟩
    exact (World.Did.of_trace_eq (cdtabFree_trace.trans writeSte_alike.trace)).trans hd

end

section

variable {pf : Platform} {d d' d₁ : Driver} {attr : SmmuMasterAttributes} {pgt : PgtDescriptor} {others : List Nat}
variable {i idx k x : Nat} {m m' : Master} {n : Node}

theorem Driver.InNode.handle (hn : d.masters[idx]? = some n) (hx : d.InNode n x) :
    ∃ g : Handle, g.smmu = none ∧ g.position = some idx ∧ d.In g x := by
  have ⟨b, hb, hp, hin⟩ := hx
  rw [Driver.blocks_eq hn] at hp
  have ⟨g, hg, he⟩ := List.mem_map.mp hp
  have hmem : g ∈ d.handles := by
    have ⟨hlt, _⟩ := List.getElem?_eq_some_iff.mp hn
    exact List.mem_cons_of_mem _ (List.mem_append_right _ (List.mem_flatMap.mpr ⟨idx, List.mem_range.mpr hlt, hg⟩))
  have hof : g.smmu = none ∧ g.position = some idx := by
    simp only [Driver.nodeHandles, List.mem_cons, List.mem_map] at hg
    rcases hg with rfl | rfl | rfl | rfl | ⟨j, _, rfl⟩
    all_goals exact ⟨rfl, rfl⟩
  refine ⟨g, hof.1, hof.2, hmem, b.2, ?_, ?_⟩
  all_goals
    rw [he]
    assumption

-- A record other than the one of the stream stays where it is or moves on by one place.
theorem Lookup.other {sid : Nat} (h : Lookup pf sid d (some (i, m)) d₁) (hn : d.masters[idx]? = some n)
    (hne : n.master.sid = sid → n.master.smmu ≠ m.smmu) : ∃ j ≠ i, d₁.masters[j]? = some n := by
  rcases h.record with ⟨rfl, hsid, n₁, hn₁, rfl, _⟩ | ⟨rfl, _, _, node, ptr, w₁, w₂, _, _, _, _, rfl⟩
  case inl =>
    refine ⟨idx, ?_, hn⟩
    rintro rfl
    cases hn₁.symm.trans hn
    exact hne hsid rfl
  case inr => exact ⟨idx + 1, Nat.succ_ne_zero idx, hn⟩

theorem getElem?_modify_of_ne {l : List Node} {f : Node → Node} {j : Nat} (hj : j ≠ i) (hn : l[j]? = some n) :
    (l.modify i f)[j]? = some n := by
  simp [hn, hj.symm]

-- The record that a call works with is the one of the SMMU and the stream that the call names.
theorem Lookup.other_of_bound {c : Call} (hb : d.NamesBound c) (h : Lookup pf c.streamid d (some (i, m)) d₁)
    (hn : d.masters[idx]? = some n) (hk : n.master.smmu = some k)
    (hne : (k, n.master.sid) ≠ (c.smmuIndex, c.streamid)) : ∃ j ≠ i, d₁.masters[j]? = some n := by
  refine h.other hn fun hsid hm => hne ?_
  rw [hb k (h.recordOf_eq ▸ hm ▸ hk), hsid]

-- The words that a successful map writes in blocks that are there before it belong to the SMMU that it names or
-- to the record of the stream.
theorem Mapping.mem_eq {smmu' : SmmuDev} {w₁ w₂ w' : World} (h : Mapping pf attr pgt d d' d₁ i m smmu' m' w₁ w₂ w')
    (ha : pf.alloc.Sound) (hs : d.Sane others) (hc : d.CallSafe pf (.map attr pgt)) (hs' : d'.Sane others)
    {g₀ g : Handle} (hin₀ : d.In g₀ x) (hin : d'.In g x) (h₀ : g₀.smmu ≠ some attr.smmuIndex)
    (h₁ : g.smmu ≠ some attr.smmuIndex) (h₂ : g.position ≠ some i) : d'.world.heap.mem x = d.world.heap.mem x := by
  have ⟨hi', hsmmu, hbase'⟩ := h.target
  have ⟨_, size, hlive, hins⟩ := hin₀
  have hlevel1 : ¬NewLevel2 (d.smmus attr.smmuIndex) attr.streamid x := by
    intro hx
    have hu := hin₀.unique hs.kept hs.placed (failWord_in hs ⟨h.takes, h.range, hx⟩).1
    exact h₀ (hu ▸ rfl)
  have hcd : ¬(attr.stage2 = 0 ∧ CdWords m'.stage1 attr.substreamid x) := by
    rintro ⟨h1, hx⟩
    have ⟨n, hn, hm, _⟩ := h.found.listed
    have hhas := h.hasCd hs hc h1
    have hbound := h.key.2
    rw [← hm] at hx hhas hbound
    rcases hs'.cdWords_in hn hbound hhas hx with hx | ⟨_, hx⟩
    all_goals exact h₂ (hin.unique hs'.kept hs'.placed hx ▸ rfl)
  have hste : ¬(Inside (smmuStrtabGetSteForSid smmu' attr.streamid, 64) x ∨ QueueWords smmu'.cmdq x) := by
    rw [← hsmmu]
    rintro (hx | hx)
    case inl =>
      have hu := hin.unique hs'.kept hs'.placed
        (ste_in hs'.placed hi' hbase' (hs'.sized _ hi' hbase') (hsmmu ▸ h.hasSte) hx)
      refine h₁ ?_
      rw [hu, Driver.steHandle]
      split <;> rfl
    case inr =>
      have hu := hin.unique hs'.kept hs'.placed (queue_in hs'.placed hi' hbase' (hs'.sized _ hi' hbase') hx)
      exact h₁ (hu ▸ rfl)
  have hlive₁ := (h.frame₁ ha).live _ hlive
  have hlive₂ := (h.frame₂ hs hc ha).live _ hlive₁
  rw [h.frame₃.mem _ hlive₂ x hins hste, (h.frame₂ hs hc ha).mem _ hlive₁ x hins hcd,
    (h.frame₁ ha).mem _ hlive x hins hlevel1]

theorem Mapping.live {smmu' : SmmuDev} {w₁ w₂ w' : World} (h : Mapping pf attr pgt d d' d₁ i m smmu' m' w₁ w₂ w')
    (ha : pf.alloc.Sound) (hs : d.Sane others) (hc : d.CallSafe pf (.map attr pgt)) :
    ∀ b ∈ d.world.heap.live, b ∈ d'.world.heap.live :=
  fun b hb => h.frame₃.live b ((h.frame₂ hs hc ha).live b ((h.frame₁ ha).live b hb))

theorem Driver.InNode.mono (hl : ∀ b ∈ d.world.heap.live, b ∈ d'.world.heap.live) (hx : d.InNode n x) : d'.InNode n x := by
  have ⟨b, hb, hp, hin⟩ := hx
  exact ⟨b, hl b hb, hp, hin⟩

-- The words of a failed map belong to the SMMU that it names.
theorem Maps.failed_mem_eq {status : Nat} (ha : pf.alloc.Sound) (hs : d.Sane others)
    (hc : d.CallSafe pf (.map attr pgt)) (hn : status ≠ 0) (h : Maps pf attr pgt d status d') {g : Handle}
    (hin : d.In g x) (hg : g.smmu ≠ some attr.smmuIndex) : d'.world.heap.mem x = d.world.heap.mem x := by
  have ⟨_, size, hlive, hins⟩ := hin
  refine (h.failed_frame ha hs hc hn).1.mem _ hlive x hins fun hx => hg ?_
  rw [hin.unique hs.kept hs.placed (failWord_in hs hx).1]
  rfl

theorem Maps.smmus_of_ne {status : Nat} (h : Maps pf attr pgt d status d') (hk : k ≠ attr.smmuIndex) :
    d'.smmus k = d.smmus k := by
  have mapped {d₁ : Driver} {r : Option (Nat × Master)} {i : Nat} {smmu' : SmmuDev} {m' : Master} {w' : World}
      (hl : Lookup pf attr.streamid d r d₁) : (d₁.mapped attr.smmuIndex i smmu' m' w').smmus k = d.smmus k :=
    (if_neg hk).trans (congrFun hl.smmus_eq k)
  cases h
  case rejected            => rfl
  case noRecord _ _ _ hl   => exact congrFun hl.smmus_eq k
  case failed _ _ _ hl _   => exact mapped hl
  case done _ _ _ hl _ _   => exact mapped hl

-- The record of another SMMU or another stream is still there after a map.
theorem Maps.other {status : Nat} (hb : d.NamesBound (.map attr pgt)) (h : Maps pf attr pgt d status d')
    (hn : d.masters[idx]? = some n) (hk : n.master.smmu = some k)
    (hne : (k, n.master.sid) ≠ (attr.smmuIndex, attr.streamid)) : n ∈ d'.masters := by
  cases h
  case rejected => exact List.mem_of_getElem? hn
  case noRecord _ _ _ hl =>
    have ⟨_, w, hd⟩ := hl.no_record
    rw [hd]
    exact List.mem_of_getElem? hn
  case failed _ _ _ hl _ =>
    have ⟨j, hj, hn₁⟩ := @Lookup.other_of_bound _ _ _ _ _ _ _ _ (.map attr pgt) hb hl hn hk hne
    exact List.mem_of_getElem? (getElem?_modify_of_ne hj hn₁)
  case done _ _ _ hl _ _ =>
    have ⟨j, hj, hn₁⟩ := @Lookup.other_of_bound _ _ _ _ _ _ _ _ (.map attr pgt) hb hl hn hk hne
    exact List.mem_of_getElem? (getElem?_modify_of_ne hj hn₁)

theorem Maps.confined {status : Nat} (ha : pf.alloc.Sound) (hs : d.Sane others) (hc : d.CallSafe pf (.map attr pgt))
    (hb : d.NamesBound (.map attr pgt)) (h : Maps pf attr pgt d status d') :
    Confined attr.smmuIndex attr.streamid d d' := by
  have hs' := h.sane ha hs hc
  have ⟨hnum, hsame⟩ := h.sameBut
  by_cases hstatus : status = 0
  case pos =>
    subst hstatus
    have ⟨d₁, i, m, smmu', m', w₁, w₂, w', hm⟩ := h.mapping
    refine ⟨fun k hk => h.smmus_of_ne hk, ?_, ?_, ?_, h.commands⟩
    · intro k hk hbase s hne
      rw [hm.entry_eq hs hc hs' ha hk hbase, if_neg]
      rintro ⟨rfl, rfl⟩
      exact hne rfl
    · intro n hn k hk hne
      have ⟨idx, hi⟩ := List.mem_iff_getElem?.mp hn
      refine ⟨h.other hb hi hk hne, fun x hx => ?_⟩
      have hx' : d'.InNode n x := hx.mono (hm.live ha hs hc)
      have ⟨j, hj, hn₁⟩ := @Lookup.other_of_bound _ _ _ _ _ _ _ _ (.map attr pgt) hb hm.lookup hi hk hne
      have hn' : d'.masters[j]? = some n := by
        rw [hm.result]
        exact getElem?_modify_of_ne hj hn₁
      have ⟨g₀, h₀, _, hin₀⟩ := hx.handle hi
      have ⟨g, h₁, h₂, hin⟩ := hx'.handle hn'
      refine ⟨hx', hm.mem_eq ha hs hc hs' hin₀ hin ?_ ?_ ?_⟩
      · rw [h₀]
        exact nofun
      · rw [h₁]
        exact nofun
      · rw [h₂]
        exact fun hc => hj (Option.some.inj hc)
    · intro k hk hbase hne x hx
      have hin := queue_in hs.placed hk hbase (hs.sized k hk hbase) hx
      have hk' : k < d'.numSmmus := hnum ▸ hk
      have he := h.smmus_of_ne hne
      have hbase' : (d'.smmus k).base ≠ 0 := he ▸ hbase
      have hin' := queue_in hs'.placed hk' hbase' (hs'.sized k hk' hbase') (he ▸ hx)
      have hof : (Handle.queue k).smmu ≠ some attr.smmuIndex := fun hc => hne (Option.some.inj hc)
      exact hm.mem_eq ha hs hc hs' hin hin' hof hof nofun
  case neg =>
    refine ⟨fun k hk => h.smmus_of_ne hk, ?_, ?_, ?_, h.commands⟩
    · intro k hk hbase s _
      exact h.failed_entry ha hs hc hstatus hk hbase
    · intro n hn k hk hne
      have ⟨idx, hi⟩ := List.mem_iff_getElem?.mp hn
      refine ⟨h.other hb hi hk hne, fun x hx => ?_⟩
      have ⟨g, h₀, _, hin⟩ := hx.handle hi
      refine ⟨hx.mono (h.failed_frame ha hs hc hstatus).1.live, h.failed_mem_eq ha hs hc hstatus hin ?_⟩
      rw [h₀]
      exact nofun
    · intro k hk hbase hne x hx
      have hin := queue_in hs.placed hk hbase (hs.sized k hk hbase) hx
      exact h.failed_mem_eq ha hs hc hstatus hin fun hc => hne (Option.some.inj hc)

-- The words that an unmap writes belong to the SMMU that the record is bound to.
theorem Unmaps.mem_eq (ha : pf.alloc.Sound) (hs : d.Sane others) (hat : d.Attached) (hu : d.UnmapsLinear (.unmap attr))
    (hb : d.NamesBound (.unmap attr)) (h : Unmaps pf attr d d') {g : Handle} (hin : d.In g x)
    (hg : g.smmu ≠ some attr.smmuIndex) : d'.world.heap.mem x = d.world.heap.mem x := by
  have ⟨_, size, hlive, hins⟩ := hin
  have keep {r : Option (Nat × Master)} {d₁ : Driver} (hl : Lookup pf attr.streamid d r d₁) :
      d₁.world.heap.mem x = d.world.heap.mem x :=
    (hl.frame (S := fun _ => False) ha).mem _ hlive x hins fun hf => hf
  cases h
  case noRecord hl       => exact keep hl
  case unused _ hl       => exact keep hl
  case outOfRange _ _ hl => exact keep hl
  case done k d₁ fuel timedOut w' hl hm hr ht =>
    have hbound : (d.recordOf attr.streamid).smmu = some k := hl.recordOf_eq ▸ hm
    have hk : k = attr.smmuIndex := hb k hbound
    subst hk
    have hlin := hu _ hbound hr
    have ⟨hk, hbase⟩ := hat.recordOf hbound
    have hqueue : ¬QueueWords (d.smmus attr.smmuIndex).cmdq x := by
      intro hx
      have he := hin.unique hs.kept hs.placed (queue_in hs.placed hk hbase (hs.sized _ hk hbase) hx)
      exact hg (he ▸ rfl)
    have hste : ¬Inside (smmuStrtabGetSteForSid (d.smmus attr.smmuIndex) attr.streamid, 64) x := by
      intro hx
      have he := hin.unique hs.kept hs.placed (ste_in hs.placed hk hbase (hs.sized _ hk hbase)
        (linear_hasSte hlin hr) hx)
      refine hg ?_
      rw [he, Driver.steHandle]
      split <;> rfl
    rw [← linear_ste hlin] at ht
    exact (tlbiCfgi_mem ht hqueue).trans ((congrFun cdtabFree_mem _).trans ((writeSte_mem hste).trans (keep hl)))

-- The record of another SMMU or another stream is still there after an unmap, with its tables.
theorem Unmaps.other (ha : pf.alloc.Sound) (hs : d.Sane others) (hb : d.NamesBound (.unmap attr))
    (h : Unmaps pf attr d d') (hn : d.masters[idx]? = some n) (hk : n.master.smmu = some k)
    (hne : (k, n.master.sid) ≠ (attr.smmuIndex, attr.streamid)) :
    n ∈ d'.masters ∧ ∀ x, d.InNode n x → d'.InNode n x := by
  have hs' := h.sane ha hs
  have keep {r : Option (Nat × Master)} {d₁ : Driver} (hl : Lookup pf attr.streamid d r d₁) (x : Nat) :
      d.InNode n x → d₁.InNode n x :=
    .mono (hl.frame (S := fun _ => False) ha).live
  have listed {i : Nat} {m : Master} {d₁ : Driver} (hl : Lookup pf attr.streamid d (some (i, m)) d₁) :
      ∃ j ≠ i, d₁.masters[j]? = some n :=
    @Lookup.other_of_bound _ _ _ _ _ _ _ _ (.unmap attr) hb hl hn hk hne
  cases h
  case noRecord hl =>
    have ⟨_, w, hd⟩ := hl.no_record
    refine ⟨?_, keep hl⟩
    rw [hd]
    exact List.mem_of_getElem? hn
  case unused hm hl =>
    have ⟨_, _, hj⟩ := listed hl
    exact ⟨List.mem_of_getElem? hj, keep hl⟩
  case outOfRange _ _ hm hr hl =>
    have ⟨_, _, hj⟩ := listed hl
    exact ⟨List.mem_of_getElem? hj, keep hl⟩
  case done i m k' d₁ fuel timedOut w' hl hm hr ht =>
    have ⟨j, hj, hn₁⟩ := listed hl
    have hmem : n ∈ (d₁.setMaster i .zero).masters := List.mem_of_getElem? (getElem?_modify_of_ne hj hn₁)
    refine ⟨hmem, fun x hx => ?_⟩
    have ⟨b, hlive, hp, hin⟩ := keep hl x hx
    have hsub : w'.heap.live.Sublist d₁.world.heap.live := by
      rw [(tlbiCfgi_same ht).live, ← (writeSte_same (w := d₁.world)).live]
      exact cdtabFree_sublist
    have hroot : b.1 ∈ Driver.roots { d₁.setMaster i .zero with world := w' } ++ others :=
      List.mem_append_left _ (List.mem_cons_of_mem _ (List.mem_append_right _ (List.mem_flatMap.mpr ⟨n, hmem, hp⟩)))
    exact ⟨b, Heap.Owns.mem_live (hl.kept ha.fresh hs.kept).owns hs'.kept.owns hsub hlive hroot, hp, hin⟩

theorem Unmaps.confined (ha : pf.alloc.Sound) (hs : d.Sane others) (hat : d.Attached)
    (hu : d.UnmapsLinear (.unmap attr)) (hb : d.NamesBound (.unmap attr)) (h : Unmaps pf attr d d') :
    Confined attr.smmuIndex attr.streamid d d' := by
  refine ⟨fun k _ => congrFun h.smmus_eq.2 k, ?_, ?_, ?_, h.commands hb⟩
  · intro k hk hbase s hne
    rw [h.entry_eq ha hs hat hu hk hbase, if_neg]
    rintro ⟨hc, _, rfl⟩
    exact hne (Prod.ext (hb k hc) rfl)
  · intro n hn k hk hne
    have ⟨idx, hi⟩ := List.mem_iff_getElem?.mp hn
    have ⟨hmem, hstay⟩ := h.other ha hs hb hi hk hne
    refine ⟨hmem, fun x hx => ⟨hstay x hx, ?_⟩⟩
    have ⟨g, h₀, _, hin⟩ := hx.handle hi
    refine h.mem_eq ha hs hat hu hb hin ?_
    rw [h₀]
    exact nofun
  · intro k hk hbase hne x hx
    have hin := queue_in hs.placed hk hbase (hs.sized k hk hbase) hx
    exact h.mem_eq ha hs hat hu hb hin fun hc => hne (Option.some.inj hc)

end

-- The calls of a run in which the streams of different SMMUs are kept apart.
def Isolating (pf : Platform) (_ : History) (d : Driver) (c : Call) : Prop :=
  d.CallSafe pf c ∧ d.UnmapsLinear c ∧ d.NamesBound c

section

variable {pf : Platform} {info : IovirtSmmuInfo} {fuel status status₀ : Nat} {w₀ : World} {others : List Nat}
variable {d₀ d d' : Driver} {hist : History} {c : Call}

theorem Step.confined (ha : pf.alloc.Sound) (hs : d.Sane others) (hat : d.Attached) (hk : Isolating pf hist d c)
    (h : Step pf d c status d') : Confined c.smmuIndex c.streamid d d' := by
  have ⟨hc, hu, hb⟩ := hk
  cases h
  case map h   => exact (map_cases h).confined ha hs hc hb
  case unmap h => exact (unmap_cases h).confined ha hs hat hu hb

-- In every run of such calls, each of them is confined to the SMMU and the stream that it names, and whether a map
-- succeeds does not depend on the state of the other SMMUs.
theorem calls_confined (ha : pf.alloc.Sound) (ho : w₀.Owns others) (hw : w₀.heap.Laid)
    (hi : valSmmuInit pf info fuel (.boot w₀) = some (status₀, d₀)) (hz : d₀.Sized)
    (h : Run pf (Isolating pf) d₀ hist d) (hk : Isolating pf hist d c) (hst : Step pf d c status d') :
    Confined c.smmuIndex c.streamid d d' ∧
      ∀ attr pgt, c = .map attr pgt → ∀ e, d.AgreesFor attr e → ∀ fuel,
        (valSmmuMap pf fuel attr pgt e).map Prod.fst = (valSmmuMap pf fuel attr pgt d).map Prod.fst := by
  have hinv : d.Sane others ∧ d.Attached := by
    refine h.invariant (I := fun _ d => d.Sane others ∧ d.Attached) ⟨init_sane ha ho hw hz hi, ?_⟩ ?_
    · intro n hn
      rw [(init_driver_placed ha hw hi).2] at hn
      cases hn
    · intro hist d c status d' hinv hk hst
      exact ⟨hst.sane ha hinv.1 hk.1, hst.attached hinv.2⟩
  refine ⟨hst.confined ha hinv.1 hinv.2 hk, ?_⟩
  rintro attr pgt rfl e he fuel
  exact map_status_alike he hk.2.2

end

-- Two SMMUs of the same kind.
def twoCtrl : IovirtSmmuInfo :=
  { numCtrl := 2, archMajorRev := fun _ => 3, ctrlBase := fun i => 0x2b400000 + i * 0x100000 }

def twoAnswers : List Nat :=
  [0xA, 0x200004, 5, 0, 8, 0, 1, 2, 3, 3, 9] ++ [0xA, 0x200004, 5, 0, 8, 0, 1, 2, 3, 3, 9] ++ [3, 0, 1, 2, 2] ++
    [3, 0, 1, 2, 2] ++ [2, 3, 0, 1, 1]

def pairAttr (i sid : Nat) : SmmuMasterAttributes :=
  { stage1Attr with smmuIndex := i, streamid := sid }

-- Stream 5 is mapped in the first SMMU and stream 6 in the second.
theorem two_streams_confined :
    ∃ d₀ d₁ d₂, valSmmuInit (topPlatform twoAnswers 100) twoCtrl 1 (.boot .start) = some (0, d₀) ∧
      Step (topPlatform twoAnswers 100) d₀ (.map (pairAttr 0 5) somePgt) 0 d₁ ∧
      Step (topPlatform twoAnswers 100) d₁ (.map (pairAttr 1 6) somePgt) 0 d₂ ∧ Confined 1 6 d₁ d₂ := by
  have hrun : ((valSmmuInit (topPlatform twoAnswers 100) twoCtrl 1 (.boot .start)).bind fun r₀ =>
      (valSmmuMap (topPlatform twoAnswers 100) 1 (pairAttr 0 5) somePgt r₀.2).bind fun r₁ =>
      (valSmmuMap (topPlatform twoAnswers 100) 1 (pairAttr 1 6) somePgt r₁.2).map fun r₂ =>
        ([r₀.1, r₁.1, r₂.1, (r₀.2.target (pairAttr 0 5)).ssidBits, (r₁.2.target (pairAttr 1 6)).ssidBits, r₀.2.numSmmus,
            (r₀.2.smmus 0).cmdq.queue.log2nent, (r₀.2.smmus 0).sidBits, (r₀.2.smmus 1).cmdq.queue.log2nent,
            (r₀.2.smmus 1).sidBits],
          [(r₀.2.smmus 0).supported.stLevel2lvl, (r₀.2.smmus 1).supported.stLevel2lvl, r₀.2.targetCd2l (pairAttr 0 5),
            r₁.2.targetCd2l (pairAttr 1 6)],
          [(r₀.2.recordOf 5).smmu, (r₁.2.recordOf 6).smmu])) =
      some ([0, 0, 0, 0, 0, 2, 1, 4, 1, 4], [false, false, false, false], [none, none]) := by
    decide +kernel
  have ⟨⟨s₀, d₀⟩, h₀, h⟩ := Option.bind_eq_some_iff.mp hrun
  have ⟨⟨s₁, d₁⟩, h₁, h⟩ := Option.bind_eq_some_iff.mp h
  have ⟨⟨s₂, d₂⟩, h₂, he⟩ := Option.map_eq_some_iff.mp h
  simp only [Prod.mk.injEq, List.cons.injEq, and_true] at he
  have ⟨⟨hs₀, hs₁, hs₂, hb₀, hb₁, hn, hq₀, hsid₀, hq₁, hsid₁⟩, ⟨hl₀, hl₁, hc₀, hc₁⟩, hr₀, hr₁⟩ := he
  subst hs₀ hs₁ hs₂
  have hz : d₀.Sized := by
    intro k hk _
    rw [hn] at hk
    have hk : k = 0 ∨ k = 1 := by omega
    rcases hk with rfl | rfl
    case inl =>
      rw [SizesFit, hq₀, hl₀, hsid₀]
      decide
    case inr =>
      rw [SizesFit, hq₁, hl₁, hsid₁]
      decide
  have isolating {hist : History} {d : Driver} {i sid : Nat} (hb : (d.target (pairAttr i sid)).ssidBits = 0)
      (hc : d.targetCd2l (pairAttr i sid) = false) (hr : (d.recordOf sid).smmu = none) :
      Isolating (topPlatform twoAnswers 100) hist d (.map (pairAttr i sid) somePgt) := by
    refine ⟨fun _ _ => ?_, trivial, fun k hk => ?_⟩
    · rw [hb, hc]
      exact ⟨(by decide : (0 : Nat) < 2 ^ 31), fun _ => ⟨.inl (by decide), fun ht => absurd ht (by decide)⟩⟩
    · have hk : (d.recordOf sid).smmu = some k := hk
      rw [hr] at hk
      cases hk
  have hw : World.start.Owns [] := ⟨.nil, List.nodup_nil, rfl⟩
  exact ⟨d₀, d₁, d₂, h₀, .map h₁, .map h₂, (calls_confined topPlatform_sound hw ⟨.nil, fun _ hm => by cases hm⟩ h₀ hz
    (.cons .nil (isolating hb₀ hc₀ hr₀) (.map h₁)) (isolating hb₁ hc₁ hr₁) (.map h₂)).1⟩

-- Stream 5 is mapped in both SMMUs, and the unmap for the second SMMU takes it away in the first one.
theorem unmap_hits_other_smmu :
    ∃ d₀ d₁ d₂ d₃, valSmmuInit (topPlatform twoAnswers 100) twoCtrl 1 (.boot .start) = some (0, d₀) ∧
      Step (topPlatform twoAnswers 100) d₀ (.map (pairAttr 0 5) somePgt) 0 d₁ ∧
      Step (topPlatform twoAnswers 100) d₁ (.map (pairAttr 1 5) somePgt) 0 d₂ ∧
      Step (topPlatform twoAnswers 100) d₂ (.unmap (pairAttr 1 5)) 0 d₃ ∧ ¬Confined 1 5 d₂ d₃ := by
  have hrun : ((valSmmuInit (topPlatform twoAnswers 100) twoCtrl 1 (.boot .start)).bind fun r₀ =>
      (valSmmuMap (topPlatform twoAnswers 100) 1 (pairAttr 0 5) somePgt r₀.2).bind fun r₁ =>
      (valSmmuMap (topPlatform twoAnswers 100) 1 (pairAttr 1 5) somePgt r₁.2).bind fun r₂ =>
      (valSmmuUnmap (topPlatform twoAnswers 100) 1 (pairAttr 1 5) r₂.2).map fun d₃ =>
        [r₀.1, r₁.1, r₂.1, r₂.2.numSmmus, (r₂.2.smmus 0).base, r₂.2.entry 0 5 0, d₃.entry 0 5 0]) =
      some [0, 0, 0, 2, 0x2b400000, 37515, 1] := by
    decide +kernel
  have ⟨⟨s₀, d₀⟩, h₀, h⟩ := Option.bind_eq_some_iff.mp hrun
  have ⟨⟨s₁, d₁⟩, h₁, h⟩ := Option.bind_eq_some_iff.mp h
  have ⟨⟨s₂, d₂⟩, h₂, h⟩ := Option.bind_eq_some_iff.mp h
  have ⟨d₃, h₃, he⟩ := Option.map_eq_some_iff.mp h
  simp only [List.cons.injEq, and_true] at he
  have ⟨hs₀, hs₁, hs₂, hn, hbase, he₂, he₃⟩ := he
  subst hs₀ hs₁ hs₂
  refine ⟨d₀, d₁, d₂, d₃, h₀, .map h₁, .map h₂, .unmap h₃, fun hc => ?_⟩
  have hsame := congrFun (hc.entries 0 (hn ▸ by decide) (hbase ▸ by decide) 5 (by decide)) 0
  rw [he₂, he₃] at hsame
  cases hsame

end Smmu
