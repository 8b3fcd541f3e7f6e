import BsaAcs.Smmu.Theorems.ContextTables
import BsaAcs.Smmu.Theorems.History
import BsaAcs.Smmu.Theorems.Records

namespace Smmu

open Heap (Answers Frame Inside Tidy)

-- Where the words of the tables of context descriptors lie.

section

variable {d : Driver} {others : List Nat} {i b ssid x : Nat} {n : Node} {cfg : Stage1Config} {cd2l : Bool}
variable {live : List (Nat × Nat)}

theorem cdEntry_leaf (hf : cfg.s1fmt ≠ strtabSte0S1fmtLinear) :
    cdEntry cfg ssid = (cfg.cdcfg.l1Desc (ssid >>> cdtabSplit)).l2desc64 + 64 * (ssid % 2 ^ 10) := by
  have hm : ssid &&& (cdtabL2EntryCount - 1) = ssid % 2 ^ 10 := Nat.and_two_pow_sub_one_eq_mod ssid 10
  rw [cdEntry, if_neg hf, hm, cdtabCdDwords]
  omega

theorem cdEntry_linear (hp : cfg.Placed cd2l live) (hc : cfg.HasCd ssid) (hf : cfg.s1fmt = strtabSte0S1fmtLinear) :
    cdEntry cfg ssid = cfg.cdcfg.cdtab64 + 64 * ssid := by
  have ⟨hz, hlt, _⟩ := hc
  have ⟨hfit, _⟩ := hp.table hz
  have ht := (linear_iff hp hz).mp hf
  have ⟨_, hlt32⟩ := cdtabSize_eq hfit
  rw [cdtabLog, ht] at hlt32
  simp only [Bool.false_eq_true, if_false, Nat.pow_add] at hlt32
  rw [cdEntry, if_pos hf, cdtabCdDwords, Nat.mod_eq_of_lt (by omega)]
  omega

theorem Driver.Sane.separate (hs : d.Sane others) (hn : d.masters[i]? = some n) (hb : n.master.smmu = some b) :
    n.master.stage1.Separate := by
  have hp := hs.placed.nodes n (List.mem_of_getElem? hn) b hb
  constructor
  case cds =>
    intro ssid ssid' x hc hc' hx hx'
    have hu := (cd_in hs.kept hs.placed hn hb hc hx).unique hs.kept hs.placed (cd_in hs.kept hs.placed hn hb hc' hx')
    rw [cdHandle, cdHandle] at hu
    by_cases hf : n.master.stage1.s1fmt = strtabSte0S1fmtLinear
    case pos =>
      rw [cdEntry_linear hp hc hf] at hx
      rw [cdEntry_linear hp hc' hf] at hx'
      obtain ⟨_, _⟩ := hx
      obtain ⟨_, _⟩ := hx'
      simp only at *
      omega
    case neg =>
      rw [if_neg hf, if_neg hf] at hu
      injection hu with _ hj
      rw [cdEntry_leaf hf] at hx hx'
      rw [← hj] at hx'
      rw [Nat.shiftRight_eq_div_pow, Nat.shiftRight_eq_div_pow, cdtabSplit] at hj
      obtain ⟨_, _⟩ := hx
      obtain ⟨_, _⟩ := hx'
      simp only at *
      omega
  case level1 =>
    intro ssid ssid' hc hf hs' hx
    have hin := cd_in hs.kept hs.placed hn hb hc hx
    have hin' := cdL1Word_in hs.placed hn hb hc.1 hf hs'
    have hu := hin.unique hs.kept hs.placed hin'
    rw [cdHandle, if_neg hf] at hu
    cases hu

-- The words of the tables of a record are in its blocks.
theorem Driver.Sane.word_in (hs : d.Sane others) (hn : d.masters[i]? = some n) (hb : n.master.smmu = some b)
    (hx : n.master.stage1.Word x) : ∃ g : Handle, g.smmu = none ∧ g.position = some i ∧ d.In g x := by
  have ⟨hz, hw⟩ := hx
  rcases hw with ⟨hf, ssid, hlt, rfl⟩ | ⟨ssid, hc, hx⟩
  case inl => exact ⟨_, rfl, rfl, cdL1Word_in hs.placed hn hb hz hf hlt⟩
  case inr =>
    have hin := cd_in hs.kept hs.placed hn hb hc hx
    rw [cdHandle] at hin
    split at hin
    all_goals exact ⟨_, rfl, rfl, hin⟩

theorem Driver.In.node {g : Handle} (hn : d.masters[i]? = some n) (hg : g.position = some i) (hin : d.In g x) :
    d.InNode n x := by
  obtain ⟨hm, size, hlive, hx⟩ := hin
  refine ⟨_, hlive, ?_, hx⟩
  rw [Driver.blocks_eq hn]
  refine List.mem_map_of_mem ?_
  rcases List.mem_cons.mp hm with rfl | hm
  case inl => cases hg
  case inr =>
    rcases List.mem_append.mp hm with hm | hm
    case inl =>
      obtain ⟨k, _, hk⟩ := List.mem_flatMap.mp hm
      rw [Driver.smmuHandles] at hk
      split at hk
      case isTrue =>
        rw [List.mem_singleton] at hk
        subst hk
        cases hg
      case isFalse =>
        rcases List.mem_cons.mp hk with rfl | hk
        case inl => cases hg
        case inr =>
          split at hk
          case isTrue =>
            simp only [List.mem_append, List.mem_map, List.mem_cons, List.not_mem_nil, or_false] at hk
            rcases hk with ⟨j, _, rfl⟩ | rfl | rfl
            all_goals cases hg
          case isFalse =>
            rw [List.mem_singleton] at hk
            subst hk
            cases hg
    case inr =>
      obtain ⟨j, _, hj⟩ := List.mem_flatMap.mp hm
      have hpos : g.position = some j := by
        simp only [Driver.nodeHandles, List.mem_cons, List.mem_map] at hj
        rcases hj with rfl | rfl | rfl | rfl | ⟨_, _, rfl⟩
        all_goals rfl
      rw [hpos, Option.some.injEq] at hg
      exact hg ▸ hj

end

-- What happens before the tables of context descriptors.

section

variable {pf : Platform} {smmu smmu' : SmmuDev} {d d₁ : Driver} {attr : SmmuMasterAttributes} {pgt : PgtDescriptor}
variable {others : List Nat} {w w' w₁ : World} {m m' : Master} {ok cd2l : Bool} {i sid x : Nat} {r : Option (Nat × Master)}

theorem Lookup.tidy (ha : pf.alloc.Sound) (h : Lookup pf sid d (some (i, m)) d₁) : Tidy d.world.heap d₁.world.heap := by
  refine .of_frame (h.frame (S := fun _ => False) ha) fun x => .inl ?_
  rcases h.record with ⟨rfl, _⟩ | ⟨_, _, _, node, ptr, w₁, w₂, h₁, _, h₂, _, rfl⟩
  case inl => rfl
  case inr =>
    have hm₁ : w₁.heap.mem = d.world.heap.mem := (congrArg (·.2.heap.mem) h₁).symm
    have hm₂ : w₂.heap.mem = w₁.heap.mem := (congrArg (·.2.heap.mem) h₂).symm
    exact congrFun (hm₂.trans hm₁) x

theorem initLevel2_tidy {b : Nat × Nat} (ha : pf.alloc.Sound) (hb : b ∈ w.heap.live) (hx : Inside b (l1Word smmu sid))
    (h : smmuStrtabInitLevel2 pf smmu sid w = (ok, smmu', w')) : Tidy w.heap w'.heap := by
  have hsize : (1 <<< strtabSplit) * strtabSteDwords * bytesPerDword * 2 = 2 * 2 ^ 14 := rfl
  have hset : (1 <<< strtabSplit) * strtabSteDwords * bytesPerDword = 2 ^ 14 := rfl
  have hcount : 64 * (1 <<< strtabSplit) = 2 ^ 14 := rfl
  have hf := initLevel2_frame ha h
  refine .of_frame hf fun x => ?_
  simp only [smmuStrtabInitLevel2] at h
  split at h
  case isTrue =>
    cases h
    exact .inl rfl
  case isFalse =>
    rw [hsize] at h
    split at h
    case isTrue =>
      cases h
      exact .inl rfl
    case isFalse hp =>
      have hnew := (World.alloc_new ha hp).1
      have hfit := World.alloc_fits (w := w) ha (show 2 * 2 ^ 14 < 2 ^ 32 by decide)
      simp only [Prod.mk.injEq] at h
      obtain ⟨_, _, hm⟩ := h
      have hlive : w'.heap.live = (w.valMemoryAlloc pf (2 * 2 ^ 14)).2.heap.live := (level2Table_same.trans_eq hm).live
      by_cases hword : x = l1Word smmu sid
      case pos => exact .inr ⟨b, hf.live b hb, hword ▸ hx⟩
      case neg =>
        by_cases htable : Inside (alignToSize (w.valMemoryAlloc pf (2 * 2 ^ 14)).1 (2 ^ 14), 2 ^ 14) x
        case pos => exact .inr ⟨_, hlive ▸ hnew, aligned_inside hfit htable⟩
        case neg =>
          have hout : ¬Inside (alignToSize (w.valMemoryAlloc pf (2 * 2 ^ 14)).1 (2 ^ 14), 64 * (1 <<< strtabSplit)) x := by
            rw [hcount]
            exact htable
          rw [← hm, hset]
          exact .inl ((Memory.write_ne hword).trans ((abortStes_mem hout).trans (Memory.set_not_mem htable)))

-- The step of a map for the stream table.
variable {smmu₁ : SmmuDev}
variable (h2 : (if (d.smmus attr.smmuIndex).supported.stLevel2lvl
  then smmuStrtabInitLevel2 pf (d.smmus attr.smmuIndex) attr.streamid d₁.world
  else (true, d.smmus attr.smmuIndex, d₁.world)) = (ok, smmu₁, w₁))

include h2

theorem Lookup.level2_requests (h : Lookup pf attr.streamid d r d₁) :
    d.world.heap.requests.length ≤ w₁.heap.requests.length ∧
      w₁.heap.requests.length ≤ d.world.heap.requests.length + 3 := by
  have ⟨_, _⟩ := h.requests
  split at h2
  case isTrue =>
    have ⟨_, _⟩ := initLevel2_requests h2
    omega
  case isFalse =>
    cases h2
    omega

theorem Lookup.level2_tidy (ha : pf.alloc.Sound) (hs : d.Sane others) (ht : d.Takes attr)
    (hr : sidInRange (d.smmus attr.smmuIndex) attr.streamid = true) (h : Lookup pf attr.streamid d (some (i, m)) d₁) :
    Tidy d.world.heap w₁.heap := by
  have ht₁ := h.tidy ha
  split at h2
  case isTrue hl =>
    have ⟨_, hk, hb⟩ := ht
    have ⟨_, _, hlive, hx⟩ := l1Word_in hs.placed hk hb (hs.sized _ hk hb) hl ((hs.kept.ready _ hk hb).count hl).1
      (sidInRange_iff.mp hr)
    exact ht₁.trans (initLevel2_tidy ha (ht₁.live _ hlive) hx h2)
  case isFalse =>
    cases h2
    exact ht₁

-- The words of the records stay as they are.
theorem Lookup.level2_mem {g : Handle} (ha : pf.alloc.Sound) (hs : d.Sane others) (ht : d.Takes attr)
    (hr : sidInRange (d.smmus attr.smmuIndex) attr.streamid = true) (h : Lookup pf attr.streamid d r d₁)
    (hin : d.In g x) (hg : g.smmu = none) : w₁.heap.mem x = d.world.heap.mem x := by
  have ⟨_, _, hlive, hx⟩ := hin
  refine (h.level2_frame ha h2).mem _ hlive x hx fun hn => ?_
  have hu := hin.unique hs.kept hs.placed (failWord_in hs ⟨ht, hr, hn⟩).1
  rw [hu] at hg
  cases hg

end

-- The allocator answers the call with tables that the SMMU can reach, and in which no context descriptor is valid.
def Driver.TablesUsable (pf : Platform) (d : Driver) (attr : SmmuMasterAttributes) : Prop :=
  let bits := (d.target attr).ssidBits % 2 ^ 8
  ((d.target attr).stage1.cdcfg.cdtabPtr = 0 →
    Answers pf.alloc d.world.heap 6 (2 * 2 ^ cdtabLog (d.targetCd2l attr) bits)
      (Nameable (2 ^ cdtabLog (d.targetCd2l attr) bits))) ∧
  (twoLevel (d.targetCd2l attr) bits = true →
    ((d.target attr).stage1.cdcfg.l1Desc (attr.substreamid >>> cdtabSplit)).l2ptr = 0 →
    Answers pf.alloc d.world.heap 6 (2 * 2 ^ 16) (Blank d.world.heap.mem))

-- The part of a map for stage 1, up to the tables of context descriptors.
structure Tabling (pf : Platform) (attr : SmmuMasterAttributes) (pgt : PgtDescriptor) (d d₁ : Driver) (i : Nat) (m : Master)
    (ok : Bool) (stage1 : Stage1Config) (w₁ w₂ : World) : Prop where
  takes  : d.Takes attr
  stage  : attr.stage2 = 0
  lookup : Lookup pf attr.streamid d (some (i, m)) d₁
  range  : sidInRange (d.smmus attr.smmuIndex) attr.streamid = true
  level2 : ∃ smmu', (if (d.smmus attr.smmuIndex).supported.stLevel2lvl
      then smmuStrtabInitLevel2 pf (d.smmus attr.smmuIndex) attr.streamid d₁.world
      else (true, d.smmus attr.smmuIndex, d₁.world)) = (true, smmu', w₁)
  tables : mapStage1 pf (d.boundCd2l (m.bind attr) attr.smmuIndex) attr.substreamid (m.bind attr).ssidBits pgt
      (m.bind attr).stage1 w₁ = (ok, stage1, w₂)

section

variable {pf : Platform} {d d' d₁ : Driver} {attr : SmmuMasterAttributes} {pgt : PgtDescriptor} {others : List Nat}
variable {w w' w₁ w₂ : World} {m m' : Master} {smmu smmu' : SmmuDev} {ok cd2l : Bool} {i b : Nat} {stage1 : Stage1Config}
variable {s : Nat → Option PgtDescriptor}

-- What the driver has recorded of the stream that a call names, and what is in its tables.
structure Driver.Knows (d : Driver) (sid : Nat) (s : Nat → Option PgtDescriptor) : Prop where
  holds : (d.recordOf sid).smmu ≠ none → (d.recordOf sid).stage1.Holds d.world.heap.mem s
  empty : (d.recordOf sid).smmu = none → ∀ ssid, s ssid = none

-- The record that is looked up holds the substreams as long as the words of the records stay as they are.
theorem Driver.Knows.record {mem : Memory} (hk : d.Knows attr.streamid s) (hs : d.Sane others)
    (hl : Lookup pf attr.streamid d (some (i, m)) d₁)
    (hkeep : ∀ g x, d.In g x → g.smmu = none → mem x = d.world.heap.mem x) : m.stage1.Holds mem s := by
  have hrec := hl.recordOf_eq
  cases hm : m.smmu
  case none =>
    have hzero : m = .zero := hrec ▸ hs.kept.recordOf (hrec.symm ▸ hm)
    rw [hzero]
    exact .of_no_table rfl (fun _ => rfl) (hk.empty (hrec.symm ▸ hm))
  case some k =>
    have ⟨n, hn, he, _⟩ := recordOf_mem (hrec.symm ▸ hm)
    have ⟨idx, hidx⟩ := List.mem_iff_getElem?.mp hn
    have he : n.master = m := he.trans hrec
    have hold := hk.holds (by rw [hrec, hm]; exact nofun)
    rw [hrec] at hold
    refine hold.congr fun x hx => ?_
    have ⟨g, hg, _, hin⟩ := hs.word_in hidx (he ▸ hm) (he ▸ hx)
    exact hkeep g x hin hg

theorem Tabling.holds (ha : pf.alloc.Sound) (hs : d.Sane others) (hc : d.CallSafe pf (.map attr pgt))
    (hu : d.TablesUsable pf attr) (hb : Bits.slice 51 48 pgt.pgtBase = 0) (hk : d.Knows attr.streamid s)
    (h : Tabling pf attr pgt d d₁ i m ok stage1 w₁ w₂) (hsep : ok = true → stage1.Separate) :
    stage1.Holds w₂.heap.mem (if ok then Function.update s attr.substreamid (some pgt) else s) := by
  obtain ⟨smmu', h2⟩ := h.level2
  have hrec := h.lookup.recordOf_eq
  have hfit := h.lookup.fits hs (hc h.takes h.stage).2
  have ht := h.lookup.level2_tidy h2 ha hs h.takes h.range
  obtain ⟨hr, hr'⟩ := h.lookup.level2_requests h2
  obtain ⟨htable, hleaf⟩ := hu
  have hcd : d.targetCd2l attr = d.boundCd2l (m.bind attr) attr.smmuIndex := by
    rw [Driver.targetCd2l, Driver.target, hrec]
  rw [hcd, Driver.target, hrec] at htable hleaf
  have hh : (m.bind attr).stage1.Holds w₁.heap.mem s := by
    rw [bind_stage1]
    exact hk.record hs h.lookup fun g x hin hg => h.lookup.level2_mem h2 ha hs h.takes h.range hin hg
  obtain ⟨hp, hbits, hz⟩ : (m.bind attr).stage1.Placed (d.boundCd2l (m.bind attr) attr.smmuIndex) w₁.heap.live ∧
      ((m.bind attr).stage1.cdcfg.cdtabPtr ≠ 0 → (m.bind attr).stage1.s1cdmax = (m.bind attr).ssidBits % 2 ^ 8) ∧
      ((m.bind attr).stage1.cdcfg.cdtabPtr = 0 → ∀ j, ((m.bind attr).stage1.cdcfg.l1Desc j).l2ptr = 0) := by
    cases hm : m.smmu
    case none =>
      have hzero : m = .zero := hrec ▸ hs.kept.recordOf (hrec.symm ▸ hm)
      rw [bind_stage1, hzero]
      exact ⟨.zero, fun hc => absurd rfl hc, fun _ _ => rfl⟩
    case some k =>
      obtain ⟨n, hn, he, _⟩ := recordOf_mem (hrec.symm ▸ hm)
      have he : n.master = m := he.trans hrec
      have hbn : n.master.smmu = some k := he ▸ hm
      have hbind : m.bind attr = m := by simp [Master.bind, hm]
      have hbound : d.boundCd2l m attr.smmuIndex = (d.smmus k).supported.cd2l := by
        rw [Driver.boundCd2l, hm]
        rfl
      have hcdok := (hs.kept.nodes n hn).bound k hbn
      rw [hbind, hbound, ← he]
      refine ⟨(hs.placed.nodes n hn k hbn).mono ht.live, fun hn => hcdok.bits (.inl hn), ?_⟩
      exact fun hz => hcdok.leaf_zero (hs.whole n hn k hbn hz).1
  refine mapStage1_holds ha ht hp hfit hbits hz hh (hc h.takes h.stage).1 hb ?_ ?_ h.tables hsep
  · exact fun hn => (htable hn).later ht.live hr (by omega)
  · exact fun htwo hn => (hleaf htwo hn).later ht.live hr (by omega)

-- A map that fails leaves the tables of the record as they are, or gets as far as they.
theorem mapMaster_failing (hsid : m.sid = attr.streamid)
    (h : mapMaster pf smmu cd2l attr pgt m w = (false, smmu', m', w')) :
    m'.stage1 = m.stage1 ∨ attr.stage2 = 0 ∧ sidInRange smmu attr.streamid = true ∧ ∃ w₁,
      (if smmu.supported.stLevel2lvl then smmuStrtabInitLevel2 pf smmu attr.streamid w else (true, smmu, w)) =
        (true, smmu', w₁) ∧
      mapStage1 pf cd2l attr.substreamid m.ssidBits pgt m.stage1 w₁ = (false, m'.stage1, w') := by
  simp only [mapMaster] at h
  split at h
  case h_1 =>
    cases h
    exact .inl rfl
  case h_2 m₁ hsel =>
    have h₁ : m₁.sid = attr.streamid := (congrArg Prod.fst (selectStage_key hsel)).trans hsid
    have h₂ : m₁.stage1 = m.stage1 := by
      rcases selectStage_cases hsel with ⟨_, _, rfl⟩ | ⟨_, _, rfl⟩ <;> rfl
    split at h
    case isFalse =>
      cases h
      exact .inl h₂
    case isTrue hr =>
      split at h
      case h_2 => cases h
      case h_1 htab =>
        cases h
        simp only [mapTables] at htab
        rw [h₁] at htab
        split at htab
        case h_1 =>
          cases htab
          exact .inl h₂
        case h_2 w₁ he =>
          rcases selectStage_cases hsel with ⟨_, _, rfl⟩ | ⟨h1, _, rfl⟩
          case inl => cases htab
          case inr =>
            simp only at htab
            rcases hst : mapStage1 pf cd2l attr.substreamid m.ssidBits pgt m.stage1 w₁ with ⟨ok, stage1, w₂⟩
            rw [hst] at htab
            cases htab
            exact .inr ⟨h1, hr, w₁, he, hst⟩

end

-- The substreams of a stream that were mapped since its last unmap, with the descriptors of their last maps.
def History.substreams (sid : Nat) : History → Nat → Option PgtDescriptor
  | [] => fun _ => none
  | (.map attr pgt, status) :: hist =>
    if status = 0 ∧ attr.streamid = sid ∧ attr.stage2 = 0 then
      Function.update (substreams sid hist) attr.substreamid (some pgt)
    else substreams sid hist
  | (.unmap attr, _) :: hist => if attr.streamid = sid then fun _ => none else substreams sid hist

-- The calls for the `i`-th SMMU in which the tables of context descriptors can hold what the driver is asked for: a
-- stream with substreams finds its record again, the base of the table fits into the descriptor, and the allocator
-- does its part.
def Substreaming (pf : Platform) (i : Nat) (hist : History) (d : Driver) (c : Call) : Prop :=
  d.CallSafe pf c ∧ d.UnmapsLinear c ∧ c.smmuIndex = i ∧
    match c with
    | .map attr pgt => d.Takes attr →
      ((d.recordOf attr.streamid).smmu = none → ∀ ssid, hist.substreams attr.streamid ssid = none) ∧
      (attr.stage2 = 0 → Bits.slice 51 48 pgt.pgtBase = 0 ∧ d.TablesUsable pf attr)
    | .unmap _ => True

-- What holds along a run.
structure Carried (others : List Nat) (i : Nat) (hist : History) (d : Driver) : Prop where
  sane     : d.Sane others
  attached : d.Attached
  sole     : d.Sole i
  range    : ∀ sid ssid, hist.substreams sid ssid ≠ none → sidInRange (d.smmus i) sid = true
  holds    : ∀ sid, (d.recordOf sid).smmu ≠ none →
    (d.recordOf sid).stage1.Holds d.world.heap.mem (hist.substreams sid)

section

variable {pf : Platform} {d d' : Driver} {attr : SmmuMasterAttributes} {pgt : PgtDescriptor} {others : List Nat}
variable {hist : History} {status i sid sid' x : Nat} {s : Nat → Option PgtDescriptor} {c : Call}

theorem Driver.Sole.namesBound (h : d.Sole c.smmuIndex) : d.NamesBound c := by
  intro k hk
  have ⟨n, hn, he, _⟩ := recordOf_mem hk
  exact h.bound n hn k (he ▸ hk)

-- The words of a record that the call does not name.
theorem Confined.holds (h : Confined i sid' d d') (hs : d.Sane others) (hne : sid ≠ sid')
    (hb : (d.recordOf sid).smmu ≠ none) (hh : (d.recordOf sid).stage1.Holds d.world.heap.mem s) :
    (d.recordOf sid).stage1.Holds d'.world.heap.mem s := by
  have ⟨k, hk⟩ := Option.ne_none_iff_exists'.mp hb
  have ⟨n, hn, he, hsid⟩ := recordOf_mem hk
  have ⟨idx, hidx⟩ := List.mem_iff_getElem?.mp hn
  have hbn : n.master.smmu = some k := he ▸ hk
  have ⟨_, hkeep⟩ := h.contexts n hn k hbn fun hc => hne (hsid ▸ (Prod.mk.inj hc).2)
  refine hh.congr fun x hx => ?_
  have ⟨g, _, hg, hin⟩ := hs.word_in hidx hbn (he ▸ hx)
  exact (hkeep x (hin.node hidx hg)).2

-- The last steps of a map do not touch the tables of context descriptors.
theorem Mapping.word_last {d₁ : Driver} {idx : Nat} {m m' : Master} {smmu' : SmmuDev} {w₁ w₂ w' : World}
    (h : Mapping pf attr pgt d d' d₁ idx m smmu' m' w₁ w₂ w') (hs' : d'.Sane others) (hx : m'.stage1.Word x) :
    d'.world.heap.mem x = w₂.heap.mem x := by
  obtain ⟨hi', hsmmu, hbase'⟩ := h.target
  obtain ⟨n, hn, he, _⟩ := h.found.listed
  obtain ⟨g, hg, _, hin⟩ := hs'.word_in hn (he ▸ h.key.2) (he ▸ hx)
  have hqueue : ¬QueueWords smmu'.cmdq x := by
    intro hq
    have hu := hin.unique hs'.kept hs'.placed (queue_in hs'.placed hi' hbase' (hs'.sized _ hi' hbase') (hsmmu ▸ hq))
    rw [hu] at hg
    cases hg
  have hste : ¬Inside (smmuStrtabGetSteForSid smmu' attr.streamid, 64) x := by
    intro hx
    rw [← hsmmu] at hx
    have hu := hin.unique hs'.kept hs'.placed
      (ste_in hs'.placed hi' hbase' (hs'.sized _ hi' hbase') (hsmmu ▸ h.hasSte) hx)
    rw [hu, Driver.steHandle] at hg
    split at hg <;> cases hg
  obtain ⟨_, _, hq⟩ := h.queue
  rw [h.result]
  exact (tlbiCfgi_mem hq hqueue).trans (writeSte_mem hste)

-- The tables of the stream that a map names.
theorem Mapping.holds {d₁ : Driver} {idx : Nat} {m m' : Master} {smmu' : SmmuDev} {w₁ w₂ w' : World}
    (h : Mapping pf attr pgt d d' d₁ idx m smmu' m' w₁ w₂ w') (ha : pf.alloc.Sound) (hs : d.Sane others)
    (hc : d.CallSafe pf (.map attr pgt)) (hs' : d'.Sane others) (hk : d.Knows attr.streamid s)
    (hu : attr.stage2 = 0 → Bits.slice 51 48 pgt.pgtBase = 0 ∧ d.TablesUsable pf attr) :
    m'.stage1.Holds d'.world.heap.mem
      (if attr.stage2 = 0 then Function.update s attr.substreamid (some pgt) else s) := by
  have ⟨n', hn', he', _⟩ := h.found.listed
  refine @Stage1Config.Holds.congr w₂.heap.mem _ _ _ ?_ fun x hx => h.word_last hs' hx
  rcases h.tables with ⟨h2, hw, he⟩ | ⟨h1, stage1, hst, he⟩
  case inl =>
    rw [if_neg h2, hw]
    have hstage : m'.stage1 = m.stage1 := by
      rw [he]
      exact bind_stage1
    rw [hstage]
    exact hk.record hs h.lookup fun g x hin hg => h.lookup.level2_mem h.level2 ha hs h.takes h.range hin hg
  case inr =>
    rw [if_pos h1]
    have htab : Tabling pf attr pgt d d₁ idx m true stage1 w₁ w₂ :=
      ⟨h.takes, h1, h.lookup, h.range, ⟨_, h.level2⟩, hst⟩
    have hstage : m'.stage1 = stage1 := by rw [he]
    have hsep : stage1.Separate := hstage ▸ he' ▸ hs'.separate hn' (he' ▸ h.key.2)
    rw [hstage]
    exact htab.holds ha hs hc (hu h1).2 (hu h1).1 hk fun _ => hsep

theorem Maps.holds (ha : pf.alloc.Sound) (hs : d.Sane others) (hc : d.CallSafe pf (.map attr pgt))
    (hh : (d.recordOf attr.streamid).smmu ≠ none → (d.recordOf attr.streamid).stage1.Holds d.world.heap.mem s)
    (hu : d.Takes attr → ((d.recordOf attr.streamid).smmu = none → ∀ ssid, s ssid = none) ∧
      (attr.stage2 = 0 → Bits.slice 51 48 pgt.pgtBase = 0 ∧ d.TablesUsable pf attr))
    (h : Maps pf attr pgt d status d') (hb : (d'.recordOf attr.streamid).smmu ≠ none) :
    (d'.recordOf attr.streamid).stage1.Holds d'.world.heap.mem
      (if status = 0 ∧ attr.stage2 = 0 then Function.update s attr.substreamid (some pgt) else s) := by
  have hs' := h.sane ha hs hc
  by_cases hstatus : status = 0
  case pos =>
    subst hstatus
    obtain ⟨d₁, idx, m, smmu', m', w₁, w₂, w', hm⟩ := h.mapping
    obtain ⟨hempty, hu⟩ := hu hm.takes
    rw [hm.found.recordOf_eq]
    simp only [true_and]
    exact hm.holds ha hs hc hs' ⟨hh, hempty⟩ hu
  case neg =>
    rw [if_neg fun hc => hstatus hc.1]
    have hkeep (g : Handle) (x : Nat) (hin : d.In g x) (hg : g.smmu = none) : d'.world.heap.mem x = d.world.heap.mem x :=
      h.failed_mem_eq ha hs hc hstatus hin (by rw [hg]; exact (Option.some_ne_none _).symm)
    cases h
    case rejected => exact hh hb
    case noRecord hl =>
      obtain ⟨hn, w, hd⟩ := hl.no_record
      rw [hd] at hb
      have hzero : d.recordOf attr.streamid = .zero := Driver.recordOf_none hn
      exact absurd (congrArg Master.smmu hzero) hb
    case done => exact absurd rfl hstatus
    case failed idx m d₁ smmu' m' w' hg hi hbase hl hm =>
      have ht : d.Takes attr := ⟨hg, hi, hbase⟩
      obtain ⟨hempty, hu⟩ := hu ht
      have hk : d.Knows attr.streamid s := ⟨hh, hempty⟩
      obtain ⟨_, _, _, hsid⟩ := hl.listed
      have hkey : (m.bind attr).key = _ := bind_key hsid
      have hsid' : m'.sid = attr.streamid := (congrArg Prod.fst (mapMaster_key hm)).trans (congrArg Prod.fst hkey)
      rw [(hl.mapped hsid').recordOf_eq]
      rcases mapMaster_failing (congrArg Prod.fst hkey) hm with he | ⟨h1, hr, w₁, h2, htab⟩
      case inl =>
        rw [he, bind_stage1]
        exact hk.record hs hl hkeep
      case inr =>
        rw [Driver.boundCd2l, hl.smmus_eq] at htab
        have htab : Tabling pf attr pgt d d₁ idx m false m'.stage1 w₁ w' := ⟨ht, h1, hl, hr, ⟨_, h2⟩, htab⟩
        exact htab.holds ha hs hc (hu h1).2 (hu h1).1 hk Bool.noConfusion

theorem Carried.map (ha : pf.alloc.Sound) (hi : Carried others i hist d) (hk : Substreaming pf i hist d (.map attr pgt))
    (h : Maps pf attr pgt d status d') : Carried others i ((.map attr pgt, status) :: hist) d' := by
  have ⟨hc, _, hidx, hu⟩ := hk
  have hidx : attr.smmuIndex = i := hidx
  subst hidx
  have hb : d.NamesBound (.map attr pgt) := Driver.Sole.namesBound (c := .map attr pgt) hi.sole
  have ⟨_, hsame⟩ := h.sameBut
  refine ⟨h.sane ha hi.sane hc, h.attached hi.attached, h.sole hi.sole, ?_, ?_⟩
  · intro sid ssid hs
    have ⟨_, _, heq⟩ := hsame attr.smmuIndex
    rw [heq]
    rw [History.substreams] at hs
    split at hs
    case isFalse => exact hi.range sid ssid hs
    case isTrue hm =>
      have ⟨hz, hsid, _⟩ := hm
      subst hz hsid
      have ⟨_, _, _, _, _, _, _, _, hm⟩ := h.mapping
      exact hm.range
  · intro sid hs
    by_cases hne : sid = attr.streamid
    case pos =>
      subst hne
      have hh := h.holds ha hi.sane hc (hi.holds _) hu hs
      simp only [History.substreams, true_and]
      split at hh
      case isTrue hm  => exact (if_pos hm) ▸ hh
      case isFalse hm => exact (if_neg hm) ▸ hh
    case neg =>
      have hsub : History.substreams sid ((.map attr pgt, status) :: hist) = hist.substreams sid :=
        if_neg fun hc => hne hc.2.1.symm
      have hrec := h.recordOf_of_ne hne
      rw [hrec] at hs ⊢
      rw [hsub]
      exact (h.confined ha hi.sane hc hb).holds hi.sane hne hs (hi.holds sid hs)

theorem Carried.unmap (ha : pf.alloc.Sound) (hi : Carried others i hist d) (hk : Substreaming pf i hist d (.unmap attr))
    (h : Unmaps pf attr d d') : Carried others i ((.unmap attr, status) :: hist) d' := by
  have ⟨_, hl, hidx, _⟩ := hk
  have hidx : attr.smmuIndex = i := hidx
  subst hidx
  have hb : d.NamesBound (.unmap attr) := Driver.Sole.namesBound (c := .unmap attr) hi.sole
  refine ⟨h.sane ha hi.sane, h.attached hi.attached, h.sole hi.sole, ?_, ?_⟩
  · intro sid ssid hs
    rw [h.smmus_eq.2]
    rw [History.substreams] at hs
    split at hs
    case isTrue  => exact absurd rfl hs
    case isFalse => exact hi.range sid ssid hs
  · intro sid hs
    rw [History.substreams]
    by_cases hne : sid = attr.streamid
    case pos =>
      subst hne
      rw [if_pos rfl]
      rcases h.recordOf_self hi.sole (fun n hn => (hi.sane.kept.nodes n hn).unused) with he | ⟨k, hk, hr, rfl⟩
      case inl =>
        rw [he] at hs
        exact absurd rfl hs
      case inr =>
        -- A stream whose id is out of range has no substreams.
        have hnone : hist.substreams attr.streamid = fun _ => none := by
          funext ssid
          by_contra hc
          have hr' := hi.range _ ssid hc
          have hk' : k = attr.smmuIndex := hb k hk
          rw [← hk', hr] at hr'
          cases hr'
        rw [← hnone]
        exact hi.holds _ hs
    case neg =>
      rw [if_neg (Ne.symm hne)]
      rcases h.recordOf_of_ne hne with he | he
      case inr =>
        rw [he] at hs
        exact absurd rfl hs
      case inl =>
        rw [he] at hs ⊢
        exact (h.confined ha hi.sane hi.attached hl hb).holds hi.sane hne hs (hi.holds sid hs)

theorem Carried.step (ha : pf.alloc.Sound) (hi : Carried others i hist d) (hk : Substreaming pf i hist d c)
    (h : Step pf d c status d') : Carried others i ((c, status) :: hist) d' := by
  cases h
  case map h   => exact hi.map ha hk (map_cases h)
  case unmap h => exact hi.unmap ha hk (unmap_cases h)

end

-- The SMMU reaches the context descriptors that there are, and no others.
theorem Stage1Config.Holds.lookup {mem : Memory} {cfg : Stage1Config} {s : Nat → Option PgtDescriptor} {cd2l : Bool}
    {live : List (Nat × Nat)} {ste : Nat} (h : cfg.Holds mem s) (hp : cfg.Placed cd2l live)
    (hf : ∀ b ∈ live, b.1 + b.2 ≤ 2 ^ 64) (hn : cfg.cdcfg.cdtabPtr ≠ 0)
    (hw : mem ste = steStage1Word0 cfg.cdcfg.cdtabPhys cfg.s1cdmax cfg.s1fmt) (ssid : Nat) :
    (cfg.HasCd ssid → lookupCd mem ste ssid = some (cdEntry cfg ssid)) ∧
      (¬cfg.HasCd ssid → lookupCd mem ste ssid = none) := by
  obtain ⟨_, _, _, hphys, hfmt⟩ := hp.table hn
  obtain ⟨hd, hl⟩ := h.table hn
  have hfmt : cfg.s1fmt = strtabSte0S1fmtLinear ∨ cfg.s1fmt = strtabSte0S1fmt64kL2 := by
    rw [hfmt]
    split
    case isTrue  => exact .inr rfl
    case isFalse => exact .inl rfl
  rw [hphys] at hw
  rw [lookupCd_eq hd hl hfmt hw]
  by_cases hlt : ssid < 2 ^ (cfg.s1cdmax % 32)
  case neg =>
    rw [if_neg hlt]
    exact ⟨fun hc => absurd hc.2.1 hlt, fun _ => rfl⟩
  case pos =>
    rw [if_pos hlt]
    by_cases hlin : cfg.s1fmt = strtabSte0S1fmtLinear
    case pos =>
      have hc : cfg.HasCd ssid := ⟨hn, hlt, fun hc => absurd hlin hc⟩
      rw [if_pos hlin, cdEntry_linear hp hc hlin]
      exact ⟨fun _ => rfl, fun hc' => absurd hc hc'⟩
    case neg =>
      have hword : mem (cfg.cdcfg.cdtab64 + 8 * (ssid >>> cdtabSplit)) = cfg.level1 ssid := by
        rw [← h.level1 hn hlin ssid hlt, cdL1Word, cdtabL1DescDwords]
        congr 1
        omega
      rw [if_neg hlin, hword, Stage1Config.level1]
      by_cases hz : (cfg.cdcfg.l1Desc (ssid >>> cdtabSplit)).l2ptr = 0
      case pos =>
        rw [if_pos hz]
        exact ⟨fun hc => absurd hz (hc.2.2 hlin), fun _ => if_neg (by simp)⟩
      case neg =>
        have hc : cfg.HasCd ssid := ⟨hn, hlt, fun _ => hz⟩
        obtain ⟨hblock, haddr, hleaf⟩ := hp.leaf _ hz
        have hdvd : 2 ^ 12 ∣ (cfg.cdcfg.l1Desc (ssid >>> cdtabSplit)).l2descPhys := by
          rw [hleaf, haddr, alignToSize_eq (hf _ hblock)]
          exact Dvd.dvd.mul_left (Nat.pow_dvd_pow 2 (by decide)) _
        obtain ⟨hv, hs⟩ := cdtabL1Desc_eq hdvd (hleaf ▸ h.leaves _ hz)
        rw [if_neg hz, if_pos hv, hs, hleaf, cdEntry_leaf hlin, cdtabSplit]
        exact ⟨fun _ => rfl, fun hc' => absurd hc hc'⟩

-- The substreams as the SMMU sees them: a substream that is mapped has a valid descriptor that says what its last map
-- asked for, and a substream that is not mapped has no valid one.
def HoldsSubstreams (hist : History) (attr : SmmuMasterAttributes) (d : Driver) : Prop :=
  let ste := smmuStrtabGetSteForSid (d.smmus attr.smmuIndex) attr.streamid
  (∀ ssid pgt, hist.substreams attr.streamid ssid = some pgt → ∃ cd, lookupCd d.world.heap.mem ste ssid = some cd ∧
    cdValid d.world.heap.mem cd = true ∧ cdFields d.world.heap.mem cd = pgtFields pgt) ∧
  ∀ ssid, hist.substreams attr.streamid ssid = none → ∀ cd, lookupCd d.world.heap.mem ste ssid = some cd →
    cdValid d.world.heap.mem cd = false

section

variable {pf : Platform} {info : IovirtSmmuInfo} {fuel status status₀ i : Nat} {w₀ : World} {others : List Nat}
variable {d₀ d d' : Driver} {hist : History} {attr : SmmuMasterAttributes} {pgt : PgtDescriptor}

theorem Carried.holdsSubstreams (ha : pf.alloc.Sound) (hi : Carried others i hist d)
    (hk : Substreaming pf i hist d (.map attr pgt)) (h1 : attr.stage2 = 0) (h : Maps pf attr pgt d 0 d') :
    HoldsSubstreams ((.map attr pgt, 0) :: hist) attr d' := by
  have hi' := hi.map ha hk h
  have ⟨hc, _, hidx, _⟩ := hk
  have ⟨d₁, idx, m, smmu', m', w₁, w₂, w', hm⟩ := h.mapping
  have ⟨n, hn, he, _⟩ := hm.found.listed
  have hmem := List.mem_of_getElem? hn
  have hb : m'.smmu = some (m.smmu.getD attr.smmuIndex) := hm.key.2
  have hrec : d'.recordOf attr.streamid = m' := hm.found.recordOf_eq
  have hh := hi'.holds attr.streamid (by rw [hrec, hb]; exact nofun)
  have hp := hi'.sane.placed.nodes n hmem _ (he ▸ hb)
  rw [hrec] at hh
  rw [he] at hp
  have hhas := hm.hasCd hi.sane hc h1
  have hste : d'.world.heap.mem (smmuStrtabGetSteForSid (d'.smmus attr.smmuIndex) attr.streamid) =
      steStage1Word0 m'.stage1.cdcfg.cdtabPhys m'.stage1.s1cdmax m'.stage1.s1fmt := by
    have hconfig : m'.steConfig = .stage1 m'.stage1.cdcfg.cdtabPhys m'.stage1.s1cdmax m'.stage1.s1fmt := by
      rcases hm.tables with ⟨h2, _⟩ | ⟨_, _, _, he⟩
      case inl => exact absurd h1 h2
      case inr => rw [he]; rfl
    have hword := congrFun (hm.steOf_eq ha hi.sane hc hi'.sane) 0
    rw [hconfig] at hword
    exact hword
  have hlook := hh.lookup hp hi'.sane.placed.laid.fits hhas.1 hste
  refine ⟨fun ssid pgt' hs => ?_, fun ssid hs cd hcd => ?_⟩
  · have ⟨hc, hv, hfields⟩ := hh.mapped ssid pgt' hs
    exact ⟨_, (hlook ssid).1 hc, hv, hfields⟩
  · by_cases hc : m'.stage1.HasCd ssid
    case pos =>
      rw [(hlook ssid).1 hc, Option.some.injEq] at hcd
      rw [← hcd]
      exact hh.unmapped ssid hs hc
    case neg =>
      rw [(hlook ssid).2 hc] at hcd
      cases hcd

-- In every run of such calls, each map for stage 1 leaves the tables of its stream as the history asks for.
theorem substreams_hold (ha : pf.alloc.Sound) (ho : w₀.Owns others) (hw : w₀.heap.Laid)
    (hi : valSmmuInit pf info fuel (.boot w₀) = some (status₀, d₀)) (hz : d₀.Sized)
    (h : Run pf (Substreaming pf i) d₀ hist d) (hk : Substreaming pf i hist d (.map attr pgt)) (h1 : attr.stage2 = 0)
    (hst : Step pf d (.map attr pgt) 0 d') : HoldsSubstreams ((.map attr pgt, 0) :: hist) attr d' := by
  have hinv : Carried others i hist d := by
    refine h.invariant (I := Carried others i) ?_ fun hi hk hst => hi.step ha hk hst
    have hnone := (init_driver_placed ha hw hi).2
    have hrec (sid : Nat) : d₀.recordOf sid = .zero := Driver.recordOf_none fun n hn => by
      rw [hnone] at hn
      cases hn
    refine ⟨init_sane ha ho hw hz hi, ?_, ⟨?_, ?_⟩, fun _ _ hc => absurd rfl hc, ?_⟩
    · intro n hn
      rw [hnone] at hn
      cases hn
    · intro n hn
      rw [hnone] at hn
      cases hn
    · intro j j' n n' hn
      rw [hnone] at hn
      cases hn
    · intro sid hs
      rw [hrec] at hs
      exact absurd rfl hs
  cases hst
  case map h => exact hinv.holdsSubstreams ha hk h1 (map_cases h)

end

-- An allocator that hands out no memory above 2 ^ 40.
def lowPlatform (answers : List Nat) : Platform :=
  { topPlatform answers 100 with
    alloc := fun n live size =>
      let ptr := (topPlatform answers 100).alloc n live size
      if ptr + size ≤ 2 ^ 40 then ptr else 0 }

theorem lowPlatform_low {answers : List Nat} {n size : Nat} {live : List (Nat × Nat)}
    (h : (lowPlatform answers).alloc n live size ≠ 0) :
    (lowPlatform answers).alloc n live size = (topPlatform answers 100).alloc n live size ∧
      (lowPlatform answers).alloc n live size + size ≤ 2 ^ 40 := by
  simp only [lowPlatform] at h ⊢
  split at h
  case isTrue hle =>
    rw [if_pos hle]
    exact ⟨rfl, hle⟩
  case isFalse => exact absurd rfl h

theorem lowPlatform_sound {answers : List Nat} : (lowPlatform answers).alloc.Sound :=
  topPlatform_sound.of_less fun _ _ _ hn => (lowPlatform_low hn).1

theorem lowPlatform_nameable {answers : List Nat} {h : Heap} {n k : Nat} (hk : 6 ≤ k) :
    Answers (lowPlatform answers).alloc h n (2 * 2 ^ k) (Nameable (2 ^ k)) := by
  intro j live _ _ _ hn
  have ⟨_, hle⟩ := lowPlatform_low hn
  have hfit : (lowPlatform answers).alloc j live (2 * 2 ^ k) + 2 * 2 ^ k ≤ 2 ^ 64 := by omega
  have ⟨_, _⟩ := alignToSize_bounds hfit
  refine ⟨alignToSize_dvd hfit hk, ?_⟩
  omega

def pasidAttr (ssid ssidBits : Nat) : SmmuMasterAttributes :=
  { smmuIndex := 0, streamid := 5, substreamid := ssid, ssidBits := ssidBits, stage2 := 0 }

-- Two substreams live side by side in a linear table.
theorem two_substreams_hold :
    ∃ d₀ d₁ d₂, valSmmuInit (lowPlatform bootAnswers) oneCtrl 1 (.boot .start) = some (0, d₀) ∧
      Step (lowPlatform bootAnswers) d₀ (.map (pasidAttr 0 1) somePgt) 0 d₁ ∧
      Step (lowPlatform bootAnswers) d₁ (.map (pasidAttr 1 1) somePgt) 0 d₂ ∧
      HoldsSubstreams [(.map (pasidAttr 1 1) somePgt, 0), (.map (pasidAttr 0 1) somePgt, 0)] (pasidAttr 1 1) d₂ := by
  have hrun : ((valSmmuInit (lowPlatform bootAnswers) oneCtrl 1 (.boot .start)).bind fun r₀ =>
      (valSmmuMap (lowPlatform bootAnswers) 1 (pasidAttr 0 1) somePgt r₀.2).bind fun r₁ =>
      (valSmmuMap (lowPlatform bootAnswers) 1 (pasidAttr 1 1) somePgt r₁.2).map fun r₂ =>
        ([r₀.1, r₁.1, r₂.1, r₀.2.numSmmus, (r₀.2.smmus 0).cmdq.queue.log2nent, (r₀.2.smmus 0).sidBits,
            (r₀.2.target (pasidAttr 0 1)).ssidBits, (r₁.2.target (pasidAttr 1 1)).ssidBits],
          [(r₀.2.smmus 0).supported.stLevel2lvl, r₀.2.targetCd2l (pasidAttr 0 1), r₁.2.targetCd2l (pasidAttr 1 1)],
          (r₁.2.recordOf 5).smmu)) =
      some ([0, 0, 0, 1, 1, 4, 1, 1], [false, false, false], some 0) := by
    decide +kernel
  have ⟨⟨s₀, d₀⟩, h₀, h⟩ := Option.bind_eq_some_iff.mp hrun
  have ⟨⟨s₁, d₁⟩, h₁, h⟩ := Option.bind_eq_some_iff.mp h
  have ⟨⟨s₂, d₂⟩, h₂, he⟩ := Option.map_eq_some_iff.mp h
  simp only [Prod.mk.injEq, List.cons.injEq, and_true] at he
  have ⟨⟨hs₀, hs₁, hs₂, hn, hq, hb, hb₀, hb₁⟩, ⟨hl, hc₀, hc₁⟩, hr⟩ := he
  subst hs₀ hs₁ hs₂
  have hz : d₀.Sized := by
    intro k hk _
    rw [hn, Nat.lt_one_iff] at hk
    rw [hk, SizesFit, hq, hl, hb]
    decide
  have known {hist : History} {d : Driver} {ssid : Nat} (hb : (d.target (pasidAttr ssid 1)).ssidBits = 1)
      (hc : d.targetCd2l (pasidAttr ssid 1) = false) (hs : ssid < 2 ^ 31)
      (hr : (d.recordOf 5).smmu = none → ∀ ssid, hist.substreams 5 ssid = none) :
      Substreaming (lowPlatform bootAnswers) 0 hist d (.map (pasidAttr ssid 1) somePgt) := by
    have hsafe : d.CallSafe (lowPlatform bootAnswers) (.map (pasidAttr ssid 1) somePgt) := by
      intro _ _
      rw [hb, hc]
      exact ⟨hs, fun _ => ⟨.inl (by decide), fun ht => absurd ht (by decide)⟩⟩
    refine ⟨hsafe, trivial, rfl, fun _ => ⟨hr, fun _ => ⟨by decide, ?_, ?_⟩⟩⟩
    · intro _
      rw [hb, hc]
      exact lowPlatform_nameable (by decide)
    · rw [hb, hc]
      exact fun ht => absurd ht (by decide)
  have hw : World.start.Owns [] := ⟨.nil, List.nodup_nil, rfl⟩
  have k₀ : Substreaming (lowPlatform bootAnswers) 0 [] d₀ (.map (pasidAttr 0 1) somePgt) :=
    known hb₀ hc₀ (by decide) fun _ _ => rfl
  have k₁ : Substreaming (lowPlatform bootAnswers) 0 [(.map (pasidAttr 0 1) somePgt, 0)] d₁
      (.map (pasidAttr 1 1) somePgt) := by
    refine known hb₁ hc₁ (by decide) fun hc => ?_
    rw [hr] at hc
    cases hc
  exact ⟨d₀, d₁, d₂, h₀, .map h₁, .map h₂, substreams_hold lowPlatform_sound hw ⟨.nil, fun _ hm => by cases hm⟩ h₀ hz
    (.cons .nil k₀ (.map h₁)) k₁ rfl (.map h₂)⟩

-- A table of two levels: after an unmap, the new table of the second level still holds the descriptor of a substream
-- that was mapped before the unmap.
theorem old_substream_stays_valid :
    ∃ d₀ d₁ d₂ d₃ d₄, valSmmuInit (lowPlatform wideAnswers) oneCtrl 1 (.boot .start) = some (0, d₀) ∧
      Step (lowPlatform wideAnswers) d₀ (.map (pasidAttr 0 13) somePgt) 0 d₁ ∧
      Step (lowPlatform wideAnswers) d₁ (.map (pasidAttr 1 13) somePgt) 0 d₂ ∧
      Step (lowPlatform wideAnswers) d₂ (.unmap (pasidAttr 1 13)) 0 d₃ ∧
      Step (lowPlatform wideAnswers) d₃ (.map (pasidAttr 0 13) somePgt) 0 d₄ ∧
      ¬HoldsSubstreams [(.map (pasidAttr 0 13) somePgt, 0), (.unmap (pasidAttr 1 13), 0),
        (.map (pasidAttr 1 13) somePgt, 0), (.map (pasidAttr 0 13) somePgt, 0)] (pasidAttr 0 13) d₄ := by
  have hrun : ((valSmmuInit (lowPlatform wideAnswers) oneCtrl 1 (.boot .start)).bind fun r₀ =>
      (valSmmuMap (lowPlatform wideAnswers) 1 (pasidAttr 0 13) somePgt r₀.2).bind fun r₁ =>
      (valSmmuMap (lowPlatform wideAnswers) 1 (pasidAttr 1 13) somePgt r₁.2).bind fun r₂ =>
      (valSmmuUnmap (lowPlatform wideAnswers) 1 (pasidAttr 1 13) r₂.2).bind fun d₃ =>
      (valSmmuMap (lowPlatform wideAnswers) 1 (pasidAttr 0 13) somePgt d₃).map fun r₄ =>
        let ste := smmuStrtabGetSteForSid (r₄.2.smmus 0) 5
        ([r₀.1, r₁.1, r₂.1, r₄.1], lookupCd r₄.2.world.heap.mem ste 1, cdValid r₄.2.world.heap.mem 65600)) =
      some ([0, 0, 0, 0], some 65600, true) := by
    decide +kernel
  have ⟨⟨s₀, d₀⟩, h₀, h⟩ := Option.bind_eq_some_iff.mp hrun
  have ⟨⟨s₁, d₁⟩, h₁, h⟩ := Option.bind_eq_some_iff.mp h
  have ⟨⟨s₂, d₂⟩, h₂, h⟩ := Option.bind_eq_some_iff.mp h
  have ⟨d₃, h₃, h⟩ := Option.bind_eq_some_iff.mp h
  have ⟨⟨s₄, d₄⟩, h₄, he⟩ := Option.map_eq_some_iff.mp h
  simp only [Prod.mk.injEq, List.cons.injEq, and_true] at he
  have ⟨⟨hs₀, hs₁, hs₂, hs₄⟩, hcd, hv⟩ := he
  subst hs₀ hs₁ hs₂ hs₄
  refine ⟨d₀, d₁, d₂, d₃, d₄, h₀, .map h₁, .map h₂, .unmap h₃, .map h₄, fun hc => ?_⟩
  have hinvalid := hc.2 1 rfl 65600 hcd
  rw [hv] at hinvalid
  cases hinvalid

end Smmu
