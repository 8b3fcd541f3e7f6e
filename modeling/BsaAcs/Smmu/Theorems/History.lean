import BsaAcs.Smmu.Theorems.Entries

namespace Smmu

open Heap (Frame Inside)

-- What is left of earlier mappings in the entry of a stream.

namespace History

-- The stream was mapped with stage 2 at some time.
def Stage2Mapped (k sid : Nat) (hist : History) : Prop :=
  ∃ attr pgt, (.map attr pgt, 0) ∈ hist ∧ attr.smmuIndex = k ∧ attr.streamid = sid ∧ attr.stage2 ≠ 0

-- The stream was mapped with stage 1 after its last unmap.
def Stage1Since (k sid : Nat) : History → Prop
  | [] => False
  | (.map attr _, status) :: hist =>
    (status = 0 ∧ attr.smmuIndex = k ∧ attr.streamid = sid ∧ attr.stage2 = 0) ∨ Stage1Since k sid hist
  | (.unmap attr, _) :: hist => attr.streamid ≠ sid ∧ Stage1Since k sid hist

variable {hist : History} {k sid status : Nat} {c : Call}

theorem Stage2Mapped.cons (h : hist.Stage2Mapped k sid) : Stage2Mapped k sid ((c, status) :: hist) := by
  have ⟨attr, pgt, hm, he⟩ := h
  exact ⟨attr, pgt, List.mem_cons_of_mem _ hm, he⟩

end History

namespace Entry

-- Nothing but the fields of the last mapping is in the entry.

structure NoStage2 (e : Entry) : Prop where
  word2 : e 2 = 0
  word3 : e 3 = 0

structure NoStage1 (e : Entry) : Prop where
  s1fmt        : strtabSte0S1fmt.get (e 0) = 0
  s1contextptr : Bits.slice 51 6 (e 0) = 0
  s1cdmax      : strtabSte0S1cdmax.get (e 0) = 0
  s1dss        : strtabSte1S1dss.get (e 1) = 0
  s1cir        : strtabSte1S1cir.get (e 1) = 0
  s1cor        : strtabSte1S1cor.get (e 1) = 0
  s1csh        : strtabSte1S1csh.get (e 1) = 0

-- The entries differ in the pointer to the table of context descriptors at most.
structure SameButPointer (e e' : Entry) : Prop where
  word0 : ∀ i, ¬(6 ≤ i ∧ i ≤ 51) → (e 0).testBit i = (e' 0).testBit i
  words : ∀ i ≠ 0, e i = e' i

-- The entry that a map makes of one that aborts.

def stage1 (cdtabPhys s1cdmax : Nat) (cd2l : Bool) : Entry :=
  fun
  | 0 => steStage1Word0 cdtabPhys s1cdmax (if twoLevel cd2l s1cdmax then strtabSte0S1fmt64kL2 else strtabSte0S1fmtLinear)
  | 1 => steStage1Word1
  | _ => 0

def stage2 (pgt : PgtDescriptor) : Entry :=
  fun
  | 0 => steStage2Word0
  | 1 => steStage2Word1 steAbort1
  | 2 => steStage2Word2 (stage2Config pgt)
  | 3 => steStage2Word3 (stage2Config pgt)
  | _ => 0

variable {pgt : PgtDescriptor} {p p' s1cdmax : Nat} {cd2l : Bool}

theorem stage1_noStage2 : (stage1 p s1cdmax cd2l).NoStage2 :=
  ⟨rfl, rfl⟩

theorem stage2_noStage1 : (stage2 pgt).NoStage1 := by
  have h₀ : stage2 pgt 0 = steStage2Word0 := rfl
  have h₁ : stage2 pgt 1 = steStage2Word1 steAbort1 := rfl
  constructor
  case s1fmt | s1contextptr | s1cdmax =>
    rw [h₀]
    decide
  all_goals
    rw [h₁]
    decide

theorem stage1_sameButPointer (h : 64 ∣ p) (h' : 64 ∣ p') :
    SameButPointer (stage1 p s1cdmax cd2l) (stage1 p' s1cdmax cd2l) := by
  have bits {s1fmt p i : Nat} (h : 64 ∣ p) (hi : ¬(6 ≤ i ∧ i ≤ 51)) :
      (steStage1Word0 p s1cdmax s1fmt).testBit i = (AddressField.rest (.s1ContextPtr s1cdmax s1fmt)).testBit i := by
    have hw : steStage1Word0 p s1cdmax s1fmt = (AddressField.s1ContextPtr s1cdmax s1fmt).word p := rfl
    have hin := AddressField.within_address (f := .s1ContextPtr s1cdmax s1fmt) h
    rw [hw, AddressField.word_eq, Nat.testBit_or, hin.testBit_eq_false, Bool.or_false]
    have hl : (AddressField.s1ContextPtr s1cdmax s1fmt).lsb = 6 := rfl
    rw [hl]
    omega
  refine ⟨fun i hi => (bits h hi).trans (bits h' hi).symm, fun i hi => ?_⟩
  fin_cases i
  case «0» => exact absurd rfl hi
  all_goals rfl

end Entry

theorem steStage2Word1_twice {w : Nat} : steStage2Word1 (steStage2Word1 w) = steStage2Word1 w := by
  rw [steStage2Word1, steStage2Word1, Nat.or_assoc, Nat.or_self]

-- What is in the entry of a stream after the calls in `hist`.
structure Entry.Tracked (hist : History) (k sid : Nat) (e : Entry) : Prop where
  rest   : ∀ i, 4 ≤ i → e i = 0
  stage2 : ¬hist.Stage2Mapped k sid → e 2 = 0 ∧ e 3 = 0
  stage1 : ¬hist.Stage1Since k sid → e 1 = steAbort1 ∨ e 1 = steStage2Word1 steAbort1

namespace Entry.Tracked

variable {hist hist' : History} {k sid : Nat} {e : Entry}

theorem abort : Entry.abort.Tracked hist k sid := by
  refine ⟨fun i hi => ?_, fun _ => ⟨rfl, rfl⟩, fun _ => .inl rfl⟩
  fin_cases i <;> first | exact absurd hi (by decide) | rfl

theorem mono (h : e.Tracked hist k sid) (h2 : hist.Stage2Mapped k sid → hist'.Stage2Mapped k sid)
    (h1 : hist.Stage1Since k sid → hist'.Stage1Since k sid) : e.Tracked hist' k sid :=
  ⟨h.rest, fun hn => h.stage2 fun hc => hn (h2 hc), fun hn => h.stage1 fun hc => hn (h1 hc)⟩

theorem write_none (h : e.Tracked hist k sid) (h2 : hist.Stage2Mapped k sid → hist'.Stage2Mapped k sid) :
    (e.write none).Tracked hist' k sid := by
  have h₁ : e.write none 1 = steAbort1 := by simp only [Entry.write]
  have h₂ : e.write none 2 = 0 := by simp only [Entry.write]
  have h₃ : e.write none 3 = e 3 := by simp [Entry.write]
  refine ⟨fun i hi => ?_, fun hn => ⟨h₂, h₃.trans (h.stage2 fun hc => hn (h2 hc)).2⟩, fun _ => .inl h₁⟩
  refine Eq.trans ?_ (h.rest i hi)
  fin_cases i <;> first | exact absurd hi (by decide) | rfl

theorem write_stage1 {cdtabPhys s1cdmax s1fmt : Nat} (h : e.Tracked hist k sid)
    (h2 : hist.Stage2Mapped k sid → hist'.Stage2Mapped k sid) (h1 : hist'.Stage1Since k sid) :
    (e.write (some (.stage1 cdtabPhys s1cdmax s1fmt))).Tracked hist' k sid := by
  refine ⟨fun i hi => ?_, fun hn => h.stage2 fun hc => hn (h2 hc), fun hn => absurd h1 hn⟩
  refine Eq.trans ?_ (h.rest i hi)
  fin_cases i <;> first | exact absurd hi (by decide) | rfl

theorem write_stage2 {cfg : Stage2Config} (h : e.Tracked hist k sid) (h2 : hist'.Stage2Mapped k sid)
    (h1 : hist.Stage1Since k sid → hist'.Stage1Since k sid) :
    (e.write (some (.stage2 cfg))).Tracked hist' k sid := by
  refine ⟨fun i hi => ?_, fun hn => absurd h2 hn, fun hn => .inr ?_⟩
  · refine Eq.trans ?_ (h.rest i hi)
    fin_cases i <;> first | exact absurd hi (by decide) | rfl
  · change steStage2Word1 (e 1) = _
    rcases h.stage1 fun hc => hn (h1 hc) with he | he
    case inl => rw [he]
    case inr => rw [he, steStage2Word1_twice]

end Entry.Tracked

-- An unmap of a stream that is mapped with stage 1 finds the record of this mapping.
def Driver.UnmapsMapped (hist : History) (d : Driver) : Call → Prop
  | .map _ _    => True
  | .unmap attr => ∀ k, hist.Stage1Since k attr.streamid → (d.recordOf attr.streamid).smmu = some k

-- What holds along a run.
structure Tracks (others : List Nat) (hist : History) (d : Driver) : Prop where
  sane     : d.Sane others
  attached : d.Attached
  entries  : ∀ k < d.numSmmus, (d.smmus k).base ≠ 0 → ∀ sid, (d.entry k sid).Tracked hist k sid
  range    : ∀ k sid, hist.Stage1Since k sid → sidInRange (d.smmus k) sid = true

section

variable {pf : Platform} {attr : SmmuMasterAttributes} {pgt : PgtDescriptor} {d d' : Driver} {others : List Nat}
variable {hist : History} {status : Nat}

theorem Tracks.start {info : IovirtSmmuInfo} {fuel : Nat} {w₀ : World} {d₀ : Driver} (ha : pf.alloc.Sound)
    (ho : w₀.Owns others) (hw : w₀.heap.Laid) (hi : valSmmuInit pf info fuel (.boot w₀) = some (status, d₀))
    (hz : d₀.Sized) : Tracks others [] d₀ := by
  refine ⟨init_sane ha ho hw hz hi, ?_, ?_, fun _ _ hc => hc.elim⟩
  · intro n hn
    rw [(init_driver_placed ha hw hi).2] at hn
    cases hn
  · intro k hk hb sid
    rw [(init_fresh ha hw hz hi).entry_eq hk hb]
    exact .abort

theorem Tracks.map (ha : pf.alloc.Sound) (hi : Tracks others hist d) (hc : d.CallSafe pf (.map attr pgt))
    (h : Maps pf attr pgt d status d') : Tracks others ((.map attr pgt, status) :: hist) d' := by
  have hs' := h.sane ha hi.sane hc
  have ⟨hn, hsame⟩ := h.sameBut
  refine ⟨hs', h.attached hi.attached, ?_, ?_⟩
  · intro k hk hb sid
    have hb₀ : (d.smmus k).base ≠ 0 := by
      have ⟨_, _, heq⟩ := hsame k
      rw [heq] at hb
      exact hb
    rw [hn] at hk
    have hold := hi.entries k hk hb₀ sid
    by_cases hz : status = 0
    case neg =>
      rw [h.failed_entry ha hi.sane hc hz hk hb₀]
      exact hold.mono .cons .inr
    case pos =>
      subst hz
      have ⟨_, _, _, _, _, _, _, _, hm⟩ := h.mapping
      rw [hm.entry_eq hi.sane hc hs' ha hk hb₀]
      split
      case isFalse => exact hold.mono .cons .inr
      case isTrue heq =>
        rcases hm.tables with ⟨h2, _, he⟩ | ⟨h1, _, _, he⟩
        all_goals rw [he]
        case inl => exact hold.write_stage2 ⟨attr, pgt, List.mem_cons_self .., heq.1.symm, heq.2.symm, h2⟩ .inr
        case inr => exact hold.write_stage1 .cons (.inl ⟨rfl, heq.1.symm, heq.2.symm, h1⟩)
  · intro k sid h1
    have ⟨_, _, heq⟩ := hsame k
    rw [heq]
    rcases h1 with ⟨hz, hk, hsid, _⟩ | h1
    case inr => exact hi.range k sid h1
    case inl =>
      subst hz hk hsid
      have ⟨_, _, _, _, _, _, _, _, hm⟩ := h.mapping
      exact hm.range

theorem Tracks.unmap (ha : pf.alloc.Sound) (hi : Tracks others hist d) (hl : d.UnmapsLinear (.unmap attr))
    (hu : d.UnmapsMapped hist (.unmap attr)) (h : Unmaps pf attr d d') :
    Tracks others ((.unmap attr, status) :: hist) d' := by
  have ⟨hn, hsmmus⟩ := h.smmus_eq
  refine ⟨h.sane ha hi.sane, h.attached hi.attached, ?_, ?_⟩
  · intro k hk hb sid
    rw [hn] at hk
    rw [hsmmus] at hb
    have hold := hi.entries k hk hb sid
    rw [h.entry_eq ha hi.sane hi.attached hl hk hb]
    split
    case isTrue => exact hold.write_none .cons
    case isFalse hne =>
      refine hold.mono .cons fun h1 => ⟨fun hc => hne ?_, h1⟩
      subst hc
      exact ⟨hu k h1, hi.range k _ h1, rfl⟩
  · intro k sid h1
    rw [hsmmus]
    exact hi.range k sid h1.2

theorem Tracks.step {c : Call} (ha : pf.alloc.Sound) (hi : Tracks others hist d) (hc : d.CallSafe pf c)
    (hl : d.UnmapsLinear c) (hu : d.UnmapsMapped hist c) (h : Step pf d c status d') :
    Tracks others ((c, status) :: hist) d' := by
  cases h
  case map h   => exact hi.map ha hc (map_cases h)
  case unmap h => exact hi.unmap ha hl hu (unmap_cases h)

-- A map for stage 2 follows no map for stage 1 of the same stream, or there is an unmap between them. A map
-- for stage 1 follows no map for stage 2 at all. Its table of context descriptors is that of an earlier map
-- with the same SMMU and the same number of substreams, and the table is aligned to 64 bytes at least.
def Driver.CleanMap (hist : History) (d : Driver) (attr : SmmuMasterAttributes) : Prop :=
  if attr.stage2 ≠ 0 then ¬hist.Stage1Since attr.smmuIndex attr.streamid
  else
    ¬hist.Stage2Mapped attr.smmuIndex attr.streamid ∧
    (∀ k, (d.recordOf attr.streamid).smmu = some k →
      k = attr.smmuIndex ∧ (d.recordOf attr.streamid).ssidBits % 2 ^ 8 = attr.ssidBits % 2 ^ 8) ∧
    (twoLevel (d.smmus attr.smmuIndex).supported.cd2l (attr.ssidBits % 2 ^ 8) = true → 13 ≤ attr.ssidBits % 2 ^ 8 % 32)

-- The entry of the stream that a call names.
def Driver.steOf (d : Driver) (attr : SmmuMasterAttributes) : Entry :=
  entryAt d.world.heap.mem (smmuStrtabGetSteForSid (d.smmus attr.smmuIndex) attr.streamid)

theorem Mapping.steOf_eq {d₁ : Driver} {i : Nat} {m m' : Master} {smmu' : SmmuDev} {w₁ w₂ w' : World}
    (ha : pf.alloc.Sound) (hs : d.Sane others) (hc : d.CallSafe pf (.map attr pgt)) (hs' : d'.Sane others)
    (h : Mapping pf attr pgt d d' d₁ i m smmu' m' w₁ w₂ w') :
    d'.steOf attr = (d.entry attr.smmuIndex attr.streamid).write (some m'.steConfig) := by
  have ⟨_, hk, hb⟩ := h.takes
  have hentry : d'.entry attr.smmuIndex attr.streamid = _ := h.entry_eq hs hc hs' ha hk hb
  rw [if_pos ⟨rfl, rfl⟩, Driver.entry, h.smmus_eq, if_pos rfl, if_pos h.hasSte] at hentry
  rw [Driver.steOf, h.smmus_eq, if_pos rfl]
  exact hentry

theorem Tracks.stage2_entry (ha : pf.alloc.Sound) (hi : Tracks others hist d) (hc : d.CallSafe pf (.map attr pgt))
    (hn : ¬hist.Stage1Since attr.smmuIndex attr.streamid) (h2 : attr.stage2 ≠ 0) (h : Maps pf attr pgt d 0 d') :
    d'.steOf attr = .stage2 pgt := by
  have ⟨_, _, _, _, _, _, _, _, hm⟩ := h.mapping
  have ⟨_, hk, hb⟩ := hm.takes
  have hold := hi.entries _ hk hb attr.streamid
  rw [hm.steOf_eq ha hi.sane hc (h.sane ha hi.sane hc)]
  rcases hm.tables with ⟨_, _, he⟩ | ⟨h1, _⟩
  case inr => exact absurd h1 h2
  case inl =>
    rw [he]
    have hword : steStage2Word1 (d.entry attr.smmuIndex attr.streamid 1) = steStage2Word1 steAbort1 := by
      rcases hold.stage1 hn with he | he
      case inl => rw [he]
      case inr => rw [he, steStage2Word1_twice]
    funext i
    fin_cases i
    case «1» => exact hword
    case «4» => exact hold.rest 4 (by decide)
    case «5» => exact hold.rest 5 (by decide)
    case «6» => exact hold.rest 6 (by decide)
    case «7» => exact hold.rest 7 (by decide)
    all_goals rfl

-- A stream that is bound as the call asks for keeps its SMMU and its number of substreams.
theorem Mapping.record_eq {d₁ : Driver} {i : Nat} {m m' : Master} {smmu' : SmmuDev} {w₁ w₂ w' : World}
    (h : Mapping pf attr pgt d d' d₁ i m smmu' m' w₁ w₂ w')
    (hr : ∀ k, (d.recordOf attr.streamid).smmu = some k →
      k = attr.smmuIndex ∧ (d.recordOf attr.streamid).ssidBits % 2 ^ 8 = attr.ssidBits % 2 ^ 8) :
    m'.smmu = some attr.smmuIndex ∧ m'.ssidBits % 2 ^ 8 = attr.ssidBits % 2 ^ 8 := by
  have hbits : m'.ssidBits = (m.bind attr).ssidBits := by
    rcases h.tables with ⟨_, _, he⟩ | ⟨_, _, _, he⟩ <;> rw [he]
  refine ⟨h.smmu_eq fun k hk => (hr k hk).1, ?_⟩
  rw [hbits]
  cases hbound : m.smmu
  case none   => simp [Master.bind, hbound]
  case some k =>
    have hr := (hr k (h.lookup.recordOf_eq ▸ hbound)).2
    rw [h.lookup.recordOf_eq] at hr
    simpa [Master.bind, hbound] using hr

-- The table of context descriptors that a map for stage 1 writes to the entry.
theorem Mapping.stage1_config {d₁ : Driver} {i : Nat} {m m' : Master} {smmu' : SmmuDev} {w₁ w₂ w' : World}
    (hs : d.Sane others) (hc : d.CallSafe pf (.map attr pgt)) (hs' : d'.Sane others) (h1 : attr.stage2 = 0)
    (hsmmu : m'.smmu = some attr.smmuIndex) (hbits : m'.ssidBits % 2 ^ 8 = attr.ssidBits % 2 ^ 8)
    (halign : twoLevel (d.smmus attr.smmuIndex).supported.cd2l (attr.ssidBits % 2 ^ 8) = true →
      13 ≤ attr.ssidBits % 2 ^ 8 % 32)
    (h : Mapping pf attr pgt d d' d₁ i m smmu' m' w₁ w₂ w') :
    64 ∣ m'.stage1.cdcfg.cdtabPhys ∧
      m'.steConfig = .stage1 m'.stage1.cdcfg.cdtabPhys (attr.ssidBits % 2 ^ 8)
        (if twoLevel (d.smmus attr.smmuIndex).supported.cd2l (attr.ssidBits % 2 ^ 8) then strtabSte0S1fmt64kL2
          else strtabSte0S1fmtLinear) := by
  obtain ⟨n, hlist, hmaster, _⟩ := h.found.listed
  have hmem := List.mem_of_getElem? hlist
  have hcd2l : (d'.smmus attr.smmuIndex).supported.cd2l = (d.smmus attr.smmuIndex).supported.cd2l := by
    obtain ⟨_, _, heq⟩ := h.sameBut_all attr.smmuIndex
    rw [heq]
    rfl
  have hptr : m'.stage1.cdcfg.cdtabPtr ≠ 0 := (h.hasCd hs hc h1).1
  obtain ⟨_, hblock, haddr, hphys, hfmt⟩ := (hs'.placed.nodes n hmem _ (hmaster ▸ hsmmu)).table (hmaster ▸ hptr)
  have hcdmax := ((hs'.kept.nodes n hmem).bound _ (hmaster ▸ hsmmu)).bits (.inl (hmaster ▸ hptr))
  rw [hmaster, hcd2l] at hblock haddr hfmt
  rw [hmaster] at hphys hcdmax
  rw [hbits] at hcdmax
  rw [hcdmax] at hblock haddr hfmt
  have hlog : 6 ≤ cdtabLog (d.smmus attr.smmuIndex).supported.cd2l (attr.ssidBits % 2 ^ 8) := by
    rw [cdtabLog]
    split
    case isTrue ht =>
      have := halign ht
      omega
    case isFalse => omega
  have hstage : m'.stage = .s1 := by
    rcases h.tables with ⟨h2, _⟩ | ⟨_, _, _, he⟩
    case inl => exact absurd h1 h2
    case inr => rw [he]
  constructor
  · rw [hphys, haddr]
    exact alignToSize_dvd (hs'.placed.laid.fits _ hblock) hlog
  · rw [Master.steConfig, hstage, hcdmax, hfmt]

theorem Tracks.stage1_entry (ha : pf.alloc.Sound) (hi : Tracks others hist d) (hc : d.CallSafe pf (.map attr pgt))
    (hn : d.CleanMap hist attr) (h1 : attr.stage2 = 0) (h : Maps pf attr pgt d 0 d') :
    ∃ cdtabPhys, 64 ∣ cdtabPhys ∧
      d'.steOf attr = .stage1 cdtabPhys (attr.ssidBits % 2 ^ 8) (d.smmus attr.smmuIndex).supported.cd2l := by
  rw [Driver.CleanMap, if_neg (not_not.mpr h1)] at hn
  obtain ⟨hn2, hrecord, halign⟩ := hn
  obtain ⟨d₁, i, m, smmu', m', w₁, w₂, w', hm⟩ := h.mapping
  obtain ⟨_, hk, hb⟩ := hm.takes
  have hs' := h.sane ha hi.sane hc
  have hold := hi.entries _ hk hb attr.streamid
  obtain ⟨hsmmu, hbits⟩ := hm.record_eq hrecord
  obtain ⟨haligned, hste⟩ := hm.stage1_config hi.sane hc hs' h1 hsmmu hbits halign
  refine ⟨m'.stage1.cdcfg.cdtabPhys, haligned, ?_⟩
  rw [hm.steOf_eq ha hi.sane hc hs', hste]
  obtain ⟨h₂, h₃⟩ := hold.stage2 hn2
  funext i
  fin_cases i
  case «2» => exact h₂
  case «3» => exact h₃
  case «4» => exact hold.rest 4 (by decide)
  case «5» => exact hold.rest 5 (by decide)
  case «6» => exact hold.rest 6 (by decide)
  case «7» => exact hold.rest 7 (by decide)
  all_goals rfl

end

-- Two entries of a stream that were both made by a map with `attr`.
structure SteAgrees (attr : SmmuMasterAttributes) (e e' : Entry) : Prop where
  same   : e.SameButPointer e'
  stage1 : attr.stage2 = 0 → e.NoStage2 ∧ e'.NoStage2
  stage2 : attr.stage2 ≠ 0 → e.NoStage1 ∧ e'.NoStage1

-- The calls of a run in which the history tells what is in the entries.
def Tracking (pf : Platform) (hist : History) (d : Driver) (c : Call) : Prop :=
  d.CallSafe pf c ∧ d.UnmapsLinear c ∧ d.UnmapsMapped hist c

section

variable {pf pf' : Platform} {info : IovirtSmmuInfo} {fuel fuel₁ fuel₂ status : Nat} {w₀ : World} {others : List Nat}
variable {d₀ d d' e e' : Driver} {hist hist' : History} {attr : SmmuMasterAttributes} {pgt : PgtDescriptor}

theorem Tracks.run (ha : pf.alloc.Sound) (h₀ : Tracks others [] d₀) (h : Run pf (Tracking pf) d₀ hist d) :
    Tracks others hist d :=
  h.invariant (I := Tracks others) h₀ fun hi hk hst => hi.step ha hk.1 hk.2.1 hk.2.2 hst

-- The entry of a stream does not tell what was mapped before, in runs that do not mix the stages.
theorem ste_history_independent (ha : pf.alloc.Sound) (ha' : pf'.alloc.Sound) (ho : w₀.Owns others) (hw : w₀.heap.Laid)
    (hi : valSmmuInit pf info fuel (.boot w₀) = some (status, d₀)) (hz : d₀.Sized)
    (h : Run pf (Tracking pf) d₀ hist d) (h' : Run pf' (Tracking pf') d₀ hist' d')
    (hm : valSmmuMap pf fuel₁ attr pgt d = some (0, e)) (hm' : valSmmuMap pf' fuel₂ attr pgt d' = some (0, e'))
    (hc : d.CallSafe pf (.map attr pgt)) (hc' : d'.CallSafe pf' (.map attr pgt))
    (hn : d.CleanMap hist attr) (hn' : d'.CleanMap hist' attr) : SteAgrees attr (e.steOf attr) (e'.steOf attr) := by
  have h₀ : Tracks others [] d₀ := .start ha ho hw hi hz
  have ht := h₀.run ha h
  have ht' := h₀.run ha' h'
  by_cases h2 : attr.stage2 = 0
  case pos =>
    have ⟨p, hp, he⟩ := ht.stage1_entry ha hc hn h2 (map_cases hm)
    have ⟨p', hp', he'⟩ := ht'.stage1_entry ha' hc' hn' h2 (map_cases hm')
    have hcd2l : (d'.smmus attr.smmuIndex).supported.cd2l = (d.smmus attr.smmuIndex).supported.cd2l := by
      have ⟨_, _, hs⟩ := h.sameBut.2 attr.smmuIndex
      have ⟨_, _, hs'⟩ := h'.sameBut.2 attr.smmuIndex
      rw [hs, hs']
      rfl
    rw [he, he', hcd2l]
    exact ⟨Entry.stage1_sameButPointer hp hp', fun _ => ⟨Entry.stage1_noStage2, Entry.stage1_noStage2⟩,
      fun hc => absurd h2 hc⟩
  case neg =>
    rw [Driver.CleanMap, if_pos h2] at hn hn'
    rw [ht.stage2_entry ha hc hn h2 (map_cases hm), ht'.stage2_entry ha' hc' hn' h2 (map_cases hm')]
    exact ⟨⟨fun _ _ => rfl, fun _ _ => rfl⟩, fun hc => absurd hc h2,
      fun _ => ⟨Entry.stage2_noStage1, Entry.stage2_noStage1⟩⟩

end

-- Answers for three calls, and for an SMMU with both stages.
def longAnswers : List Nat :=
  bootAnswers ++ [1, 2, 3, 0, 0]

def bothAnswers : List Nat :=
  [0xB, 0x200004, 5, 0, 8, 0, 1, 2, 3, 3, 9] ++ [3, 0, 1, 2, 2] ++ [2, 3, 0, 1, 1]

def stage2Attr : SmmuMasterAttributes :=
  { stage1Attr with stage2 := 1 }

-- Stream 5 is mapped at once, and after it was mapped and unmapped.
theorem ste_independent_of_unmap :
    ∃ d₀ d₁ d₂ d₃, valSmmuInit (topPlatform longAnswers 100) oneCtrl 1 (.boot .start) = some (0, d₀) ∧
      valSmmuMap (topPlatform longAnswers 100) 1 stage1Attr somePgt d₀ = some (0, d₁) ∧
      valSmmuUnmap (topPlatform longAnswers 100) 1 stage1Attr d₁ = some d₂ ∧
      valSmmuMap (topPlatform longAnswers 100) 1 stage1Attr somePgt d₂ = some (0, d₃) ∧
      SteAgrees stage1Attr (d₁.steOf stage1Attr) (d₃.steOf stage1Attr) := by
  have hrun : ((valSmmuInit (topPlatform longAnswers 100) oneCtrl 1 (.boot .start)).bind fun r₀ =>
      (valSmmuMap (topPlatform longAnswers 100) 1 stage1Attr somePgt r₀.2).bind fun r₁ =>
      (valSmmuUnmap (topPlatform longAnswers 100) 1 stage1Attr r₁.2).bind fun d₂ =>
      (valSmmuMap (topPlatform longAnswers 100) 1 stage1Attr somePgt d₂).map fun r₃ =>
        ([r₀.1, r₁.1, r₃.1, (r₀.2.target stage1Attr).ssidBits, (d₂.target stage1Attr).ssidBits] ++ r₀.2.sizes,
          [(r₀.2.smmus 0).supported.stLevel2lvl, (r₀.2.smmus 0).supported.cd2l, (r₁.2.smmus 0).supported.stLevel2lvl,
            (d₂.smmus 0).supported.cd2l, r₀.2.targetCd2l stage1Attr, d₂.targetCd2l stage1Attr],
          [(r₀.2.recordOf 5).smmu, (r₁.2.recordOf 5).smmu, (d₂.recordOf 5).smmu])) =
      some ([0, 0, 0, 0, 0, 1, 1, 4], [false, false, false, false, false, false], [none, some 0, none]) := by
    decide +kernel
  obtain ⟨⟨s₀, d₀⟩, h₀, h⟩ := Option.bind_eq_some_iff.mp hrun
  obtain ⟨⟨s₁, d₁⟩, h₁, h⟩ := Option.bind_eq_some_iff.mp h
  obtain ⟨d₂, h₂, h⟩ := Option.bind_eq_some_iff.mp h
  obtain ⟨⟨s₃, d₃⟩, h₃, he⟩ := Option.map_eq_some_iff.mp h
  simp only [Driver.sizes, List.cons_append, List.nil_append, Prod.mk.injEq, List.cons.injEq, and_true] at he
  obtain ⟨⟨hs₀, hs₁, hs₃, hb₀, hb₂, hn, hq, hb⟩, ⟨hl₀, hc₀, hl₁, hc₂, ht₀, ht₂⟩, hr₀, hr₁, hr₂⟩ := he
  subst hs₀ hs₁ hs₃
  have hz : d₀.Sized := by
    intro k hk _
    rw [hn, Nat.lt_one_iff] at hk
    rw [hk, SizesFit, hq, hl₀, hb]
    decide
  have safe {d : Driver} (hb : (d.target stage1Attr).ssidBits = 0) (hc : d.targetCd2l stage1Attr = false) :
      d.CallSafe (topPlatform longAnswers 100) (.map stage1Attr somePgt) := by
    refine fun _ _ => ?_
    rw [hb, hc]
    exact ⟨(by decide : (0 : Nat) < 2 ^ 31), fun _ => ⟨.inl (by decide), fun ht => absurd ht (by decide)⟩⟩
  have clean {hist : History} {d : Driver} (h2 : ¬hist.Stage2Mapped 0 5) (hr : (d.recordOf 5).smmu = none)
      (hc : (d.smmus 0).supported.cd2l = false) : d.CleanMap hist stage1Attr := by
    refine ⟨h2, fun k hk => ?_, fun ht => ?_⟩
    · have hr : (d.recordOf stage1Attr.streamid).smmu = none := hr
      rw [hr] at hk
      cases hk
    · change twoLevel (d.smmus 0).supported.cd2l 0 = true at ht
      rw [hc] at ht
      exact absurd ht (by decide)
  have hunmap : Tracking (topPlatform longAnswers 100) [(.map stage1Attr somePgt, 0)] d₁ (.unmap stage1Attr) := by
    refine ⟨trivial, fun k hk _ => ?_, fun k hk => ?_⟩
    · have hk : some 0 = some k := hr₁ ▸ hk
      cases hk
      exact hl₁
    · rcases hk with ⟨_, hk, _⟩ | hk
      case inl => exact hk ▸ hr₁
      case inr => exact hk.elim
  have hnone : ¬History.Stage2Mapped 0 5 [(.unmap stage1Attr, 0), (.map stage1Attr somePgt, 0)] := by
    rintro ⟨attr, pgt, hm, _, _, h2⟩
    simp only [List.mem_cons, Prod.mk.injEq, reduceCtorEq, false_and, Call.map.injEq, false_or, List.not_mem_nil,
      or_false] at hm
    exact h2 (hm.1.1 ▸ rfl)
  have hw : World.start.Owns [] := ⟨.nil, List.nodup_nil, rfl⟩
  have hrun₂ : Run (topPlatform longAnswers 100) (Tracking _) d₀ [(.unmap stage1Attr, 0), (.map stage1Attr somePgt, 0)] d₂ :=
    .cons (.cons .nil ⟨safe hb₀ ht₀, trivial, trivial⟩ (.map h₁)) hunmap (.unmap h₂)
  have hnil : ¬History.Stage2Mapped 0 5 [] := by
    rintro ⟨_, _, hm, _⟩
    cases hm
  exact ⟨d₀, d₁, d₂, d₃, h₀, h₁, h₂, h₃, ste_history_independent topPlatform_sound topPlatform_sound hw
    ⟨.nil, fun _ hm => by cases hm⟩ h₀ hz .nil hrun₂ h₁ h₃ (safe hb₀ ht₀) (safe hb₂ ht₂)
    (clean hnil hr₀ hc₀) (clean hnone hr₂ hc₂)⟩

-- The fields of stage 2 stay in the entry when the stream is mapped with stage 1, and those of stage 1 when it
-- is mapped with stage 2. The translation table of stage 2 stays there even when the stream was unmapped.
theorem ste_keeps_other_stage :
    (∃ d₀ d₁ e e', valSmmuInit (topPlatform bothAnswers 100) oneCtrl 1 (.boot .start) = some (0, d₀) ∧
      Step (topPlatform bothAnswers 100) d₀ (.map stage2Attr somePgt) 0 d₁ ∧
      valSmmuMap (topPlatform bothAnswers 100) 1 stage1Attr somePgt d₀ = some (0, e) ∧
      valSmmuMap (topPlatform bothAnswers 100) 1 stage1Attr somePgt d₁ = some (0, e') ∧
      ¬SteAgrees stage1Attr (e.steOf stage1Attr) (e'.steOf stage1Attr)) ∧
    (∃ d₀ d₁ e e', valSmmuInit (topPlatform bothAnswers 100) oneCtrl 1 (.boot .start) = some (0, d₀) ∧
      Step (topPlatform bothAnswers 100) d₀ (.map stage1Attr somePgt) 0 d₁ ∧
      valSmmuMap (topPlatform bothAnswers 100) 1 stage2Attr somePgt d₀ = some (0, e) ∧
      valSmmuMap (topPlatform bothAnswers 100) 1 stage2Attr somePgt d₁ = some (0, e') ∧
      ¬SteAgrees stage2Attr (e.steOf stage2Attr) (e'.steOf stage2Attr)) := by
  constructor
  · have hrun : ((valSmmuInit (topPlatform bothAnswers 100) oneCtrl 1 (.boot .start)).bind fun r₀ =>
        (valSmmuMap (topPlatform bothAnswers 100) 1 stage2Attr somePgt r₀.2).bind fun r₁ =>
        (valSmmuMap (topPlatform bothAnswers 100) 1 stage1Attr somePgt r₀.2).bind fun r₂ =>
        (valSmmuMap (topPlatform bothAnswers 100) 1 stage1Attr somePgt r₁.2).map fun r₃ =>
          [r₀.1, r₁.1, r₂.1, r₃.1, r₃.2.steOf stage1Attr 3]) = some [0, 0, 0, 0, 0x80000000] := by
      decide +kernel
    have ⟨⟨s₀, d₀⟩, h₀, h⟩ := Option.bind_eq_some_iff.mp hrun
    have ⟨⟨s₁, d₁⟩, h₁, h⟩ := Option.bind_eq_some_iff.mp h
    have ⟨⟨s₂, e⟩, h₂, h⟩ := Option.bind_eq_some_iff.mp h
    have ⟨⟨s₃, e'⟩, h₃, he⟩ := Option.map_eq_some_iff.mp h
    simp only [List.cons.injEq, and_true] at he
    have ⟨hs₀, hs₁, hs₂, hs₃, hword⟩ := he
    subst hs₀ hs₁ hs₂ hs₃
    refine ⟨d₀, d₁, e, e', h₀, .map h₁, h₂, h₃, fun hc => ?_⟩
    have hzero := (hc.stage1 rfl).2.word3
    rw [hword] at hzero
    cases hzero
  · have hrun : ((valSmmuInit (topPlatform bothAnswers 100) oneCtrl 1 (.boot .start)).bind fun r₀ =>
        (valSmmuMap (topPlatform bothAnswers 100) 1 stage1Attr somePgt r₀.2).bind fun r₁ =>
        (valSmmuMap (topPlatform bothAnswers 100) 1 stage2Attr somePgt r₀.2).bind fun r₂ =>
        (valSmmuMap (topPlatform bothAnswers 100) 1 stage2Attr somePgt r₁.2).map fun r₃ =>
          [r₀.1, r₁.1, r₂.1, r₃.1, strtabSte1S1cir.get (r₃.2.steOf stage2Attr 1)]) = some [0, 0, 0, 0, 1] := by
      decide +kernel
    have ⟨⟨s₀, d₀⟩, h₀, h⟩ := Option.bind_eq_some_iff.mp hrun
    have ⟨⟨s₁, d₁⟩, h₁, h⟩ := Option.bind_eq_some_iff.mp h
    have ⟨⟨s₂, e⟩, h₂, h⟩ := Option.bind_eq_some_iff.mp h
    have ⟨⟨s₃, e'⟩, h₃, he⟩ := Option.map_eq_some_iff.mp h
    simp only [List.cons.injEq, and_true] at he
    have ⟨hs₀, hs₁, hs₂, hs₃, hword⟩ := he
    subst hs₀ hs₁ hs₂ hs₃
    refine ⟨d₀, d₁, e, e', h₀, .map h₁, h₂, h₃, fun hc => ?_⟩
    have hzero := (hc.stage2 (by decide)).2.s1cir
    rw [hword] at hzero
    cases hzero

end Smmu
