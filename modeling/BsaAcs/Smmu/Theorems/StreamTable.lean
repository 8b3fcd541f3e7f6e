import BsaAcs.Smmu.Theorems.Atomic
import Mathlib.Tactic.FinCases

namespace Smmu

open Heap (Frame Inside)

-- The stream table as a map from stream ids to entries.

-- The words of a stream table entry.
abbrev Entry := Fin 8 → Nat

def entryAt (mem : Memory) (ste : Nat) : Entry :=
  fun i => mem (ste + 8 * i)

namespace Entry

-- An entry of a table that was cleared before its entries were written.
def abort : Entry :=
  fun
  | 0 => steAbort0
  | 1 => steAbort1
  | _ => 0

-- What `smmu_strtab_write_ste` makes of an entry.
def write (master : Option SteConfig) (e : Entry) : Entry :=
  match master with
  | none => fun
    | 0 => steAbort0
    | 1 => steAbort1
    | 2 => 0
    | i => e i
  | some (.stage2 cfg) => fun
    | 0 => steStage2Word0
    | 1 => steStage2Word1 (e 1)
    | 2 => steStage2Word2 cfg
    | 3 => steStage2Word3 cfg
    | i => e i
  | some (.stage1 cdtabPhys s1cdmax s1fmt) => fun
    | 0 => steStage1Word0 cdtabPhys s1cdmax s1fmt
    | 1 => steStage1Word1
    | i => e i

theorem write_none_zero : write none (fun _ => 0) = abort := by
  funext i
  fin_cases i <;> rfl

end Entry

section

variable {pf : Platform} {w w' : World} {smmu smmu' : SmmuDev} {ok : Bool} {cfg : Option SteConfig} {ste x : Nat}

theorem writeSte_entry : entryAt (smmuStrtabWriteSte cfg ste w).heap.mem ste = (entryAt w.heap.mem ste).write cfg := by
  funext i
  simp only [entryAt, smmuStrtabWriteSte, Entry.write]
  split
  all_goals
    simp only [World.store, Heap.write, Memory.write]
    fin_cases i <;> simp

theorem writeSte_mem (hx : ¬Inside (ste, 64) x) : (smmuStrtabWriteSte cfg ste w).heap.mem x = w.heap.mem x := by
  have hn (i : Nat) (hi : i < 64) : x ≠ ste + i := by
    rintro rfl
    exact hx ⟨Nat.le_add_right .., Nat.add_lt_add_left hi ste⟩
  have h₀ : x ≠ ste := hn 0 (by decide)
  simp only [smmuStrtabWriteSte]
  split <;>
    simp [World.store, Heap.write, Memory.write, h₀, hn 8 (by decide), hn 16 (by decide), hn 24 (by decide)]

theorem abortStes_mem {n : Nat} {w : World} (hx : ¬Inside (ste, 64 * n) x) :
    (abortStes ste n w).heap.mem x = w.heap.mem x := by
  induction n generalizing ste w
  case zero => rfl
  case succ n hi =>
    rw [abortStes, hi, writeSte_mem]
    all_goals
      rintro ⟨h₁, h₂⟩
      simp only [strtabSteDwords] at h₁ h₂
      exact hx ⟨by simp only; omega, by simp only; omega⟩

theorem entryAt_congr {mem mem' : Memory} (h : ∀ x, Inside (ste, 64) x → mem' x = mem x) :
    entryAt mem' ste = entryAt mem ste := by
  funext i
  exact h _ ⟨by simp only; omega, by simp only; omega⟩

-- The entries that the loop over a table writes.
theorem abortStes_entry {n j : Nat} {w : World} (hj : j < n) :
    entryAt (abortStes ste n w).heap.mem (ste + 64 * j) = (entryAt w.heap.mem (ste + 64 * j)).write none := by
  induction n generalizing ste w j
  case zero => exact absurd hj (Nat.not_lt_zero j)
  case succ n hn =>
    have hd : strtabSteDwords * 8 = 64 := rfl
    rw [abortStes, hd]
    cases j
    case zero =>
      refine (entryAt_congr fun x hx => abortStes_mem ?_).trans writeSte_entry
      rintro ⟨_, _⟩
      have ⟨_, _⟩ := hx
      simp only at *
      omega
    case succ j =>
      have he : ste + 64 * (j + 1) = ste + 64 + 64 * j := by omega
      have hkeep : entryAt (smmuStrtabWriteSte none ste w).heap.mem (ste + 64 + 64 * j) =
          entryAt w.heap.mem (ste + 64 + 64 * j) := by
        refine entryAt_congr fun x hx => writeSte_mem ?_
        rintro ⟨_, _⟩
        have ⟨_, _⟩ := hx
        simp only at *
        omega
      rw [he, hn (Nat.lt_of_succ_lt_succ hj), hkeep]

theorem initLevel2_done {sid : Nat} (h : smmuStrtabInitLevel2 pf smmu sid w = (true, smmu', w')) :
    (smmu'.strtabCfg.l1Desc (sid >>> strtabSplit)).l2ptr ≠ 0 ∧
      ∀ j ≠ sid >>> strtabSplit, smmu'.strtabCfg.l1Desc j = smmu.strtabCfg.l1Desc j := by
  simp only [smmuStrtabInitLevel2] at h
  split at h
  case isTrue hz =>
    simp only [Prod.mk.injEq, true_and] at h
    rw [← h.1]
    exact ⟨hz, fun _ _ => rfl⟩
  case isFalse =>
    split at h
    case isTrue => cases h
    case isFalse hp =>
      simp only [Prod.mk.injEq, true_and] at h
      rw [← h.1]
      simp only [SmmuDev.setL1Desc, SmmuDev.setStrtab, if_true]
      exact ⟨hp, fun j hj => if_neg hj⟩

-- A new table of the second level holds entries that abort, and its level-1 descriptor points to it.
theorem initLevel2_entries {sid : Nat} {b : Nat × Nat} (ha : pf.alloc.Sound) (hb : b ∈ w.heap.live)
    (hx : Inside b (l1Word smmu sid)) (hz : (smmu.strtabCfg.l1Desc (sid >>> strtabSplit)).l2ptr = 0)
    (h : smmuStrtabInitLevel2 pf smmu sid w = (true, smmu', w')) :
    (∀ j < 2 ^ 8, entryAt w'.heap.mem ((smmu'.strtabCfg.l1Desc (sid >>> strtabSplit)).l2desc64 + 64 * j) = .abort) ∧
    w'.heap.mem (l1Word smmu sid) =
      strtabLevel1Desc (strtabSplit + 1) (smmu'.strtabCfg.l1Desc (sid >>> strtabSplit)).l2desc64 := by
  have hsize : (1 <<< strtabSplit) * strtabSteDwords * bytesPerDword * 2 = 2 * 2 ^ 14 := rfl
  have hset : (1 <<< strtabSplit) * strtabSteDwords * bytesPerDword = 2 ^ 14 := rfl
  have hcount : 1 <<< strtabSplit = 2 ^ 8 := rfl
  simp only [smmuStrtabInitLevel2] at h
  rw [if_neg (not_not.mpr hz), hsize] at h
  split at h
  case isTrue hp => cases h
  case isFalse hp =>
    simp only [Prod.mk.injEq, true_and] at h
    obtain ⟨hs, hm⟩ := h
    rw [← hm, ← hs]
    rw [hset, hcount]
    have hnew := (World.alloc_new ha hp).2 b hb
    have hfit := World.alloc_fits (w := w) ha (show 2 * 2 ^ 14 < 2 ^ 32 by decide)
    generalize hptr : (w.valMemoryAlloc pf (2 * 2 ^ 14)).1 = ptr at hp hnew hfit
    have hdesc : ((smmu.setL1Desc (sid >>> strtabSplit)
        ⟨strtabSplit + 1, ptr, alignToSize ptr (2 ^ 14), alignToSize ptr (2 ^ 14)⟩).strtabCfg.l1Desc
          (sid >>> strtabSplit)).l2desc64 = alignToSize ptr (2 ^ 14) := by
      simp [SmmuDev.setL1Desc, SmmuDev.setStrtab]
    have hout {y : Nat} (hy : Inside (alignToSize ptr (2 ^ 14), 2 ^ 14) y) : y ≠ l1Word smmu sid := by
      rintro rfl
      exact hnew.symm.not_inside hx (aligned_inside hfit hy)
    refine ⟨?_, ?_⟩
    · intro j hj
      have hzero : entryAt ((w.valMemoryAlloc pf (2 * 2 ^ 14)).2.valMemorySet (alignToSize ptr (2 ^ 14)) (2 ^ 14)
          0).heap.mem (alignToSize ptr (2 ^ 14) + 64 * j) = fun _ => 0 := by
        funext i
        exact Memory.set_mem (by omega) (by omega)
      rw [hdesc, ← Entry.write_none_zero, ← hzero, ← abortStes_entry hj]
      refine entryAt_congr fun x hx => Memory.write_ne (hout ?_)
      obtain ⟨_, _⟩ := hx
      exact ⟨by simp only at *; omega, by simp only at *; omega⟩
    · rw [hdesc]
      exact Memory.write_same

end

-- The steps of a map that succeeds: the lookup of the record `m`, the level-1 descriptor of the stream,
-- the tables of context descriptors, the entry, and the invalidation.
structure Mapping (pf : Platform) (attr : SmmuMasterAttributes) (pgt : PgtDescriptor) (d d' d₁ : Driver) (i : Nat)
    (m : Master) (smmu' : SmmuDev) (m' : Master) (w₁ w₂ w' : World) : Prop where
  takes  : d.Takes attr
  lookup : Lookup pf attr.streamid d (some (i, m)) d₁
  range  : sidInRange (d.smmus attr.smmuIndex) attr.streamid = true
  level2 : (if (d.smmus attr.smmuIndex).supported.stLevel2lvl
      then smmuStrtabInitLevel2 pf (d.smmus attr.smmuIndex) attr.streamid d₁.world
      else (true, d.smmus attr.smmuIndex, d₁.world)) = (true, smmu', w₁)
  tables : attr.stage2 ≠ 0 ∧ w₂ = w₁ ∧ m' = { m.bind attr with stage := .s2, stage2 := stage2Config pgt } ∨
    attr.stage2 = 0 ∧ ∃ stage1, mapStage1 pf (d.boundCd2l (m.bind attr) attr.smmuIndex) attr.substreamid
        (m.bind attr).ssidBits pgt (m.bind attr).stage1 w₁ = (true, stage1, w₂) ∧
      m' = { m.bind attr with stage := .s1, ssid := attr.substreamid, stage1 := stage1 }
  queue  : ∃ fuel timedOut, smmuTlbiCfgi pf smmu'.base smmu'.cmdq smmu'.supported.hyp fuel
    (smmuStrtabWriteSte (some m'.steConfig) (smmuStrtabGetSteForSid smmu' attr.streamid) w₂) = some (timedOut, w')
  result : d' = d₁.mapped attr.smmuIndex i smmu' m' w'

theorem Maps.mapping {pf : Platform} {attr : SmmuMasterAttributes} {pgt : PgtDescriptor} {d d' : Driver}
    (h : Maps pf attr pgt d 0 d') :
    ∃ d₁ i m smmu' m' w₁ w₂ w', Mapping pf attr pgt d d' d₁ i m smmu' m' w₁ w₂ w' := by
  cases h
  case done i m d₁ smmu' m' w₃ fuel timedOut w' hg hk hb hl hm ht =>
    have hcd : d₁.boundCd2l (m.bind attr) attr.smmuIndex = d.boundCd2l (m.bind attr) attr.smmuIndex := by
      rw [Driver.boundCd2l, Driver.boundCd2l, hl.smmus_eq]
    obtain ⟨_, _, _, hsid⟩ := hl.listed
    have hkey : (m.bind attr).sid = attr.streamid := congrArg Prod.fst (bind_key hsid)
    rw [hcd] at hm
    simp only [mapMaster] at hm
    split at hm
    case h_1 => cases hm
    case h_2 m₁ hsel =>
      split at hm
      case isFalse => cases hm
      case isTrue hr =>
        have h₁ : m₁.sid = attr.streamid := (congrArg Prod.fst (selectStage_key hsel)).trans hkey
        split at hm
        case h_1 => cases hm
        case h_2 smmu₂ m₂ w₂ htab =>
          have h₂ : m₂.sid = attr.streamid := (congrArg Prod.fst (mapTables_key htab)).trans h₁
          cases hm
          rw [h₂] at ht
          simp only [mapTables] at htab
          split at htab
          case h_1 => cases htab
          case h_2 w₁ he =>
            rw [h₁] at he
            rcases selectStage_cases hsel with ⟨h2, _, rfl⟩ | ⟨h2, _, rfl⟩
            case inl =>
              cases htab
              exact ⟨d₁, i, m, _, _, _, _, w', ⟨hg, hk, hb⟩, hl, hr, he, .inl ⟨h2, rfl, rfl⟩, ⟨fuel, timedOut, ht⟩, rfl⟩
            case inr =>
              simp only at htab
              rcases hs : mapStage1 pf (d.boundCd2l (m.bind attr) attr.smmuIndex) attr.substreamid (m.bind attr).ssidBits
                pgt (m.bind attr).stage1 w₁ with ⟨ok, stage1, w₃⟩
              rw [hs] at htab
              cases htab
              exact ⟨d₁, i, m, _, _, w₁, _, w', ⟨hg, hk, hb⟩, hl, hr, he, .inr ⟨h2, stage1, hs, rfl⟩,
                ⟨fuel, timedOut, ht⟩, rfl⟩

section

variable {pf : Platform} {w w' : World} {cd2l : Bool} {ssid ssidBits : Nat} {cfg cfg' : Stage1Config}
variable {smmu smmu' : SmmuDev}

theorem shl1_toInt {n : Nat} (h : n % 32 ≤ 30) : toInt (shl1 n) = (2 ^ (n % 32) : Nat) := by
  have hp : 2 ^ (n % 32) ≤ 2 ^ 30 := Nat.pow_le_pow_right two_pos h
  rw [toInt, shl1, if_pos (by omega)]

-- A successful write of a context descriptor finds a place for it.
theorem cdtabWrite_hasCd (hs : ssid < 2 ^ 31) (hf : cfg.s1cdmax % 32 ≤ 30) (hp : cfg.cdcfg.cdtabPtr ≠ 0)
    (h : smmuCdtabWriteCtxDesc pf ssid cfg w = (true, cfg', w')) : cfg'.HasCd ssid := by
  have ⟨hfmt, hmax, _, hptr, _⟩ := cdtabWrite_format h
  simp only [smmuCdtabWriteCtxDesc] at h
  split at h
  case isTrue => cases h
  case isFalse hlt =>
    rw [shl1_toInt hf, toInt, if_pos hs] at hlt
    refine ⟨hptr ▸ hp, ?_, ?_⟩
    · rw [hmax]
      omega
    · intro hl
      rw [hfmt] at hl
      split at h
      case h_1 => cases h
      case h_2 hg =>
        cases h
        simp only [smmuCdtabGetCtxDesc, if_neg hl] at hg
        split at hg
        case isTrue => cases hg
        case isFalse =>
          split at hg
          case isTrue hz =>
            cases hg
            exact hz
          case isFalse =>
            split at hg
            case h_1 => cases hg
            case h_2 hleaf =>
              cases hg
              simp only [smmuCdtabAllocLeafTable] at hleaf
              split at hleaf
              case isTrue => cases hleaf
              case isFalse hz =>
                cases hleaf
                simp [CdtabConfig.setL1Desc, hz]

theorem cdtabAlloc_ptr (h : smmuCdtabAlloc pf cd2l cfg w = (true, cfg', w')) :
    cfg'.cdcfg.cdtabPtr ≠ 0 ∧ cfg'.s1cdmax = cfg.s1cdmax := by
  have table {size : Nat} {cfg : Stage1Config} {w : World} (h : cdtabAllocTable pf size cfg w = (true, cfg', w')) :
      cfg'.cdcfg.cdtabPtr ≠ 0 ∧ cfg'.s1cdmax = cfg.s1cdmax := by
    simp only [cdtabAllocTable] at h
    split at h
    case isTrue => cases h
    case isFalse hp =>
      cases h
      exact ⟨hp, rfl⟩
  simp only [smmuCdtabAlloc] at h
  split at h
  case isTrue =>
    split at h
    case isTrue => cases h
    case isFalse =>
      obtain ⟨hp, hm⟩ := table h
      exact ⟨hp, hm⟩
  case isFalse =>
    obtain ⟨hp, hm⟩ := table h
    exact ⟨hp, hm⟩

theorem mapStage1_hasCd {pgt : PgtDescriptor} (hs : ssid < 2 ^ 31) (hf : ssidBits % 2 ^ 8 % 32 ≤ 30)
    (h : mapStage1 pf cd2l ssid ssidBits pgt cfg w = (true, cfg', w')) : cfg'.HasCd ssid := by
  simp only [mapStage1] at h
  split at h
  case h_1 => cases h
  case h_2 he =>
    split at he
    case isTrue =>
      obtain ⟨hp, hmax⟩ := cdtabAlloc_ptr he
      refine cdtabWrite_hasCd hs ?_ ?_ h
      · exact hmax ▸ hf
      · exact hp
    case isFalse hz =>
      cases he
      refine cdtabWrite_hasCd hs ?_ ?_ h
      · exact hf
      · exact hz

-- Entries stay where they are.
theorem SmmuDev.SameBut.ste {sid : Nat} (h : smmu.SameBut smmu') (hs : smmu.HasSte sid) :
    smmu'.HasSte sid ∧ smmuStrtabGetSteForSid smmu' sid = smmuStrtabGetSteForSid smmu sid := by
  have ⟨l1Desc, hkeep, he⟩ := h
  have ⟨hlt, hptr⟩ := hs
  rw [he, SmmuDev.HasSte, smmuStrtabGetSteForSid, smmuStrtabGetSteForSid]
  cases hl : smmu.supported.stLevel2lvl
  case false => simp [SmmuDev.setStrtab, hl, hlt]
  case true =>
    have hk := hkeep _ (hptr hl)
    simp only [SmmuDev.setStrtab, hl, strtabL1DescDwords, Nat.mul_one, hk, forall_const]
    exact ⟨⟨hlt, hptr hl⟩, trivial⟩

-- An entry that was not there before is in a new table of the second level.
theorem SmmuDev.SameBut.new_ste {sid : Nat} (h : smmu.SameBut smmu') (hold : ¬smmu.HasSte sid) (hs : smmu'.HasSte sid) :
    smmu.supported.stLevel2lvl = true ∧ (smmu.strtabCfg.l1Desc (sid >>> strtabSplit)).l2ptr = 0 ∧
      (smmu'.strtabCfg.l1Desc (sid >>> strtabSplit)).l2ptr ≠ 0 := by
  have ⟨_, _, he⟩ := h
  have ⟨hlt, hptr⟩ := hs
  have hlt' : sid < 2 ^ smmu.sidBits := by
    rw [he] at hlt
    exact hlt
  have hlevel : smmu'.supported.stLevel2lvl = smmu.supported.stLevel2lvl := by
    rw [he]
    rfl
  have hnone : ¬(smmu.supported.stLevel2lvl = true → (smmu.strtabCfg.l1Desc (sid >>> strtabSplit)).l2ptr ≠ 0) :=
    fun hc => hold ⟨hlt', hc⟩
  have ⟨hl, hz⟩ := Classical.not_imp.mp hnone
  exact ⟨hl, not_not.mp hz, hptr (hlevel.trans hl)⟩

end

instance {smmu : SmmuDev} {sid : Nat} : Decidable (smmu.HasSte sid) :=
  inferInstanceAs (Decidable (_ ∧ _))

-- The entry of a stream. Where there is no table of the second level yet, it is the entry of a new one.
def Driver.entry (d : Driver) (k sid : Nat) : Entry :=
  if (d.smmus k).HasSte sid then entryAt d.world.heap.mem (smmuStrtabGetSteForSid (d.smmus k) sid) else .abort

section

variable {d : Driver} {others : List Nat} {k k' sid sid' x : Nat}

theorem level2_offset {smmu : SmmuDev} (hl : smmu.supported.stLevel2lvl = true) :
    smmuStrtabGetSteForSid smmu sid = (smmu.strtabCfg.l1Desc (sid >>> strtabSplit)).l2desc64 + 64 * (sid % 2 ^ 8) := by
  have hm : sid &&& ((1 <<< strtabSplit) - 1) = sid % 2 ^ 8 := Nat.and_two_pow_sub_one_eq_mod sid 8
  rw [smmuStrtabGetSteForSid, if_pos hl, strtabL1DescDwords, Nat.mul_one, hm, strtabSteDwords]
  omega

-- Entries of different streams do not overlap.
theorem Driver.Sane.ste_unique (hs : d.Sane others) (hk : k < d.numSmmus) (hb : (d.smmus k).base ≠ 0)
    (he : (d.smmus k).HasSte sid) (hk' : k' < d.numSmmus) (hb' : (d.smmus k').base ≠ 0) (he' : (d.smmus k').HasSte sid')
    (hx : Inside (smmuStrtabGetSteForSid (d.smmus k) sid, 64) x)
    (hx' : Inside (smmuStrtabGetSteForSid (d.smmus k') sid', 64) x) : k = k' ∧ sid = sid' := by
  have hin := ste_in hs.placed hk hb (hs.sized k hk hb) he hx
  have hin' := ste_in hs.placed hk' hb' (hs.sized k' hk' hb') he' hx'
  have hu := hin.unique hs.kept hs.placed hin'
  have hfit := (hs.sized k hk hb).2
  rw [Driver.steHandle, Driver.steHandle] at hu
  cases hl : (d.smmus k).supported.stLevel2lvl
  case false =>
    simp only [hl, Bool.false_eq_true, if_false] at hu hfit
    split at hu
    case isTrue => cases hu
    case isFalse =>
      cases hu
      rw [ste_offset hl he.1 hfit] at hx
      rw [ste_offset hl he'.1 hfit] at hx'
      obtain ⟨_, _⟩ := hx
      obtain ⟨_, _⟩ := hx'
      refine ⟨rfl, ?_⟩
      simp only at *
      omega
  case true =>
    simp only [hl, if_true] at hu
    split at hu
    case isFalse => cases hu
    case isTrue hl' =>
      injection hu with hkk hj
      subst hkk
      rw [level2_offset hl] at hx hx'
      rw [← hj] at hx'
      rw [Nat.shiftRight_eq_div_pow, Nat.shiftRight_eq_div_pow, strtabSplit] at hj
      obtain ⟨_, _⟩ := hx
      obtain ⟨_, _⟩ := hx'
      refine ⟨rfl, ?_⟩
      simp only at *
      omega

-- Writing the entry of a stream changes no other entry.
theorem Driver.Sane.written_entry {cfg : Option SteConfig} {w : World} (hs : d.Sane others) (hk : k < d.numSmmus)
    (hb : (d.smmus k).base ≠ 0) (he : (d.smmus k).HasSte sid) (hk' : k' < d.numSmmus) (hb' : (d.smmus k').base ≠ 0)
    (he' : (d.smmus k').HasSte sid') :
    entryAt (smmuStrtabWriteSte cfg (smmuStrtabGetSteForSid (d.smmus k') sid') w).heap.mem
        (smmuStrtabGetSteForSid (d.smmus k) sid) =
      if k = k' ∧ sid = sid' then (entryAt w.heap.mem (smmuStrtabGetSteForSid (d.smmus k) sid)).write cfg
      else entryAt w.heap.mem (smmuStrtabGetSteForSid (d.smmus k) sid) := by
  split
  case isTrue heq =>
    obtain ⟨rfl, rfl⟩ := heq
    exact writeSte_entry
  case isFalse hne =>
    exact entryAt_congr fun x hx => writeSte_mem fun hx' => hne (hs.ste_unique hk hb he hk' hb' he' hx hx')

-- The blocks of the stream tables. Nothing but the stream tables is in them.
def Handle.OfStrtab : Handle → Prop
  | .strtab _ | .level2 _ _ => True
  | _ => False

theorem Handle.ofStrtab_strtab : (Handle.strtab k).OfStrtab :=
  trivial

theorem Driver.steHandle_ofStrtab : (d.steHandle k sid).OfStrtab := by
  rw [Driver.steHandle]
  split <;> trivial

theorem Driver.In.not_queue {g : Handle} (hs : d.Sane others) (hg : g.OfStrtab) (hin : d.In g x) (hk : k < d.numSmmus)
    (hb : (d.smmus k).base ≠ 0) : ¬QueueWords (d.smmus k).cmdq x := by
  intro hq
  have hu := hin.unique hs.kept hs.placed (queue_in hs.placed hk hb (hs.sized k hk hb) hq)
  rw [hu] at hg
  exact hg

-- The tables of context descriptors of a record.
theorem Driver.Sane.cdWords_in {i ssid : Nat} {n : Node} (hs : d.Sane others) (hn : d.masters[i]? = some n)
    (hb : n.master.smmu = some k) (he : n.master.stage1.HasCd ssid) (hx : CdWords n.master.stage1 ssid x) :
    d.In (.cdtab i) x ∨ ∃ j, d.In (.leaf i j) x := by
  rcases hx with ⟨hl, rfl⟩ | hx
  case inl => exact .inl (cdL1Word_in hs.placed hn hb he.1 hl he.2.1)
  case inr =>
    have hin := cd_in hs.kept hs.placed hn hb he hx
    rw [cdHandle] at hin
    split at hin
    case isTrue  => exact .inl hin
    case isFalse => exact .inr ⟨_, hin⟩

theorem Driver.In.not_cd {i ssid : Nat} {n : Node} {g : Handle} (hs : d.Sane others) (hg : g.OfStrtab) (hin : d.In g x)
    (hn : d.masters[i]? = some n) (hb : n.master.smmu = some k) (he : n.master.stage1.HasCd ssid) :
    ¬CdWords n.master.stage1 ssid x := by
  intro hc
  rcases hs.cdWords_in hn hb he hc with hcd | ⟨_, hcd⟩
  all_goals
    rw [hin.unique hs.kept hs.placed hcd] at hg
    exact hg

end

-- The entries of a table of the second level that a call has just added.
theorem Driver.Sane.level2_entries {pf : Platform} {attr : SmmuMasterAttributes} {d d₁ : Driver} {others : List Nat}
    {r : Option (Nat × Master)} {smmu' : SmmuDev} {w₁ : World} {sid : Nat} (hs : d.Sane others) (ha : pf.alloc.Sound)
    (ht : d.Takes attr) (hlook : Lookup pf attr.streamid d r d₁)
    (hl : (d.smmus attr.smmuIndex).supported.stLevel2lvl = true)
    (hr : sidInRange (d.smmus attr.smmuIndex) attr.streamid = true)
    (hz : ((d.smmus attr.smmuIndex).strtabCfg.l1Desc (attr.streamid >>> strtabSplit)).l2ptr = 0)
    (h : smmuStrtabInitLevel2 pf (d.smmus attr.smmuIndex) attr.streamid d₁.world = (true, smmu', w₁))
    (hj : sid >>> strtabSplit = attr.streamid >>> strtabSplit) :
    entryAt w₁.heap.mem (smmuStrtabGetSteForSid smmu' sid) = .abort ∧
      ∃ b ∈ w₁.heap.live, ∀ x, Inside (smmuStrtabGetSteForSid smmu' sid, 64) x → Inside b x := by
  have ⟨_, hi, hbase⟩ := ht
  have hd₁ : d₁.Placed := hlook.placed ha hs.placed
  have hi₁ : attr.smmuIndex < d₁.numSmmus := hlook.numSmmus_eq.1 ▸ hi
  have hpl₁ := hd₁.smmus attr.smmuIndex hi₁
  rw [hlook.smmus_eq] at hpl₁
  have hin := l1Word_in hs.placed hi hbase (hs.sized _ hi hbase) hl ((hs.kept.ready _ hi hbase).count hl).1
    (sidInRange_iff.mp hr)
  have ⟨_, size, hlive, hins⟩ := hin
  have hentries := (initLevel2_entries ha ((hlook.frame (S := fun _ => False) ha).live _ hlive) hins hz h).1
    (sid % 2 ^ 8) (Nat.mod_lt _ (by decide))
  have hpl : smmu'.Placed w₁.heap.live :=
    initLevel2_placed ha (hpl₁ hbase) hl (level1_index_lt (hs.kept.ready _ hi hbase) (hs.sized _ hi hbase) hl hr) h
  have hl' : smmu'.supported.stLevel2lvl = true := by
    have ⟨_, _, hsame⟩ := initLevel2_sameBut h
    rw [hsame]
    exact hl
  have ⟨hblock, halign, _⟩ := hpl.level2 _ (initLevel2_done h).1
  have hfit : (smmu'.strtabCfg.l1Desc (attr.streamid >>> strtabSplit)).l2ptr + 2 * 2 ^ 14 ≤ 2 ^ 64 :=
    ((initLevel2_frame ha h).laid hd₁.laid).fits _ hblock
  rw [level2_offset hl', hj]
  refine ⟨hentries, _, hblock, fun x hx => aligned_inside hfit ?_⟩
  rw [halign] at hx
  have ⟨_, _⟩ := hx
  have := Nat.mod_lt sid (show 2 ^ 8 > 0 by decide)
  exact ⟨by simp only at *; omega, by simp only at *; omega⟩

-- The lookup of the record and the step for the stream table write one word in a block that is there before them.
theorem Lookup.level2_frame {pf : Platform} {attr : SmmuMasterAttributes} {d d₁ : Driver} {r : Option (Nat × Master)}
    {ok : Bool} {smmu' : SmmuDev} {w₁ : World} (ha : pf.alloc.Sound) (h : Lookup pf attr.streamid d r d₁)
    (h2 : (if (d.smmus attr.smmuIndex).supported.stLevel2lvl
      then smmuStrtabInitLevel2 pf (d.smmus attr.smmuIndex) attr.streamid d₁.world
      else (true, d.smmus attr.smmuIndex, d₁.world)) = (ok, smmu', w₁)) :
    Frame (NewLevel2 (d.smmus attr.smmuIndex) attr.streamid) d.world.heap w₁.heap := by
  refine (h.frame ha).trans ?_
  split at h2
  case isTrue ht => exact (initLevel2_frame ha h2).mono fun x hx => ⟨ht, hx.1, hx.2⟩
  case isFalse =>
    cases h2
    exact .refl

-- The size of the tables of context descriptors fits, whether they are new or not.
theorem Lookup.fits {pf : Platform} {attr : SmmuMasterAttributes} {d d₁ : Driver} {others : List Nat} {i : Nat} {m : Master}
    {P : Prop} (h : Lookup pf attr.streamid d (some (i, m)) d₁) (hs : d.Sane others)
    (hc : (d.target attr).stage1.cdcfg.cdtabPtr = 0 → CdFits (d.targetCd2l attr) ((d.target attr).ssidBits % 2 ^ 8) ∧ P) :
    CdFits (d.boundCd2l (m.bind attr) attr.smmuIndex) ((m.bind attr).ssidBits % 2 ^ 8) := by
  rw [Driver.targetCd2l, Driver.target, h.recordOf_eq, bind_stage1] at hc
  by_cases hz : m.stage1.cdcfg.cdtabPtr = 0
  case pos => exact (hc hz).1
  case neg =>
    cases hb : m.smmu
    case none =>
      have hu := hs.kept.recordOf (h.recordOf_eq ▸ hb)
      rw [h.recordOf_eq] at hu
      rw [hu] at hz
      exact absurd rfl hz
    case some k =>
      have hbind : m.bind attr = m := by simp [Master.bind, hb]
      obtain ⟨n, hn, he, _⟩ := recordOf_mem (h.recordOf_eq ▸ hb)
      rw [h.recordOf_eq] at he
      subst he
      have hfit := ((hs.placed.nodes n hn k hb).table hz).1
      rw [((hs.kept.nodes n hn).bound k hb).bits (.inl hz)] at hfit
      rw [hbind, Driver.boundCd2l, hb]
      exact hfit

-- The record of a map is found again.
theorem Lookup.mapped {pf : Platform} {d d₁ : Driver} {sid i k : Nat} {m m' : Master} {smmu' : SmmuDev} {w' : World}
    (hsid : m'.sid = sid) (h : Lookup pf sid d (some (i, m)) d₁) :
    Lookup pf sid (d₁.mapped k i smmu' m' w') (some (i, m')) (d₁.mapped k i smmu' m' w') := by
  have hlist : ∃ n, (d₁.mapped k i smmu' m' w').masters[i]? = some n ∧ n.master = m' := by
    obtain ⟨n, hn, _⟩ := h.listed
    refine ⟨{ n with master := m' }, ?_, rfl⟩
    simp [Driver.mapped, Driver.setMaster, Driver.setSmmu, hn]
  obtain ⟨n, hn, he⟩ := hlist
  subst he
  refine .found hn hsid ?_
  intro j hj n₁ hn₁
  simp only [Driver.mapped, Driver.setMaster, Driver.setSmmu, List.getElem?_modify, if_neg (Nat.ne_of_gt hj)] at hn₁
  rcases h.record with ⟨rfl, _, _, _, _, hfirst⟩ | ⟨rfl, _⟩
  case inl =>
    refine hfirst j hj n₁ ?_
    simpa using hn₁
  case inr => exact absurd hj (Nat.not_lt_zero j)

namespace Mapping

variable {pf : Platform} {attr : SmmuMasterAttributes} {pgt : PgtDescriptor} {d d' d₁ : Driver} {i : Nat} {m m' : Master}
variable {smmu' : SmmuDev} {w₁ w₂ w' : World} {others : List Nat}
variable (h : Mapping pf attr pgt d d' d₁ i m smmu' m' w₁ w₂ w')

include h

theorem sameBut : (d.smmus attr.smmuIndex).SameBut smmu' := by
  have hl := h.level2
  split at hl
  case isTrue => exact initLevel2_sameBut hl
  case isFalse =>
    cases hl
    exact .refl

theorem smmus_eq (k : Nat) : d'.smmus k = if k = attr.smmuIndex then smmu' else d.smmus k := by
  rw [h.result, ← h.lookup.smmus_eq]
  rfl

theorem sameBut_all (k : Nat) : (d.smmus k).SameBut (d'.smmus k) := by
  rw [h.smmus_eq]
  split
  case isTrue hk =>
    rw [hk]
    exact h.sameBut
  case isFalse => exact .refl

theorem base_eq : smmu'.base = (d.smmus attr.smmuIndex).base :=
  h.sameBut.base_eq

theorem numSmmus_eq : d'.numSmmus = d.numSmmus := by
  rw [h.result]
  exact h.lookup.numSmmus_eq.1

-- The SMMU that the call names, after the call.
theorem target : attr.smmuIndex < d'.numSmmus ∧ d'.smmus attr.smmuIndex = smmu' ∧
    (d'.smmus attr.smmuIndex).base ≠ 0 := by
  have ⟨_, hi, hbase⟩ := h.takes
  refine ⟨h.numSmmus_eq ▸ hi, ?_, (h.sameBut_all _).base_eq ▸ hbase⟩
  rw [h.smmus_eq, if_pos rfl]

theorem key : m'.sid = attr.streamid ∧ m'.smmu = some (m.smmu.getD attr.smmuIndex) := by
  have ⟨_, _, _, hsid⟩ := h.lookup.listed
  have hk : (m.bind attr).key = _ := bind_key hsid
  have h₁ : (m.bind attr).sid = attr.streamid := congrArg Prod.fst hk
  have h₂ : (m.bind attr).smmu = some (m.smmu.getD attr.smmuIndex) := congrArg Prod.snd hk
  rcases h.tables with ⟨_, _, hm⟩ | ⟨_, _, _, hm⟩
  all_goals
    rw [hm]
    exact ⟨h₁, h₂⟩

-- A stream that is bound to the SMMU of the call, or to none, is bound to that SMMU.
theorem smmu_eq (hb : ∀ k, (d.recordOf attr.streamid).smmu = some k → k = attr.smmuIndex) :
    m'.smmu = some attr.smmuIndex := by
  rw [h.key.2]
  cases hs : m.smmu
  case none   => rfl
  case some k => rw [Option.getD_some, hb k (h.lookup.recordOf_eq ▸ hs)]

theorem found : Lookup pf attr.streamid d' (some (i, m')) d' := by
  rw [h.result]
  exact h.lookup.mapped h.key.1

theorem hasSte : smmu'.HasSte attr.streamid := by
  have hr := sidInRange_iff.mp h.range
  have ⟨_, _, he⟩ := h.sameBut
  have hl := h.level2
  split at hl
  case isTrue =>
    refine ⟨?_, fun _ => (initLevel2_done hl).1⟩
    rw [he]
    exact hr
  case isFalse hn =>
    cases hl
    exact ⟨hr, fun hc => absurd hc hn⟩

theorem new_level2 {k sid : Nat} (hold : ¬(d.smmus k).HasSte sid) (he : (d'.smmus k).HasSte sid) :
    k = attr.smmuIndex ∧ (d.smmus attr.smmuIndex).supported.stLevel2lvl = true ∧
      ((d.smmus attr.smmuIndex).strtabCfg.l1Desc (attr.streamid >>> strtabSplit)).l2ptr = 0 ∧
      sid >>> strtabSplit = attr.streamid >>> strtabSplit := by
  have hk : k = attr.smmuIndex := by
    by_contra hne
    rw [h.smmus_eq, if_neg hne] at he
    exact hold he
  subst hk
  rw [h.smmus_eq, if_pos rfl] at he
  have ⟨hl, hz, hptr⟩ := h.sameBut.new_ste hold he
  have hl2 := h.level2
  rw [if_pos hl] at hl2
  have hj : sid >>> strtabSplit = attr.streamid >>> strtabSplit := by
    by_contra hne
    exact hptr ((initLevel2_done hl2).2 _ hne ▸ hz)
  exact ⟨rfl, hl, hj ▸ hz, hj⟩

-- Which words the steps change in blocks that are there before them.

theorem frame₁ (ha : pf.alloc.Sound) :
    Frame (NewLevel2 (d.smmus attr.smmuIndex) attr.streamid) d.world.heap w₁.heap :=
  h.lookup.level2_frame ha h.level2

theorem frame₃ : Frame (fun x => Inside (smmuStrtabGetSteForSid smmu' attr.streamid, 64) x ∨ QueueWords smmu'.cmdq x)
    w₂.heap d'.world.heap := by
  have ⟨_, _, hq⟩ := h.queue
  have hw : d'.world = w' := by rw [h.result]; rfl
  rw [hw]
  exact (writeSte_frame fun x hx => .inl hx).trans ((tlbiCfgi_frame hq).mono fun x hx => .inr hx)

section

variable (hs : d.Sane others) (hc : d.CallSafe pf (.map attr pgt))

include hs hc

theorem fits (h1 : attr.stage2 = 0) : CdFits (d.boundCd2l (m.bind attr) attr.smmuIndex) ((m.bind attr).ssidBits % 2 ^ 8) :=
  h.lookup.fits hs (hc h.takes h1).2

theorem hasCd (h1 : attr.stage2 = 0) : m'.stage1.HasCd attr.substreamid := by
  rcases h.tables with ⟨h2, _⟩ | ⟨_, stage1, hm, he⟩
  case inl => exact absurd h1 h2
  case inr =>
    rw [he]
    exact mapStage1_hasCd (hc h.takes h1).1 (h.fits hs hc h1).le hm

theorem frame₂ (ha : pf.alloc.Sound) :
    Frame (fun x => attr.stage2 = 0 ∧ CdWords m'.stage1 attr.substreamid x) w₁.heap w₂.heap := by
  rcases h.tables with ⟨_, he, _⟩ | ⟨h1, stage1, hm, he⟩
  case inl =>
    rw [he]
    exact .refl
  case inr =>
    rw [he]
    exact (mapStage1_frame ha (fun _ => h.fits hs hc h1) hm).mono fun x hx => ⟨h1, hx.2⟩

variable (hs' : d'.Sane others)

include hs'

theorem not_written {g : Handle} {x : Nat} (hg : g.OfStrtab) (hin : d'.In g x) :
    ¬(attr.stage2 = 0 ∧ CdWords m'.stage1 attr.substreamid x) ∧ ¬QueueWords smmu'.cmdq x := by
  have ⟨hi, hsmmu, hbase⟩ := h.target
  have ⟨n, hn, hm, _⟩ := h.found.listed
  constructor
  case left =>
    rintro ⟨h1, hcd⟩
    have hcd' := h.hasCd hs hc h1
    have hbound := h.key.2
    rw [← hm] at hcd hcd' hbound
    exact hin.not_cd hs' hg hn hbound hcd' hcd
  case right =>
    rw [← hsmmu]
    exact hin.not_queue hs' hg hi hbase

-- The words of the entry of a stream.
theorem ste_not_written {k sid x : Nat} (hk : k < d'.numSmmus) (hb : (d'.smmus k).base ≠ 0)
    (he : (d'.smmus k).HasSte sid) (hx : Inside (smmuStrtabGetSteForSid (d'.smmus k) sid, 64) x) :
    ¬(attr.stage2 = 0 ∧ CdWords m'.stage1 attr.substreamid x) ∧ ¬QueueWords smmu'.cmdq x :=
  h.not_written hs hc hs' Driver.steHandle_ofStrtab (ste_in hs'.placed hk hb (hs'.sized k hk hb) he hx)

variable (ha : pf.alloc.Sound)

include ha

-- Before the entry of the stream is written, all entries are as before the call.
theorem entry₂ {k sid : Nat} (hk : k < d.numSmmus) (hb : (d.smmus k).base ≠ 0) (he : (d'.smmus k).HasSte sid) :
    entryAt w₂.heap.mem (smmuStrtabGetSteForSid (d'.smmus k) sid) = d.entry k sid := by
  obtain ⟨_, hi, hbase⟩ := h.takes
  have hk' : k < d'.numSmmus := h.numSmmus_eq ▸ hk
  have hb' : (d'.smmus k).base ≠ 0 := (h.sameBut_all k).base_eq ▸ hb
  have later {b : Nat × Nat} (hl : b ∈ w₁.heap.live)
      (hin : ∀ x, Inside (smmuStrtabGetSteForSid (d'.smmus k) sid, 64) x → Inside b x) :
      entryAt w₂.heap.mem (smmuStrtabGetSteForSid (d'.smmus k) sid) =
        entryAt w₁.heap.mem (smmuStrtabGetSteForSid (d'.smmus k) sid) :=
    entryAt_congr fun x hx => (h.frame₂ hs hc ha).mem b hl x (hin x hx) (h.ste_not_written hs hc hs' hk' hb' he hx).1
  by_cases hold : (d.smmus k).HasSte sid
  case pos =>
    have hloc := ((h.sameBut_all k).ste hold).2
    have hplace {x : Nat} (hx : Inside (smmuStrtabGetSteForSid (d.smmus k) sid, 64) x) :=
      ste_in hs.placed hk hb (hs.sized k hk hb) hold hx
    rw [Driver.entry, if_pos hold, hloc]
    refine entryAt_congr fun x hx => ?_
    obtain ⟨_, size, hlive, hins⟩ := hplace hx
    have h₂ := (h.frame₂ hs hc ha).mem _ ((h.frame₁ ha).live _ hlive) x hins
      (h.ste_not_written hs hc hs' hk' hb' he (hloc ▸ hx)).1
    refine h₂.trans ((h.frame₁ ha).mem _ hlive x hins fun hnew => ?_)
    have hw : FailWord d attr x := ⟨h.takes, h.range, hnew⟩
    obtain ⟨hw, hl⟩ := failWord_in hs hw
    have hu := (hplace hx).unique hs.kept hs.placed hw
    rw [Driver.steHandle] at hu
    split at hu
    case isTrue => cases hu
    case isFalse hl' =>
      cases hu
      exact hl' hl
  case neg =>
    rw [Driver.entry, if_neg hold]
    obtain ⟨hidx, hl, hz, hj⟩ := h.new_level2 hold he
    subst hidx
    have hsmmu := h.target.2.1
    have hlevel := h.level2
    rw [if_pos hl] at hlevel
    obtain ⟨hentry, b, hb₁, hin⟩ := hs.level2_entries ha h.takes h.lookup hl h.range hz hlevel hj
    rw [← hsmmu] at hentry hin
    rw [later hb₁ hin, hentry]

-- A successful map changes the entry of its stream, and no other.
theorem entry_eq {k sid : Nat} (hk : k < d.numSmmus) (hb : (d.smmus k).base ≠ 0) :
    d'.entry k sid =
      if k = attr.smmuIndex ∧ sid = attr.streamid then (d.entry k sid).write (some m'.steConfig) else d.entry k sid := by
  have ⟨hi', hsmmu, hbase'⟩ := h.target
  have hk' : k < d'.numSmmus := h.numSmmus_eq ▸ hk
  have hb' : (d'.smmus k).base ≠ 0 := (h.sameBut_all k).base_eq ▸ hb
  by_cases he : (d'.smmus k).HasSte sid
  case neg =>
    have hold : ¬(d.smmus k).HasSte sid := fun hc => he ((h.sameBut_all k).ste hc).1
    have hne : ¬(k = attr.smmuIndex ∧ sid = attr.streamid) := by
      rintro ⟨rfl, rfl⟩
      exact he (hsmmu ▸ h.hasSte)
    rw [Driver.entry, if_neg he, if_neg hne, Driver.entry, if_neg hold]
  case pos =>
    have ⟨fuel, timedOut, hq⟩ := h.queue
    have hworld : d'.world = w' := by rw [h.result]; rfl
    have hlast : entryAt d'.world.heap.mem (smmuStrtabGetSteForSid (d'.smmus k) sid) =
        entryAt (smmuStrtabWriteSte (some m'.steConfig) (smmuStrtabGetSteForSid smmu' attr.streamid) w₂).heap.mem
          (smmuStrtabGetSteForSid (d'.smmus k) sid) := by
      refine entryAt_congr fun x hx => ?_
      have ⟨_, size, hlive, hins⟩ := ste_in hs'.placed hk' hb' (hs'.sized k hk' hb') he hx
      rw [hworld] at hlive ⊢
      rw [(tlbiCfgi_same hq).live] at hlive
      exact (tlbiCfgi_frame hq).mem _ hlive x hins (h.ste_not_written hs hc hs' hk' hb' he hx).2
    rw [Driver.entry, if_pos he, hlast, ← hsmmu, hs'.written_entry hk' hb' he hi' hbase' (hsmmu ▸ h.hasSte),
      h.entry₂ hs hc hs' ha hk hb he]

end

end Mapping

end Smmu
