import BsaAcs.Smmu.Theorems.Address
import BsaAcs.Smmu.Theorems.Unmap

namespace Smmu

open Heap (Frame Inside)

-- The value that `smmu_reset` writes to a register.
def SmmuDev.programmed (smmu : SmmuDev) (offset : Nat) : Nat :=
  (lastWrite (smmu.base + offset) (resetRegisters smmu .start).trace).getD 0

-- How the SMMU finds the entry of a stream from STRTAB_BASE and STRTAB_BASE_CFG.
def lookupSte (mem : Memory) (base cfg sid : Nat) : Option Nat :=
  let table := Bits.slice 51 6 base
  let split := strtabBaseCfgSplit.get cfg
  if sid < 2 ^ strtabBaseCfgLog2size.get cfg then
    if strtabBaseCfgFmt.get cfg = strtabBaseCfgFmt2lvl then
      let desc := mem (table + 8 * (sid >>> split))
      let span := strtabL1DescSpan.get desc
      -- A span of 0 is a descriptor that is not valid.
      if 0 < span ∧ sid % 2 ^ split < 2 ^ (span - 1) then some (Bits.slice 51 6 desc + 64 * (sid % 2 ^ split)) else none
    else some (table + 64 * sid)
  else none

def Driver.hardwareSte (d : Driver) (k sid : Nat) : Option Nat :=
  lookupSte d.world.heap.mem ((d.smmus k).programmed strtabBaseOffset) ((d.smmus k).programmed strtabBaseCfgOffset) sid

section

variable {smmu : SmmuDev}

theorem programmed_strtabBase : smmu.programmed strtabBaseOffset = smmu.strtabCfg.strtabBase := by
  simp [SmmuDev.programmed, lastWrite, resetRegisters, World.valMmioWrite, Access.writeOf, strtabBaseOffset,
    strtabBaseCfgOffset, cmdqBaseOffset, cmdqProdOffset, cmdqConsOffset]

theorem programmed_strtabBaseCfg : smmu.programmed strtabBaseCfgOffset = smmu.strtabCfg.strtabBaseCfg := by
  simp [SmmuDev.programmed, lastWrite, resetRegisters, World.valMmioWrite, Access.writeOf, strtabBaseCfgOffset,
    cmdqBaseOffset, cmdqProdOffset, cmdqConsOffset]

-- What the initialisation puts into the registers.
structure SmmuDev.Configured (smmu : SmmuDev) : Prop where
  base : smmu.strtabCfg.strtabBase = strtabBase smmu.strtabCfg.strtab64
  cfg  : smmu.strtabCfg.strtabBaseCfg =
    if smmu.supported.stLevel2lvl
    then strtabBaseCfgFmt.set strtabBaseCfgFmt2lvl ||| strtabBaseCfgLog2size.set smmu.sidBits |||
      strtabBaseCfgSplit.set strtabSplit
    else strtabBaseCfgFmt.set strtabBaseCfgFmtLinear ||| strtabBaseCfgLog2size.set smmu.sidBits

-- The words of the registers and of a level-1 descriptor, read by the SMMU.

theorem cfg_2lvl : ∀ n < 35,
    let cfg := strtabBaseCfgFmt.set strtabBaseCfgFmt2lvl ||| strtabBaseCfgLog2size.set n ||| strtabBaseCfgSplit.set strtabSplit
    strtabBaseCfgFmt.get cfg = strtabBaseCfgFmt2lvl ∧ strtabBaseCfgLog2size.get cfg = n ∧
      strtabBaseCfgSplit.get cfg = strtabSplit := by
  decide

theorem cfg_linear : ∀ n < 25,
    let cfg := strtabBaseCfgFmt.set strtabBaseCfgFmtLinear ||| strtabBaseCfgLog2size.set n
    strtabBaseCfgFmt.get cfg ≠ strtabBaseCfgFmt2lvl ∧ strtabBaseCfgLog2size.get cfg = n := by
  decide

theorem slice_strtabBase {table : Nat} (hd : 64 ∣ table) (hl : table < 2 ^ 46) :
    Bits.slice 51 6 (strtabBase table) = table :=
  (AddressField.slice_word (f := .strtabBase) hd).trans (Nat.mod_eq_of_lt hl)

theorem slice_level1Desc {table : Nat} (hd : 64 ∣ table) (hl : table < 2 ^ 46) :
    Bits.slice 51 6 (strtabLevel1Desc (strtabSplit + 1) table) = table :=
  (AddressField.slice_word (f := .strtabL2ptr (strtabSplit + 1)) hd).trans (Nat.mod_eq_of_lt hl)

theorem span_level1Desc {table : Nat} (hd : 64 ∣ table) :
    strtabL1DescSpan.get (strtabLevel1Desc (strtabSplit + 1) table) = strtabSplit + 1 := by
  have hm : strtabL1DescSpan.mask = 2 ^ 5 - 1 := rfl
  have hs : strtabL1DescSpan.set (strtabSplit + 1) = 9 := rfl
  have hz : table % 2 ^ 46 % 2 ^ 5 = 0 := by omega
  have hw : strtabL1DescL2ptr.mask = 2 ^ 46 - 1 := rfl
  rw [BitField.get, strtabLevel1Desc, hm, hs, hw, Nat.and_two_pow_sub_one_eq_mod, Nat.and_two_pow_sub_one_eq_mod]
  change ((9 ||| table % 2 ^ 46) >>> 0) % 2 ^ 5 = 9
  rw [Nat.shiftRight_zero, Nat.or_mod_two_pow, hz]
  rfl

end

-- The initialisation.

section

variable {pf : Platform} {w w' : World} {smmu smmu' : SmmuDev} {d d' : Driver} {info : IovirtSmmuInfo}
variable {fuel status : Nat}

theorem strtabInit_configured (h : smmuStrtabInit pf smmu w = (true, smmu', w')) : smmu'.Configured := by
  simp only [smmuStrtabInit] at h
  split at h
  case h_1 => cases h
  case h_2 smmu₁ w₁ he =>
    cases h
    split at he
    case isTrue hl =>
      simp only [smmuStrtabInit2level, smmuStrtabInitLevel1] at he
      split at he
      case isTrue => cases he
      case isFalse =>
        split at he
        case h_1 => cases he
        case h_2 hm =>
          split at hm
          case isTrue => cases hm
          case isFalse =>
            cases hm
            cases he
            exact ⟨rfl, (if_pos hl).symm⟩
    case isFalse hl =>
      simp only [smmuStrtabInitLinear] at he
      split at he
      case isTrue => cases he
      case isFalse =>
        cases he
        exact ⟨rfl, (if_neg hl).symm⟩

-- An SMMU after a successful `smmu_init`.
theorem init_configured (ha : pf.alloc.Sound) (hz : ∀ j, smmu.strtabCfg.l1Desc j = .zero)
    (h : smmuInit pf smmu fuel w = some (0, smmu', w')) :
    smmu'.Configured ∧ ∀ j, smmu'.strtabCfg.l1Desc j = .zero := by
  have ⟨_, w₁, hs, _⟩ := init_setup h
  simp only [smmuSetup] at hs
  split at hs
  case h_1 => cases hs
  case h_2 hp =>
    split at hs
    case h_1 => cases hs
    case h_2 smmu₁ w₁ hq =>
      refine ⟨strtabInit_configured hs, (strtabInit_placed ha hs).empty fun j => ?_⟩
      rw [(cmdQueueInit_placed ha hq).2.2.2, (probe_probed hp).strtabCfg]
      exact hz j

-- A property that `smmu_init` gives to an SMMU holds of all SMMUs that are there after the loop.
theorem initFrom_each {P : SmmuDev → Prop} {n i : Nat}
    (hp : ∀ {smmu smmu' : SmmuDev} {w w' : World}, (∀ j, smmu.strtabCfg.l1Desc j = .zero) →
      smmuInit pf smmu fuel w = some (0, smmu', w') → P smmu')
    (hd : ∀ k, (d.smmus k).base ≠ 0 → P (d.smmus k)) (hz : ∀ j, i ≤ j → d.smmus j = .zero)
    (h : initFrom pf info fuel n i d = some (status, d')) : ∀ k, (d'.smmus k).base ≠ 0 → P (d'.smmus k) := by
  induction n generalizing i d
  case zero =>
    cases h
    exact hd
  case succ n hi =>
    simp only [initFrom] at h
    split at h
    case isTrue => exact hi hd (fun j hj => hz j (by omega)) h
    case isFalse =>
      split at h
      case h_1 => cases h
      case h_2 status₁ smmu₁ w₁ he =>
        have set {smmu : SmmuDev} (hs : smmu.base ≠ 0 → P smmu) (k : Nat) (hb : ((d.setSmmu i smmu).smmus k).base ≠ 0) :
            P ((d.setSmmu i smmu).smmus k) := by
          have hk : (d.setSmmu i smmu).smmus k = if k = i then smmu else d.smmus k := rfl
          rw [hk] at hb ⊢
          split at hb
          case isTrue hc =>
            rw [if_pos hc]
            exact hs hb
          case isFalse hc =>
            rw [if_neg hc]
            exact hd k hb
        split at h
        case isTrue =>
          cases h
          exact set fun hb => absurd rfl hb
        case isFalse hs =>
          have hs := not_not.mp hs
          subst hs
          refine hi (d := { d.setSmmu i smmu₁ with world := w₁ }) (set fun _ => hp (fun j => ?_) he) (fun j hj => ?_) h
          · rw [hz i (Nat.le_refl i)]
            rfl
          · have hk : (d.setSmmu i smmu₁).smmus j = if j = i then smmu₁ else d.smmus j := rfl
            change (d.setSmmu i smmu₁).smmus j = .zero
            rw [hk, if_neg (by omega)]
            exact hz j (by omega)

theorem init_each {P : SmmuDev → Prop}
    (hp : ∀ {smmu smmu' : SmmuDev} {w w' : World}, (∀ j, smmu.strtabCfg.l1Desc j = .zero) →
      smmuInit pf smmu fuel w = some (0, smmu', w') → P smmu')
    (h : valSmmuInit pf info fuel (.boot w) = some (status, d)) : ∀ k, (d.smmus k).base ≠ 0 → P (d.smmus k) := by
  have zero {k : Nat} (hb : SmmuDev.zero.base ≠ 0) : P ((fun _ : Nat => SmmuDev.zero) k) := absurd rfl hb
  simp only [valSmmuInit] at h
  split at h
  case isTrue =>
    cases h
    exact fun k hb => zero (k := k) hb
  case isFalse =>
    split at h
    case isTrue =>
      cases h
      exact fun k hb => zero (k := k) hb
    case isFalse => exact initFrom_each hp (fun k hb => zero (k := k) hb) (fun _ _ => rfl) h

end

-- The level-1 descriptors in memory point to the tables of the second level.
def Driver.Linked (d : Driver) : Prop :=
  ∀ k < d.numSmmus, (d.smmus k).base ≠ 0 → ∀ j, ((d.smmus k).strtabCfg.l1Desc j).l2ptr ≠ 0 →
    d.world.heap.mem ((d.smmus k).strtabCfg.strtab64 + 8 * j) =
      strtabLevel1Desc (strtabSplit + 1) ((d.smmus k).strtabCfg.l1Desc j).l2desc64

section

variable {d : Driver} {others : List Nat} {k k' j sid x : Nat}

theorem l1Word_eq {smmu : SmmuDev} : l1Word smmu sid = smmu.strtabCfg.strtab64 + 8 * (sid >>> strtabSplit) := by
  rw [l1Word, strtabL1DescDwords]
  omega

theorem Driver.Sane.level1_in (hs : d.Sane others) (hk : k < d.numSmmus) (hb : (d.smmus k).base ≠ 0)
    (hl : (d.smmus k).supported.stLevel2lvl = true) (hj : j < (d.smmus k).strtabCfg.l1EntCount) {i : Nat} (hi : i < 8) :
    d.In (.strtab k) ((d.smmus k).strtabCfg.strtab64 + 8 * j + i) := by
  have hf := hs.sized k hk hb
  have ⟨e, he, _, hlog⟩ := strtabSize_eq hf
  have hbits := hf.2
  have ⟨_, hcount⟩ := (hs.kept.ready k hk hb).count hl
  rw [hl, if_pos rfl] at hlog hbits
  rw [hcount, strtabSplit, shl1_eq (by omega)] at hj
  refine strtab_in hs.placed hk hb hf ?_
  rw [he, hlog, Nat.pow_add]
  exact ⟨by simp only; omega, by simp only; omega⟩

theorem Driver.Sane.l1Word_in (hs : d.Sane others) (hk : k < d.numSmmus) (hb : (d.smmus k).base ≠ 0)
    (hl : (d.smmus k).supported.stLevel2lvl = true) (hr : sidInRange (d.smmus k) sid = true) :
    d.In (.strtab k) (l1Word (d.smmus k) sid) :=
  Smmu.l1Word_in hs.placed hk hb (hs.sized k hk hb) hl ((hs.kept.ready k hk hb).count hl).1 (sidInRange_iff.mp hr)

-- Entries are not in the first level of a stream table with two levels.
theorem Driver.In.not_ste (hs : d.Sane others) (hl : (d.smmus k).supported.stLevel2lvl = true) (hin : d.In (.strtab k) x)
    (hk' : k' < d.numSmmus) (hb' : (d.smmus k').base ≠ 0) (he : (d.smmus k').HasSte sid) :
    ¬Inside (smmuStrtabGetSteForSid (d.smmus k') sid, 64) x := by
  intro hx
  have hu := hin.unique hs.kept hs.placed (ste_in hs.placed hk' hb' (hs.sized k' hk' hb') he hx)
  rw [Driver.steHandle] at hu
  split at hu
  case isTrue => cases hu
  case isFalse hn =>
    cases hu
    exact hn hl

end

section

variable {pf : Platform} {smmu smmu' : SmmuDev} {cd2l ok : Bool} {attr : SmmuMasterAttributes} {pgt : PgtDescriptor}
variable {m m' : Master} {w w' : World} {d d' : Driver} {others : List Nat} {status : Nat}

theorem initLevel2_others {sid : Nat} (h : smmuStrtabInitLevel2 pf smmu sid w = (ok, smmu', w')) :
    (∀ j ≠ sid >>> strtabSplit, smmu'.strtabCfg.l1Desc j = smmu.strtabCfg.l1Desc j) ∧
      (ok = false → (smmu'.strtabCfg.l1Desc (sid >>> strtabSplit)).l2ptr = 0) := by
  simp only [smmuStrtabInitLevel2] at h
  split at h
  case isTrue =>
    simp only [Prod.mk.injEq] at h
    rw [← h.2.1, ← h.1]
    exact ⟨fun _ _ => rfl, fun hc => by cases hc⟩
  case isFalse =>
    split at h
    case isTrue hp =>
      simp only [Prod.mk.injEq] at h
      rw [← h.2.1]
      simp only [SmmuDev.setL1Desc, SmmuDev.setStrtab, if_true]
      exact ⟨fun j hj => if_neg hj, fun _ => hp⟩
    case isFalse =>
      simp only [Prod.mk.injEq] at h
      rw [← h.2.1, ← h.1]
      simp only [SmmuDev.setL1Desc, SmmuDev.setStrtab]
      exact ⟨fun j hj => if_neg hj, fun hc => by cases hc⟩

-- A map that fails after it has added a table of the second level.
theorem mapMaster_failed_new {j : Nat} (ha : pf.alloc.Sound) (hc : TableFits cd2l attr m) (hs : m.sid = attr.streamid)
    (hz : (smmu.strtabCfg.l1Desc j).l2ptr = 0) (hp : (smmu'.strtabCfg.l1Desc j).l2ptr ≠ 0)
    (h : mapMaster pf smmu cd2l attr pgt m w = (false, smmu', m', w')) :
    j = attr.streamid >>> strtabSplit ∧ smmu.supported.stLevel2lvl = true ∧ sidInRange smmu attr.streamid = true ∧
      ∃ w₁, smmuStrtabInitLevel2 pf smmu attr.streamid w = (true, smmu', w₁) ∧
        Frame (fun _ => False) w₁.heap w'.heap := by
  simp only [mapMaster] at h
  split at h
  case h_1 =>
    cases h
    exact absurd hz hp
  case h_2 m₁ hm =>
    have h₁ : m₁.sid = attr.streamid := hs ▸ congrArg Prod.fst (selectStage_key hm)
    have hfit : m₁.stage = .s1 → m₁.stage1.cdcfg.cdtabPtr = 0 → CdFits cd2l (m₁.ssidBits % 2 ^ 8) := by
      obtain ⟨h₁, h₂, h₃⟩ := selectStage_kept hm
      rw [h₁, h₂]
      exact fun hs => hc (h₃ hs).1
    split at h
    case isFalse =>
      cases h
      exact absurd hz hp
    case isTrue hr =>
      split at h
      case h_2 => cases h
      case h_1 ht =>
        cases h
        obtain ⟨ok₁, w₁, he, hf⟩ := mapTables_steps ha hfit ht
        rw [h₁] at he
        split at he
        case isFalse =>
          cases he
          exact absurd hz hp
        case isTrue htwo =>
          obtain ⟨hother, hfail⟩ := initLevel2_others he
          have hj : j = attr.streamid >>> strtabSplit := by
            by_contra hne
            exact hp (hother j hne ▸ hz)
          subst hj
          have hok : ok₁ = true := Bool.eq_true_of_not_eq_false fun hf => hp (hfail hf)
          subst hok
          exact ⟨rfl, htwo, hr, w₁, he, hf.mono fun x hx => absurd hx.1 Bool.false_ne_true⟩

theorem Maps.failed_new {k j : Nat} (ha : pf.alloc.Sound) (hs : d.Sane others) (hc : d.CallSafe pf (.map attr pgt))
    (hn : status ≠ 0) (hz : ((d.smmus k).strtabCfg.l1Desc j).l2ptr = 0)
    (hj : ((d'.smmus k).strtabCfg.l1Desc j).l2ptr ≠ 0) (h : Maps pf attr pgt d status d') :
    d.Takes attr ∧ k = attr.smmuIndex ∧ j = attr.streamid >>> strtabSplit ∧
      (d.smmus attr.smmuIndex).supported.stLevel2lvl = true ∧
      sidInRange (d.smmus attr.smmuIndex) attr.streamid = true ∧
      ∃ r d₁ w₁, Lookup pf attr.streamid d r d₁ ∧
        smmuStrtabInitLevel2 pf (d.smmus attr.smmuIndex) attr.streamid d₁.world = (true, d'.smmus attr.smmuIndex, w₁) ∧
        Frame (fun _ => False) w₁.heap d'.world.heap := by
  cases h
  case rejected => exact absurd hz hj
  case noRecord hlook =>
    rw [hlook.smmus_eq] at hj
    exact absurd hz hj
  case done => exact absurd rfl hn
  case failed i m d₁ smmu' m' w' hg hi hbase hlook hm =>
    have heq : (d₁.mapped attr.smmuIndex i smmu' m' w').smmus k =
        if k = attr.smmuIndex then smmu' else d₁.smmus k := rfl
    have hidx : k = attr.smmuIndex := by
      by_contra hne
      rw [heq, if_neg hne, hlook.smmus_eq] at hj
      exact hj hz
    subst hidx
    rw [if_pos rfl] at heq
    rw [heq] at hj ⊢
    have ht : d.Takes attr := ⟨hg, hi, hbase⟩
    obtain ⟨_, _, _, hsid⟩ := hlook.listed
    have hkey : (m.bind attr).sid = attr.streamid := congrArg Prod.fst (bind_key hsid)
    have hfit := (hs.callOk hc).2 ht
    rw [hlook.recordOf_eq] at hfit
    have hcd : d₁.boundCd2l (m.bind attr) attr.smmuIndex = d.boundCd2l (m.bind attr) attr.smmuIndex := by
      rw [Driver.boundCd2l, Driver.boundCd2l, hlook.smmus_eq]
    rw [hcd] at hm
    obtain ⟨hjs, htwo, hr, w₁, hlevel, hf⟩ := mapMaster_failed_new ha hfit hkey hz hj hm
    exact ⟨ht, rfl, hjs, htwo, hr, _, d₁, w₁, hlook, hlevel, hf⟩

-- A call that writes no level-1 descriptor of a table that is there.
theorem Driver.Linked.word {S : Nat → Prop} {k j : Nat} (hl : d.Linked) (hs : d.Sane others) (hk : k < d.numSmmus)
    (hb : (d.smmus k).base ≠ 0) (hj : ((d.smmus k).strtabCfg.l1Desc j).l2ptr ≠ 0) (hf : Frame S d.world.heap w'.heap)
    (hn : d.In (.strtab k) ((d.smmus k).strtabCfg.strtab64 + 8 * j) →
      ¬S ((d.smmus k).strtabCfg.strtab64 + 8 * j)) :
    w'.heap.mem ((d.smmus k).strtabCfg.strtab64 + 8 * j) =
      strtabLevel1Desc (strtabSplit + 1) ((d.smmus k).strtabCfg.l1Desc j).l2desc64 := by
  have ⟨_, _, _, htwo, hlt⟩ := (hs.placed.smmus k hk hb).level2 j hj
  have hin := hs.level1_in hk hb htwo hlt (i := 0) (by decide)
  rw [← hl k hk hb j hj]
  have ⟨_, size, hlive, hins⟩ := hin
  exact hf.mem _ hlive _ hins (hn hin)

-- The word that a new table of the second level needs is not that of another table.
theorem newLevel2_other {k j : Nat} (hs : d.Sane others) (ht : d.Takes attr)
    (hr : sidInRange (d.smmus attr.smmuIndex) attr.streamid = true) (hj : ((d.smmus k).strtabCfg.l1Desc j).l2ptr ≠ 0)
    (hin : d.In (.strtab k) ((d.smmus k).strtabCfg.strtab64 + 8 * j)) :
    ¬NewLevel2 (d.smmus attr.smmuIndex) attr.streamid ((d.smmus k).strtabCfg.strtab64 + 8 * j) := by
  intro hn
  have ⟨hw, _⟩ := failWord_in hs ⟨ht, hr, hn⟩
  have hu := hin.unique hs.kept hs.placed hw
  cases hu
  have ⟨_, hz, he⟩ := hn
  rw [l1Word_eq] at he
  have hj' : j = attr.streamid >>> strtabSplit := by omega
  exact hj (hj' ▸ hz)

theorem Maps.failed_linked (ha : pf.alloc.Sound) (hs : d.Sane others) (hc : d.CallSafe pf (.map attr pgt))
    (hl : d.Linked) (hn : status ≠ 0) (h : Maps pf attr pgt d status d') : d'.Linked := by
  intro k hk hb j hj
  have hnum := h.sameBut.1
  have ⟨hf, hsame⟩ := h.failed_frame ha hs hc hn
  have ⟨l1Desc, hkeep, he⟩ := hsame k
  have hk₀ : k < d.numSmmus := hnum ▸ hk
  have hb₀ : (d.smmus k).base ≠ 0 := by
    rw [he] at hb
    exact hb
  have hstrtab : (d'.smmus k).strtabCfg.strtab64 = (d.smmus k).strtabCfg.strtab64 := by
    rw [he]
    rfl
  by_cases hz : ((d.smmus k).strtabCfg.l1Desc j).l2ptr = 0
  case neg =>
    have hdesc : (d'.smmus k).strtabCfg.l1Desc j = (d.smmus k).strtabCfg.l1Desc j := by
      rw [he]
      exact hkeep j hz
    rw [hstrtab, hdesc]
    exact hl.word hs hk₀ hb₀ hz hf fun hin hx => newLevel2_other hs hx.1 hx.2.1 hz hin hx.2.2
  case pos =>
    have ⟨ht, hidx, hjs, htwo, hr, _, d₁, w₁, hlook, hlevel, hlast⟩ := h.failed_new ha hs hc hn hz hj
    subst hidx hjs
    have ⟨_, size, hlive, hins⟩ := hs.l1Word_in hk₀ hb₀ htwo hr
    have hlive₁ := (hlook.frame (S := fun _ => False) ha).live _ hlive
    have hnew := (initLevel2_entries ha hlive₁ hins hz hlevel).2
    rw [hstrtab, ← l1Word_eq, ← hnew]
    exact hlast.mem _ ((initLevel2_frame ha hlevel).live _ hlive₁) _ hins fun hx => hx

-- After the step of the stream table, the words of its first level are not written any more.
theorem Mapping.l1Word_kept {d₁ : Driver} {i : Nat} {w₁ w₂ : World} (ha : pf.alloc.Sound) (hs : d.Sane others)
    (hc : d.CallSafe pf (.map attr pgt)) (hs' : d'.Sane others) (h : Mapping pf attr pgt d d' d₁ i m smmu' m' w₁ w₂ w')
    (hk : k < d'.numSmmus) (hb : (d'.smmus k).base ≠ 0) (htwo' : (d'.smmus k).supported.stLevel2lvl = true)
    (hlt' : j < (d'.smmus k).strtabCfg.l1EntCount) :
    d'.world.heap.mem ((d.smmus k).strtabCfg.strtab64 + 8 * j) =
      w₁.heap.mem ((d.smmus k).strtabCfg.strtab64 + 8 * j) := by
  have ⟨l1Desc, _, he⟩ := h.sameBut_all k
  have hk₀ : k < d.numSmmus := h.numSmmus_eq ▸ hk
  have hin' : d'.In (.strtab k) ((d'.smmus k).strtabCfg.strtab64 + 8 * j) :=
    hs'.level1_in hk hb htwo' hlt' (i := 0) (by decide)
  have hin : d.In (.strtab k) ((d.smmus k).strtabCfg.strtab64 + 8 * j) := by
    rw [he] at hb htwo' hlt'
    exact hs.level1_in hk₀ hb htwo' hlt' (i := 0) (by decide)
  have hstrtab : (d'.smmus k).strtabCfg.strtab64 = (d.smmus k).strtabCfg.strtab64 := by
    rw [he]
    rfl
  rw [hstrtab] at hin'
  obtain ⟨_, size, hlive, hins⟩ := hin
  have hlive₁ := (h.frame₁ ha).live _ hlive
  obtain ⟨hcd, hqueue⟩ := h.not_written hs hc hs' Handle.ofStrtab_strtab hin'
  refine (h.frame₃.mem _ ((h.frame₂ hs hc ha).live _ hlive₁) _ hins ?_).trans
    ((h.frame₂ hs hc ha).mem _ hlive₁ _ hins hcd)
  rintro (hx | hx)
  case inl =>
    have ⟨hi', hsmmu, hbase'⟩ := h.target
    rw [← hsmmu] at hx
    exact hin'.not_ste hs' htwo' hi' hbase' (hsmmu ▸ h.hasSte) hx
  case inr => exact hqueue hx

theorem Mapping.linked {d₁ : Driver} {i : Nat} {w₁ w₂ : World} (ha : pf.alloc.Sound) (hs : d.Sane others)
    (hc : d.CallSafe pf (.map attr pgt)) (hs' : d'.Sane others) (hl : d.Linked)
    (h : Mapping pf attr pgt d d' d₁ i m smmu' m' w₁ w₂ w') : d'.Linked := by
  intro k hk hb j hj
  have ⟨_, hi, hbase⟩ := h.takes
  have ⟨l1Desc, hkeep, he⟩ := h.sameBut_all k
  have hk₀ : k < d.numSmmus := h.numSmmus_eq ▸ hk
  have hb₀ : (d.smmus k).base ≠ 0 := by
    rw [he] at hb
    exact hb
  have ⟨_, _, _, htwo', hlt'⟩ := (hs'.placed.smmus k hk hb).level2 j hj
  have hstrtab : (d'.smmus k).strtabCfg.strtab64 = (d.smmus k).strtabCfg.strtab64 := by
    rw [he]
    rfl
  have htwo : (d.smmus k).supported.stLevel2lvl = true := by
    rw [he] at htwo'
    exact htwo'
  have hlast := h.l1Word_kept ha hs hc hs' hk hb htwo' hlt'
  by_cases hz : ((d.smmus k).strtabCfg.l1Desc j).l2ptr = 0
  case neg =>
    have hdesc : (d'.smmus k).strtabCfg.l1Desc j = (d.smmus k).strtabCfg.l1Desc j := by
      rw [he]
      exact hkeep j hz
    rw [hstrtab, hdesc, hlast]
    exact hl.word hs hk₀ hb₀ hz (h.frame₁ ha) fun hin hx => newLevel2_other hs h.takes h.range hz hin hx
  case pos =>
    have hidx : k = attr.smmuIndex := by
      by_contra hne
      rw [h.smmus_eq, if_neg hne] at hj
      exact hj hz
    subst hidx
    have hlevel := h.level2
    rw [if_pos htwo] at hlevel
    rw [h.smmus_eq, if_pos rfl] at hj ⊢
    have hjs : j = attr.streamid >>> strtabSplit := by
      by_contra hne
      exact hj ((initLevel2_done hlevel).2 j hne ▸ hz)
    subst hjs
    rw [h.smmus_eq, if_pos rfl] at hstrtab
    have ⟨_, size, hlive, hins⟩ := hs.l1Word_in hi hbase htwo h.range
    have hnew := (initLevel2_entries ha ((h.lookup.frame (S := fun _ => False) ha).live _ hlive) hins hz hlevel).2
    rw [hstrtab, hlast, ← l1Word_eq, hnew]

theorem Maps.linked (ha : pf.alloc.Sound) (hs : d.Sane others) (hc : d.CallSafe pf (.map attr pgt)) (hl : d.Linked)
    (h : Maps pf attr pgt d status d') : d'.Linked := by
  by_cases hn : status = 0
  case neg => exact h.failed_linked ha hs hc hl hn
  case pos =>
    subst hn
    have ⟨_, _, _, _, _, _, _, _, hm⟩ := h.mapping
    exact hm.linked ha hs hc (h.sane ha hs hc) hl

-- An unmap finds the entry of its stream only in a stream table with one level.
def Driver.UnmapsLinear (d : Driver) : Call → Prop
  | .map _ _    => True
  | .unmap attr => ∀ k, (d.recordOf attr.streamid).smmu = some k → sidInRange (d.smmus k) attr.streamid = true →
    (d.smmus k).supported.stLevel2lvl = false

theorem Unmaps.linked (ha : pf.alloc.Sound) (hs : d.Sane others) (hat : d.Attached) (hl : d.Linked)
    (hu : d.UnmapsLinear (.unmap attr)) (h : Unmaps pf attr d d') : d'.Linked := by
  intro k hk hb j hj
  have ⟨hnum, hsmmus⟩ := h.smmus_eq
  rw [hnum] at hk
  rw [hsmmus] at hb hj ⊢
  have keep {r : Option (Nat × Master)} {d₁ : Driver} (hlook : Lookup pf attr.streamid d r d₁) :=
    hl.word hs hk hb hj (hlook.frame (S := fun _ => False) ha) fun _ hx => hx
  cases h
  case noRecord hlook       => exact keep hlook
  case unused _ hlook       => exact keep hlook
  case outOfRange _ _ hlook => exact keep hlook
  case done k' d₁ fuel timedOut w' hlook hm hr ht =>
    have hlin := hu k' (hlook.recordOf_eq ▸ hm) hr
    have ⟨hk', hb'⟩ := hat.recordOf (hlook.recordOf_eq ▸ hm)
    have ⟨_, _, _, htwo, hlt⟩ := (hs.placed.smmus k hk hb).level2 j hj
    have hin : d.In (.strtab k) ((d.smmus k).strtabCfg.strtab64 + 8 * j) :=
      hs.level1_in hk hb htwo hlt (i := 0) (by decide)
    rw [← linear_ste hlin] at ht
    have hnot := hin.not_ste hs htwo hk' hb' (linear_hasSte hlin hr)
    exact (tlbiCfgi_mem ht (hin.not_queue hs Handle.ofStrtab_strtab hk' hb')).trans
      ((congrFun cdtabFree_mem _).trans ((writeSte_mem hnot).trans (keep hlook)))

-- There is an entry for a stream that was mapped.
theorem Step.mapped_hasSte (h : Step pf d (.map attr pgt) 0 d') :
    attr.smmuIndex < d'.numSmmus ∧ (d'.smmus attr.smmuIndex).base ≠ 0 ∧
      (d'.smmus attr.smmuIndex).HasSte attr.streamid := by
  cases h
  case map h =>
    have ⟨_, _, _, _, _, _, _, _, hm⟩ := (map_cases h).mapping
    have ⟨_, hk, hb⟩ := hm.takes
    rw [hm.smmus_eq, if_pos rfl, hm.base_eq, hm.numSmmus_eq]
    exact ⟨hk, hb, hm.hasSte⟩

end

-- What the driver relies on when it gives the addresses of the tables to the SMMU. The masks of the driver
-- cut off the bits from 46 on. The first level of a stream table is aligned to its own size, which can be
-- less than the 64 bytes of the register.

structure SmmuDev.Low (smmu : SmmuDev) : Prop where
  strtab : smmu.strtabCfg.strtab64 < 2 ^ 46
  level2 : ∀ j < smmu.strtabCfg.l1EntCount, (smmu.strtabCfg.l1Desc j).l2desc64 < 2 ^ 46

def SmmuDev.Aligned (smmu : SmmuDev) : Prop :=
  smmu.supported.stLevel2lvl = true → smmu.sidBits < 11 → 64 ∣ smmu.strtabCfg.strtab64

section

variable {d : Driver} {others : List Nat} {k sid : Nat}

theorem alignToSize_dvd {addr n : Nat} (h : addr + 2 * 2 ^ n ≤ 2 ^ 64) (hn : 6 ≤ n) : 64 ∣ alignToSize addr (2 ^ n) := by
  rw [alignToSize_eq h]
  exact Dvd.dvd.mul_left (Nat.pow_dvd_pow 2 hn) _

theorem Driver.Sane.strtab_dvd (hs : d.Sane others) (hk : k < d.numSmmus) (hb : (d.smmus k).base ≠ 0)
    (ha : (d.smmus k).Aligned) : 64 ∣ (d.smmus k).strtabCfg.strtab64 := by
  have ⟨e, he, hlt, hlog⟩ := strtabSize_eq (hs.sized k hk hb)
  have hpl := hs.placed.smmus k hk hb
  have hfit := hs.placed.laid.fits _ hpl.strtab
  rw [he, Nat.mod_mod, Nat.mod_eq_of_lt hlt] at hfit
  have aligned (hn : 6 ≤ e) : 64 ∣ (d.smmus k).strtabCfg.strtab64 := by
    rw [hpl.aligned, he]
    exact alignToSize_dvd hfit hn
  cases hl : (d.smmus k).supported.stLevel2lvl
  case false =>
    simp only [hl, Bool.false_eq_true, if_false] at hlog
    exact aligned (by omega)
  case true =>
    simp only [hl, if_true] at hlog
    by_cases h₁₁ : (d.smmus k).sidBits < 11
    case pos => exact ha hl h₁₁
    case neg => exact aligned (by omega)

-- The lookup ends at the entry of the driver.
theorem Driver.Sane.hardwareSte_eq (hs : d.Sane others) (hl : d.Linked) (hk : k < d.numSmmus)
    (hb : (d.smmus k).base ≠ 0) (hc : (d.smmus k).Configured) (ha : (d.smmus k).Aligned) (hlow : (d.smmus k).Low)
    (he : (d.smmus k).HasSte sid) : d.hardwareSte k sid = some (smmuStrtabGetSteForSid (d.smmus k) sid) := by
  have ⟨hlt, hptr⟩ := he
  have hbits := (hs.sized k hk hb).2
  have htable := slice_strtabBase (hs.strtab_dvd hk hb ha) hlow.strtab
  rw [Driver.hardwareSte, programmed_strtabBase, programmed_strtabBaseCfg, lookupSte, hc.base, hc.cfg, htable]
  cases hl2 : (d.smmus k).supported.stLevel2lvl
  case false =>
    simp only [hl2, Bool.false_eq_true, if_false] at hbits ⊢
    have ⟨hfmt, hlog⟩ := cfg_linear (d.smmus k).sidBits (by omega)
    rw [hlog, if_pos hlt, if_neg hfmt, ste_offset hl2 hlt hbits, Nat.mul_comm]
  case true =>
    simp only [hl2, if_true] at hbits ⊢
    have ⟨hfmt, hlog, hsplit⟩ := cfg_2lvl (d.smmus k).sidBits (by omega)
    have hj := hptr hl2
    have ⟨hblock, halign, _, _, hcount⟩ := (hs.placed.smmus k hk hb).level2 _ hj
    have hdvd : 64 ∣ ((d.smmus k).strtabCfg.l1Desc (sid >>> strtabSplit)).l2desc64 := by
      rw [halign]
      exact alignToSize_dvd (hs.placed.laid.fits _ hblock) (by decide)
    have hmod : sid % 2 ^ strtabSplit < 2 ^ (strtabSplit + 1 - 1) := Nat.mod_lt _ (by decide)
    rw [hlog, if_pos hlt, hfmt, if_pos rfl, hsplit, hl k hk hb _ hj, span_level1Desc hdvd,
      slice_level1Desc hdvd (hlow.level2 _ hcount), if_pos ⟨by decide, hmod⟩, level2_offset hl2]
    rfl

end

-- The SMMU finds the entries that the driver writes, for all streams with a successful map so far.
structure FindsEntries (hist : History) (d : Driver) : Prop where
  found    : ∀ attr pgt, (.map attr pgt, 0) ∈ hist →
    d.hardwareSte attr.smmuIndex attr.streamid = some (smmuStrtabGetSteForSid (d.smmus attr.smmuIndex) attr.streamid)
  disjoint : ∀ attr pgt attr' pgt', (.map attr pgt, 0) ∈ hist → (.map attr' pgt', 0) ∈ hist →
    (attr.smmuIndex, attr.streamid) ≠ (attr'.smmuIndex, attr'.streamid) →
    ∀ x, Inside (smmuStrtabGetSteForSid (d.smmus attr.smmuIndex) attr.streamid, 64) x →
      ¬Inside (smmuStrtabGetSteForSid (d.smmus attr'.smmuIndex) attr'.streamid, 64) x
  block    : ∀ attr pgt, (.map attr pgt, 0) ∈ hist →
    ∀ x, Inside (smmuStrtabGetSteForSid (d.smmus attr.smmuIndex) attr.streamid, 64) x →
      d.In (d.steHandle attr.smmuIndex attr.streamid) x
  level1   : ∀ attr pgt, (.map attr pgt, 0) ∈ hist → (d.smmus attr.smmuIndex).supported.stLevel2lvl = true →
    ∀ x, Inside (l1Word (d.smmus attr.smmuIndex) attr.streamid, 8) x → d.In (.strtab attr.smmuIndex) x

section

variable {pf : Platform} {info : IovirtSmmuInfo} {fuel status : Nat} {w₀ : World} {others : List Nat} {d₀ d : Driver}
variable {hist : History}

-- What holds along a run.
structure Linking (others : List Nat) (hist : History) (d : Driver) : Prop where
  sane     : d.Sane others
  attached : d.Attached
  linked   : d.Linked
  mapped   : ∀ attr pgt, (.map attr pgt, 0) ∈ hist → attr.smmuIndex < d.numSmmus ∧
    (d.smmus attr.smmuIndex).base ≠ 0 ∧ (d.smmus attr.smmuIndex).HasSte attr.streamid

theorem Linking.step {c : Call} {d' : Driver} (ha : pf.alloc.Sound) (hi : Linking others hist d)
    (hc : d.CallSafe pf c) (hu : d.UnmapsLinear c) (h : Step pf d c status d') :
    Linking others ((c, status) :: hist) d' := by
  refine ⟨h.sane ha hi.sane hc, h.attached hi.attached, ?_, ?_⟩
  · cases h
    case map h   => exact (map_cases h).linked ha hi.sane hc hi.linked
    case unmap h => exact (unmap_cases h).linked ha hi.sane hi.attached hi.linked hu
  · intro attr pgt hm
    cases List.mem_cons.mp hm
    case inl he =>
      cases he
      exact h.mapped_hasSte
    case inr hm =>
      have ⟨hk, hb, he⟩ := hi.mapped attr pgt hm
      have ⟨hnum, hsame⟩ := h.sameBut
      have ⟨_, _, heq⟩ := hsame attr.smmuIndex
      refine ⟨hnum ▸ hk, ?_, ((hsame attr.smmuIndex).ste he).1⟩
      rw [heq]
      exact hb

theorem Linking.start (ha : pf.alloc.Sound) (ho : w₀.Owns others) (hw : w₀.heap.Laid)
    (hi : valSmmuInit pf info fuel (.boot w₀) = some (status, d₀)) (hz : d₀.Sized) : Linking others [] d₀ := by
  have hempty := (init_driver_placed ha hw hi).2
  refine ⟨init_sane ha ho hw hz hi, ?_, ?_, fun _ _ hm => by cases hm⟩
  · intro n hn
    rw [hempty] at hn
    cases hn
  · intro k _ hb j hj
    have hnone := (init_each (fun hz h => init_configured ha hz h) hi k hb).2 j
    rw [hnone] at hj
    exact absurd rfl hj

-- In every run in which no stream of a stream table with two levels is unmapped, the SMMU finds the entries.
theorem hardware_finds_entries (ha : pf.alloc.Sound) (ho : w₀.Owns others) (hw : w₀.heap.Laid)
    (hi : valSmmuInit pf info fuel (.boot w₀) = some (status, d₀)) (hz : d₀.Sized)
    (hal : ∀ k < d₀.numSmmus, (d₀.smmus k).base ≠ 0 → (d₀.smmus k).Aligned)
    (h : Run pf (fun _ d c => d.CallSafe pf c ∧ d.UnmapsLinear c) d₀ hist d)
    (hlow : ∀ k < d.numSmmus, (d.smmus k).base ≠ 0 → (d.smmus k).Low) : FindsEntries hist d := by
  have hinv : Linking others hist d :=
    h.invariant (I := Linking others) (.start ha ho hw hi hz) fun hl hk hst => hl.step ha hk.1 hk.2 hst
  have ⟨hnum, hsame⟩ := h.sameBut
  have hs := hinv.sane
  refine ⟨?_, ?_, ?_, ?_⟩
  · intro attr pgt hm
    have ⟨hk, hb, he⟩ := hinv.mapped attr pgt hm
    have ⟨_, _, heq⟩ := hsame attr.smmuIndex
    have hb₀ : (d₀.smmus attr.smmuIndex).base ≠ 0 := by
      rw [heq] at hb
      exact hb
    have hc : (d.smmus attr.smmuIndex).Configured := by
      have ⟨h₁, h₂⟩ := (init_each (fun hz h => init_configured ha hz h) hi _ hb₀).1
      rw [heq]
      exact ⟨h₁, h₂⟩
    have hal' : (d.smmus attr.smmuIndex).Aligned := by
      rw [heq]
      exact hal _ (hnum ▸ hk) hb₀
    exact hs.hardwareSte_eq hinv.linked hk hb hc hal' (hlow _ hk hb) he
  · intro attr pgt attr' pgt' hm hm' hne x hx hx'
    have ⟨hk, hb, he⟩ := hinv.mapped attr pgt hm
    have ⟨hk', hb', he'⟩ := hinv.mapped attr' pgt' hm'
    have ⟨h₁, h₂⟩ := hs.ste_unique hk hb he hk' hb' he' hx hx'
    exact hne (Prod.ext h₁ h₂)
  · intro attr pgt hm x hx
    have ⟨hk, hb, he⟩ := hinv.mapped attr pgt hm
    exact ste_in hs.placed hk hb (hs.sized _ hk hb) he hx
  · intro attr pgt hm htwo x hx
    have ⟨hk, hb, he⟩ := hinv.mapped attr pgt hm
    have hlt := level1_index_lt (hs.kept.ready _ hk hb) (hs.sized _ hk hb) htwo (sidInRange_iff.mpr he.1)
    have ⟨h₁, h₂⟩ := hx
    rw [l1Word_eq] at h₁ h₂
    simp only at h₁ h₂
    have hin := hs.level1_in hk hb htwo hlt
      (i := x - ((d.smmus attr.smmuIndex).strtabCfg.strtab64 + 8 * (attr.streamid >>> strtabSplit))) (by omega)
    rwa [Nat.add_sub_cancel' h₁] at hin

end

-- A stream table of two levels, for 12-bit stream ids.
def widerAnswers : List Nat :=
  [0x0800000A, 0x20000C, 5, 0, 8, 0, 1, 2, 3, 3, 9] ++ [3, 0, 1, 2, 2] ++ [2, 3, 0, 1, 1] ++ [1, 2, 3, 0, 0]

def streamAttr (sid : Nat) : SmmuMasterAttributes :=
  { stage1Attr with streamid := sid }

-- The parts of the state that the hypotheses of a run with one SMMU are about.

def Driver.sizes (d : Driver) : List Nat :=
  [d.numSmmus, (d.smmus 0).cmdq.queue.log2nent, (d.smmus 0).sidBits]

def Driver.lowTables (d : Driver) : Bool :=
  decide ((d.smmus 0).strtabCfg.strtab64 < 2 ^ 46) &&
    (List.range (d.smmus 0).strtabCfg.l1EntCount).all fun j => decide (((d.smmus 0).strtabCfg.l1Desc j).l2desc64 < 2 ^ 46)

theorem SmmuDev.Low.of_lowTables {d : Driver} (h : d.lowTables = true) : (d.smmus 0).Low := by
  simp only [Driver.lowTables, Bool.and_eq_true, decide_eq_true_eq, List.all_eq_true, List.mem_range] at h
  exact ⟨h.1, h.2⟩

theorem hardware_finds_two_streams :
    ∃ d₀ d₁ d₂, valSmmuInit (topPlatform widerAnswers 100) oneCtrl 1 (.boot .start) = some (0, d₀) ∧
      Step (topPlatform widerAnswers 100) d₀ (.map (streamAttr 2048) somePgt) 0 d₁ ∧
      Step (topPlatform widerAnswers 100) d₁ (.map (streamAttr 1) somePgt) 0 d₂ ∧
      FindsEntries [(.map (streamAttr 1) somePgt, 0), (.map (streamAttr 2048) somePgt, 0)] d₂ := by
  have hrun : ((valSmmuInit (topPlatform widerAnswers 100) oneCtrl 1 (.boot .start)).bind fun r₀ =>
      (valSmmuMap (topPlatform widerAnswers 100) 1 (streamAttr 2048) somePgt r₀.2).bind fun r₁ =>
      (valSmmuMap (topPlatform widerAnswers 100) 1 (streamAttr 1) somePgt r₁.2).map fun r₂ =>
        ([r₀.1, r₁.1, r₂.1, (r₀.2.target (streamAttr 2048)).ssidBits, (r₁.2.target (streamAttr 1)).ssidBits, r₂.2.numSmmus],
          r₀.2.sizes, [(r₀.2.smmus 0).supported.stLevel2lvl, r₀.2.targetCd2l (streamAttr 2048),
            r₁.2.targetCd2l (streamAttr 1), r₂.2.lowTables])) =
      some ([0, 0, 0, 0, 0, 1], [1, 1, 12], [true, false, false, true]) := by
    decide +kernel
  have ⟨⟨s₀, d₀⟩, h₀, h⟩ := Option.bind_eq_some_iff.mp hrun
  have ⟨⟨s₁, d₁⟩, h₁, h⟩ := Option.bind_eq_some_iff.mp h
  have ⟨⟨s₂, d₂⟩, h₂, he⟩ := Option.map_eq_some_iff.mp h
  simp only [Driver.sizes, Prod.mk.injEq, List.cons.injEq, and_true] at he
  have ⟨⟨hs₀, hs₁, hs₂, hb₁, hb₂, hn₂⟩, ⟨hn, hq, hb⟩, hl, hc₁, hc₂, hlow⟩ := he
  subst hs₀ hs₁ hs₂
  have hz : d₀.Sized := by
    intro k hk _
    rw [hn, Nat.lt_one_iff] at hk
    rw [hk, SizesFit, hq, hl, hb]
    decide
  have hal : ∀ k < d₀.numSmmus, (d₀.smmus k).base ≠ 0 → (d₀.smmus k).Aligned := by
    intro k hk _ _ hlt
    rw [hn, Nat.lt_one_iff] at hk
    rw [hk, hb] at hlt
    exact absurd hlt (by decide)
  have hlow : ∀ k < d₂.numSmmus, (d₂.smmus k).base ≠ 0 → (d₂.smmus k).Low := by
    intro k hk _
    rw [hn₂, Nat.lt_one_iff] at hk
    exact hk ▸ .of_lowTables hlow
  have safe {d : Driver} {sid : Nat} (hb : (d.target (streamAttr sid)).ssidBits = 0)
      (hc : d.targetCd2l (streamAttr sid) = false) :
      d.CallSafe (topPlatform widerAnswers 100) (.map (streamAttr sid) somePgt) ∧
        d.UnmapsLinear (.map (streamAttr sid) somePgt) := by
    refine ⟨fun _ _ => ?_, trivial⟩
    rw [hb, hc]
    exact ⟨(by decide : (0 : Nat) < 2 ^ 31), fun _ => ⟨.inl (by decide), fun ht => absurd ht (by decide)⟩⟩
  have hw : World.start.Owns [] := ⟨.nil, List.nodup_nil, rfl⟩
  exact ⟨d₀, d₁, d₂, h₀, .map h₁, .map h₂, hardware_finds_entries topPlatform_sound hw ⟨.nil, fun _ hm => by cases hm⟩
    h₀ hz hal (.cons (.cons .nil (safe hb₁ hc₁) (.map h₁)) (safe hb₂ hc₂) (.map h₂)) hlow⟩

-- The unmap of a stream takes the first level for a table of entries, and cuts off another stream. And a first
-- level of 16 bytes is not where the SMMU looks for it.
theorem unmap_cuts_off_stream :
    (∃ d₀ d₁ d₂ d₃, valSmmuInit (topPlatform widerAnswers 100) oneCtrl 1 (.boot .start) = some (0, d₀) ∧
      Step (topPlatform widerAnswers 100) d₀ (.map (streamAttr 2048) somePgt) 0 d₁ ∧
      Step (topPlatform widerAnswers 100) d₁ (.map (streamAttr 1) somePgt) 0 d₂ ∧
      Step (topPlatform widerAnswers 100) d₂ (.unmap (streamAttr 1)) 0 d₃ ∧ SizesFit (d₀.smmus 0) ∧ (d₃.smmus 0).Low ∧
      ¬FindsEntries [(.unmap (streamAttr 1), 0), (.map (streamAttr 1) somePgt, 0), (.map (streamAttr 2048) somePgt, 0)]
        d₃) ∧
    (∃ d₀ d₁, valSmmuInit (topPlatform twoLevelAnswers 100) oneCtrl 1 (.boot .start) = some (0, d₀) ∧
      Step (topPlatform twoLevelAnswers 100) d₀ (.map stage1Attr somePgt) 0 d₁ ∧ SizesFit (d₀.smmus 0) ∧
      (d₁.smmus 0).Low ∧ ¬FindsEntries [(.map stage1Attr somePgt, 0)] d₁) := by
  constructor
  · have hrun : ((valSmmuInit (topPlatform widerAnswers 100) oneCtrl 1 (.boot .start)).bind fun r₀ =>
        (valSmmuMap (topPlatform widerAnswers 100) 1 (streamAttr 2048) somePgt r₀.2).bind fun r₁ =>
        (valSmmuMap (topPlatform widerAnswers 100) 1 (streamAttr 1) somePgt r₁.2).bind fun r₂ =>
        (valSmmuUnmap (topPlatform widerAnswers 100) 1 (streamAttr 1) r₂.2).map fun d₃ =>
          ([r₀.1, r₁.1, r₂.1, smmuStrtabGetSteForSid (d₃.smmus 0) 2048], r₀.2.sizes,
            [(r₀.2.smmus 0).supported.stLevel2lvl, d₃.lowTables], d₃.hardwareSte 0 2048)) =
        some ([0, 0, 0, 32768], [1, 1, 12], [true, true], some 0) := by
      decide +kernel
    obtain ⟨⟨s₀, d₀⟩, h₀, h⟩ := Option.bind_eq_some_iff.mp hrun
    obtain ⟨⟨s₁, d₁⟩, h₁, h⟩ := Option.bind_eq_some_iff.mp h
    obtain ⟨⟨s₂, d₂⟩, h₂, h⟩ := Option.bind_eq_some_iff.mp h
    obtain ⟨d₃, h₃, he⟩ := Option.map_eq_some_iff.mp h
    simp only [Driver.sizes, Prod.mk.injEq, List.cons.injEq, and_true] at he
    obtain ⟨⟨hs₀, hs₁, hs₂, hste⟩, ⟨_, hq, hb⟩, ⟨hl, hlow⟩, hlook⟩ := he
    subst hs₀ hs₁ hs₂
    refine ⟨d₀, d₁, d₂, d₃, h₀, .map h₁, .map h₂, .unmap h₃, ?_, .of_lowTables hlow, fun hf => ?_⟩
    · rw [SizesFit, hq, hl, hb]
      decide
    · have he : d₃.hardwareSte 0 2048 = some (smmuStrtabGetSteForSid (d₃.smmus 0) 2048) :=
        hf.found (streamAttr 2048) somePgt (by simp)
      rw [hlook, hste] at he
      cases he
  · have hrun : ((valSmmuInit (topPlatform twoLevelAnswers 100) oneCtrl 1 (.boot .start)).bind fun r₀ =>
        (valSmmuMap (topPlatform twoLevelAnswers 100) 1 stage1Attr somePgt r₀.2).map fun r₁ =>
          ([r₀.1, r₁.1], r₀.2.sizes, (r₀.2.smmus 0).supported.stLevel2lvl, r₁.2.lowTables, r₁.2.hardwareSte 0 5)) =
        some ([0, 0], [1, 1, 9], true, true, none) := by
      decide +kernel
    obtain ⟨⟨s₀, d₀⟩, h₀, h⟩ := Option.bind_eq_some_iff.mp hrun
    obtain ⟨⟨s₁, d₁⟩, h₁, he⟩ := Option.map_eq_some_iff.mp h
    simp only [Driver.sizes, Prod.mk.injEq, List.cons.injEq, and_true] at he
    obtain ⟨⟨hs₀, hs₁⟩, ⟨_, hq, hb⟩, hl, hlow, hlook⟩ := he
    subst hs₀ hs₁
    refine ⟨d₀, d₁, h₀, .map h₁, ?_, .of_lowTables hlow, fun hf => ?_⟩
    · rw [SizesFit, hq, hl, hb]
      decide
    · have he : d₁.hardwareSte 0 5 = some (smmuStrtabGetSteForSid (d₁.smmus 0) 5) :=
        hf.found stage1Attr somePgt (by simp)
      rw [hlook] at he
      cases he

end Smmu
