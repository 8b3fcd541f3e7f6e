import BsaAcs.Info.Timer
import Mathlib.Tactic

namespace Timer

-- How many timers the first `j` blocks have.
def total (table : TimerInfoTable) (j : Nat) : Nat :=
  ∑ i ∈ Finset.range j, (table.gtInfo i).timerCount

-- The first block that the timers up to and including those of it reach the instance.
structure Stops (table : TimerInfoTable) (inst j : Nat) : Prop where
  here : inst ≤ total table (j + 1)
  past : ∀ k < j, total table (k + 1) < inst

def Returns (table : TimerInfoTable) (inst block index : Nat) : Prop :=
  ∃ fuel, ∀ unset, valPlatformTimerGetEntryIndex table fuel inst unset = some (block, index)

section

variable {table : TimerInfoTable} {inst j k block block' index index' : Nat}

theorem total_succ : total table (j + 1) = total table j + (table.gtInfo j).timerCount :=
  Finset.sum_range_succ _ _

theorem total_mono (h : j ≤ k) : total table j ≤ total table k :=
  Finset.sum_le_sum_of_subset (Finset.range_mono h)

theorem total_numBlocks : total table table.numBlocks = table.header.numPlatformTimer :=
  table.sum.symm

namespace Stops

theorem total_le (h : Stops table inst j) : total table j ≤ inst := by
  cases j
  case zero   => exact Nat.zero_le _
  case succ j => exact (h.past j (Nat.lt_succ_self j)).le

-- From each of the blocks on that are passed.
theorem leaves_from (h : Stops table inst j) (hi : inst < 2 ^ 32) (hj : j < 2 ^ 32) (hk : k ≤ j) :
    ∃ n, Loop.Leaves (entryStep table) n (inst - total table k, k, inst - total table k)
      (j, inst - total table j) := by
  induction hd : j - k generalizing k
  case zero =>
    obtain rfl : k = j := by omega
    have := total_succ ▸ h.here
    exact ⟨1, .now (by simp only [entryStep]; rw [if_neg (by omega)])⟩
  case succ d hind =>
    have hp := total_succ ▸ h.past k (by omega)
    have ⟨n, hn⟩ := hind (k := k + 1) (by omega) (by omega)
    refine ⟨n + 1, .next ?_ hn⟩
    simp only [entryStep]
    rw [if_pos (by omega), total_succ, Nat.mod_eq_of_lt (by omega), Nat.mod_eq_of_lt (by omega), Nat.sub_sub]

theorem leaves (h : Stops table inst j) (hi : inst < 2 ^ 32) (hj : j < 2 ^ 32) :
    ∃ n, Loop.Leaves (entryStep table) n (inst, 0, inst % 2 ^ 32) (j, inst - total table j) := by
  rw [Nat.mod_eq_of_lt hi]
  exact h.leaves_from hi hj (Nat.zero_le j)

end Stops

-- An instance that is not refused stops in a block of the table, or in what would be its first block.
theorem exists_stops (h : inst ≤ table.header.numPlatformTimer) :
    ∃ j < 2 ^ 32, Stops table inst j ∧ (0 < table.numBlocks → j < table.numBlocks) := by
  have hex : ∃ j, inst ≤ total table (j + 1) := by
    refine ⟨table.numBlocks, h.trans ?_⟩
    rw [←total_numBlocks]
    exact total_mono (Nat.le_succ _)
  have hlt : 0 < table.numBlocks → Nat.find hex < table.numBlocks := by
    intro h0
    have hle : inst ≤ total table (table.numBlocks - 1 + 1) := by
      rw [Nat.sub_add_cancel h0, total_numBlocks]
      exact h
    have := Nat.find_min' hex hle
    omega
  refine ⟨Nat.find hex, ?_, ⟨Nat.find_spec hex, fun k hk => Nat.lt_of_not_le (Nat.find_min hex hk)⟩, hlt⟩
  by_cases h0 : 0 < table.numBlocks
  case pos => exact (hlt h0).trans_le table.blocksLe
  case neg =>
    have hn : table.header.numPlatformTimer = 0 := by
      rw [←total_numBlocks, Nat.eq_zero_of_not_pos h0]
      rfl
    have h1 : inst ≤ total table (0 + 1) := by omega
    have := Nat.find_min' hex h1
    omega

theorem Stops.returns (h : Stops table inst j) (hi : inst ≤ table.header.numPlatformTimer) (hj : j < 2 ^ 32) :
    Returns table inst j (inst - total table j) := by
  have ⟨n, hn⟩ := h.leaves (hi.trans_lt table.numLt) hj
  refine ⟨n, fun unset => ?_⟩
  rw [valPlatformTimerGetEntryIndex, if_neg (by omega)]
  exact hn.run le_rfl

theorem entryIndex_deterministic {fuel fuel' unset : Nat} {entry entry' : Nat × Nat}
    (h : valPlatformTimerGetEntryIndex table fuel inst unset = some entry)
    (h' : valPlatformTimerGetEntryIndex table fuel' inst unset = some entry') : entry = entry' := by
  rw [valPlatformTimerGetEntryIndex] at h h'
  split at h
  case isTrue hr =>
    rw [if_pos hr] at h'
    exact Option.some.inj (h.symm.trans h')
  case isFalse hr =>
    rw [if_neg hr] at h'
    exact Loop.run_unique h h'

theorem Returns.unique (h : Returns table inst block index) (h' : Returns table inst block' index') :
    block = block' ∧ index = index' := by
  have ⟨_, h⟩ := h
  have ⟨_, h'⟩ := h'
  exact Prod.mk.inj (entryIndex_deterministic (h 0) (h' 0))

-- The timers of the table have the instances from 0 on, block after block; any other instance is reported.
def EntryRight (table : TimerInfoTable) (inst : Nat) : Prop :=
  if inst < table.header.numPlatformTimer then
    ∃ j < table.numBlocks, ∃ i < (table.gtInfo j).timerCount,
      inst = total table j + i ∧ Returns table inst j i
  else
    ∃ fuel, ∀ unset, ∃ index, valPlatformTimerGetEntryIndex table fuel inst unset = some (noBlock, index)

-- No block ends right before the instance. That of one past the last timer is reported if the search
-- happens to stop in the block with the number that stands for none.
structure Placed (table : TimerInfoTable) (inst : Nat) : Prop where
  inside : inst < table.header.numPlatformTimer → ∀ j < table.numBlocks, inst ≠ total table (j + 1)
  atEnd  : inst = table.header.numPlatformTimer → total table noBlock < inst ∧ inst ≤ total table (noBlock + 1)

theorem stops_iff_total (hj : 0 < j) :
    Stops table inst j ↔ total table j < inst ∧ inst ≤ total table (j + 1) := by
  constructor
  case mp =>
    intro h
    have := h.past (j - 1) (by omega)
    rw [Nat.sub_add_cancel hj] at this
    exact ⟨this, h.here⟩
  case mpr => exact fun h => ⟨h.right, fun k hk => (total_mono hk).trans_lt h.left⟩

theorem entryRight_of_lt_iff (hi : inst < table.header.numPlatformTimer) :
    EntryRight table inst ↔ ∀ j < table.numBlocks, inst ≠ total table (j + 1) := by
  have ⟨j, hj, hs, hlt⟩ := exists_stops hi.le
  have hr := hs.returns hi.le hj
  rw [EntryRight, if_pos hi]
  constructor
  case mp =>
    intro ⟨j', _, i, hc, he, hr'⟩ k _ hk
    obtain ⟨rfl, _⟩ := hr.unique hr'
    have hge : j ≤ k := by
      by_contra hlt
      have := hs.past k (by omega)
      omega
    have h1 : total table (j + 1) ≤ total table (k + 1) := total_mono (by omega)
    rw [total_succ] at h1
    omega
  case mpr =>
    intro hn
    have h0 : 0 < table.numBlocks := by
      by_contra hz
      have := table.sum
      rw [Nat.eq_zero_of_not_pos hz] at this
      simp_all
    have hle := hs.total_le
    have hhere := total_succ ▸ hs.here
    have hne := total_succ ▸ hn j (hlt h0)
    exact ⟨j, hlt h0, inst - total table j, by omega, by omega, hr⟩

theorem entryRight_at_end_iff (hi : inst = table.header.numPlatformTimer) :
    EntryRight table inst ↔ total table noBlock < inst ∧ inst ≤ total table (noBlock + 1) := by
  have ⟨j, hj, hs, hlt⟩ := exists_stops hi.le
  have hr := hs.returns hi.le hj
  rw [EntryRight, if_neg (by omega), ←stops_iff_total (by decide)]
  constructor
  case mp =>
    intro ⟨fuel, h⟩
    have ⟨fuel', h'⟩ := hr
    have ⟨index, h⟩ := h 0
    have hr' : Returns table inst noBlock index := by
      refine ⟨fuel, fun unset => ?_⟩
      rw [valPlatformTimerGetEntryIndex, if_neg (by omega)] at h ⊢
      exact h
    exact (hr.unique hr').left ▸ hs
  case mpr =>
    intro hs'
    have ⟨fuel, h⟩ := hs'.returns hi.le (by decide)
    exact ⟨fuel, fun unset => ⟨_, h unset⟩⟩

theorem entryRight_of_gt (hi : table.header.numPlatformTimer < inst) : EntryRight table inst := by
  rw [EntryRight, if_neg (by omega)]
  refine ⟨0, fun unset => ⟨unset, ?_⟩⟩
  rw [valPlatformTimerGetEntryIndex, if_pos hi]

theorem entryRight_iff : EntryRight table inst ↔ Placed table inst := by
  rcases Nat.lt_trichotomy inst table.header.numPlatformTimer with hi | hi | hi
  case inl =>
    rw [entryRight_of_lt_iff hi]
    exact ⟨fun h => ⟨fun _ => h, fun he => absurd he hi.ne⟩, fun h => h.inside hi⟩
  case inr.inl =>
    rw [entryRight_at_end_iff hi]
    exact ⟨fun h => ⟨fun hl => absurd hi hl.ne, fun _ => h⟩, fun h => h.atEnd hi⟩
  case inr.inr =>
    exact iff_of_true (entryRight_of_gt hi) ⟨fun hl => absurd hl hi.asymm, fun he => absurd he hi.ne'⟩

-- The first block would have to hold all the timers, and then the one past the last is not reported.
theorem not_forall_placed (table : TimerInfoTable) : ¬∀ inst, Placed table inst := by
  intro h
  have hend := (h table.header.numPlatformTimer).atEnd rfl
  have h0 : 0 < table.numBlocks := by
    by_contra hz
    have := table.sum
    rw [Nat.eq_zero_of_not_pos hz] at this
    simp_all
  have hle : total table (0 + 1) ≤ table.header.numPlatformTimer := total_numBlocks ▸ total_mono h0
  have hlt : total table (0 + 1) ≤ total table noBlock := total_mono (by decide)
  have := (h (total table (0 + 1))).inside (by omega) 0 h0
  exact this rfl

end

section Info

-- What the cases of the switch that ask for a timer return of it.
def platformField : TimerInfo → Option (TimerInfoGtblock → Nat → Nat)
  | .isPlatformTimerSecure => some secureField
  | .sysCntlBase           => some fun block _ => block.blockCntlBase
  | .sysCntBaseN           => some TimerInfoGtblock.gtCntBase
  | .frameNum              => some TimerInfoGtblock.frameNum
  | .sysIntid              => some TimerInfoGtblock.gsiv
  | _                      => none

variable {table : TimerInfoTable} {infoType : TimerInfo} {field : TimerInfoGtblock → Nat → Nat}
  {fuel cntFrq unset inst j : Nat} {entry : Nat × Nat}

-- A case that finds no block goes on through those below it, to the flags of a timer of the PE.
theorem valTimerGetInfo_entry (hf : platformField infoType = some field)
    (he : valPlatformTimerGetEntryIndex table fuel inst unset = some entry) :
    valTimerGetInfo table fuel cntFrq unset infoType inst =
      some (platformCase table entry field table.header.nsEl1TimerFlag) := by
  cases infoType <;> cases hf <;>
    simp only [valTimerGetInfo, he, Option.map_some, secureCase, cntlBaseCase, cntBaseCase, frameNumCase,
      intidCase] <;>
    by_cases hb : entry.fst = noBlock <;> simp [platformCase, hb]

def InfoZero (table : TimerInfoTable) (infoType : TimerInfo) (inst : Nat) : Prop :=
  ∀ cntFrq, ∃ fuel, ∀ unset, valTimerGetInfo table fuel cntFrq unset infoType inst = some 0

theorem infoZero_of_gt_iff (hf : platformField infoType = some field) (hi : table.header.numPlatformTimer < inst) :
    InfoZero table infoType inst ↔ table.header.nsEl1TimerFlag = 0 := by
  have hv (fuel cntFrq unset : Nat) : valTimerGetInfo table fuel cntFrq unset infoType inst =
      some table.header.nsEl1TimerFlag := by
    have he : valPlatformTimerGetEntryIndex table fuel inst unset = some (noBlock, unset) := if_pos hi
    rw [valTimerGetInfo_entry hf he, platformCase, if_neg (not_not_intro rfl)]
  constructor
  case mp =>
    intro h
    have ⟨fuel, h⟩ := h 0
    exact Option.some.inj ((hv fuel 0 0).symm.trans (h 0))
  case mpr => exact fun h cntFrq => ⟨0, fun unset => h ▸ hv 0 cntFrq unset⟩

theorem Stops.infoZero_iff (hs : Stops table inst j) (hf : platformField infoType = some field)
    (hi : inst ≤ table.header.numPlatformTimer) (hj : j < 2 ^ 32) :
    InfoZero table infoType inst ↔
      (if j ≠ noBlock then field (table.gtInfo j) (inst - total table j) else table.header.nsEl1TimerFlag) = 0 := by
  have ⟨fuel, hr⟩ := hs.returns hi hj
  have hv (cntFrq unset : Nat) : valTimerGetInfo table fuel cntFrq unset infoType inst =
      some (platformCase table (j, inst - total table j) field table.header.nsEl1TimerFlag) :=
    valTimerGetInfo_entry hf (hr unset)
  constructor
  case mp =>
    intro h
    have ⟨fuel', h⟩ := h 0
    have h := h 0
    cases he : valPlatformTimerGetEntryIndex table fuel' inst 0
    case none =>
      cases infoType <;> cases hf <;> simp [valTimerGetInfo, he] at h
    case some entry =>
      rw [valTimerGetInfo_entry hf he, entryIndex_deterministic he (hr 0), platformCase] at h
      exact Option.some.inj h
  case mpr =>
    intro h cntFrq
    refine ⟨fuel, fun unset => ?_⟩
    rw [hv, platformCase, h]

theorem Stops.unique (hs : Stops table inst j) {k : Nat} (hs' : Stops table inst k) : j = k := by
  have h := hs.here
  have h' := hs'.here
  rcases Nat.lt_trichotomy j k with hlt | he | hgt
  case inl     => exact absurd h (Nat.not_le.mpr (hs'.past j hlt))
  case inr.inl => exact he
  case inr.inr => exact absurd h' (Nat.not_le.mpr (hs.past k hgt))

end Info

-- The instance that ends a block is given to that block and not to the next one, and the one past the last
-- timer is given to the last block. One further on falls through to the flags of the EL1 timer.
theorem platform_timer_iff (table : TimerInfoTable) :
    (∀ inst, EntryRight table inst ↔ Placed table inst) ∧
    (¬∀ inst, EntryRight table inst) ∧
    (∀ infoType field inst, platformField infoType = some field → table.header.numPlatformTimer ≤ inst →
      (InfoZero table infoType inst ↔
        (table.header.numPlatformTimer < inst → table.header.nsEl1TimerFlag = 0) ∧
        (inst = table.header.numPlatformTimer → ∀ j, Stops table inst j →
          (if j ≠ noBlock then field (table.gtInfo j) (inst - total table j)
            else table.header.nsEl1TimerFlag) = 0))) := by
  refine ⟨fun inst => entryRight_iff, fun h => not_forall_placed table fun inst => entryRight_iff.mp (h inst), ?_⟩
  intro infoType field inst hf hi
  rcases hi.lt_or_eq with hi | hi
  case inl =>
    rw [infoZero_of_gt_iff hf hi]
    exact ⟨fun h => ⟨fun _ => h, fun he => absurd he hi.ne'⟩, fun h => h.left hi⟩
  case inr =>
    have ⟨j, hj, hs, _⟩ := exists_stops hi.ge
    rw [hs.infoZero_iff hf hi.ge hj]
    constructor
    case mp => exact fun h => ⟨fun hl => absurd hi hl.ne, fun _ k hk => hs.unique hk ▸ h⟩
    case mpr => exact fun h => h.right hi.symm j hs

-- Two blocks of two timers, an EL1 timer that is always on.
def twoBlocks : TimerInfoTable where
  header    := ⟨4, 0, 30, 26, 0, 27, 28, 4, 0⟩
  gtInfo    := fun j => ⟨if j < 2 then 2 else 0, j * 0x10000, id, id, fun index => 100 + index, fun _ => 0⟩
  numBlocks := 2
  sum       := rfl
  numLt     := by decide
  blocksLe  := by decide

-- The third timer is taken for one past the end of the first block, the instance 4 for a timer, and the
-- interrupt of the instance 5 is read as 4.
theorem third_timer_misplaced :
    valPlatformTimerGetEntryIndex twoBlocks 9 2 0 = some (0, 2) ∧
    valPlatformTimerGetEntryIndex twoBlocks 9 4 0 = some (1, 2) ∧
    valTimerGetInfo twoBlocks 9 0 0 .sysIntid 5 = some 4 ∧
    ¬EntryRight twoBlocks 2 ∧ ¬EntryRight twoBlocks 4 ∧ ¬InfoZero twoBlocks .sysIntid 5 := by
  refine ⟨rfl, rfl, rfl, fun h => ?_, fun h => ?_, fun h => ?_⟩
  · exact (entryRight_iff.mp h).inside (by decide) 0 (by decide) rfl
  · have hge : total twoBlocks 2 ≤ total twoBlocks noBlock := total_mono (by decide)
    exact absurd ((entryRight_iff.mp h).atEnd rfl).left (Nat.not_lt.mpr hge)
  · exact absurd ((infoZero_of_gt_iff rfl (by decide)).mp h) (by decide)

end Timer
