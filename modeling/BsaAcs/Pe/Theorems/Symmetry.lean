import BsaAcs.Pe.Symmetry
import BsaAcs.Infra.Theorems.Verdict

namespace Symmetry

open Infra

-- What a PE has to share with the boot PE: of the caches, those it has itself, and where the boot
-- PE has none its own has to be zero in the compared bits.
structure Agrees (boot pe : Pe) : Prop where
  caches : ∀ i < maxCacheLevel, hasCache pe i → unmasked 0 (pe.cache (BitVec.ofNat 64 (i <<< 1))) =
    unmasked 0 (if hasCache boot i then boot.cache (BitVec.ofNat 64 (i <<< 1)) else 0)
  regs   : ∀ i < numOfRegisters, 1 ≤ i → unmasked i (regValue pe i) = unmasked i (regValue boot i)

section Check

-- A PE with another cache selected.
def SameRegs (pe pe' : Pe) : Prop :=
  pe.reg = pe'.reg ∧ pe.x0 = pe'.x0 ∧ pe.cache = pe'.cache

variable {pe pe' : Pe}

theorem SameRegs.hasCache_eq (h : SameRegs pe pe') : hasCache pe = hasCache pe' := by
  have hr : valPeRegRead pe .clidrEl1 = valPeRegRead pe' .clidrEl1 := congrFun h.1 _
  funext i
  rw [hasCache, hasCache, hr]

theorem details_regName (hi : i < numOfRegisters) (hp : 1 ≤ i) : (details i).regName ≠ .ccsidrEl1 := by
  revert hp
  revert i
  decide

theorem SameRegs.regValue_eq (h : SameRegs pe pe') (hi : i < numOfRegisters) (hp : 1 ≤ i) :
    regValue pe i = regValue pe' i := by
  have hread : ∀ reg, reg ≠ .ccsidrEl1 → valPeRegRead pe reg = valPeRegRead pe' reg := by
    intro reg hr
    cases reg <;> simp_all [valPeRegRead, h.1, h.2.1]
  simp only [regValue]
  cases (details i).dependency <;> simp only [returnRegValue]
  all_goals simp [hread _ (details_regName hi hp), hread]

theorem regValue_selectCache : regValue (selectCache pe v) 0 = pe.cache v := rfl

theorem sameRegs_selectCache : SameRegs (selectCache pe v) pe := ⟨rfl, rfl, rfl⟩

theorem cachesDiffer_spec (a : Arrays) (n i : Nat) (pe : Pe) :
    SameRegs (cachesDiffer a n i pe).2 pe ∧
    ((cachesDiffer a n i pe).1 = false ↔ ∀ j < i + n, i ≤ j → hasCache pe j →
      unmasked 0 (pe.cache (BitVec.ofNat 64 (j <<< 1))) = unmasked 0 (a.cacheList j)) := by
  induction n generalizing i pe
  case zero =>
    refine ⟨⟨rfl, rfl, rfl⟩, iff_of_true rfl ?_⟩
    intro j hj hi
    omega
  case succ n hi =>
    rw [cachesDiffer]
    by_cases hc : hasCache pe i
    case neg =>
      rw [if_neg hc]
      refine ⟨(hi (i + 1) pe).1, (hi (i + 1) pe).2.trans ⟨fun h j hj hij hcj => ?_, fun h j hj hij => ?_⟩⟩
      · have hne : j ≠ i := by
          rintro rfl
          exact hc hcj
        exact h j (by omega) (by omega) hcj
      · exact h j (by omega) (by omega)
    case pos =>
      rw [if_pos hc]
      dsimp only
      by_cases hd : unmasked 0 (regValue (selectCache pe (BitVec.ofNat 64 (i <<< 1))) 0) ≠ unmasked 0 (a.cacheList i)
      case pos =>
        rw [if_pos hd]
        exact ⟨sameRegs_selectCache, iff_of_false (by simp) fun h => hd (h i (by omega) le_rfl hc)⟩
      case neg =>
        rw [if_neg hd]
        obtain ⟨hs, hiff⟩ := hi (i + 1) (selectCache pe (BitVec.ofNat 64 (i <<< 1)))
        refine ⟨hs, hiff.trans ⟨fun h j hj hij hcj => ?_, fun h j hj hij => ?_⟩⟩
        · by_cases he : j = i
          · exact he ▸ not_not.mp hd
          · exact h j (by omega) (by omega) hcj
        · exact h j (by omega) (by omega)

theorem regsDiffer_iff (a : Arrays) (pe : Pe) (n i : Nat) :
    regsDiffer a pe n i = false ↔ ∀ j < i + n, i ≤ j →
      unmasked j (regValue pe j) = unmasked j (a.rdDataArray j) := by
  induction n generalizing i
  case zero =>
    refine iff_of_true rfl ?_
    intro j hj hi
    omega
  case succ n hi =>
    rw [regsDiffer]
    by_cases hd : unmasked i (regValue pe i) ≠ unmasked i (a.rdDataArray i)
    case pos =>
      rw [if_pos hd]
      exact iff_of_false (by simp) fun h => hd (h i (by omega) le_rfl)
    case neg =>
      rw [if_neg hd, hi]
      refine ⟨fun h j hj hij => ?_, fun h j hj hij => h j (by omega) (by omega)⟩
      by_cases he : j = i
      · exact he ▸ not_not.mp hd
      · exact h j (by omega) (by omega)

-- The boot PE records the caches it has and leaves the other entries zero.
theorem readCaches_spec (n i : Nat) (pe : Pe) (cacheList : Nat → BitVec 64) :
    SameRegs (readCaches n i pe cacheList).2 pe ∧
    ∀ j, (readCaches n i pe cacheList).1 j =
      if i ≤ j ∧ j < i + n ∧ hasCache pe j then pe.cache (BitVec.ofNat 64 (j <<< 1)) else cacheList j := by
  induction n generalizing i pe cacheList
  case zero =>
    refine ⟨⟨rfl, rfl, rfl⟩, fun j => ?_⟩
    rw [if_neg (by omega), readCaches]
  case succ n hi =>
    rw [readCaches]
    by_cases hc : hasCache pe i
    case neg =>
      rw [if_neg hc]
      obtain ⟨hs, hj⟩ := hi (i + 1) pe cacheList
      refine ⟨hs, fun j => ?_⟩
      rw [hj]
      by_cases he : j = i
      · simp [he, hc]
      · simp only [show (i + 1 ≤ j ↔ i ≤ j) by omega, show i + 1 + n = i + (n + 1) by omega]
    case pos =>
      rw [if_pos hc]
      obtain ⟨hs, hj⟩ := hi (i + 1) (selectCache pe (BitVec.ofNat 64 (i <<< 1)))
        (Function.update cacheList i (regValue (selectCache pe (BitVec.ofNat 64 (i <<< 1))) 0))
      refine ⟨hs, fun j => ?_⟩
      rw [hj, regValue_selectCache, sameRegs_selectCache.hasCache_eq]
      by_cases he : j = i
      · simp [he, hc]
      · rw [Function.update_of_ne he]
        simp only [show (i + 1 ≤ j ↔ i ≤ j) by omega, show i + 1 + n = i + (n + 1) by omega, selectCache]

theorem readRegs_spec (pe : Pe) (n i : Nat) (rdDataArray : Nat → BitVec 64) (j : Nat) :
    readRegs pe n i rdDataArray j = if i ≤ j ∧ j < i + n then regValue pe j else rdDataArray j := by
  induction n generalizing i rdDataArray
  case zero => rw [if_neg (by omega), readRegs]
  case succ n hi =>
    rw [readRegs, hi]
    by_cases he : j = i
    · simp [he]
    · rw [Function.update_of_ne he]
      simp only [show (i + 1 ≤ j ↔ i ≤ j) by omega, show i + 1 + n = i + (n + 1) by omega]

theorem record_cacheList (boot : Pe) (hi : i < maxCacheLevel) :
    (record boot).cacheList i = if hasCache boot i then boot.cache (BitVec.ofNat 64 (i <<< 1)) else 0 := by
  change (readCaches maxCacheLevel 0 boot fun _ => 0).1 i = _
  rw [(readCaches_spec maxCacheLevel 0 boot fun _ => 0).2]
  simp [hi]

theorem record_rdDataArray (boot : Pe) (hi : i < numOfRegisters) (hp : 1 ≤ i) :
    (record boot).rdDataArray i = regValue boot i := by
  change readRegs (readCaches maxCacheLevel 0 boot fun _ => 0).2 (numOfRegisters - 1) 1 (fun _ => 0) i = _
  rw [readRegs_spec, if_pos ⟨hp, by simpa [numOfRegisters] using hi⟩]
  exact (readCaches_spec maxCacheLevel 0 boot fun _ => 0).1.regValue_eq hi hp

-- A PE reports a pass exactly when it agrees with the boot PE.
theorem idRegsCheck_record (boot pe : Pe) :
    (Agrees boot pe → idRegsCheck (record boot) pe = resultPass testNum 1) ∧
    (¬Agrees boot pe → idRegsCheck (record boot) pe = resultFail testNum 1) := by
  obtain ⟨hpe, hdiffer⟩ := cachesDiffer_spec (record boot) maxCacheLevel 0 pe
  have hc : (cachesDiffer (record boot) maxCacheLevel 0 pe).1 = false ↔
      ∀ i < maxCacheLevel, hasCache pe i → unmasked 0 (pe.cache (BitVec.ofNat 64 (i <<< 1))) =
        unmasked 0 (if hasCache boot i then boot.cache (BitVec.ofNat 64 (i <<< 1)) else 0) := by
    rw [hdiffer, Nat.zero_add]
    refine forall₂_congr fun i hi => ?_
    rw [record_cacheList boot hi]
    simp
  have hr : regsDiffer (record boot) (cachesDiffer (record boot) maxCacheLevel 0 pe).2
        (numOfRegisters - 1) 1 = false ↔
      ∀ i < numOfRegisters, 1 ≤ i → unmasked i (regValue pe i) = unmasked i (regValue boot i) := by
    rw [regsDiffer_iff, show 1 + (numOfRegisters - 1) = numOfRegisters by rfl]
    refine forall₃_congr fun i hi hp => ?_
    rw [record_rdDataArray boot hi hp, hpe.regValue_eq hi hp]
  constructor
  · intro h
    simp [idRegsCheck, hc.mpr h.caches, hr.mpr h.regs]
  · intro h
    by_cases hcd : (cachesDiffer (record boot) maxCacheLevel 0 pe).1
    case pos => simp [idRegsCheck, hcd]
    case neg =>
      rw [Bool.not_eq_true] at hcd
      have hrd : regsDiffer (record boot) (cachesDiffer (record boot) maxCacheLevel 0 pe).2
          (numOfRegisters - 1) 1 = true := by
        by_contra hn
        exact h ⟨hc.mp hcd, hr.mp (by simpa using hn)⟩
      simp [idRegsCheck, hcd, hrd]

end Check

section Flight

-- The state after `n` more accesses, and with the status of one PE replaced.

def later (s : State) (n : Nat) : State :=
  { s with accesses := s.accesses + n }

def reported (s : State) (i w : Nat) : State :=
  { s with status := store s.status (i, w) }

-- Nothing is on its way to the statuses, or one status that is there from the access `l` on.

def Quiet (r : Run) (k : Nat) : Prop :=
  ∀ l ≥ k, r.lands l = []

def Awaits (r : Run) (k i w l : Nat) : Prop :=
  ∀ j ≥ k, r.lands j = if j = l then [(i, w)] else []

variable {r : Run} {s : State} {i w l n : Nat}

@[simp]
theorem later_accesses : (later s n).accesses = s.accesses + n := rfl

@[simp]
theorem later_status : (later s n).status = s.status := rfl

@[simp]
theorem reported_accesses : (reported s i w).accesses = s.accesses := rfl

theorem later_later (s : State) (m n : Nat) : later (later s m) n = later s (m + n) := by
  simp only [later, Nat.add_assoc]

@[simp]
theorem reported_self : (reported s i w).status i = w := by
  simp [reported, store]

theorem reported_of_ne {j : Nat} (h : j ≠ i) : (reported s i w).status j = s.status j := by
  simp [reported, store, Function.update_of_ne h]

theorem Quiet.mono (h : Quiet r k) (hk : k ≤ k') : Quiet r k' :=
  fun l hl => h l (hk.trans hl)

theorem Awaits.mono (h : Awaits r k i w l) (hk : k ≤ k') : Awaits r k' i w l :=
  fun j hj => h j (hk.trans hj)

theorem Awaits.quiet (h : Awaits r k i w l) (hk : k ≤ k') (hl : l < k') : Quiet r k' := by
  intro j hj
  rw [h j (hk.trans hj), if_neg (by omega)]

theorem land_quiet (h : Quiet r s.accesses) : land r s = later s 1 := by
  simp only [land, h _ le_rfl]
  rfl

theorem land_before (h : Awaits r s.accesses i w l) (hl : s.accesses ≠ l) : land r s = later s 1 := by
  simp only [land, h _ le_rfl, if_neg hl]
  rfl

theorem land_at (h : Awaits r s.accesses i w s.accesses) : land r s = later (reported s i w) 1 := by
  simp only [land, h _ le_rfl, if_true]
  rfl

theorem iterate_quiet (h : Quiet r s.accesses) (n : Nat) : (land r)^[n] s = later s n := by
  induction n
  case zero => rfl
  case succ n hi =>
    rw [Function.iterate_succ_apply', hi, land_quiet (h.mono (by simp)), later_later]

theorem iterate_awaits (h : Awaits r s.accesses i w l) (hl : s.accesses ≤ l) (n : Nat) :
    (land r)^[n] s = if s.accesses + n ≤ l then later s n else later (reported s i w) n := by
  induction n
  case zero => rw [if_pos (by omega)]; rfl
  case succ n hi =>
    rw [Function.iterate_succ_apply', hi]
    rcases Nat.lt_trichotomy (s.accesses + n) l with hlt | heq | hgt
    · rw [if_pos hlt.le, if_pos (by omega), land_before (h.mono (by simp)) (by simp; omega), later_later]
    · rw [if_pos heq.le, if_neg (by omega)]
      have ha : Awaits r (later s n).accesses i w (later s n).accesses := by
        rw [later_accesses, heq]
        exact h.mono hl
      rw [land_at ha]
      simp only [later, reported, Nat.add_assoc]
    · rw [if_neg (by omega), if_neg (by omega), land_quiet (h.quiet (by simp) (by simp; omega)), later_later]

-- A PE that never answers is read as pending each time.
theorem poll_quiet (h : Quiet r s.accesses) (hp : isResultPending (s.status i)) (n : Nat) :
    poll r i n s = (true, later s n) := by
  induction n generalizing s
  case zero => rfl
  case succ n hi =>
    simp only [poll, valGetStatus, land_quiet h, later_status, hp, if_true]
    rw [hi (s := later s 1) (h.mono (by simp)) hp, later_later, Nat.add_comm 1 n]

theorem poll_answered (h : Quiet r s.accesses) (hp : isResultPending (s.status i) = false) (hn : 0 < n) :
    poll r i n s = (false, later s 1) := by
  obtain ⟨n, rfl⟩ := Nat.exists_eq_add_one.mpr hn
  simp [poll, valGetStatus, land_quiet h, hp]

theorem poll_awaits (hp : isResultPending (s.status i)) (hw : isResultPending w = false) {d : Nat}
    (h : Awaits r s.accesses i w (s.accesses + d)) (n : Nat) :
    poll r i n s = if d < n then (false, later (reported s i w) (d + 1)) else (true, later s n) := by
  induction n generalizing s d
  case zero => rfl
  case succ n hi =>
    cases d
    case zero =>
      simp only [poll, valGetStatus, land_at h, later_status, reported_self, hw, if_pos (Nat.succ_pos n)]
      rfl
    case succ d =>
      have hl : land r s = later s 1 := land_before h (by omega)
      have ha : Awaits r (later s 1).accesses i w ((later s 1).accesses + d) := by
        rw [later_accesses, Nat.add_assoc, Nat.add_comm 1 d]
        exact h.mono (by omega)
      simp only [poll, valGetStatus, hl, later_status, hp, if_true]
      rw [hi (by simpa using hp) ha]
      by_cases hd : d < n
      · rw [if_pos hd, if_pos (by omega)]
        simp only [later, reported, Nat.add_assoc, Nat.add_comm 1 (d + 1)]
      · rw [if_neg hd, if_neg (by omega), later_later, Nat.add_comm 1 n]

end Flight

section Check

variable {r : Run} {s : State} {seen : Nat → Nat} {status n lo : Nat}

-- The check, when the statuses are `seen` at the accesses that read them.
def scan (seen : Nat → Nat) : Nat → Nat → Nat → Nat
  | 0, _, status => status
  | n + 1, i, _ => if isTestFailSkip (seen i) then seen i else scan seen n (i + 1) (seen i)

theorem checkLoop_scan (h : ∀ j < n, ((land r)^[j + 1] s).status (lo + j) = seen (lo + j)) :
    (checkLoop r n lo status s).1 = scan seen n lo status := by
  induction n generalizing lo status s
  case zero => rfl
  case succ n hi =>
    have hnow : (land r s).status lo = seen lo := h 0 (Nat.succ_pos n)
    rw [checkLoop_succ, scan, hnow]
    split
    · rfl
    · refine hi fun j hj => ?_
      have hnext := h (j + 1) (by omega)
      rw [Function.iterate_succ_apply] at hnext
      rw [show lo + 1 + j = lo + (j + 1) by omega]
      exact hnext

theorem scan_stop {p : Nat} (hl : lo ≤ p) (hp : p < lo + n) (hs : isTestFailSkip (seen p))
    (hb : ∀ j, lo ≤ j → j < p → isTestFailSkip (seen j) = false) : scan seen n lo status = seen p := by
  induction n generalizing lo status
  case zero => omega
  case succ n hi =>
    rw [scan]
    by_cases he : p = lo
    · rw [← he, if_pos hs]
    · rw [hb lo le_rfl (by omega)]
      exact hi (by omega) (by omega) fun j hj hjp => hb j (by omega) hjp

theorem scan_last (hn : 0 < n) (hb : ∀ j, lo ≤ j → j < lo + n → isTestFailSkip (seen j) = false) :
    scan seen n lo status = seen (lo + n - 1) := by
  induction n generalizing lo status
  case zero => omega
  case succ n hi =>
    rw [scan, hb lo le_rfl (by omega)]
    cases n
    case zero => rfl
    case succ n =>
      rw [if_neg (by simp), hi (Nat.succ_pos n) fun j hj hjn => hb j (by omega) (by omega)]
      congr 1
      omega

end Check

-- How a PE comes to pass: it is switched on, agrees with the boot PE and reports while the boot PE
-- waits for it. The last PE of the table may also report after the boot PE has given it up, before
-- the check reads its status.
structure Machine.Passes (m : Machine) (i : Nat) : Prop where
  started : m.Started i
  agrees  : Agrees (m.pe m.myIndex) (m.pe i)
  timely  : ∃ d, m.delay i = some d ∧
    (d + 1 < timeoutLarge ∨ i + 1 = m.numPe ∧ timeoutLarge ≤ d ∧ d < timeoutLarge + m.numPe)

-- The firmware answers with the return codes of PSCI, and the test is started on a PE of the table.
structure Machine.Sane (m : Machine) : Prop where
  psci    : -9 ≤ m.cpuOn i k ∧ m.cpuOn i k ≤ 0
  small   : m.numPe < 2 ^ 32
  myIndex : m.myIndex < m.numPe

section Examine

variable {m : Machine} {lands : Nat → List (Nat × Nat)} {s : State} {i : Nat}

theorem Machine.Sane.reports (h : m.Sane) : (m.run fun _ => []).Reports where
  testNum := show Symmetry.testNum ≤ testNumMask by decide
  small   := h.small
  psci    := h.psci
  own     := .inl rfl
  started _ := rfl
  other hm  := by cases hm
  result hm := by cases hm
  steady hm := by cases hm

theorem executeAnswer_run (m : Machine) (lands : Nat → List (Nat × Nat)) (i n k : Nat) :
    executeAnswer (m.run lands) i n k = executeAnswer (m.run fun _ => []) i n k := by
  induction n generalizing k
  case zero => rfl
  case succ n hi =>
    rw [executeAnswer, executeAnswer, hi]
    rfl

theorem word_pass (h : Agrees (m.pe m.myIndex) (m.pe i)) : m.word i = resultPass testNum 1 :=
  (idRegsCheck_record _ _).1 h

theorem word_fail (h : ¬Agrees (m.pe m.myIndex) (m.pe i)) : m.word i = resultFail testNum 1 :=
  (idRegsCheck_record _ _).2 h

theorem word_not_pending (m : Machine) (i : Nat) : isResultPending (m.word i) = false := by
  by_cases h : Agrees (m.pe m.myIndex) (m.pe i)
  · rw [word_pass h]
    decide
  · rw [word_fail h]
    decide

-- What the firmware refuses to switch on gets its answer as a status.
theorem examine_refused (h : m.Sane) (hq : Quiet (m.run lands) s.accesses) (hi : i < m.numPe) (hs : ¬m.Started i) :
    ∃ w, isTestFail w ∧ examine m i (lands, s) = (false, lands, later (reported s i w) 3) := by
  have hw : isTestFail (refusal (m.run fun _ => []) i) := isTestFail_refusal h.reports
  refine ⟨refusal (m.run fun _ => []) i, hw, ?_⟩
  have hexec : executeOnPe m i (lands, s) = (lands, later (reported s i (refusal (m.run fun _ => []) i)) 1) := by
    have hset : valExecuteOnPe (m.run lands) i s = later (reported s i (refusal (m.run fun _ => []) i)) 1 := by
      have hle : ¬i > (m.run lands).numOfPe := Nat.not_lt.mpr hi.le
      have ha : executeAnswer (m.run lands) i timeoutLarge 0 ≠ 0 := by rwa [executeAnswer_run]
      rw [valExecuteOnPe, if_neg hle, if_neg ha, valSetStatus, land_quiet hq,
        executeAnswer_run]
      rfl
    rw [executeOnPe, hset, if_neg fun hc => hs hc.2]
  have hq' : Quiet (m.run lands) (later (reported s i (refusal (m.run fun _ => []) i)) 1).accesses :=
    hq.mono (by simp)
  have hpoll := poll_answered (n := timeoutLarge - 1) hq'
    (i := i) (by simpa using isTestFail.not_pending hw) (by decide)
  have hget := land_quiet (s := later (later (reported s i (refusal (m.run fun _ => []) i)) 1) 1) (hq'.mono (by simp))
  simp only [later_later] at hpoll hget
  simp only [examine, hexec, hpoll, Bool.false_eq_true, if_false, valGetStatus, hget, later_status, reported_self, hw,
    Bool.not_true]

theorem executeOnPe_started (hi : i < m.numPe) (hs : m.Started i) :
    executeOnPe m i (lands, s) = (launch m i s.accesses lands, s) := by
  have ha : executeAnswer (m.run lands) i timeoutLarge 0 = 0 := by rwa [executeAnswer_run]
  have hset : valExecuteOnPe (m.run lands) i s = s := by
    have hle : ¬i > (m.run lands).numOfPe := Nat.not_lt.mpr hi.le
    rw [valExecuteOnPe, if_neg hle, if_pos ha]
  rw [executeOnPe, hset, if_pos ⟨hi.le, hs⟩]

theorem launch_none (hq : Quiet (m.run lands) s.accesses) (hd : m.delay i = none) :
    Quiet (m.run (launch m i s.accesses lands)) s.accesses := by
  intro k hk
  change launch m i s.accesses lands k = []
  rw [launch, hd, if_neg (by simp)]
  exact hq k hk

theorem launch_some {d : Nat} (hq : Quiet (m.run lands) s.accesses) (hd : m.delay i = some d) :
    Awaits (m.run (launch m i s.accesses lands)) s.accesses i (m.word i) (s.accesses + d) := by
  intro k hk
  change launch m i s.accesses lands k = _
  have hnil : lands k = [] := hq k hk
  have hiff : (m.delay i = some (k - s.accesses) ∧ s.accesses ≤ k) ↔ k = s.accesses + d := by
    rw [hd, Option.some.injEq]
    omega
  simp only [launch, hiff, hnil, List.nil_append]

-- The status of a PE that the boot PE gives up, with which the check begins, and what is on its way.
theorem examine_late (hq : Quiet (m.run lands) s.accesses) (hi : i < m.numPe) (hs : m.Started i)
    (hp : isResultPending (s.status i)) (hd : ∀ d, m.delay i = some d → timeoutLarge ≤ d + 1) :
    ∃ ls, examine m i (lands, s) = (false, ls, later (reported s i (resultFail testNum 2)) timeoutLarge) ∧
      if ∃ d, m.delay i = some d ∧ timeoutLarge ≤ d then
        ∃ d, m.delay i = some d ∧
          Awaits (m.run ls) (s.accesses + timeoutLarge) i (m.word i) (s.accesses + d)
      else Quiet (m.run ls) (s.accesses + timeoutLarge) := by
  refine ⟨launch m i s.accesses lands, ?_⟩
  have htl : timeoutLarge - 1 + 1 = timeoutLarge := by decide
  have hset (hl : (land (m.run (launch m i s.accesses lands)) (later s (timeoutLarge - 1))) =
        later s timeoutLarge ∨
      (land (m.run (launch m i s.accesses lands)) (later s (timeoutLarge - 1))) =
        later (reported s i (m.word i)) timeoutLarge) :
      valSetStatus (m.run (launch m i s.accesses lands)) i (resultFail testNum 2) (later s (timeoutLarge - 1)) =
        later (reported s i (resultFail testNum 2)) timeoutLarge := by
    rcases hl with hl | hl
    · rw [valSetStatus, hl]
      rfl
    · rw [valSetStatus, hl]
      simp only [later, reported, store, Function.update_idem]
  cases hdelay : m.delay i
  case none =>
    have hq' := launch_none (i := i) hq hdelay
    rw [if_neg (by simp)]
    refine ⟨?_, hq'.mono (by omega)⟩
    simp only [examine, executeOnPe_started hi hs, poll_quiet hq' hp, if_true]
    rw [hset (.inl (by rw [land_quiet (hq'.mono (by simp)), later_later, htl]))]
  case some d =>
    have ha := launch_some hq hdelay
    have hge := hd d hdelay
    have hpoll := poll_awaits hp (word_not_pending m i) ha (timeoutLarge - 1)
    rw [if_neg (by omega)] at hpoll
    by_cases hlt : timeoutLarge ≤ d
    case pos =>
      rw [if_pos ⟨d, rfl, hlt⟩]
      refine ⟨?_, d, rfl, ha.mono (by omega)⟩
      simp only [examine, executeOnPe_started hi hs, hpoll, if_true]
      rw [hset (.inl ?_)]
      rw [land_before (ha.mono (by simp)) (by simp; omega), later_later, htl]
    case neg =>
      have hd' : d = timeoutLarge - 1 := by omega
      rw [if_neg (by simpa using hlt)]
      refine ⟨?_, ha.quiet (by omega) (by omega)⟩
      simp only [examine, executeOnPe_started hi hs, hpoll, if_true]
      rw [hset (.inr ?_)]
      have ha' : Awaits (m.run (launch m i s.accesses lands)) (later s (timeoutLarge - 1)).accesses i (m.word i)
          (later s (timeoutLarge - 1)).accesses := by
        rw [later_accesses, ← hd']
        exact ha.mono (by omega)
      rw [land_at ha']
      simp only [later, reported, Nat.add_assoc, htl]

theorem examine_timely {d : Nat} (hq : Quiet (m.run lands) s.accesses) (hi : i < m.numPe) (hs : m.Started i)
    (hp : isResultPending (s.status i)) (hd : m.delay i = some d) (ht : d + 1 < timeoutLarge) :
    ∃ ls, examine m i (lands, s) = (!isTestFail (m.word i), ls, later (reported s i (m.word i)) (d + 2)) ∧
      Quiet (m.run ls) (s.accesses + (d + 2)) := by
  have ha := launch_some hq hd
  have hpoll := poll_awaits hp (word_not_pending m i) ha (timeoutLarge - 1)
  rw [if_pos (by omega)] at hpoll
  have hq' : Quiet (m.run (launch m i s.accesses lands)) (s.accesses + (d + 1)) := ha.quiet (by omega) (by omega)
  have hget := land_quiet (s := later (reported s i (m.word i)) (d + 1)) hq'
  refine ⟨launch m i s.accesses lands, ?_, hq'.mono (by omega)⟩
  simp only [examine, executeOnPe_started hi hs, hpoll, Bool.false_eq_true, if_false, valGetStatus, hget, later_status,
    reported_self, later_later]

end Examine

section Verdict

variable {m : Machine} {lands : Nat → List (Nat × Nat)} {s : State} {lo : Nat}

-- The statuses when the loop has come to the PE `lo`: the PEs before it have passed.
def Checked (m : Machine) (lo : Nat) (status : Nat → Nat) : Prop :=
  ∀ i < m.numPe, status i = if i < lo ∧ i ≠ m.myIndex then resultPass testNum 1 else resultPending testNum

theorem Checked.not_failSkip {status : Nat → Nat} (h : Checked m lo status) {i : Nat} (hi : i < m.numPe) :
    isTestFailSkip (status i) = false := by
  rw [h i hi]
  split <;> decide

theorem Checked.pending {status : Nat → Nat} (h : Checked m lo status) {i : Nat} (hi : i < m.numPe) (hl : lo ≤ i) :
    status i = resultPending testNum := by
  rw [h i hi, if_neg (by omega)]

theorem Checked.isPending {status : Nat → Nat} (h : Checked m lo status) (hlo : lo < m.numPe) :
    isResultPending (status lo) := by
  rw [h.pending hlo le_rfl]
  decide

theorem Checked.step (h : Checked m lo s.status) (hm : lo ≠ m.myIndex) :
    Checked m (lo + 1) (reported s lo (resultPass testNum 1)).status := by
  intro i hi
  by_cases he : i = lo
  · rw [he, reported_self, if_pos ⟨by omega, hm⟩]
  · rw [reported_of_ne he, h i hi]
    have hiff : i < lo + 1 ↔ i < lo := by omega
    simp only [hiff]

theorem Checked.skip {status : Nat → Nat} (h : Checked m m.myIndex status) : Checked m (m.myIndex + 1) status := by
  intro i hi
  rw [h i hi]
  have hiff : i < m.myIndex + 1 ∧ i ≠ m.myIndex ↔ i < m.myIndex ∧ i ≠ m.myIndex := by omega
  simp only [hiff]

-- What the check finds when it begins.
def verdict (m : Machine) (f : Flight) : Nat :=
  (checkLoop (m.run f.1) m.numPe 0 0 f.2).1

theorem verdict_quiet (hq : Quiet (m.run lands) s.accesses) : verdict m (lands, s) = scan s.status m.numPe 0 0 := by
  refine checkLoop_scan fun j hj => ?_
  rw [iterate_quiet hq, later_status]

theorem verdict_awaits {i w l : Nat} (ha : Awaits (m.run lands) s.accesses i w l) (hl : s.accesses ≤ l) :
    verdict m (lands, s) =
      scan (fun j => if j = i ∧ l ≤ s.accesses + j then w else s.status j) m.numPe 0 0 := by
  refine checkLoop_scan fun j hj => ?_
  rw [iterate_awaits ha hl, Nat.zero_add]
  by_cases hb : s.accesses + (j + 1) ≤ l
  case pos => rw [if_pos hb, later_status, if_neg (by omega)]
  case neg =>
    rw [if_neg hb, later_status]
    by_cases he : j = i
    · rw [he, reported_self, if_pos ⟨rfl, by omega⟩]
    · rw [reported_of_ne he, if_neg fun hc => he hc.1]

-- The check stops at the PE `lo`, when it has failed.
theorem scan_failed {seen : Nat → Nat} (hlo : lo < m.numPe) (hf : isTestFail (seen lo))
    (hb : ∀ j < lo, isTestFailSkip (seen j) = false) :
    isTestPass (scan seen m.numPe 0 0) = false ∧ isTestSkip (scan seen m.numPe 0 0) = false := by
  rw [scan_stop (Nat.zero_le lo) (by omega) (by simp [isTestFailSkip, hf]) fun j _ hj => hb j hj]
  exact ⟨isTestFail.not_pass hf, isTestFail.not_skip hf⟩

-- The PE `lo` has failed, and the loop has ended with it.
theorem verdict_failed {w : Nat} (hc : Checked m lo s.status) (hlo : lo < m.numPe) (hw : isTestFail w) {n : Nat}
    (hq : Quiet (m.run lands) (s.accesses + n)) :
    isTestPass (verdict m (lands, later (reported s lo w) n)) = false ∧
      isTestSkip (verdict m (lands, later (reported s lo w) n)) = false := by
  rw [verdict_quiet (s := later (reported s lo w) n) (by simpa using hq)]
  refine scan_failed hlo (by simpa using hw) fun j hj => ?_
  rw [later_status, reported_of_ne (by omega)]
  exact hc.not_failSkip (by omega)

-- The statuses that the check reads, when the boot PE has given the PE `lo` up and the status of that
-- PE is there from its `d`-th access on, the check beginning with the access `t`.
def lateSeen (m : Machine) (status : Nat → Nat) (lo t d j : Nat) : Nat :=
  if j = lo then if d ≤ t + lo then m.word lo else resultFail testNum 2 else status j

theorem verdict_late {t d : Nat} (hge : t ≤ d)
    (ha : Awaits (m.run lands) (s.accesses + t) lo (m.word lo) (s.accesses + d)) :
    verdict m (lands, later (reported s lo (resultFail testNum 2)) t) =
      scan (lateSeen m s.status lo t d) m.numPe 0 0 := by
  rw [verdict_awaits (s := later (reported s lo (resultFail testNum 2)) t) ha (by simpa using hge)]
  congr 1
  funext j
  change (if j = lo ∧ s.accesses + d ≤ s.accesses + t + j then m.word lo
    else (reported s lo (resultFail testNum 2)).status j) = _
  rw [lateSeen]
  by_cases hj : j = lo
  case neg => rw [if_neg fun hc => hj hc.1, if_neg hj, reported_of_ne hj]
  case pos =>
    rw [if_pos hj]
    by_cases hd : d ≤ t + lo
    · rw [if_pos ⟨hj, by omega⟩, if_pos hd]
    · rw [if_neg fun hc => hd (by omega), if_neg hd, hj, reported_self]

theorem lateSeen_verdict {t d : Nat} (hc : Checked m lo s.status) (hlo : lo < m.numPe) :
    isTestSkip (scan (lateSeen m s.status lo t d) m.numPe 0 0) = false ∧
      (isTestPass (scan (lateSeen m s.status lo t d) m.numPe 0 0) ↔
        Agrees (m.pe m.myIndex) (m.pe lo) ∧ lo + 1 = m.numPe ∧ d < t + m.numPe) := by
  have hother {j : Nat} (hj : j ≠ lo) : lateSeen m s.status lo t d j = s.status j := if_neg hj
  have hbefore : ∀ j < lo, isTestFailSkip (lateSeen m s.status lo t d j) = false := by
    intro j hj
    rw [hother (by omega)]
    exact hc.not_failSkip (by omega)
  by_cases hin : d ≤ t + lo ∧ Agrees (m.pe m.myIndex) (m.pe lo)
  case neg =>
    -- Either the check reads the status that the boot PE stored, or the PE has failed.
    have hf : isTestFail (lateSeen m s.status lo t d lo) := by
      rw [lateSeen, if_pos rfl]
      by_cases hr : d ≤ t + lo
      · rw [if_pos hr, word_fail fun hag => hin ⟨hr, hag⟩]
        decide
      · rw [if_neg hr]
        decide
    obtain ⟨hvp, hvs⟩ := scan_failed (m := m) hlo hf hbefore
    refine ⟨hvs, iff_of_false (by simp [hvp]) ?_⟩
    rintro ⟨hag, hlast, hd⟩
    exact hin ⟨by omega, hag⟩
  case pos =>
    have hself : lateSeen m s.status lo t d lo = resultPass testNum 1 := by
      rw [lateSeen, if_pos rfl, if_pos hin.1, word_pass hin.2]
    have hnone : ∀ j, 0 ≤ j → j < 0 + m.numPe → isTestFailSkip (lateSeen m s.status lo t d j) = false := by
      intro j _ hj
      by_cases hjl : j = lo
      · rw [hjl, hself]
        decide
      · rw [hother hjl]
        exact hc.not_failSkip (by omega)
    rw [scan_last (by omega) hnone, Nat.zero_add]
    by_cases hlast : lo + 1 = m.numPe
    case pos =>
      rw [show m.numPe - 1 = lo by omega, hself]
      exact ⟨by decide, iff_of_true (by decide) ⟨hin.2, hlast, by omega⟩⟩
    case neg =>
      rw [hother (by omega), hc.pending (by omega) (by omega)]
      exact ⟨by decide, iff_of_false (by decide) fun h => hlast h.2.1⟩

-- A PE that the boot PE gives up: only the last PE can still come to pass.
theorem examine_late_verdict (hc : Checked m lo s.status) (hq : Quiet (m.run lands) s.accesses) (hlo : lo < m.numPe)
    (hs : m.Started lo) (hd : ∀ d, m.delay lo = some d → timeoutLarge ≤ d + 1) :
    (examine m lo (lands, s)).1 = false ∧ isTestSkip (verdict m (examine m lo (lands, s)).2) = false ∧
      (isTestPass (verdict m (examine m lo (lands, s)).2) ↔ m.Passes lo ∧ lo + 1 = m.numPe) := by
  obtain ⟨ls, he, hls⟩ := examine_late hq hlo hs (hc.isPending hlo) hd
  rw [he]
  refine ⟨rfl, ?_⟩
  by_cases hex : ∃ d, m.delay lo = some d ∧ timeoutLarge ≤ d
  case neg =>
    rw [if_neg hex] at hls
    obtain ⟨hvp, hvs⟩ := verdict_failed hc hlo (show isTestFail (resultFail testNum 2) by decide) hls
    refine ⟨hvs, iff_of_false (by simp [hvp]) ?_⟩
    rintro ⟨hpass, _⟩
    obtain ⟨d, hdd, ht | ht⟩ := hpass.timely
    · exact absurd (hd d hdd) (by omega)
    · exact hex ⟨d, hdd, ht.2.1⟩
  case pos =>
    rw [if_pos hex] at hls
    obtain ⟨d, hdd, ha⟩ := hls
    obtain ⟨d', hdd', hge⟩ := hex
    obtain rfl : d = d' := Option.some.inj (hdd.symm.trans hdd')
    rw [verdict_late hge ha]
    obtain ⟨hvs, hvp⟩ := lateSeen_verdict (t := timeoutLarge) (d := d) hc hlo
    refine ⟨hvs, hvp.trans ⟨fun hr => ⟨⟨hs, hr.1, d, hdd, .inr ⟨hr.2.1, hge, hr.2.2⟩⟩, hr.2.1⟩, fun hr => ?_⟩⟩
    obtain ⟨e, hde, ht⟩ := hr.1.timely
    obtain rfl : d = e := Option.some.inj (hdd.symm.trans hde)
    exact ⟨hr.1.agrees, hr.2, by omega⟩

theorem forall_after {P : Nat → Prop} {my hi : Nat} (h : lo < hi → lo ≠ my → P lo) :
    (∀ i, lo + 1 ≤ i → i < hi → i ≠ my → P i) ↔ ∀ i, lo ≤ i → i < hi → i ≠ my → P i := by
  constructor
  · intro ha i hl hi hne
    by_cases he : i = lo
    · exact he ▸ h (he ▸ hi) (he ▸ hne)
    · exact ha i (by omega) hi hne
  · exact fun ha i hl => ha i (by omega)

theorem examineLoop_verdict (h : m.Sane) (n : Nat) (hn : lo + n = m.numPe) (hc : Checked m lo s.status)
    (hq : Quiet (m.run lands) s.accesses) :
    isTestSkip (verdict m (examineLoop m n lo (lands, s))) = false ∧
    (isTestPass (verdict m (examineLoop m n lo (lands, s))) ↔
      m.myIndex + 1 ≠ m.numPe ∧ ∀ i, lo ≤ i → i < m.numPe → i ≠ m.myIndex → m.Passes i) := by
  induction n generalizing lo lands s
  case zero =>
    have hpos := h.myIndex
    rw [examineLoop, verdict_quiet hq, scan_last (by omega) fun j _ hj => hc.not_failSkip (by omega), Nat.zero_add,
      hc _ (by omega)]
    by_cases hlast : m.myIndex + 1 = m.numPe
    case pos =>
      rw [if_neg (by omega)]
      exact ⟨by decide, iff_of_false (by decide) fun hc => hc.1 hlast⟩
    case neg =>
      rw [if_pos (by omega)]
      refine ⟨by decide, iff_of_true (by decide) ⟨hlast, fun i hl hi => ?_⟩⟩
      omega
  case succ n hi =>
    have hlo : lo < m.numPe := by omega
    rw [examineLoop]
    by_cases hm : lo = m.myIndex
    case pos =>
      rw [if_neg (not_not.mpr hm)]
      obtain ⟨hs, hp⟩ := hi (by omega) (hm ▸ (hm ▸ hc).skip) hq
      exact ⟨hs, hp.trans (and_congr_right fun _ => forall_after fun _ hne => absurd hm hne)⟩
    case neg =>
      rw [if_pos hm]
      by_cases hstart : m.Started lo
      case neg =>
        obtain ⟨w, hw, he⟩ := examine_refused h hq hlo hstart
        simp only [he, Bool.false_eq_true, if_false]
        obtain ⟨hvp, hvs⟩ := verdict_failed hc hlo hw (hq.mono (show s.accesses ≤ s.accesses + 3 by omega))
        exact ⟨hvs, iff_of_false (by simp [hvp]) fun ha => hstart (ha.2 lo le_rfl hlo hm).started⟩
      case pos =>
        by_cases hd : ∃ d, m.delay lo = some d ∧ d + 1 < timeoutLarge
        case neg =>
          have hlate : ∀ d, m.delay lo = some d → timeoutLarge ≤ d + 1 := by
            intro d hdd
            by_contra hlt
            exact hd ⟨d, hdd, by omega⟩
          obtain ⟨hstop, hvs, hvp⟩ := examine_late_verdict hc hq hlo hstart hlate
          simp only [hstop, Bool.false_eq_true, if_false]
          refine ⟨hvs, hvp.trans ⟨fun ha => ⟨by omega, fun i hl hin _ => ?_⟩, fun ha => ?_⟩⟩
          · obtain rfl : i = lo := by omega
            exact ha.1
          · have hpass := ha.2 lo le_rfl hlo hm
            refine ⟨hpass, ?_⟩
            obtain ⟨d, hdd, ht | ht⟩ := hpass.timely
            · exact absurd ⟨d, hdd, ht⟩ hd
            · exact ht.1
        case pos =>
          obtain ⟨d, hdd, ht⟩ := hd
          obtain ⟨ls, he, hls⟩ := examine_timely hq hlo hstart (hc.isPending hlo) hdd ht
          simp only [he]
          by_cases hag : Agrees (m.pe m.myIndex) (m.pe lo)
          case neg =>
            have hf : isTestFail (resultFail testNum 1) := by decide
            rw [word_fail hag, hf]
            simp only [Bool.not_true, Bool.false_eq_true, if_false]
            obtain ⟨hvp, hvs⟩ := verdict_failed hc hlo hf hls
            exact ⟨hvs, iff_of_false (by simp [hvp]) fun ha => hag (ha.2 lo le_rfl hlo hm).agrees⟩
          case pos =>
            have hf : isTestFail (resultPass testNum 1) = false := by decide
            rw [word_pass hag, hf]
            simp only [Bool.not_false, if_true]
            obtain ⟨hvs, hvp⟩ := hi (s := later (reported s lo (resultPass testNum 1)) (d + 2))
              (show lo + 1 + n = m.numPe by omega) (by simpa using hc.step hm) (by simpa using hls)
            exact ⟨hvs, hvp.trans (and_congr_right fun _ => forall_after fun _ _ => ⟨hstart, hag, d, hdd, .inl ht⟩)⟩

theorem judge_iff (w : Nat) (s : State) :
    ((judge w s).1 = acsStatusPass ↔ isTestPass w) ∧ ((judge w s).1 = acsStatusSkip ↔ isTestSkip w) := by
  rw [judge]
  by_cases hp : isTestPass w
  case pos =>
    have hs : ¬isTestSkip w := fun hs => by simp [isTestSkip.not_pass hs] at hp
    simp [hp, hs, acsStatusPass, acsStatusSkip]
  case neg => by_cases hs : isTestSkip w <;> simp [hp, hs, acsStatusPass, acsStatusSkip, acsStatusFail]

-- The test starts with every PE pending.
theorem checked_initialized (h : m.Sane) (s : State) :
    Checked m 0 (initialized (m.run fun _ => []) s).status ∧
      Quiet (m.run fun _ => []) (initialized (m.run fun _ => []) s).accesses := by
  refine ⟨fun i hi => ?_, fun _ _ => rfl⟩
  rw [(initialized_spec h.reports).2 i, if_neg (show ¬(i < 0 ∧ i ≠ m.myIndex) by omega)]
  exact if_pos hi

theorem osC001Entry_eq (hs : testNum ∉ m.gSkipTestNum) :
    osC001Entry m s =
      valCheckForError (m.run (payload m (fun _ => [], initialized (m.run fun _ => []) s)).1)
        (payload m (fun _ => [], initialized (m.run fun _ => []) s)).2 := by
  have hinit : valInitializeTest (m.run fun _ => []) { s with accesses := 0 } =
      (acsStatusPass, initialized (m.run fun _ => []) s) := if_neg hs
  simp only [osC001Entry, hinit]
  rfl

theorem osC001Entry_skip (hs : testNum ∈ m.gSkipTestNum) :
    osC001Entry m s =
      valCheckForError (m.run fun _ => []) (valSetStatus (m.run fun _ => []) m.myIndex (resultSkip testNum 0)
        (initialized (m.run fun _ => []) s)) := by
  have hinit : valInitializeTest (m.run fun _ => []) { s with accesses := 0 } =
      (acsStatusSkip, valSetStatus (m.run fun _ => []) m.myIndex (resultSkip testNum 0)
        (initialized (m.run fun _ => []) s)) := if_pos hs
  simp only [osC001Entry, hinit]
  rfl

-- A skip that the boot PE stores for itself is what the check finds.
theorem check_skipped (h : m.Sane) {w : Nat} (hw : isTestSkip w) (hc : Checked m 0 s.status) :
    isTestSkip (if m.numPe = 1 then (land (m.run fun _ => []) (valSetStatus (m.run fun _ => []) m.myIndex w s)).status m.myIndex
      else verdict m (fun _ => [], valSetStatus (m.run fun _ => []) m.myIndex w s)) := by
  have hq (k : Nat) : Quiet (m.run fun _ => []) k := fun _ _ => rfl
  have hset : valSetStatus (m.run fun _ => []) m.myIndex w s = later (reported s m.myIndex w) 1 := by
    rw [valSetStatus, land_quiet (hq _)]
    rfl
  rw [hset]
  split
  case isTrue => rwa [land_quiet (hq _), later_status, later_status, reported_self]
  case isFalse =>
    have hpos := h.myIndex
    have hself : (later (reported s m.myIndex w) 1).status m.myIndex = w := by simp
    have hfs : isTestFailSkip w := by simp [isTestFailSkip, hw]
    rw [verdict_quiet (hq _), scan_stop (Nat.zero_le m.myIndex) (by omega) (by rwa [hself]), hself]
    · exact hw
    · intro j _ hj
      rw [later_status, reported_of_ne (by omega)]
      exact hc.not_failSkip (by omega)

theorem valCheckForError_eq (lands : Nat → List (Nat × Nat)) (s : State) :
    ∃ s', valCheckForError (m.run lands) s =
      judge (if m.numPe = 1 then (land (m.run lands) s).status m.myIndex else verdict m (lands, s)) s' := by
  by_cases hn : m.numPe = 1
  · refine ⟨land (m.run lands) s, ?_⟩
    rw [if_pos hn, valCheckForError, if_pos (show (m.run lands).numPe = 1 from hn)]
    rfl
  · refine ⟨(checkLoop (m.run lands) m.numPe 0 0 s).2, ?_⟩
    rw [if_neg hn, valCheckForError, if_neg (show ¬(m.run lands).numPe = 1 from hn)]
    rfl

-- The verdict of the test, whatever the other PEs do.
theorem symmetry_verdict (h : m.Sane) (s : State) :
    ((osC001Entry m s).1 = acsStatusSkip ↔ testNum ∈ m.gSkipTestNum ∨ m.numPe = 1) ∧
    ((osC001Entry m s).1 = acsStatusPass ↔
      testNum ∉ m.gSkipTestNum ∧ m.myIndex + 1 ≠ m.numPe ∧ ∀ i < m.numPe, i ≠ m.myIndex → m.Passes i) := by
  have hmy := h.myIndex
  obtain ⟨hc, hq⟩ := checked_initialized h s
  by_cases hs : testNum ∈ m.gSkipTestNum
  case pos =>
    obtain ⟨s', he⟩ := valCheckForError_eq (m := m) (fun _ => []) (valSetStatus (m.run fun _ => []) m.myIndex
      (resultSkip testNum 0) (initialized (m.run fun _ => []) s))
    have hw := check_skipped h (w := resultSkip testNum 0) (by decide) hc
    rw [osC001Entry_skip hs, he, (judge_iff _ _).1, (judge_iff _ _).2]
    exact ⟨iff_of_true hw (.inl hs), iff_of_false (by simp [isTestSkip.not_pass hw]) fun hc => hc.1 hs⟩
  case neg =>
    obtain ⟨s', he⟩ := valCheckForError_eq (m := m) (payload m (fun _ => [], initialized (m.run fun _ => []) s)).1
      (payload m (fun _ => [], initialized (m.run fun _ => []) s)).2
    rw [osC001Entry_eq hs, he, (judge_iff _ _).1, (judge_iff _ _).2]
    by_cases hn : m.numPe = 1
    case pos =>
      have hp : payload m (fun _ => [], initialized (m.run fun _ => []) s) =
          (fun _ => [], valSetStatus (m.run fun _ => []) m.myIndex (resultSkip testNum 1)
            (initialized (m.run fun _ => []) s)) := if_pos hn
      have hw := check_skipped h (w := resultSkip testNum 1) (by decide) hc
      rw [hp]
      exact ⟨iff_of_true hw (.inr hn), iff_of_false (by simp [isTestSkip.not_pass hw]) fun hc => hc.2.1 (by omega)⟩
    case neg =>
      have hp : payload m (fun _ => [], initialized (m.run fun _ => []) s) =
          examineLoop m m.numPe 0 (fun _ => [], initialized (m.run fun _ => []) s) := if_neg hn
      obtain ⟨hvs, hvp⟩ := examineLoop_verdict h m.numPe (Nat.zero_add _) hc hq
      rw [if_neg hn, hp]
      refine ⟨iff_of_false (by simp [hvs]) (by simp [hs, hn]), hvp.trans ?_⟩
      simp [hs]

end Verdict

-- Two PEs with the same registers but ID_MMFR4_EL1, for which both reads return the number of the register.
def twins : Machine where
  numPe        := 2
  myIndex      := 0
  gSkipTestNum := []
  cpuOn _ _    := 0
  pe i         := ⟨fun reg => if reg = .idMmfr4El1 then BitVec.ofNat 64 i else 0x20, fun _ => 37, fun csselr => csselr, 0⟩
  delay _      := some 5

theorem twins_passes : twins.Passes 1 where
  started := by decide
  agrees  := ⟨by decide, by decide⟩
  timely  := ⟨5, rfl, .inl (by decide)⟩

theorem twins_pass : (osC001Entry twins booted).1 = acsStatusPass := by
  have h : twins.Sane := ⟨show (-9 : Int) ≤ 0 ∧ (0 : Int) ≤ 0 by decide, by decide, by decide⟩
  refine (symmetry_verdict h booted).2.mpr ⟨by decide, by decide, fun i hi hne => ?_⟩
  have hi : i < 2 := hi
  have hne : i ≠ 0 := hne
  obtain rfl : i = 1 := by omega
  exact twins_passes

end Symmetry
