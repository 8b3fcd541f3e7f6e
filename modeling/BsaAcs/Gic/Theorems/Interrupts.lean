import BsaAcs.Gic.Interrupts
import BsaAcs.Gic.Theorems.Driver

namespace Gic

variable {H : Type} {map : GicMap} {m : Machine} {table : List GicInfoEntry} {maxLpiId : Nat}

section LastIsr

variable {calls : List (Nat × H)} {intId id : Nat} {isr : H}

theorem lastIsr_append : lastIsr m table maxLpiId (calls ++ [(intId, isr)]) id =
    if intId = id ∧ isrAccepts m table maxLpiId intId = true then some isr else lastIsr m table maxLpiId calls id := by
  rw [lastIsr, List.foldl_append]
  rfl

theorem lastIsr_append_of_ne (hne : id ≠ intId) :
    lastIsr m table maxLpiId (calls ++ [(intId, isr)]) id = lastIsr m table maxLpiId calls id := by
  rw [lastIsr_append, if_neg fun h => hne h.left.symm]

theorem lastIsr_append_self (ha : isrAccepts m table maxLpiId intId = true) :
    lastIsr m table maxLpiId (calls ++ [(intId, isr)]) intId = some isr := by
  rw [lastIsr_append, if_pos ⟨rfl, ha⟩]

theorem lastIsr_append_of_refused (hr : isrAccepts m table maxLpiId intId ≠ true) :
    lastIsr m table maxLpiId (calls ++ [(intId, isr)]) id = lastIsr m table maxLpiId calls id := by
  rw [lastIsr_append, if_neg fun h => hr h.right]

theorem isSome_lastIsr_iff : (lastIsr m table maxLpiId calls id).isSome = true ↔
    ∃ isr, (id, isr) ∈ calls ∧ isrAccepts m table maxLpiId id = true := by
  induction calls using List.reverseRecOn
  case nil => exact iff_of_false Bool.false_ne_true fun h => by simp at h
  case append_singleton calls call hi =>
    obtain ⟨intId, isr⟩ := call
    rw [lastIsr_append]
    split
    case isTrue h =>
      obtain ⟨rfl, ha⟩ := h
      exact iff_of_true rfl ⟨isr, List.mem_append_right _ (List.mem_singleton_self _), ha⟩
    case isFalse h =>
      rw [hi]
      constructor
      · rintro ⟨isr', hm, ha⟩
        exact ⟨isr', List.mem_append_left _ hm, ha⟩
      · rintro ⟨isr', hm, ha⟩
        cases List.mem_append.mp hm
        case inl hm => exact ⟨isr', hm, ha⟩
        case inr hm =>
          obtain ⟨rfl, rfl⟩ := Prod.mk.inj (List.mem_singleton.mp hm)
          exact absurd ⟨rfl, ha⟩ h

end LastIsr

-- The interrupts that the GIC has and the driver reaches.
def Known (m : Machine) (table : List GicInfoEntry) (id : Nat) : Prop :=
  id < valGetMaxIntid m table ∧ Reached m table id

-- The interrupts that have an entry in the table of handlers, without the ids that no interrupt has.
def HasEntry (intId : Nat) : Prop :=
  intId < 1024 ∨ (lpiMinId ≤ intId ∧ intId < numArmMaxInterrupt)

section Source

variable {s : GicState} {intId : Nat} {enable : Bool}

theorem writeInterruptSource_cases (distributor redistributor : Nat) :
    writeInterruptSource distributor redistributor m table intId = [] ∨
      ∃ w, writeInterruptSource distributor redistributor m table intId = [w] := by
  rw [writeInterruptSource]
  split
  case isTrue => exact .inr ⟨_, rfl⟩
  case isFalse =>
    dsimp only
    split
    case isTrue  => exact .inl rfl
    case isFalse => exact .inr ⟨_, rfl⟩

theorem writeInterruptSource_nil {distributor redistributor : Nat}
    (h : writeInterruptSource distributor redistributor m table intId = []) : ¬Reached m table intId := by
  rw [writeInterruptSource] at h
  dsimp only at h
  split at h
  case isTrue => cases h
  case isFalse hs =>
    split at h
    case isFalse => cases h
    case isTrue hz =>
      intro hr
      cases hr
      case inl hr => exact hs (decide_eq_true hr)
      case inr hr => exact hr.right hz

theorem V3Map.write_source (h : V3Map map m table) (hi : HasEntry intId) {w : Nat × Nat}
    (hw : writeInterruptSource (GicState.sourceBank enable) (GicState.sourceBank enable) m table intId = [w]) :
    (gicBus map).write s w.1 w.2 =
      if Reached m table intId then { s with enabled := Function.update s.enabled intId enable } else s := by
  have he := h.source_eq (s := s) enable hi
  rw [hw] at he
  exact he

end Source

namespace Pe

variable {p p' : Pe H} {id intId : Nat} {isr : H} {installs : List (Nat × H)}

def enables (m : Machine) (table : List GicInfoEntry) (intId : Nat) : List IsrEffect :=
  (v3EnableInterruptSource m table intId).map fun (addr, value) => .enable addr value

-- An interrupt is enabled if it has been given a handler, which is then the last one.
structure Settled (m : Machine) (table : List GicInfoEntry) (maxLpiId : Nat) (calls : List (Nat × H)) (p : Pe H) (id : Nat) :
    Prop where
  enabled : p.gic.enabled id = true ↔ (lastIsr m table maxLpiId calls id).isSome = true
  handler : p.gIntrHandler id = lastIsr m table maxLpiId calls id

-- How far the last installation is. Only its own interrupt is unsettled.
inductive Phase (m : Machine) (table : List GicInfoEntry) (maxLpiId : Nat) (p : Pe H) : Prop
  | idle (effects : p.effects = []) (settled : ∀ id, Known m table id → Settled m table maxLpiId p.calls p id)
  | called (calls : List (Nat × H)) (intId : Nat) (isr : H) (last : p.calls = calls ++ [(intId, isr)])
      (accepts : isrAccepts m table maxLpiId intId = true) (effects : p.effects = valGicBsaInstallIsr m table intId)
      (settled : ∀ id, Known m table id → Settled m table maxLpiId calls p id)
  | disabled (calls : List (Nat × H)) (intId : Nat) (isr : H) (last : p.calls = calls ++ [(intId, isr)])
      (accepts : isrAccepts m table maxLpiId intId = true)
      (effects : p.effects = .handler intId :: enables m table intId)
      (settled : ∀ id, Known m table id → id ≠ intId → Settled m table maxLpiId calls p id)
      (masked : Known m table intId → p.gic.enabled intId = false)
  | stored (calls : List (Nat × H)) (intId : Nat) (isr : H) (last : p.calls = calls ++ [(intId, isr)])
      (accepts : isrAccepts m table maxLpiId intId = true)
      (effects : p.effects = enables m table intId) (busy : p.effects ≠ [])
      (settled : ∀ id, Known m table id → id ≠ intId → Settled m table maxLpiId calls p id)
      (masked : Known m table intId → p.gic.enabled intId = false) (handler : p.gIntrHandler intId = some isr)

theorem returned_idle (he : p.effects = []) : p.returned = p.calls :=
  if_pos he

theorem returned_busy {calls : List (Nat × H)} (he : p.effects ≠ []) (hc : p.calls = calls ++ [(intId, isr)]) :
    p.returned = calls := by
  rw [returned, if_neg he, hc, List.dropLast_concat]

-- Whatever is enabled has the last handler of the installations that have returned.
theorem Phase.settled_of_enabled (h : Phase m table maxLpiId p) (hk : Known m table id) (he : p.gic.enabled id = true) :
    Settled m table maxLpiId p.returned p id := by
  have hmasked {intId : Nat} (hm : Known m table intId → p.gic.enabled intId = false) : id ≠ intId := by
    rintro rfl
    rw [hm hk] at he
    exact Bool.false_ne_true he
  cases h
  case idle effects settled =>
    rw [returned_idle effects]
    exact settled id hk
  case called calls intId isr last accepts effects settled =>
    have hb : p.effects ≠ [] := by
      rw [effects, valGicBsaInstallIsr]
      simp
    rw [returned_busy hb last]
    exact settled id hk
  case disabled calls intId isr last accepts effects settled masked =>
    have hb : p.effects ≠ [] := by
      rw [effects]
      exact List.cons_ne_nil _ _
    rw [returned_busy hb last]
    exact settled id hk (hmasked masked)
  case stored calls intId isr last accepts effects busy settled masked handler =>
    rw [returned_busy busy last]
    exact settled id hk (hmasked masked)

theorem driver_cases (h : p.driver map m table maxLpiId = some p') :
    (∃ effect effects calls intId isr, p.effects = effect :: effects ∧ p.calls = calls ++ [(intId, isr)] ∧
      p' = doEffect map { p with effects := effects } isr effect) ∨
    ∃ intId isr todo, p.effects = [] ∧ p.todo = (intId, isr) :: todo ∧
      p' = { p with calls := p.calls ++ [(intId, isr)], effects := (valGicInstallIsr m table maxLpiId intId).2,
                    todo := todo } := by
  rw [driver] at h
  split at h
  case h_1 effect effects intId isr he hl =>
    obtain ⟨calls, hc⟩ := List.getLast?_eq_some_iff.mp hl
    exact .inl ⟨effect, effects, calls, intId, isr, he, hc, (Option.some.inj h).symm⟩
  case h_2 => cases h
  case h_3 intId isr todo he ht => exact .inr ⟨intId, isr, todo, he, ht, (Option.some.inj h).symm⟩
  case h_4 => cases h

-- An interrupt that is not that of the write is left as it was.
theorem Settled.write {calls : List (Nat × H)} {s : GicState} {enable : Bool} {effects : List IsrEffect}
    (h : Settled m table maxLpiId calls p id) (hne : id ≠ intId)
    (hs : s = if Reached m table intId then { p.gic with enabled := Function.update p.gic.enabled intId enable }
      else p.gic) :
    Settled m table maxLpiId calls { p with effects := effects, gic := s } id where
  enabled := by
    have he : s.enabled id = p.gic.enabled id := by
      rw [hs]
      split
      case isTrue  => exact Function.update_of_ne hne _ _
      case isFalse => rfl
    exact (iff_of_eq (congrArg (· = true) he)).trans h.enabled
  handler := h.handler

-- The handler of the interrupt of the last installation has been stored.
theorem Phase.of_stored {calls : List (Nat × H)} (hc : p.calls = calls ++ [(intId, isr)])
    (ha : isrAccepts m table maxLpiId intId = true) (he : p.effects = enables m table intId)
    (hs : ∀ id, Known m table id → id ≠ intId → Settled m table maxLpiId calls p id)
    (hm : Known m table intId → p.gic.enabled intId = false) (hh : p.gIntrHandler intId = some isr) :
    Phase m table maxLpiId p := by
  by_cases hb : p.effects = []
  case neg => exact .stored calls intId isr hc ha he hb hs hm hh
  case pos =>
    refine .idle hb fun id hk => ?_
    have hne : id ≠ intId := by
      rintro rfl
      exact writeInterruptSource_nil (List.map_eq_nil_iff.mp (he.symm.trans hb)) hk.right
    obtain ⟨henabled, hhandler⟩ := hs id hk hne
    rw [hc]
    exact ⟨by rw [lastIsr_append_of_ne hne]; exact henabled, by rw [lastIsr_append_of_ne hne]; exact hhandler⟩

-- The step that stores the handler.
theorem Phase.store {calls : List (Nat × H)} (hc : p.calls = calls ++ [(intId, isr)])
    (ha : isrAccepts m table maxLpiId intId = true)
    (hs : ∀ id, Known m table id → id ≠ intId → Settled m table maxLpiId calls p id)
    (hm : Known m table intId → p.gic.enabled intId = false) :
    Phase m table maxLpiId (doEffect map { p with effects := enables m table intId } isr (.handler intId)) := by
  refine .of_stored hc ha rfl (fun id hk hne => ⟨(hs id hk hne).enabled, ?_⟩) hm (Function.update_self _ _ _)
  exact (Function.update_of_ne hne _ _).trans (hs id hk hne).handler

theorem Phase.settled_of_idle (h : Phase m table maxLpiId p) (he : p.effects = []) (hk : Known m table id) :
    Settled m table maxLpiId p.calls p id := by
  cases h
  case idle effects settled => exact settled id hk
  case called calls intId isr last accepts effects settled =>
    rw [effects, valGicBsaInstallIsr] at he
    simp at he
  case disabled calls intId isr last accepts effects settled masked =>
    rw [effects] at he
    cases he
  case stored calls intId isr last accepts effects busy settled masked handler => exact absurd he busy

theorem Phase.call (h : Phase m table maxLpiId p) (he : p.effects = []) {todo : List (Nat × H)} :
    Phase m table maxLpiId { p with calls := p.calls ++ [(intId, isr)],
                                    effects := (valGicInstallIsr m table maxLpiId intId).2, todo := todo } := by
  have hs (id : Nat) (hk : Known m table id) : Settled m table maxLpiId p.calls p id := h.settled_of_idle he hk
  by_cases ha : isrAccepts m table maxLpiId intId = true
  case pos =>
    refine .called p.calls intId isr rfl ha ?_ fun id hk => ⟨(hs id hk).enabled, (hs id hk).handler⟩
    simp only [valGicInstallIsr, if_pos ha]
  case neg =>
    refine .idle ?_ fun id hk => ?_
    · simp only [valGicInstallIsr, if_neg ha]
    · have hl : lastIsr m table maxLpiId (p.calls ++ [(intId, isr)]) id = lastIsr m table maxLpiId p.calls id :=
        lastIsr_append_of_refused ha
      exact ⟨by rw [hl]; exact (hs id hk).enabled, by rw [hl]; exact (hs id hk).handler⟩

theorem enables_cases : enables m table intId = [] ∨ ∃ w, v3EnableInterruptSource m table intId = [w] := by
  obtain he | he := @writeInterruptSource_cases m table intId gicdIsenabler gicrIsenabler
  · exact .inl (List.map_eq_nil_iff.mpr he)
  · exact .inr he

-- One step of an installation.
theorem Phase.effect (hV : V3Map map m table) (hi : ∀ call ∈ p.calls, HasEntry call.1) (h : Phase m table maxLpiId p)
    {effect : IsrEffect} {effects : List IsrEffect} {calls' : List (Nat × H)} (he : p.effects = effect :: effects)
    (hc : p.calls = calls' ++ [(intId, isr)]) :
    Phase m table maxLpiId (doEffect map { p with effects := effects } isr effect) := by
  have hlast {calls : List (Nat × H)} {id : Nat} {isr₀ : H} (hl : p.calls = calls ++ [(id, isr₀)]) :
      calls = calls' ∧ id = intId ∧ isr₀ = isr := by
    obtain ⟨hcalls, hcall⟩ := List.append_inj' (hl.symm.trans hc) rfl
    have hcall' := Prod.mk.inj (List.singleton_inj.mp hcall)
    exact ⟨hcalls, hcall'.left, hcall'.right⟩
  have hentry : HasEntry intId := hi (intId, isr) (by rw [hc]; exact List.mem_append_right _ (List.mem_singleton_self _))
  cases h
  case idle hidle settled =>
    rw [hidle] at he
    cases he
  case called calls id isr₀ last accepts hfull settled =>
    obtain ⟨rfl, rfl, rfl⟩ := hlast last
    rw [hfull, valGicBsaInstallIsr] at he
    obtain hw | ⟨w, hw⟩ := @writeInterruptSource_cases m table id gicdIcenabler gicrIcenabler
    case inl =>
      rw [v3DisableInterruptSource, hw] at he
      obtain ⟨rfl, rfl⟩ := List.cons.inj he
      exact .store last accepts (fun id hk _ => settled id hk) fun hk => absurd hk.right (writeInterruptSource_nil hw)
    case inr =>
      rw [v3DisableInterruptSource, hw] at he
      obtain ⟨rfl, rfl⟩ := List.cons.inj he
      have hwrite := @V3Map.write_source map m table p.gic id false hV hentry w hw
      refine .disabled calls id isr₀ last accepts rfl (fun id' hk hne => ?_) fun hk => ?_
      · exact (settled id' hk).write hne hwrite
      · have hm : ((gicBus map).write p.gic w.1 w.2).enabled id = false := by
          rw [hwrite, if_pos hk.right]
          exact Function.update_self _ _ _
        exact hm
  case disabled calls id isr₀ last accepts hrest settled masked =>
    obtain ⟨rfl, rfl, rfl⟩ := hlast last
    rw [hrest] at he
    obtain ⟨rfl, rfl⟩ := List.cons.inj he
    exact .store last accepts settled masked
  case stored calls id isr₀ last accepts hrest busy settled masked handler =>
    obtain ⟨rfl, rfl, rfl⟩ := hlast last
    obtain hn | ⟨w, hw⟩ := @enables_cases m table id
    case inl => exact absurd (hrest.trans hn) busy
    case inr =>
      rw [hrest, enables, hw] at he
      obtain ⟨rfl, rfl⟩ := List.cons.inj he
      have hwrite := @V3Map.write_source map m table p.gic id true hV hentry w hw
      refine .idle rfl fun id' hk => ?_
      change Settled m table maxLpiId p.calls _ id'
      rw [last]
      by_cases hne : id' = id
      case pos =>
        subst hne
        have hm : ((gicBus map).write p.gic w.1 w.2).enabled id' = true := by
          rw [hwrite, if_pos hk.right]
          exact Function.update_self _ _ _
        exact ⟨by rw [lastIsr_append_self accepts]; exact iff_of_true hm rfl, by rw [lastIsr_append_self accepts]; exact handler⟩
      case neg =>
        obtain ⟨henabled, hhandler⟩ := @Settled.write _ _ _ _ p id' id calls _ true [] (settled id' hk hne) hne hwrite
        exact ⟨by rw [lastIsr_append_of_ne hne]; exact henabled, by rw [lastIsr_append_of_ne hne]; exact hhandler⟩

theorem Phase.driver (hV : V3Map map m table) (hi : ∀ call ∈ p.calls, HasEntry call.1) (h : Phase m table maxLpiId p)
    (hd : p.driver map m table maxLpiId = some p') : Phase m table maxLpiId p' := by
  obtain ⟨effect, effects, calls, intId, isr, he, hc, rfl⟩ | ⟨intId, isr, todo, he, _, rfl⟩ := driver_cases hd
  case inl => exact h.effect hV hi he hc
  case inr => exact h.call he

-- What holds of the installations and the interrupts in any order of the steps.
structure Inv (m : Machine) (table : List GicInfoEntry) (maxLpiId : Nat) (installs : List (Nat × H)) (p : Pe H) : Prop where
  split : p.calls ++ p.todo = installs
  phase : Phase m table maxLpiId p
  taken : ∀ t ∈ p.taken, Known m table t.iarAckVal → t.eoi = t.iarAckVal ∧
    ∃ isr, t.called = some isr ∧ lastIsr m table maxLpiId (installs.take t.returned) t.iarAckVal = some isr

theorem defaultIrqHandler_eq (hk : Known m table id) : defaultIrqHandler id = id := by
  have hmax : valGetMaxIntid m table ≤ 1024 := valGetMaxIntid_bounds.right
  have hid := hk.left
  have hmask : (0xFFFFFF : Nat) = 2 ^ 24 - 1 := rfl
  rw [defaultIrqHandler, hmask, Nat.and_two_pow_sub_one_eq_mod, Nat.mod_eq_of_lt (by omega)]

theorem doEffect_calls {effect : IsrEffect} : (doEffect map p isr effect).calls = p.calls := by
  cases effect <;> rfl

theorem doEffect_todo {effect : IsrEffect} : (doEffect map p isr effect).todo = p.todo := by
  cases effect <;> rfl

theorem doEffect_taken {effect : IsrEffect} : (doEffect map p isr effect).taken = p.taken := by
  cases effect <;> rfl

theorem take_returned (h : p.calls ++ p.todo = installs) : installs.take p.returned.length = p.returned := by
  rw [← h, returned]
  split
  case isTrue  => exact List.take_left
  case isFalse =>
    have hle : p.calls.dropLast.length ≤ p.calls.length := by
      rw [List.length_dropLast]
      omega
    rw [List.take_append_of_le_length hle, List.length_dropLast, ← List.dropLast_eq_take]

theorem Inv.driver (hV : V3Map map m table) (hi : ∀ call ∈ installs, HasEntry call.1)
    (h : Inv m table maxLpiId installs p) (hd : p.driver map m table maxLpiId = some p') :
    Inv m table maxLpiId installs p' := by
  have hcalls : ∀ call ∈ p.calls, HasEntry call.1 := by
    intro call hc
    exact hi call (by rw [← h.split]; exact List.mem_append_left _ hc)
  refine ⟨?split, h.phase.driver hV hcalls hd, ?taken⟩
  case split =>
    obtain ⟨effect, effects, calls, intId, isr, _, _, rfl⟩ | ⟨intId, isr, todo, _, ht, rfl⟩ := driver_cases hd
    case inl =>
      rw [doEffect_calls, doEffect_todo]
      exact h.split
    case inr =>
      rw [← h.split, ht]
      exact List.append_assoc _ _ _
  case taken =>
    obtain ⟨effect, effects, calls, intId, isr, _, _, rfl⟩ | ⟨intId, isr, todo, _, _, rfl⟩ := driver_cases hd
    case inl =>
      rw [doEffect_taken]
      exact h.taken
    case inr => exact h.taken

theorem Inv.defaultIrq (h : Inv m table maxLpiId installs p) (he : p.gic.enabled id = true) :
    Inv m table maxLpiId installs (p.defaultIrq id) := by
  refine ⟨h.split, ?phase, ?taken⟩
  case phase =>
    cases h.phase
    case idle effects settled => exact .idle effects fun id hk => ⟨(settled id hk).enabled, (settled id hk).handler⟩
    case called calls intId isr last accepts effects settled =>
      exact .called calls intId isr last accepts effects fun id hk => ⟨(settled id hk).enabled, (settled id hk).handler⟩
    case disabled calls intId isr last accepts effects settled masked =>
      exact .disabled calls intId isr last accepts effects
        (fun id hk hne => ⟨(settled id hk hne).enabled, (settled id hk hne).handler⟩) masked
    case stored calls intId isr last accepts effects busy settled masked handler =>
      exact .stored calls intId isr last accepts effects busy
        (fun id hk hne => ⟨(settled id hk hne).enabled, (settled id hk hne).handler⟩) masked handler
  case taken =>
    intro t ht hk
    cases List.mem_append.mp ht
    case inl ht => exact h.taken t ht hk
    case inr ht =>
      obtain rfl := List.mem_singleton.mp ht
      have hs := h.phase.settled_of_enabled hk he
      obtain ⟨isr, hl⟩ := Option.isSome_iff_exists.mp (hs.enabled.mp he)
      refine ⟨defaultIrqHandler_eq hk, isr, ?_, ?_⟩
      · dsimp only
        rw [defaultIrqHandler_eq hk, hs.handler, hl]
      · dsimp only
        rw [take_returned h.split, hl]

theorem Inv.reach (hV : V3Map map m table) (hi : ∀ call ∈ installs, HasEntry call.1) (h : Inv m table maxLpiId installs p)
    (hr : Reach map m table maxLpiId p p') : Inv m table maxLpiId installs p' := by
  induction hr
  case refl => exact h
  case step p₁ p₂ event _ hstep hp =>
    cases event
    case driver => exact hp.driver hV hi hstep
    case irq intId =>
      rw [step] at hstep
      split at hstep
      case isTrue he =>
        obtain rfl := Option.some.inj hstep
        exact hp.defaultIrq he
      case isFalse => cases hstep

theorem Inv.start {gic : GicState} (h : ∀ id, Known m table id → gic.enabled id = false) :
    Inv m table maxLpiId installs (start gic installs) where
  split := List.nil_append _
  phase := .idle rfl fun id hk => ⟨iff_of_false (fun hc => Bool.false_ne_true ((h id hk).symm.trans hc)) Bool.false_ne_true, rfl⟩
  taken := by
    intro t ht
    cases ht

-- The driver stops when all the installations have returned.
theorem Phase.idle_of_driver_eq_none (h : Phase m table maxLpiId p) (hd : p.driver map m table maxLpiId = none) :
    p.effects = [] ∧ p.todo = [] := by
  have hne {calls : List (Nat × H)} {call : Nat × H} (hl : p.calls = calls ++ [call]) : p.calls.getLast? ≠ none := by
    rw [hl, List.getLast?_concat]
    exact Option.some_ne_none _
  rw [Pe.driver] at hd
  split at hd
  case h_1 => cases hd
  case h_2 effect effects he hl =>
    cases h
    case idle hidle settled =>
      rw [hidle] at he
      cases he
    case called last _ _ _       => exact absurd hl (hne last)
    case disabled last _ _ _ _   => exact absurd hl (hne last)
    case stored last _ _ _ _ _ _ => exact absurd hl (hne last)
  case h_3 => cases hd
  case h_4 he ht => exact ⟨he, ht⟩

end Pe

theorem initialised_enabled {s : GicState} {id : Nat} (hk : Known m table id) : (initialised m table s).enabled id = false :=
  if_pos ⟨Nat.zero_le _, by have := hk.left; omega, hk.right⟩

-- However the steps of the installations and the interrupts are ordered after the initialisation: an interrupt that is
-- taken finds the last handler that was installed for it, which has then been installed completely, and is ended under
-- its own id. In the end exactly the interrupts that were installed are enabled.
theorem irq_calls_last_isr {s gic : GicState} {fuel : Nat} {installs : List (Nat × H)} {p : Pe H} (hV : V3Map map m table)
    (hb : ∀ id, s.priority id < 2 ^ 8) (hg : v3Init (gicBus map) m table fuel s = some gic)
    (hi : ∀ call ∈ installs, HasEntry call.1) (hr : Pe.Reach map m table maxLpiId (.start gic installs) p) :
    (∀ t ∈ p.taken, Known m table t.iarAckVal → t.eoi = t.iarAckVal ∧
      ∃ isr, t.called = some isr ∧ lastIsr m table maxLpiId (installs.take t.returned) t.iarAckVal = some isr) ∧
    (p.driver map m table maxLpiId = none → ∀ id, Known m table id →
      (p.gic.enabled id = true ↔ ∃ isr, (id, isr) ∈ installs ∧ isrAccepts m table maxLpiId id = true) ∧
      p.gIntrHandler id = lastIsr m table maxLpiId installs id) := by
  have hstart : ∀ id, Known m table id → gic.enabled id = false := by
    intro id hk
    rw [hV.v3Init_eq hb] at hg
    split at hg
    case isTrue =>
      obtain rfl := Option.some.inj hg
      exact initialised_enabled hk
    case isFalse => cases hg
  have hinv := (Pe.Inv.start hstart).reach hV hi hr
  refine ⟨hinv.taken, fun hd id hk => ?_⟩
  obtain ⟨he, ht⟩ := hinv.phase.idle_of_driver_eq_none hd
  have hs := hinv.phase.settled_of_idle he hk
  have hcalls : p.calls = installs := by
    rw [← hinv.split, ht, List.append_nil]
  rw [hcalls] at hs
  exact ⟨hs.enabled.trans isSome_lastIsr_iff, hs.handler⟩

theorem Pe.Reach.driver {p p₁ p₂ : Pe H} (h : Pe.Reach map m table maxLpiId p p₁)
    (hd : p₁.driver map m table maxLpiId = some p₂) : Pe.Reach map m table maxLpiId p p₂ :=
  @step _ _ _ _ _ _ _ _ .driver h hd

theorem Pe.Reach.irq {p p₁ : Pe H} {id : Nat} (h : Pe.Reach map m table maxLpiId p p₁) (he : p₁.gic.enabled id = true) :
    Pe.Reach map m table maxLpiId p (p₁.defaultIrq id) :=
  @step _ _ _ _ _ _ _ _ (.irq id) h (if_pos he)

-- One handler is installed, and then its interrupt is taken.
def smallPe : Pe Unit :=
  .start (initialised smallMachine smallTable asleepGic) [(40, ())]

theorem smallPe_reach : ∃ p, Pe.Reach smallMap smallMachine smallTable 0 smallPe p ∧ p.taken = [⟨40, some (), 40, 1⟩] := by
  have h₀ : Pe.Reach smallMap smallMachine smallTable 0 smallPe smallPe := .refl
  have h₁ := h₀.driver rfl
  have h₂ := h₁.driver rfl
  have h₃ := h₂.driver rfl
  have h₄ := h₃.driver rfl
  exact ⟨_, h₄.irq (by decide), rfl⟩

theorem small_irq_calls_isr : ∃ p, Pe.Reach smallMap smallMachine smallTable 0 smallPe p ∧ p.taken ≠ [] ∧
    ∀ t ∈ p.taken, Known smallMachine smallTable t.iarAckVal → t.called = some () := by
  obtain ⟨p, hr, ht⟩ := smallPe_reach
  have hg : v3Init (gicBus smallMap) smallMachine smallTable 3 asleepGic =
      some (initialised smallMachine smallTable asleepGic) := by
    rw [smallMap_v3Map.v3Init_eq fun _ => Nat.zero_lt_succ _, if_pos (.inr (by decide))]
  have hi : ∀ call ∈ [(40, ())], HasEntry call.1 := by
    intro call hc
    obtain rfl := List.mem_singleton.mp hc
    exact .inl (by decide)
  have h := irq_calls_last_isr smallMap_v3Map (fun _ => Nat.zero_lt_succ _) hg hi hr
  refine ⟨p, hr, by rw [ht]; exact List.cons_ne_nil _ _, fun t hm hk => ?_⟩
  obtain ⟨_, isr, hc, _⟩ := h.left t hm hk
  exact hc

end Gic
