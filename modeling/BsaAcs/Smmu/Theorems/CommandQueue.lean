import BsaAcs.Smmu.CommandQueue
import BsaAcs.Smmu.Theorems.Poll

namespace Smmu

namespace Queue

theorem indexMask_eq {q : Queue} {x : Nat} : x &&& q.indexMask = x % 2 ^ q.log2nent := by
  rw [indexMask, Nat.one_shiftLeft, Nat.and_two_pow_sub_one_eq_mod]

theorem incProd_eq {q : Queue} : q.incProd = (q.prod + 1) % (2 * 2 ^ q.log2nent) := by
  rw [incProd, Nat.one_shiftLeft, Nat.and_two_pow_sub_one_eq_mod, Nat.pow_succ']

theorem full_iff {q : Queue} : q.full ↔
    q.prod % 2 ^ q.log2nent = q.cons % 2 ^ q.log2nent ∧
      q.prod % (2 * 2 ^ q.log2nent) ≠ q.cons % (2 * 2 ^ q.log2nent) := by
  rw [← Nat.pow_succ', ne_eq, ← empty_iff, full, empty, Bool.and_eq_true, beq_iff_eq, indexMask_eq, indexMask_eq]
  refine and_congr_right fun h => ?_
  simp [h]

end Queue

namespace CommandQueue

-- The queue is not full when the driver, from its copy of the queue, takes it to have a free slot.
def Roomy (cmdq : CmdQueue) (s : State) : Event → Prop
  | .driver => ∀ cmd timeout, s.point = .waiting cmd timeout → (s.queue cmdq).full = false
  | _ => True

-- The commands that were taken, and those that are left, are the accepted ones, in their order. No store
-- goes to a slot with a command that is left, and there is no store while the queue is full.
structure Safe (cmdq : CmdQueue) (s : State) : Prop where
  exact   : s.consumed ++ s.pending cmdq = s.accepted
  drained : (s.queue cmdq).empty = true → s.consumed = s.accepted
  kept    : ∀ prod, s.point.target = some prod → ∀ k < s.held cmdq, slot cmdq (s.cons + k) ≠ slot cmdq prod
  full    : (s.queue cmdq).full = true → s.point.target = none

section

variable {cmdq : CmdQueue} {s s' : State}

theorem slot_eq {i : Nat} : slot cmdq i = cmdq.base + i % 2 ^ cmdq.queue.log2nent * 16 := by
  rw [slot, Queue.indexMask_eq]
  rfl

theorem slot_shown {p : Nat} : slot cmdq (p % (2 * 2 ^ cmdq.queue.log2nent)) = slot cmdq p := by
  rw [slot_eq, slot_eq, Ring.shown_index]

-- There is a free slot by the number of commands, and the call is as far as its point says.
def State.Free (cmdq : CmdQueue) (s : State) : Prop :=
  s.accepted.length < s.consumed.length + 2 ^ cmdq.queue.log2nent

def State.Reached (cmdq : CmdQueue) (s : State) : Point → Prop
  | .idle | .waiting _ _ => True
  | .reading _           => s.Free cmdq
  | .first _ prod        => prod = s.prod ∧ s.Free cmdq
  | .second cmd prod     => prod = s.prod ∧ s.Free cmdq ∧ s.mem (slot cmdq prod) = cmd.1
  | .advancing cmd prod  => prod = s.prod ∧ s.Free cmdq ∧ s.entry cmdq prod = cmd

-- What holds along a run: the registers show the numbers of commands, and the slots between them hold
-- the commands that are left.
structure State.Ok (cmdq : CmdQueue) (s : State) : Prop where
  prod    : s.prod = s.accepted.length % (2 * 2 ^ cmdq.queue.log2nent)
  cons    : s.cons = s.consumed.length % (2 * 2 ^ cmdq.queue.log2nent)
  le      : s.consumed.length ≤ s.accepted.length
  room    : s.accepted.length ≤ s.consumed.length + 2 ^ cmdq.queue.log2nent
  order   : s.consumed = s.accepted.take s.consumed.length
  entries : ∀ k (hk : k < s.accepted.length), s.consumed.length ≤ k → s.entry cmdq k = s.accepted[k]
  reached : s.Reached cmdq s.point

theorem State.Ok.start {mem : Memory} : (State.start mem).Ok cmdq where
  prod    := (Nat.zero_mod _).symm
  cons    := (Nat.zero_mod _).symm
  le      := le_rfl
  room    := Nat.zero_le _
  order   := rfl
  entries := fun _ hk => absurd hk (Nat.not_lt_zero _)
  reached := trivial

namespace State.Ok

variable (h : s.Ok cmdq)

include h

theorem held_eq : s.held cmdq = s.accepted.length - s.consumed.length := by
  rw [State.held, h.prod, h.cons, Ring.held_eq h.le h.room (Nat.two_pow_pos _)]

theorem empty_iff : (s.queue cmdq).empty = true ↔ s.accepted.length = s.consumed.length := by
  rw [Queue.empty_iff, State.queue, h.prod, h.cons, Nat.pow_succ', Nat.mod_mod, Nat.mod_mod,
    Ring.shown_eq_iff h.le h.room (Nat.two_pow_pos _)]

theorem full_iff : (s.queue cmdq).full = true ↔ s.accepted.length = s.consumed.length + 2 ^ cmdq.queue.log2nent := by
  rw [Queue.full_iff, State.queue, h.prod, h.cons, Nat.mod_mod, Nat.mod_mod, Ring.shown_index, Ring.shown_index,
    Ring.full_iff h.le h.room (Nat.two_pow_pos _)]

theorem free (hf : (s.queue cmdq).full = false) : s.Free cmdq := by
  have hn : ¬(s.queue cmdq).full = true := by simp [hf]
  rw [h.full_iff] at hn
  have := h.room
  rw [State.Free]
  omega

theorem entry_shown {k : Nat} : s.entry cmdq (s.cons + k) = s.entry cmdq (s.consumed.length + k) := by
  have hs : slot cmdq (s.cons + k) = slot cmdq (s.consumed.length + k) := by
    rw [← slot_shown, h.cons, Nat.mod_add_mod, slot_shown]
  rw [State.entry, State.entry, hs]

-- A store to the slot of PROD touches none of the commands that are left.
theorem slot_ne (hf : s.Free cmdq) {k : Nat} (hk : k < s.accepted.length) (hc : s.consumed.length ≤ k) :
    slot cmdq k ≠ slot cmdq s.prod := by
  have hne := Ring.index_ne hc hk hf
  rw [h.prod, slot_shown, slot_eq, slot_eq]
  omega

theorem entry_write (hf : s.Free cmdq) {off v : Nat} (ho : off = 0 ∨ off = 8) {k : Nat}
    (hk : k < s.accepted.length) (hc : s.consumed.length ≤ k) :
    (s.mem.write (slot cmdq s.prod + off) v (slot cmdq k), s.mem.write (slot cmdq s.prod + off) v (slot cmdq k + 8)) =
      s.accepted[k] := by
  have hne := h.slot_ne hf hk hc
  have he := h.entries k hk hc
  rw [slot_eq, slot_eq] at hne
  rw [← he, State.entry, Memory.write_ne (by rw [slot_eq, slot_eq]; omega),
    Memory.write_ne (by rw [slot_eq, slot_eq]; omega)]

theorem pending_eq : s.pending cmdq = s.accepted.drop s.consumed.length := by
  refine List.ext_getElem ?_ fun k h₁ h₂ => ?_
  · rw [State.pending, List.length_map, List.length_range, h.held_eq, List.length_drop]
  · rw [List.length_drop] at h₂
    simp only [State.pending, List.getElem_map, List.getElem_range, List.getElem_drop]
    rw [h.entry_shown, h.entries _ (by omega) (Nat.le_add_right ..)]

theorem safe : Safe cmdq s := by
  have free {prod : Nat} (ht : s.point.target = some prod) : prod = s.prod ∧ s.Free cmdq := by
    have hr := h.reached
    cases hp : s.point <;> simp only [hp, Point.target, reduceCtorEq, Option.some.injEq] at ht
    case first  => exact ht ▸ (hp ▸ hr : s.Reached cmdq (.first _ _))
    case second =>
      have ⟨hp, hf, _⟩ : s.Reached cmdq (.second _ _) := hp ▸ hr
      exact ht ▸ ⟨hp, hf⟩
  refine ⟨?_, ?_, ?_, ?_⟩
  · conv_lhs => rw [h.order]
    rw [h.pending_eq, List.take_append_drop]
  · intro he
    rw [h.empty_iff] at he
    rw [h.order, ← he, List.take_length]
  · intro prod ht k hk
    have ⟨hp, hf⟩ := free ht
    rw [h.held_eq] at hk
    rw [hp, ← slot_shown, h.cons, Nat.mod_add_mod, slot_shown]
    exact h.slot_ne hf (by omega) (Nat.le_add_right ..)
  · intro hf
    cases ht : s.point.target
    case none => rfl
    case some prod =>
      have hn := (free ht).2
      rw [State.Free, h.full_iff.mp hf] at hn
      exact absurd hn (Nat.lt_irrefl _)

theorem call {cmd : Command} : (call cmd s).Ok cmdq where
  prod    := h.prod
  cons    := h.cons
  le      := h.le
  room    := h.room
  order   := h.order
  entries := h.entries
  reached := trivial

theorem consume (he : (s.queue cmdq).empty = false) : (consume cmdq s).Ok cmdq := by
  have hlt : s.consumed.length < s.accepted.length := by
    have hn : ¬(s.queue cmdq).empty = true := by simp [he]
    rw [h.empty_iff] at hn
    have := h.le
    omega
  have hlen : (CommandQueue.consume cmdq s).consumed.length = s.consumed.length + 1 := List.length_append
  have hentry : s.entry cmdq s.cons = s.accepted[s.consumed.length] := by
    rw [← h.entries _ hlt le_rfl, ← Nat.add_zero s.cons, h.entry_shown, Nat.add_zero]
  refine ⟨h.prod, ?_, ?_, ?_, ?_, ?_, ?_⟩
  · rw [hlen, ← Ring.shown_succ, ← h.cons]
    exact Queue.incProd_eq
  · rw [hlen]
    exact hlt
  · rw [hlen]
    exact h.room.trans (by omega)
  · rw [hlen]
    simp only [CommandQueue.consume]
    rw [hentry, List.take_succ_eq_append_getElem hlt, ← h.order]
  · intro k hk hc
    exact h.entries k hk (by omega)
  · have hfree (hf : s.Free cmdq) : (CommandQueue.consume cmdq s).Free cmdq := by
      rw [State.Free, hlen]
      exact hf.trans (by omega)
    have hr := h.reached
    simp only [CommandQueue.consume]
    cases hp : s.point <;> simp only [hp, State.Reached] at hr ⊢
    case reading   => exact hfree hr
    case first     => exact ⟨hr.1, hfree hr.2⟩
    case second    => exact ⟨hr.1, hfree hr.2.1, hr.2.2⟩
    case advancing => exact ⟨hr.1, hfree hr.2.1, hr.2.2⟩

theorem prod_lt (hq : cmdq.queue.log2nent < 32) : s.prod < 2 ^ 32 := by
  rw [h.prod, ← Nat.pow_succ']
  exact (Nat.mod_lt _ (Nat.two_pow_pos _)).trans_le (Nat.pow_le_pow_right (by decide) (by omega))

-- By the place of the call.
theorem driver (hq : cmdq.queue.log2nent < 32) (hk : Roomy cmdq s .driver) : (driver cmdq s).Ok cmdq := by
  have hr := h.reached
  have stay {p : Point} (hp : s.Reached cmdq p) : ({ s with point := p } : State).Ok cmdq :=
    ⟨h.prod, h.cons, h.le, h.room, h.order, h.entries, by cases p <;> exact hp⟩
  unfold CommandQueue.driver
  cases hp : s.point
  case idle => exact h
  case waiting cmd timeout =>
    have hf : s.Free cmdq := h.free (hk cmd timeout hp)
    dsimp only
    split
    case isTrue => exact stay trivial
    case isFalse =>
      split
      case isTrue  => exact stay trivial
      case isFalse => exact stay hf
  case reading cmd =>
    rw [hp] at hr
    refine stay ⟨?_, hr⟩
    exact Nat.mod_eq_of_lt (h.prod_lt hq)
  case first cmd prod =>
    rw [hp] at hr
    have ⟨he, hf⟩ := hr
    subst he
    refine ⟨h.prod, h.cons, h.le, h.room, h.order, fun k hk hc => h.entry_write hf (.inl rfl) hk hc, rfl, hf, ?_⟩
    exact Memory.write_same
  case second cmd prod =>
    rw [hp] at hr
    have ⟨he, hf, h₁⟩ := hr
    subst he
    refine ⟨h.prod, h.cons, h.le, h.room, h.order, fun k hk hc => h.entry_write hf (.inr rfl) hk hc, rfl, hf, ?_⟩
    simp only [State.entry, Memory.write_same]
    rw [Memory.write_ne (by omega), h₁]
  case advancing cmd prod =>
    rw [hp] at hr
    have ⟨he, hf, h₁⟩ := hr
    subst he
    have hlen : (s.accepted ++ [cmd]).length = s.accepted.length + 1 := List.length_append
    refine ⟨?_, h.cons, ?_, ?_, ?_, ?_, trivial⟩
    · dsimp only
      rw [hlen, ← Ring.shown_succ, ← h.prod]
      exact Queue.incProd_eq
    · exact h.le.trans (hlen ▸ Nat.le_succ _)
    · exact hlen ▸ hf
    · dsimp only
      rw [List.take_append_of_le_length h.le]
      exact h.order
    · intro k hk hc
      dsimp only at hk hc ⊢
      rw [List.getElem_append]
      split
      case isTrue hlt => exact h.entries k hlt hc
      case isFalse hge =>
        have hlast : k = s.accepted.length := by omega
        have hs : slot cmdq k = slot cmdq s.prod := by rw [hlast, h.prod, slot_shown]
        simp only [hlast, Nat.sub_self, List.getElem_cons_zero]
        rw [← h₁, State.entry, State.entry, ← hs, hlast]

end State.Ok

theorem Step.ok {e : Event} (hq : cmdq.queue.log2nent < 32) (h : s.Ok cmdq) (hk : Roomy cmdq s e)
    (hs : Step cmdq s e s') : s'.Ok cmdq := by
  cases hs
  case call       => exact h.call
  case driver     => exact h.driver hq hk
  case consume he => exact h.consume he

-- A call between whose steps the SMMU does nothing.
def written (cmdq : CmdQueue) (cmd : Command) (s : State) : State :=
  { s with
    prod     := { cmdq.queue with prod := s.prod % 2 ^ 32 }.incProd
    mem      := (s.mem.write (slot cmdq (s.prod % 2 ^ 32)) cmd.1).write (slot cmdq (s.prod % 2 ^ 32) + 8) cmd.2
    point    := .idle
    accepted := s.accepted ++ [cmd] }

theorem driver_waiting {cmd : Command} : driver cmdq (call cmd s) = { s with point := .reading cmd } := by
  have hf : cmdq.queue.full = false := Queue.full_of_cleared cmdq.cleared
  have ht : smmuCmdqPollTimeout ≠ 0 := by decide
  simp [driver, call, hf, ht]

theorem driver_alone {cmd : Command} : (driver cmdq)^[5] (call cmd s) = written cmdq cmd s := by
  rw [show 5 = 4 + 1 from rfl, Function.iterate_add_apply, Function.iterate_one, driver_waiting]
  rfl

-- The steps of such a call do what `smmuCmdqWriteCmd` does.
theorem smmuCmdqWriteCmd_eq {pf : Platform} {smmuBase : Nat} {cmd : Command} {w : World}
    (hp : s.prod = pf.mmio w.reads) (hm : s.mem = w.heap.mem) :
    smmuCmdqWriteCmd pf smmuBase cmdq cmd w = (true,
      { w with
        heap  := { w.heap with mem := ((driver cmdq)^[5] (call cmd s)).mem }
        reads := w.reads + 1
        trace := .write (smmuBase + cmdqProdOffset) ((driver cmdq)^[5] (call cmd s)).prod ::
          .read (smmuBase + cmdqProdOffset) (s.prod % 2 ^ 32) :: w.trace }) := by
  have hn : waitNotFull cmdq.queue smmuCmdqPollTimeout ≠ 0 := by
    rw [waitNotFull_of_not_full (Queue.full_of_cleared cmdq.cleared)]
    decide
  rw [driver_alone, smmuCmdqWriteCmd, if_neg hn, written, hp, hm]
  rfl

section

variable {K : State → Event → Prop} {s₀ : State} {cmd : Command}

theorem Run.call (h : Run cmdq K s₀ s) (hk : K s (.call cmd)) (hi : s.point = .idle) :
    Run cmdq K s₀ (call cmd s) :=
  h.cons hk (.call hi)

theorem Run.driver (h : Run cmdq K s₀ s) (hk : K s .driver) (hi : s.point ≠ .idle) :
    Run cmdq K s₀ (driver cmdq s) :=
  h.cons hk (.driver hi)

theorem Run.consume (h : Run cmdq K s₀ s) (hk : K s .consume) (he : (s.queue cmdq).empty = false) :
    Run cmdq K s₀ (consume cmdq s) :=
  h.cons hk (.consume he)

theorem Run.write (h : Run cmdq K s₀ s) (hk : ∀ s e, K s e) (hi : s.point = .idle) :
    Run cmdq K s₀ (written cmdq cmd s) := by
  have h₁ : Run cmdq K s₀ (CommandQueue.call cmd s) := h.call (hk ..) hi
  have h₂ := h₁.driver (hk ..) (by simp [CommandQueue.call])
  rw [driver_waiting] at h₂
  have h₃ := h₂.driver (hk ..) (by simp)
  have h₄ := h₃.driver (hk ..) (by simp [CommandQueue.driver])
  have h₅ := h₄.driver (hk ..) (by simp [CommandQueue.driver])
  exact h₅.driver (hk ..) (by simp [CommandQueue.driver])

end

-- Over any queue that the register field for its size can describe and any interleaving.
theorem commands_consumed {mem : Memory} (hq : cmdq.queue.log2nent < 32)
    (h : Run cmdq (Roomy cmdq) (.start mem) s) : Safe cmdq s := by
  have hs : s.Ok cmdq := by
    induction h
    case nil            => exact .start
    case cons hk hs hi => exact hs.ok hq hi hk
  exact hs.safe

end

-- A queue of two entries, and the commands of `smmu_tlbi_cfgi`.
def twoEntries : CmdQueue :=
  ⟨⟨0, 0, 1⟩, 0x1000, 0x1040, 0x1040, queueBase 0x1040 1, ⟨rfl, rfl⟩⟩

def cfgiAll : Command := (cmdqOpCfgiAll, cmdqCfgi1AllStes)
def tlbiAll : Command := (cmdqOpTlbiNsnhAll, 0)
def cmdSync : Command := (cmdqOpCmdSync, 0)

-- The SMMU takes a command as soon as it is there.
theorem commands_consumed_one_by_one : ∃ s, Run twoEntries (Roomy twoEntries) (.start fun _ => 0) s ∧
    s.consumed = [cfgiAll] ∧ Safe twoEntries s := by
  have h₁ : Run twoEntries (Roomy twoEntries) (.start fun _ => 0) (call cfgiAll (.start fun _ => 0)) :=
    Run.nil.call trivial rfl
  have h₂ := h₁.driver (fun _ _ _ => by decide) (by decide)
  have h₃ := h₂.driver (fun _ _ hp => by cases hp) (by decide)
  have h₄ := h₃.driver (fun _ _ hp => by cases hp) (by decide)
  have h₅ := h₄.driver (fun _ _ hp => by cases hp) (by decide)
  have h₆ := h₅.driver (fun _ _ hp => by cases hp) (by decide)
  have h₇ := h₆.consume trivial (by decide)
  exact ⟨_, h₇, by decide, commands_consumed (by decide) h₇⟩

-- The SMMU takes no command until all three are written. The first one is lost.
theorem command_overwritten : ∃ s, Run twoEntries (fun _ _ => True) (.start fun _ => 0) s ∧
    s.accepted = [cfgiAll, tlbiAll, cmdSync] ∧ s.consumed = [cmdSync, tlbiAll, cmdSync] ∧ ¬Safe twoEntries s := by
  have any (s : State) (e : Event) : (fun _ _ => True : State → Event → Prop) s e := trivial
  have h₁ : Run twoEntries (fun _ _ => True) (.start fun _ => 0) (written twoEntries cfgiAll (.start fun _ => 0)) :=
    Run.nil.write any rfl
  have h₂ : Run twoEntries (fun _ _ => True) _ (written twoEntries tlbiAll _) := h₁.write any rfl
  have h₃ : Run twoEntries (fun _ _ => True) _ (written twoEntries cmdSync _) := h₂.write any rfl
  have h₄ := h₃.consume trivial (by decide)
  have h₅ := h₄.consume trivial (by decide)
  have h₆ := h₅.consume trivial (by decide)
  refine ⟨_, h₆, by decide, by decide, fun hs => ?_⟩
  exact absurd (hs.drained (by decide)) (by decide)

end CommandQueue
end Smmu
