import BsaAcs.Smmu.Device
import BsaAcs.Smmu.Theorems.Poll

namespace Smmu

namespace World

variable {w w' w₁ w₂ : World} {l l₁ l₂ : List Access}

-- Between `w` and `w'` the registers were accessed as in `l`, in this order.
def Did (w w' : World) (l : List Access) : Prop :=
  w'.trace = l.reverse ++ w.trace

theorem Did.refl : w.Did w [] := rfl

theorem Did.trans (h₁ : w.Did w₁ l₁) (h₂ : w₁.Did w₂ l₂) : w.Did w₂ (l₁ ++ l₂) := by
  rw [Did] at h₁ h₂ ⊢
  rw [h₂, h₁, List.reverse_append, List.append_assoc]

theorem Did.of_trace_eq (h : w'.trace = w.trace) : w.Did w' [] := h

theorem did_read {pf : Platform} {address : Nat} :
    w.Did (w.valMmioRead pf address).2 [.read address (pf.answer w.reads)] := rfl

theorem did_write {address value : Nat} : w.Did (w.valMmioWrite address value) [.write address value] := rfl

theorem Did.cons_trans {a : Access} (h₁ : w.Did w₁ [a]) (h₂ : w₁.Did w₂ l) : w.Did w₂ (a :: l) :=
  h₁.trans h₂

end World

-- Every write of CR0 in `l` is followed by another access than a read of CR0ACK with another value,
-- before the timeout is over.
def Timely (base : Nat) (l : List Access) : Prop :=
  ∀ l₁ val l₂, l = l₁ ++ .write (base + cr0Offset) val :: l₂ →
    ∃ a ∈ l₂.take smmuRegTimeout, ∀ v, a = .read (base + cr0ackOffset) v → v = val

-- Some write of CR0 in `l` is followed by as many reads of CR0ACK as the timeout allows, and none of
-- them returns the value written.
def TimedOut (base : Nat) (l : List Access) : Prop :=
  ∃ l₁ val acks l₂, l = l₁ ++ .write (base + cr0Offset) val :: (acks ++ l₂) ∧ acks.length = smmuRegTimeout ∧
    ∀ a ∈ acks, ∃ v, a = .read (base + cr0ackOffset) v ∧ v ≠ val

section

variable {base : Nat} {l l₁ l₂ : List Access}

theorem Timely.not_timedOut (h : Timely base l) : ¬TimedOut base l := by
  intro ⟨l₁, val, acks, l₂, hl, hn, ha⟩
  have ⟨a, hm, hv⟩ := h _ _ _ hl
  rw [← hn, List.take_left] at hm
  have ⟨v, he, hne⟩ := ha a hm
  exact hne $ hv v he

theorem Timely.append (h₁ : Timely base l₁) (h₂ : Timely base l₂) : Timely base (l₁ ++ l₂) := by
  intro k₁ val k₂ h
  rcases List.append_eq_append_iff.mp h with ⟨m, _, hm⟩ | ⟨m, hm, hk⟩
  case inl => exact h₂ _ _ _ hm
  case inr =>
    cases m
    case nil => exact h₂ [] _ _ hk.symm
    case cons a m =>
      rw [List.cons_append, List.cons.injEq] at hk
      have ⟨ha, hl⟩ := hk
      rw [← ha] at hm
      have ⟨b, hb, hv⟩ := h₁ _ _ _ hm
      refine ⟨b, ?_, hv⟩
      rw [hl, List.take_append]
      exact List.mem_append_left _ hb

theorem Timely.of_no_write (h : ∀ val, .write (base + cr0Offset) val ∉ l) : Timely base l := by
  intro l₁ val l₂ hl
  refine absurd ?_ (h val)
  rw [hl]
  exact List.mem_append_right _ (List.mem_cons_self ..)

theorem TimedOut.append (h : TimedOut base l₂) : TimedOut base (l₁ ++ l₂) := by
  have ⟨k₁, val, acks, k₂, hl, hn, ha⟩ := h
  exact ⟨l₁ ++ k₁, val, acks, k₂, by rw [hl, List.append_assoc], hn, ha⟩

end

-- The number of reads after the one that acknowledges `val`, if that is one of the next `timeout`
-- reads from the `n`-th on.
def ackAfter (pf : Platform) (val : Nat) : Nat → Nat → Option Nat
  | 0, _ => none
  | timeout + 1, n => if pf.answer n = val then some (n + 1) else ackAfter pf val timeout (n + 1)

section

variable {pf : Platform} {smmu : SmmuDev} {val ackOff : Nat}

variable (smmu ackOff) in
theorem waitAck_some {timeout n : Nat} {w : World} (h : ackAfter pf val timeout w.reads = some n) :
    ∃ w', waitAck pf smmu val ackOff timeout w = (true, w') ∧ w'.reads = n ∧ ∃ acks,
      w.Did w' (acks ++ [.read (smmu.base + ackOff) val]) ∧ acks.length < timeout ∧
      ∀ a ∈ acks, ∃ v, a = .read (smmu.base + ackOff) v ∧ v ≠ val := by
  induction timeout generalizing w
  case zero => cases h
  case succ timeout hi =>
    rw [ackAfter] at h
    split at h
    case isTrue he =>
      cases h
      refine ⟨(w.valMmioRead pf (smmu.base + ackOff)).2, ?_, rfl, [], ?_, Nat.succ_pos _, by simp⟩
      · rw [waitAck]
        exact if_pos he
      · rw [← he]
        exact World.did_read
    case isFalse he =>
      have ⟨w', h₁, h₂, acks, h₃, h₄, h₅⟩ := hi (w := (w.valMmioRead pf (smmu.base + ackOff)).2) h
      refine ⟨w', ?_, h₂, _ :: acks, World.did_read.cons_trans h₃, Nat.succ_lt_succ h₄, ?_⟩
      · rw [waitAck]
        exact (if_neg he).trans h₁
      · simp only [List.mem_cons, forall_eq_or_imp]
        exact ⟨⟨_, rfl, he⟩, h₅⟩

variable (smmu ackOff) in
theorem waitAck_none {timeout : Nat} {w : World} (h : ackAfter pf val timeout w.reads = none) :
    ∃ w', waitAck pf smmu val ackOff timeout w = (false, w') ∧ ∃ acks, w.Did w' acks ∧ acks.length = timeout ∧
      ∀ a ∈ acks, ∃ v, a = .read (smmu.base + ackOff) v ∧ v ≠ val := by
  induction timeout generalizing w
  case zero => exact ⟨w, rfl, [], .refl, rfl, by simp⟩
  case succ timeout hi =>
    rw [ackAfter] at h
    split at h
    case isTrue he => cases h
    case isFalse he =>
      have ⟨w', h₁, acks, h₃, h₄, h₅⟩ := hi (w := (w.valMmioRead pf (smmu.base + ackOff)).2) h
      refine ⟨w', ?_, _ :: acks, World.did_read.cons_trans h₃, congrArg Nat.succ h₄, ?_⟩
      · rw [waitAck]
        exact (if_neg he).trans h₁
      · simp only [List.mem_cons, forall_eq_or_imp]
        exact ⟨⟨_, rfl, he⟩, h₅⟩

variable (smmu) in
-- A handshake that is acknowledged.
theorem regWriteSync_some {n : Nat} {w : World} (h : ackAfter pf val smmuRegTimeout w.reads = some n) :
    ∃ w', smmuRegWriteSync pf smmu val cr0Offset cr0ackOffset w = (0, w') ∧ w'.reads = n ∧ ∃ l,
      w.Did w' l ∧ Timely smmu.base l ∧ lastWrite (smmu.base + cr0Offset) l.reverse = some val ∧
      lastRead (smmu.base + cr0ackOffset) l.reverse = some val := by
  obtain ⟨w', h₁, h₂, acks, h₃, h₄, h₅⟩ := waitAck_some smmu cr0ackOffset
    (w := w.valMmioWrite (smmu.base + cr0Offset) val) h
  have hw : ∀ v, .write (smmu.base + cr0Offset) v ∉ acks ++ [.read (smmu.base + cr0ackOffset) val] := by
    intro v hv
    rcases List.mem_append.mp hv with hv | hv
    case inl =>
      obtain ⟨_, he, _⟩ := h₅ _ hv
      cases he
    case inr => simp at hv
  refine ⟨w', ?_, h₂, _, World.did_write.cons_trans h₃, ?_, ?_, ?_⟩
  · rw [smmuRegWriteSync, h₁]
  · intro l₁ v l₂ hl
    cases l₁
    case nil =>
      rw [List.nil_append, List.cons.injEq] at hl
      cases hl.1
      refine ⟨.read (smmu.base + cr0ackOffset) val, ?_, fun _ hv => by cases hv; rfl⟩
      rw [← hl.2, List.take_of_length_le]
      · exact List.mem_append_right _ (List.mem_singleton_self _)
      · rw [List.length_append, List.length_singleton]
        exact h₄
    case cons a l₁ =>
      rw [List.cons_append, List.cons.injEq] at hl
      refine absurd ?_ (hw v)
      rw [hl.2]
      exact List.mem_append_right _ (List.mem_cons_self ..)
  · rw [List.reverse_cons, List.reverse_append, lastWrite, List.findSome?_append, List.findSome?_append]
    have hn : acks.reverse.findSome? (Access.writeOf (smmu.base + cr0Offset)) = none := by
      rw [List.findSome?_eq_none_iff]
      intro a ha
      obtain ⟨v, he, _⟩ := h₅ a (List.mem_reverse.mp ha)
      rw [he]
      rfl
    rw [hn]
    simp [Access.writeOf]
  · rw [List.reverse_cons, List.reverse_append]
    simp

variable (smmu) in
-- A handshake that times out.
theorem regWriteSync_none {w : World} (h : ackAfter pf val smmuRegTimeout w.reads = none) :
    ∃ w', smmuRegWriteSync pf smmu val cr0Offset cr0ackOffset w = (1, w') ∧ ∃ l, w.Did w' l ∧ TimedOut smmu.base l := by
  have ⟨w', h₁, acks, h₃, h₄, h₅⟩ := waitAck_none smmu cr0ackOffset
    (w := w.valMmioWrite (smmu.base + cr0Offset) val) h
  refine ⟨w', ?_, _, World.did_write.cons_trans h₃, [], val, acks, [], ?_, h₄, h₅⟩
  · rw [smmuRegWriteSync, h₁]
  · rw [List.append_nil, List.nil_append]

-- What happens outside the handshakes does not write CR0.
def QuietOn (base : Nat) (l : List Access) : Prop :=
  ∀ val, .write (base + cr0Offset) val ∉ l

theorem QuietOn.append {base : Nat} {l₁ l₂ : List Access} (h₁ : QuietOn base l₁) (h₂ : QuietOn base l₂) :
    QuietOn base (l₁ ++ l₂) := by
  intro val h
  exact (List.mem_append.mp h).elim (h₁ val) (h₂ val)

variable (smmu) in
theorem resetRegisters_did (w : World) : ∃ l, w.Did (resetRegisters smmu w) l ∧ QuietOn smmu.base l := by
  refine ⟨[_, _, _, _, _, _, _], rfl, ?_⟩
  intro val h
  simp [cr0Offset, cr1Offset, cr2Offset, strtabBaseOffset, strtabBaseCfgOffset, cmdqBaseOffset, cmdqProdOffset,
    cmdqConsOffset] at h

def Access.address : Access → Nat
  | .read address _  => address
  | .write address _ => address

theorem QuietOn.of_queue {base : Nat} {l : List Access}
    (h : ∀ a ∈ l, a.address = base + cmdqProdOffset ∨ a.address = base + cmdqConsOffset) : QuietOn base l := by
  intro val hm
  have ha := h _ hm
  simp [Access.address, cr0Offset, cmdqProdOffset, cmdqConsOffset] at ha

variable (pf) in
theorem issueAll_did (base : Nat) (cmdq : CmdQueue) {opcodes : List Nat} {w : World}
    (ho : ∀ o ∈ opcodes, (smmuCmdqBuildCmd o).isSome) :
    ∃ l, w.Did (opcodes.foldl (fun w opcode => (smmuCmdqIssueCmd pf base cmdq opcode w).2) w) l ∧
      ∀ a ∈ l, a.address = base + cmdqProdOffset := by
  induction opcodes generalizing w
  case nil => exact ⟨[], .refl, by simp⟩
  case cons o os hi =>
    have hh := ho o (List.mem_cons_self ..)
    have ⟨l, h₁, h₂⟩ := hi (w := (smmuCmdqIssueCmd pf base cmdq o w).2) (fun p hp => ho p (List.mem_cons_of_mem _ hp))
    have hd : w.Did (smmuCmdqIssueCmd pf base cmdq o w).2
        [.read (base + cmdqProdOffset) (pf.answer w.reads),
          .write (base + cmdqProdOffset) { cmdq.queue with prod := pf.answer w.reads }.incProd] :=
      issue_trace hh
    refine ⟨_, hd.trans h₁, ?_⟩
    simp only [List.mem_append, List.mem_cons, List.not_mem_nil, or_false]
    rintro a ((rfl | rfl) | ha)
    case inl.inl => rfl
    case inl.inr => rfl
    case inr     => exact h₂ a ha

variable (pf) in
theorem readCons_did (base i : Nat) (w : World) :
    ∃ l, w.Did (w.readCons pf base i) l ∧ ∀ a ∈ l, a.address = base + cmdqConsOffset := by
  induction i generalizing w
  case zero => exact ⟨[], .refl, by simp⟩
  case succ i hi =>
    have ⟨l, h₁, h₂⟩ := hi (w.valMmioRead pf (base + cmdqConsOffset)).2
    refine ⟨_, World.did_read.trans h₁, ?_⟩
    simp only [List.mem_append, List.mem_cons, List.not_mem_nil, or_false]
    rintro a (rfl | ha)
    case inl => rfl
    case inr => exact h₂ a ha

-- An invalidation accesses no registers but those of the command queue.
theorem tlbiCfgi_did {base fuel : Nat} {cmdq : CmdQueue} {hyp timedOut : Bool} {w w' : World}
    (h : smmuTlbiCfgi pf base cmdq hyp fuel w = some (timedOut, w')) :
    ∃ l, w.Did w' l ∧ ∀ a ∈ l, a.address = base + cmdqProdOffset ∨ a.address = base + cmdqConsOffset := by
  have ⟨_, i, hw, _⟩ := tlbiCfgi_some h
  have ho : ∀ o ∈ invalidation hyp, (smmuCmdqBuildCmd o).isSome := fun _ => buildCmd_invalidation
  have ⟨l₁, h₁, a₁⟩ := issueAll_did pf base cmdq (w := w) ho
  have ⟨l₂, h₂, a₂⟩ := readCons_did pf base i (w.waiting pf base cmdq hyp)
  rw [hw]
  refine ⟨_, ((h₁.trans World.did_read).trans World.did_read).trans h₂, ?_⟩
  simp only [List.mem_append, List.mem_cons, List.not_mem_nil, or_false]
  rintro a (((ha | rfl) | rfl) | ha)
  case inl.inl.inl => exact .inl (a₁ a ha)
  case inl.inl.inr => exact .inl rfl
  case inl.inr     => exact .inr rfl
  case inr         => exact .inr (a₂ a ha)

-- Each of the three handshakes is acknowledged in time, if the first of them starts with the `n`-th
-- read. Between the second and the third one, the command queue is used: there is one read for each
-- command, one of PROD, and those of CONS until the queue is empty.
def Handshakes (pf : Platform) (smmu : SmmuDev) (n : Nat) : Prop :=
  ∃ n₁ n₂, ackAfter pf 0 smmuRegTimeout n = some n₁ ∧ ackAfter pf cr0Cmdqen smmuRegTimeout n₁ = some n₂ ∧
    let m := n₂ + (invalidation smmu.supported.hyp).length
    ∀ i, Queue.Drained pf ⟨pf.answer m, 0, smmu.cmdq.queue.log2nent⟩ (m + 1) i →
      (ackAfter pf (cr0Cmdqen ||| cr0Smmuen) smmuRegTimeout (m + 2 + i)).isSome

-- What a reset that returns can have done.
theorem reset_cases {fuel ret : Nat} {w w' : World} (h : smmuReset pf smmu fuel w = some (ret, w')) :
    ret = 1 ∧ ∃ l, w.Did w' l ∧
      (¬Handshakes pf smmu w.reads ∧ TimedOut smmu.base l ∨
        Handshakes pf smmu w.reads ∧ Timely smmu.base l ∧
          lastWrite (smmu.base + cr0Offset) l.reverse = some (cr0Cmdqen ||| cr0Smmuen) ∧
          lastRead (smmu.base + cr0ackOffset) l.reverse = some (cr0Cmdqen ||| cr0Smmuen)) := by
  rw [smmuReset] at h
  cases ha₁ : ackAfter pf 0 smmuRegTimeout w.reads
  case none =>
    obtain ⟨w₁, h₁, l₁, d₁, t₁⟩ := regWriteSync_none smmu ha₁
    rw [h₁] at h
    cases h
    refine ⟨rfl, l₁, d₁, .inl ⟨?_, t₁⟩⟩
    rintro ⟨_, _, hc, _⟩
    cases ha₁.symm.trans hc
  case some n₁ =>
    obtain ⟨w₁, h₁, r₁, l₁, d₁, t₁, _⟩ := regWriteSync_some smmu ha₁
    obtain ⟨lr, dr, qr⟩ := resetRegisters_did smmu w₁
    rw [h₁] at h
    simp only at h
    have hr : (resetRegisters smmu w₁).reads = n₁ := r₁
    cases ha₂ : ackAfter pf cr0Cmdqen smmuRegTimeout n₁
    case none =>
      obtain ⟨w₂, h₂, l₂, d₂, t₂⟩ := regWriteSync_none smmu (hr ▸ ha₂)
      rw [h₂] at h
      cases h
      refine ⟨rfl, _, (d₁.trans dr).trans d₂, .inl ⟨?_, t₂.append⟩⟩
      rintro ⟨_, _, hc, hd, _⟩
      cases ha₁.symm.trans hc
      cases ha₂.symm.trans hd
    case some n₂ =>
      obtain ⟨w₂, h₂, r₂, l₂, d₂, t₂, _⟩ := regWriteSync_some smmu (hr ▸ ha₂)
      rw [h₂] at h
      simp only at h
      split at h
      case h_1 => cases h
      case h_2 timedOut w₃ ht =>
        obtain ⟨l₃, d₃, a₃⟩ := tlbiCfgi_did ht
        obtain ⟨_, i, hw, hd⟩ := tlbiCfgi_some ht
        have r₃ : w₃.reads = n₂ + (invalidation smmu.supported.hyp).length + 2 + i := by
          rw [hw, World.readCons_reads, waiting_reads, sampleRead, r₂]
        rw [sampled, sampleRead, r₂] at hd
        cases ha₃ : ackAfter pf (cr0Cmdqen ||| cr0Smmuen) smmuRegTimeout w₃.reads
        case none =>
          obtain ⟨w₄, h₄, l₄, d₄, t₄⟩ := regWriteSync_none smmu ha₃
          rw [h₄] at h
          cases h
          refine ⟨rfl, _, (((d₁.trans dr).trans d₂).trans d₃).trans d₄, .inl ⟨?_, t₄.append⟩⟩
          rintro ⟨_, _, hc, he, hs⟩
          cases ha₁.symm.trans hc
          cases ha₂.symm.trans he
          have hs := hs i hd
          rw [← r₃, ha₃] at hs
          cases hs
        case some n₃ =>
          obtain ⟨w₄, h₄, _, l₄, d₄, t₄, lw, lr⟩ := regWriteSync_some smmu ha₃
          rw [h₄] at h
          cases h
          refine ⟨rfl, _, (((d₁.trans dr).trans d₂).trans d₃).trans d₄, .inr ⟨⟨n₁, n₂, ha₁, ha₂, ?_⟩, ?_, ?_, ?_⟩⟩
          · intro m j hj
            cases hj.unique hd
            rw [← r₃, ha₃]
            rfl
          · exact (((t₁.append (.of_no_write qr)).append t₂).append (.of_no_write (QuietOn.of_queue a₃))).append t₄
          · exact lastWrite_append lw
          · exact lastRead_append lr

theorem abortStes_trace {ste n : Nat} {w : World} : (abortStes ste n w).trace = w.trace := by
  induction n generalizing ste w
  case zero      => rfl
  case succ n hi => exact hi

theorem emptyL1_trace {strtab n : Nat} {w : World} : (emptyL1 strtab n w).trace = w.trace := by
  induction n generalizing strtab w
  case zero      => rfl
  case succ n hi => exact hi

-- The steps before the reset keep the base address, and only read registers.
structure Prepares (smmu smmu' : SmmuDev) (w w' : World) : Prop where
  base_eq : smmu'.base = smmu.base
  reads   : ∃ l, w.Did w' l ∧ ∀ base, QuietOn base l

theorem Prepares.of_trace_eq {smmu' : SmmuDev} {w w' : World} (hb : smmu'.base = smmu.base) (ht : w'.trace = w.trace) :
    Prepares smmu smmu' w w' :=
  ⟨hb, [], .of_trace_eq ht, by simp [QuietOn]⟩

theorem Prepares.trans {smmu₁ smmu₂ : SmmuDev} {w w₁ w₂ : World} (h₁ : Prepares smmu smmu₁ w w₁)
    (h₂ : Prepares smmu₁ smmu₂ w₁ w₂) : Prepares smmu smmu₂ w w₂ := by
  have ⟨l₁, d₁, q₁⟩ := h₁.reads
  have ⟨l₂, d₂, q₂⟩ := h₂.reads
  exact ⟨h₂.base_eq.trans h₁.base_eq, _, d₁.trans d₂, fun base => (q₁ base).append (q₂ base)⟩

theorem Prepares.read {smmu' : SmmuDev} {address : Nat} {w : World} (hb : smmu'.base = smmu.base) :
    Prepares smmu smmu' w (w.valMmioRead pf address).2 :=
  ⟨hb, _, World.did_read, by simp [QuietOn]⟩

-- A probe leaves the fields alone that the other steps of the initialisation set.
structure Probed (smmu smmu' : SmmuDev) : Prop where
  base_eq   : smmu'.base = smmu.base
  basePtr   : smmu'.cmdq.basePtr = smmu.cmdq.basePtr
  strtabCfg : smmu'.strtabCfg = smmu.strtabCfg

theorem Probed.trans {smmu₁ smmu₂ : SmmuDev} (h₁ : Probed smmu smmu₁) (h₂ : Probed smmu₁ smmu₂) : Probed smmu smmu₂ :=
  ⟨h₂.base_eq.trans h₁.base_eq, h₂.basePtr.trans h₁.basePtr, h₂.strtabCfg.trans h₁.strtabCfg⟩

theorem probeIdr0_probed {data : Nat} {ok : Bool} {smmu' : SmmuDev} (h : probeIdr0 smmu data = (ok, smmu')) :
    Probed smmu smmu' := by
  simp only [probeIdr0] at h
  split at h
  case isTrue => cases h; exact ⟨rfl, rfl, rfl⟩
  case isFalse =>
    split at h
    case isTrue  => cases h; exact ⟨rfl, rfl, rfl⟩
    case isFalse => split at h <;> cases h <;> exact ⟨rfl, rfl, rfl⟩

theorem probeIdr1_probed {data : Nat} {ok : Bool} {smmu' : SmmuDev} (h : probeIdr1 smmu data = (ok, smmu')) :
    Probed smmu smmu' := by
  simp only [probeIdr1] at h
  split at h <;> cases h <;> exact ⟨rfl, rfl, rfl⟩

theorem probeIdr5_probed {data : Nat} : Probed smmu (probeIdr5 smmu data).2 := by
  simp only [probeIdr5]
  split <;> exact ⟨rfl, rfl, rfl⟩

theorem probe_probed {ok : Bool} {smmu' : SmmuDev} {w w' : World} (h : smmuProbe pf smmu w = (ok, smmu', w')) :
    Probed smmu smmu' := by
  simp only [smmuProbe] at h
  split at h
  case h_1 h₀ =>
    cases h
    exact probeIdr0_probed h₀
  case h_2 h₀ =>
    split at h
    case h_1 h₁ =>
      cases h
      exact (probeIdr0_probed h₀).trans (probeIdr1_probed h₁)
    case h_2 h₁ =>
      cases h
      exact ((probeIdr0_probed h₀).trans (probeIdr1_probed h₁)).trans probeIdr5_probed

-- A two-level table is used only for more than 2 ^ 8 stream ids.
theorem probe_twoLevel {smmu' : SmmuDev} {w w' : World} (h : smmuProbe pf smmu w = (true, smmu', w'))
    (hl : smmu'.supported.stLevel2lvl = true) : 8 < smmu'.sidBits := by
  simp only [smmuProbe] at h
  split at h
  case h_1 => cases h
  case h_2 =>
    split at h
    case h_1 => cases h
    case h_2 h₁ =>
      simp only [probeIdr1] at h₁
      split at h₁
      case isTrue => cases h₁
      case isFalse =>
        cases h₁
        simp only [probeIdr5] at h
        split at h
        case h_1 => cases h
        case h_2 =>
          cases h
          simp only at hl ⊢
          split at hl
          case isTrue => cases hl
          case isFalse hn =>
            rw [strtabSplit] at hn
            omega

theorem probe_prepares {ok : Bool} {smmu' : SmmuDev} {w w' : World} (h : smmuProbe pf smmu w = (ok, smmu', w')) :
    Prepares smmu smmu' w w' := by
  have hb := (probe_probed h).base_eq
  simp only [smmuProbe] at h
  split at h
  case h_1 =>
    cases h
    exact .read hb
  case h_2 =>
    split at h
    case h_1 =>
      cases h
      exact .trans (.read rfl) (.read hb)
    case h_2 =>
      cases h
      exact .trans (.trans (.read rfl) (.read rfl)) (.read hb)

theorem cmdQueueInit_prepares {ok : Bool} {smmu' : SmmuDev} {w w' : World}
    (h : smmuCmdQueueInit pf smmu w = (ok, smmu', w')) : Prepares smmu smmu' w w' := by
  simp only [smmuCmdQueueInit] at h
  split at h <;> cases h <;> exact .of_trace_eq rfl rfl

theorem strtabInitLinear_prepares {ok : Bool} {smmu' : SmmuDev} {w w' : World}
    (h : smmuStrtabInitLinear pf smmu w = (ok, smmu', w')) : Prepares smmu smmu' w w' := by
  simp only [smmuStrtabInitLinear] at h
  split at h <;> cases h
  case isTrue  => exact .of_trace_eq rfl rfl
  case isFalse => exact .of_trace_eq rfl abortStes_trace

theorem strtabInitLevel1_prepares {ok : Bool} {smmu' : SmmuDev} {w w' : World}
    (h : smmuStrtabInitLevel1 pf smmu w = (ok, smmu', w')) : Prepares smmu smmu' w w' := by
  simp only [smmuStrtabInitLevel1] at h
  split at h <;> cases h
  case isTrue  => exact .of_trace_eq rfl rfl
  case isFalse => exact .of_trace_eq rfl emptyL1_trace

theorem strtabInit2level_prepares {ok : Bool} {smmu' : SmmuDev} {w w' : World}
    (h : smmuStrtabInit2level pf smmu w = (ok, smmu', w')) : Prepares smmu smmu' w w' := by
  simp only [smmuStrtabInit2level] at h
  split at h
  case isTrue =>
    cases h
    exact .of_trace_eq rfl rfl
  case isFalse =>
    split at h <;> cases h
    all_goals
      rename_i he
      have h₁ := strtabInitLevel1_prepares he
      exact ⟨h₁.base_eq, h₁.reads⟩

theorem strtabInit_prepares {ok : Bool} {smmu' : SmmuDev} {w w' : World}
    (h : smmuStrtabInit pf smmu w = (ok, smmu', w')) : Prepares smmu smmu' w w' := by
  have hi {ok : Bool} {smmu' : SmmuDev} {w' : World}
      (h : (if smmu.supported.stLevel2lvl then smmuStrtabInit2level pf smmu w else smmuStrtabInitLinear pf smmu w) =
        (ok, smmu', w')) : Prepares smmu smmu' w w' := by
    split at h
    case isTrue  => exact strtabInit2level_prepares h
    case isFalse => exact strtabInitLinear_prepares h
  simp only [smmuStrtabInit] at h
  split at h <;> cases h
  case h_1 he => exact hi he
  case h_2 he => exact .trans (hi he) (.of_trace_eq rfl rfl)

theorem setup_prepares {ok : Bool} {smmu' : SmmuDev} {w w' : World} (h : smmuSetup pf smmu w = (ok, smmu', w')) :
    Prepares smmu smmu' w w' := by
  simp only [smmuSetup] at h
  split at h
  case h_1 he =>
    cases h
    exact probe_prepares he
  case h_2 he =>
    split at h
    case h_1 he' =>
      cases h
      exact .trans (probe_prepares he) (cmdQueueInit_prepares he')
    case h_2 he' => exact .trans (.trans (probe_prepares he) (cmdQueueInit_prepares he')) (strtabInit_prepares h)

-- `smmu_init` returns 0 only if the last write of CR0 asked for both the queue and the SMMU and was
-- acknowledged, and it returns an error if a handshake times out.
def InitReports (base status : Nat) (w w' : World) : Prop :=
  ∃ l, w.Did w' l ∧
    (status = 0 →
      lastWrite (base + cr0Offset) l.reverse = some (cr0Cmdqen ||| cr0Smmuen) ∧
      lastRead (base + cr0ackOffset) l.reverse = some (cr0Cmdqen ||| cr0Smmuen)) ∧
    (TimedOut base l → status ≠ 0)

theorem World.Did.unique {w w' : World} {l₁ l₂ : List Access} (h₁ : w.Did w' l₁) (h₂ : w.Did w' l₂) : l₁ = l₂ :=
  List.reverse_injective $ List.append_cancel_right $ h₁.symm.trans h₂

theorem TimedOut.not_initReports {base : Nat} {l : List Access} {w w' : World} (ht : TimedOut base l) (hd : w.Did w' l) :
    ¬InitReports base 0 w w' := by
  intro ⟨_, d, _, hto⟩
  exact hto (d.unique hd ▸ ht) rfl

-- If the SMMU gets as far as the reset, then the handshakes are acknowledged in time.
def Acknowledged (pf : Platform) (smmu : SmmuDev) (w : World) : Prop :=
  smmu.base ≠ 0 → ∀ smmu₁ w₁, smmuSetup pf smmu w = (true, smmu₁, w₁) → Handshakes pf smmu₁ w₁.reads

theorem smmu_init_reports_iff {fuel status : Nat} {smmu' : SmmuDev} {w w' : World}
    (h : smmuInit pf smmu fuel w = some (status, smmu', w')) :
    InitReports smmu.base status w w' ↔ Acknowledged pf smmu w := by
  have he : acsStatusErr ≠ 0 := by decide
  rw [smmuInit] at h
  split at h
  case isTrue hb =>
    cases h
    refine iff_of_true ⟨[], .refl, fun hc => absurd hc he, fun _ => he⟩ (fun hn => absurd hb hn)
  case isFalse hb =>
    split at h
    case h_1 smmu₁ w₁ hs =>
      cases h
      have ⟨l, d, _⟩ := (setup_prepares hs).reads
      refine iff_of_true ⟨l, d, fun hc => absurd hc he, fun _ => he⟩ ?_
      intro _ smmu₂ w₂ hs₂
      cases hs.symm.trans hs₂
    case h_2 smmu₁ w₁ hs =>
      have hbase := (setup_prepares hs).base_eq
      have ⟨l₁, d₁, q₁⟩ := (setup_prepares hs).reads
      split at h
      case h_1 => cases h
      case h_2 ret w₂ hr =>
        have ⟨h1, l₂, d₂, hcase⟩ := reset_cases hr
        cases h
        rw [h1, if_neg Nat.one_ne_zero, ← hbase]
        rcases hcase with ⟨hn, ht⟩ | ⟨hh, ht, lw, lr⟩
        case inl =>
          refine iff_of_false ?_ ?_
          · exact ht.append.not_initReports (d₁.trans d₂)
          · intro ha
            exact hn $ ha hb _ _ hs
        case inr =>
          refine iff_of_true ⟨l₁ ++ l₂, d₁.trans d₂, fun _ => ⟨?_, ?_⟩, ?_⟩ ?_
          · exact lastWrite_append lw
          · exact lastRead_append lr
          · intro hto
            exact absurd hto ((Timely.of_no_write (q₁ _)).append ht).not_timedOut
          · intro _ smmu₂ w₂' hs₂
            cases hs.symm.trans hs₂
            exact hh

end

-- An SMMU with a linear stream table of 16 entries and a queue of two, whose registers answer as in
-- `answers` and with `rest` after that.
def scriptedPlatform (answers : List Nat) (rest : Nat) : Platform :=
  { mmio := fun n => answers.getD n rest, alloc := fun n _ _ => 0x10000 * (n + 1) }

def unprobedSmmu : SmmuDev :=
  { SmmuDev.zero with base := 0x2b400000 }

-- The identification registers, the two acknowledgements, PROD for the three commands and for the
-- wait, CONS, and the last acknowledgement.
def answering : Platform :=
  scriptedPlatform [0xA, 0x200004, 5, 0, 8, 0, 1, 2, 3, 3, 9] 0

theorem smmu_init_acknowledged :
    ∃ smmu' w', smmuInit answering unprobedSmmu 1 .start = some (0, smmu', w') ∧
      InitReports unprobedSmmu.base 0 .start w' := by
  have hs : ((smmuInit answering unprobedSmmu 1 .start).map (·.1)) = some 0 := by decide +kernel
  have ⟨⟨status, smmu', w'⟩, h, he⟩ := Option.map_eq_some_iff.mp hs
  cases he
  refine ⟨smmu', w', h, (smmu_init_reports_iff h).mpr ?_⟩
  intro _ smmu₁ w₁ hs₁
  have hr : (smmuSetup answering unprobedSmmu .start).2.2.reads = 3 := by decide +kernel
  have hh : (smmuSetup answering unprobedSmmu .start).2.1.supported.hyp = false := by decide +kernel
  have hl : (smmuSetup answering unprobedSmmu .start).2.1.cmdq.queue.log2nent = 1 := by decide +kernel
  rw [hs₁] at hr hh hl
  simp only at hr hh hl
  rw [Handshakes, hr, hh, hl]
  refine ⟨4, 5, by decide +kernel, by decide +kernel, ?_⟩
  intro m i hi
  have h₀ : Queue.Drained answering ⟨answering.answer m, 0, 1⟩ (m + 1) 0 := ⟨by decide +kernel, by simp⟩
  cases hi.unique h₀
  decide +kernel

-- CR0ACK never shows what was written.
def silent : Platform :=
  scriptedPlatform [0xA, 0x200004, 5] 0xFFFFFFFF

theorem ackAfter_silent {val timeout n : Nat} (hv : val ≠ 0xFFFFFFFF) (hn : 3 ≤ n) :
    ackAfter silent val timeout n = none := by
  induction timeout generalizing n
  case zero => rfl
  case succ timeout hi =>
    have ha : silent.answer n = 0xFFFFFFFF := by
      simp only [Platform.answer, silent, scriptedPlatform]
      rw [List.getD_eq_default _ _ hn]
      rfl
    rw [ackAfter, ha, if_neg hv.symm]
    exact hi (Nat.le_succ_of_le hn)

theorem smmu_init_ignores_timeout :
    ∃ smmu' w', smmuInit silent unprobedSmmu 1 .start = some (0, smmu', w') ∧
      ¬InitReports unprobedSmmu.base 0 .start w' := by
  have hok : (smmuSetup silent unprobedSmmu .start).1 = true := by decide +kernel
  have hr : (smmuSetup silent unprobedSmmu .start).2.2.reads = 3 := by decide +kernel
  cases hs : smmuSetup silent unprobedSmmu .start
  case mk ok p =>
    have ⟨smmu₁, w₁⟩ := p
    rw [hs] at hok hr
    simp only at hok hr
    subst hok
    have hp := setup_prepares hs
    have ⟨l₁, d₁, _⟩ := hp.reads
    have ha : ackAfter silent 0 smmuRegTimeout w₁.reads = none := ackAfter_silent (by decide) (hr ▸ le_rfl)
    have ⟨w₂, h₂, l₂, d₂, t₂⟩ := regWriteSync_none smmu₁ ha
    refine ⟨smmu₁, w₂, ?_, ?_⟩
    · rw [smmuInit, if_neg (by decide), hs]
      simp only [smmuReset, h₂]
      rfl
    · rw [← hp.base_eq]
      exact t₂.append.not_initReports (d₁.trans d₂)

end Smmu
