import BsaAcs.Smmu.Queue
import Mathlib.Data.Nat.Bitwise

namespace Smmu

-- The value that the `n`-th register read returns.
def Platform.answer (pf : Platform) (n : Nat) : Nat :=
  pf.mmio n % 2 ^ 32

namespace World

variable {pf : Platform} {address value : Nat} {w : World}

@[simp]
theorem valMmioRead_value : (w.valMmioRead pf address).1 = pf.answer w.reads := rfl

@[simp]
theorem valMmioRead_reads : (w.valMmioRead pf address).2.reads = w.reads + 1 := rfl

@[simp]
theorem valMmioRead_trace :
    (w.valMmioRead pf address).2.trace = .read address (pf.answer w.reads) :: w.trace := rfl

@[simp]
theorem valMmioWrite_reads : (w.valMmioWrite address value).reads = w.reads := rfl

@[simp]
theorem valMmioWrite_trace : (w.valMmioWrite address value).trace = .write address value :: w.trace := rfl

@[simp]
theorem store_reads {a v : Nat} : (w.store a v).reads = w.reads := rfl

@[simp]
theorem store_trace {a v : Nat} : (w.store a v).trace = w.trace := rfl

end World

namespace Access

def readOf (address : Nat) : Access → Option Nat
  | .read a value => if a = address then some value else none
  | .write _ _    => none

def writeOf (address : Nat) : Access → Option Nat
  | .read _ _      => none
  | .write a value => if a = address then some value else none

end Access

-- The value that was last read from a register, and the one last written to it.
def lastRead (address : Nat) (trace : List Access) : Option Nat :=
  trace.findSome? (Access.readOf address)

def lastWrite (address : Nat) (trace : List Access) : Option Nat :=
  trace.findSome? (Access.writeOf address)

def readsOf (address : Nat) (trace : List Access) : Nat :=
  trace.countP (fun a => (a.readOf address).isSome)

section

variable {address other value : Nat} {trace : List Access}

@[simp]
theorem lastRead_read : lastRead address (.read address value :: trace) = some value := by
  simp [lastRead, Access.readOf]

@[simp]
theorem lastWrite_read : lastWrite address (.read other value :: trace) = lastWrite address trace := rfl

@[simp]
theorem lastWrite_write : lastWrite address (.write address value :: trace) = some value := by
  simp [lastWrite, Access.writeOf]

-- The last access stays the last one behind other accesses.

theorem lastRead_append {l₁ l₂ : List Access} (h : lastRead address l₂.reverse = some value) :
    lastRead address (l₁ ++ l₂).reverse = some value := by
  rw [lastRead] at h
  rw [List.reverse_append, lastRead, List.findSome?_append, h]
  rfl

theorem lastWrite_append {l₁ l₂ : List Access} (h : lastWrite address l₂.reverse = some value) :
    lastWrite address (l₁ ++ l₂).reverse = some value := by
  rw [lastWrite] at h
  rw [List.reverse_append, lastWrite, List.findSome?_append, h]
  rfl

@[simp]
theorem readsOf_read : readsOf address (.read address value :: trace) = readsOf address trace + 1 := by
  simp [readsOf, Access.readOf]

theorem readsOf_read_ne (h : other ≠ address) :
    readsOf address (.read other value :: trace) = readsOf address trace := by
  simp [readsOf, Access.readOf, h]

@[simp]
theorem readsOf_write : readsOf address (.write other value :: trace) = readsOf address trace := by
  simp [readsOf, Access.readOf]

end

namespace Queue

-- Index and wrap bit together are the value modulo twice the number of entries.
theorem empty_iff {q : Queue} : q.empty ↔ q.prod % 2 ^ (q.log2nent + 1) = q.cons % 2 ^ (q.log2nent + 1) := by
  have hi (x : Nat) : x &&& q.indexMask = x % 2 ^ q.log2nent := by
    rw [indexMask, Nat.one_shiftLeft, Nat.and_two_pow_sub_one_eq_mod]
  have hw (x : Nat) : x &&& q.wrapMask = 2 ^ q.log2nent * (x / 2 ^ q.log2nent % 2) := by
    rw [wrapMask, Nat.one_shiftLeft, Nat.and_two_pow, Nat.toNat_testBit, Nat.mul_comm]
  have hs (x : Nat) : x % 2 ^ (q.log2nent + 1) = x % 2 ^ q.log2nent + 2 ^ q.log2nent * (x / 2 ^ q.log2nent % 2) :=
    Nat.mod_pow_succ
  simp only [empty, Bool.and_eq_true, beq_iff_eq, hi, hw, hs]
  constructor
  case mp =>
    intro ⟨hi, hw⟩
    rw [hi, hw]
  case mpr =>
    intro h
    have hp := Nat.mod_lt q.prod (Nat.two_pow_pos q.log2nent)
    have hc := Nat.mod_lt q.cons (Nat.two_pow_pos q.log2nent)
    rcases Nat.mod_two_eq_zero_or_one (q.prod / 2 ^ q.log2nent) with h₁ | h₁ <;>
      rcases Nat.mod_two_eq_zero_or_one (q.cons / 2 ^ q.log2nent) with h₂ | h₂ <;>
      rw [h₁, h₂] at h ⊢ <;> omega

theorem full_of_cleared {q : Queue} (h : q.prod = 0 ∧ q.cons = 0) : q.full = false := by
  simp [full, h]

end Queue

theorem waitNotFull_of_not_full {q : Queue} {timeout : Nat} (h : q.full = false) :
    waitNotFull q timeout = timeout := by
  cases timeout <;> simp [waitNotFull, h]

section

variable {pf : Platform} {smmuBase : Nat} {cmdq : CmdQueue} {hyp : Bool} {w : World}

theorem prod_ne_cons : smmuBase + cmdqProdOffset ≠ smmuBase + cmdqConsOffset := by
  simp [cmdqProdOffset, cmdqConsOffset]

variable (pf smmuBase cmdq w) in
-- Every supported command is written, as the driver's own copy of the queue is never full.
theorem issue_eq {opcode : Nat} (ho : (smmuCmdqBuildCmd opcode).isSome) :
    ∃ cmd : Nat × Nat, smmuCmdqIssueCmd pf smmuBase cmdq opcode w = (true,
      (((w.valMmioRead pf (smmuBase + cmdqProdOffset)).2.store (slot cmdq (pf.answer w.reads)) cmd.1).store
        (slot cmdq (pf.answer w.reads) + 8) cmd.2).valMmioWrite (smmuBase + cmdqProdOffset)
          { cmdq.queue with prod := pf.answer w.reads }.incProd) := by
  have ⟨cmd, hcmd⟩ := Option.isSome_iff_exists.mp ho
  have hn : waitNotFull cmdq.queue smmuCmdqPollTimeout ≠ 0 := by
    rw [waitNotFull_of_not_full $ Queue.full_of_cleared cmdq.cleared]
    decide
  refine ⟨cmd, ?_⟩
  simp only [smmuCmdqIssueCmd, hcmd, smmuCmdqWriteCmd, if_neg hn]
  rfl

theorem issue_reads {opcode : Nat} (ho : (smmuCmdqBuildCmd opcode).isSome) :
    (smmuCmdqIssueCmd pf smmuBase cmdq opcode w).2.reads = w.reads + 1 := by
  have ⟨_, h⟩ := issue_eq pf smmuBase cmdq w ho
  rw [h]
  rfl

theorem issue_trace {opcode : Nat} (ho : (smmuCmdqBuildCmd opcode).isSome) :
    (smmuCmdqIssueCmd pf smmuBase cmdq opcode w).2.trace =
      .write (smmuBase + cmdqProdOffset) { cmdq.queue with prod := pf.answer w.reads }.incProd ::
        .read (smmuBase + cmdqProdOffset) (pf.answer w.reads) :: w.trace := by
  have ⟨_, h⟩ := issue_eq pf smmuBase cmdq w ho
  rw [h]
  rfl

theorem buildCmd_invalidation {opcode : Nat} (ho : opcode ∈ invalidation hyp) : (smmuCmdqBuildCmd opcode).isSome := by
  have h : ∀ hyp, ∀ opcode ∈ invalidation hyp, (smmuCmdqBuildCmd opcode).isSome := by decide
  exact h hyp opcode ho

-- The world after reading CONS `i` times.
def World.readCons (pf : Platform) (smmuBase : Nat) : Nat → World → World
  | 0, w => w
  | i + 1, w => readCons pf smmuBase i (w.valMmioRead pf (smmuBase + cmdqConsOffset)).2

theorem World.readCons_succ {i : Nat} {w : World} :
    w.readCons pf smmuBase (i + 1) = ((w.readCons pf smmuBase i).valMmioRead pf (smmuBase + cmdqConsOffset)).2 := by
  induction i generalizing w
  case zero      => rfl
  case succ i hi => rw [readCons, hi, ← readCons]

theorem World.readCons_reads {i : Nat} {w : World} : (w.readCons pf smmuBase i).reads = w.reads + i := by
  induction i generalizing w
  case zero      => rfl
  case succ i hi => rw [readCons, hi, valMmioRead_reads, Nat.add_right_comm, Nat.add_assoc]

theorem World.readCons_readsOf {i : Nat} {w : World} :
    readsOf (smmuBase + cmdqConsOffset) (w.readCons pf smmuBase i).trace =
      readsOf (smmuBase + cmdqConsOffset) w.trace + i := by
  induction i
  case zero      => rfl
  case succ i hi => rw [readCons_succ, valMmioRead_trace, readsOf_read, hi, Nat.add_assoc]

theorem World.readCons_lastWrite {i address : Nat} {w : World} :
    lastWrite address (w.readCons pf smmuBase i).trace = lastWrite address w.trace := by
  induction i
  case zero      => rfl
  case succ i hi => rw [readCons_succ, valMmioRead_trace, lastWrite_read, hi]

-- The queue as the wait sees it after the read that returned `pf.answer n`.
def Queue.seen (pf : Platform) (q : Queue) (n : Nat) : Queue :=
  { q with cons := pf.answer n }

-- The last value that the wait read from CONS is the answer to the last read.
theorem World.readCons_lastRead {i n : Nat} {w : World} (hn : w.reads = n + 1)
    (hl : lastRead (smmuBase + cmdqConsOffset) w.trace = some (pf.answer n)) :
    lastRead (smmuBase + cmdqConsOffset) (w.readCons pf smmuBase i).trace = some (pf.answer (n + i)) := by
  cases i
  case zero   => exact hl
  case succ i => rw [readCons_succ, valMmioRead_trace, lastRead_read, readCons_reads, hn, Nat.add_right_comm, Nat.add_assoc]

variable {timeout fuel n : Nat} {q : Queue}

theorem pollLoop_succ {w : World} (ht : 0 < timeout) (hn : w.reads = n + 1) :
    pollLoop pf smmuBase timeout (fuel + 1) (q.seen pf n) w =
      if (q.seen pf n).empty then some (timeout, w)
      else pollLoop pf smmuBase timeout fuel (q.seen pf (n + 1)) (w.valMmioRead pf (smmuBase + cmdqConsOffset)).2 := by
  rw [pollLoop, if_pos ht, ← hn]
  rfl

-- From the `n`-th read on, the queue is first seen to be empty after `i` more reads.
def Queue.Drained (pf : Platform) (q : Queue) (n i : Nat) : Prop :=
  (q.seen pf (n + i)).empty ∧ ∀ j < i, ¬(q.seen pf (n + j)).empty

theorem Queue.Drained.succ {i : Nat} (h₀ : ¬(q.seen pf n).empty) (h : q.Drained pf (n + 1) i) :
    q.Drained pf n (i + 1) := by
  have he (j : Nat) : n + (j + 1) = n + 1 + j := by omega
  refine ⟨he i ▸ h.1, ?_⟩
  intro j hj
  cases j
  case zero   => exact h₀
  case succ j => exact he j ▸ h.2 j (Nat.lt_of_succ_lt_succ hj)

theorem Queue.Drained.unique {i j : Nat} (h₁ : q.Drained pf n i) (h₂ : q.Drained pf n j) : i = j := by
  rcases Nat.lt_trichotomy i j with h | h | h
  case inl      => exact absurd h₁.1 (h₂.2 i h)
  case inr.inl  => exact h
  case inr.inr  => exact absurd h₂.1 (h₁.2 j h)

-- The wait ends only after a read of CONS that shows an empty queue.
theorem pollLoop_some {timeout' : Nat} {w w' : World} (ht : 0 < timeout) (hn : w.reads = n + 1)
    (h : pollLoop pf smmuBase timeout fuel (q.seen pf n) w = some (timeout', w')) :
    timeout' = timeout ∧ ∃ i, w' = w.readCons pf smmuBase i ∧ q.Drained pf n i := by
  induction fuel generalizing n w
  case zero => cases h
  case succ fuel hi =>
    rw [pollLoop_succ ht hn] at h
    split at h
    case isTrue he =>
      cases h
      exact ⟨rfl, 0, rfl, he, by simp⟩
    case isFalse he =>
      have ⟨h₁, i, h₂, h₃⟩ := hi (by rw [World.valMmioRead_reads, hn]) h
      exact ⟨h₁, i + 1, h₂, h₃.succ he⟩

variable (smmuBase) in
-- With enough fuel it ends, once a read of CONS shows an empty queue.
theorem pollLoop_ends {i : Nat} {w : World} (ht : 0 < timeout) (hn : w.reads = n + 1)
    (he : (q.seen pf (n + i)).empty) :
    ∃ fuel, ∃ j ≤ i, pollLoop pf smmuBase timeout fuel (q.seen pf n) w = some (timeout, w.readCons pf smmuBase j) ∧
      (q.seen pf (n + j)).empty := by
  by_cases h₀ : (q.seen pf n).empty
  case pos => exact ⟨1, 0, Nat.zero_le _, by rw [pollLoop_succ ht hn, if_pos h₀]; rfl, h₀⟩
  case neg =>
    induction i generalizing n w
    case zero => exact absurd he h₀
    case succ i hi =>
      have hn' : (w.valMmioRead pf (smmuBase + cmdqConsOffset)).2.reads = n + 1 + 1 := by
        rw [World.valMmioRead_reads, hn]
      have he' : (q.seen pf (n + 1 + i)).empty := by
        rwa [Nat.add_assoc, Nat.add_comm 1]
      by_cases h₁ : (q.seen pf (n + 1)).empty
      case pos =>
        refine ⟨2, 1, Nat.succ_le_succ (Nat.zero_le _), ?_, h₁⟩
        rw [pollLoop_succ ht hn, if_neg h₀, pollLoop_succ ht hn', if_pos h₁]
        rfl
      case neg =>
        have ⟨fuel, j, hj, h₂, h₃⟩ := hi hn' he' h₁
        refine ⟨fuel + 1, j + 1, Nat.succ_le_succ hj, ?_, ?_⟩
        · rw [pollLoop_succ ht hn, if_neg h₀]
          exact h₂
        · rwa [Nat.add_assoc, Nat.add_comm 1] at h₃

-- The world in which `smmu_tlbi_cfgi` starts to wait.
def World.issued (pf : Platform) (smmuBase : Nat) (cmdq : CmdQueue) (hyp : Bool) (w : World) : World :=
  (invalidation hyp).foldl (fun w opcode => (smmuCmdqIssueCmd pf smmuBase cmdq opcode w).2) w

-- The value that the issued CMD_SYNC writes to PROD.
def syncProd (pf : Platform) (cmdq : CmdQueue) (hyp : Bool) (w : World) : Nat :=
  { cmdq.queue with prod := pf.answer (w.reads + (invalidation hyp).length - 1) }.incProd

theorem issueAll_spec {opcodes : List Nat} (ho : ∀ o ∈ opcodes, (smmuCmdqBuildCmd o).isSome) :
    let w' := opcodes.foldl (fun w opcode => (smmuCmdqIssueCmd pf smmuBase cmdq opcode w).2) w
    w'.reads = w.reads + opcodes.length ∧
      readsOf (smmuBase + cmdqConsOffset) w'.trace = readsOf (smmuBase + cmdqConsOffset) w.trace := by
  induction opcodes generalizing w
  case nil => exact ⟨rfl, rfl⟩
  case cons o os hi =>
    have hh := ho o (List.mem_cons_self ..)
    have ⟨h₁, h₂⟩ := hi (w := (smmuCmdqIssueCmd pf smmuBase cmdq o w).2) (fun p hp => ho p (List.mem_cons_of_mem _ hp))
    refine ⟨?_, ?_⟩
    · rw [List.foldl_cons, h₁, issue_reads hh, List.length_cons, Nat.add_assoc, Nat.add_comm 1]
    · rw [List.foldl_cons, h₂, issue_trace hh, readsOf_write, readsOf_read_ne prod_ne_cons]

theorem issued_spec :
    (w.issued pf smmuBase cmdq hyp).reads = w.reads + (invalidation hyp).length ∧
    readsOf (smmuBase + cmdqConsOffset) (w.issued pf smmuBase cmdq hyp).trace =
      readsOf (smmuBase + cmdqConsOffset) w.trace :=
  issueAll_spec fun _ => buildCmd_invalidation

-- CMD_SYNC is the last of the commands.
theorem issued_lastWrite :
    lastWrite (smmuBase + cmdqProdOffset) (w.issued pf smmuBase cmdq hyp).trace = some (syncProd pf cmdq hyp w) := by
  have hs : invalidation hyp = (invalidation hyp).dropLast ++ [cmdqOpCmdSync] := by
    cases hyp <;> rfl
  have hl : (invalidation hyp).length - 1 = (invalidation hyp).dropLast.length := by
    rw [List.length_dropLast]
  have hp : 0 < (invalidation hyp).length := by
    cases hyp <;> decide
  have ho : ∀ o ∈ (invalidation hyp).dropLast, (smmuCmdqBuildCmd o).isSome := fun o h =>
    buildCmd_invalidation $ List.dropLast_subset _ h
  rw [World.issued, hs, List.foldl_append, List.foldl_cons, List.foldl_nil, issue_trace rfl, lastWrite_write,
    (issueAll_spec ho).1, syncProd, Nat.add_sub_assoc hp, hl]

-- The number of the read with which the wait samples PROD. The reads of CONS follow it.
def sampleRead (hyp : Bool) (w : World) : Nat :=
  w.reads + (invalidation hyp).length

-- The queue that the wait looks at.
def sampled (pf : Platform) (cmdq : CmdQueue) (hyp : Bool) (w : World) : Queue :=
  ⟨pf.answer (sampleRead hyp w), 0, cmdq.queue.log2nent⟩

def World.waiting (pf : Platform) (smmuBase : Nat) (cmdq : CmdQueue) (hyp : Bool) (w : World) : World :=
  (((w.issued pf smmuBase cmdq hyp).valMmioRead pf (smmuBase + cmdqProdOffset)).2.valMmioRead pf
    (smmuBase + cmdqConsOffset)).2

theorem waiting_reads : (w.waiting pf smmuBase cmdq hyp).reads = sampleRead hyp w + 1 + 1 := by
  rw [World.waiting, World.valMmioRead_reads, World.valMmioRead_reads, issued_spec.1, sampleRead]

theorem waiting_lastRead :
    lastRead (smmuBase + cmdqConsOffset) (w.waiting pf smmuBase cmdq hyp).trace =
      some (pf.answer (sampleRead hyp w + 1)) := by
  rw [World.waiting, World.valMmioRead_trace, lastRead_read, World.valMmioRead_reads, issued_spec.1, sampleRead]

theorem waiting_lastWrite :
    lastWrite (smmuBase + cmdqProdOffset) (w.waiting pf smmuBase cmdq hyp).trace = some (syncProd pf cmdq hyp w) := by
  rw [World.waiting, World.valMmioRead_trace, lastWrite_read, World.valMmioRead_trace, lastWrite_read, issued_lastWrite]

theorem waiting_readsOf :
    readsOf (smmuBase + cmdqConsOffset) (w.waiting pf smmuBase cmdq hyp).trace =
      readsOf (smmuBase + cmdqConsOffset) w.trace + 1 := by
  rw [World.waiting, World.valMmioRead_trace, readsOf_read, World.valMmioRead_trace, readsOf_read_ne prod_ne_cons,
    issued_spec.2]

theorem tlbiCfgi_eq :
    smmuTlbiCfgi pf smmuBase cmdq hyp fuel w =
      match pollLoop pf smmuBase smmuCmdqPollTimeout fuel
        ((sampled pf cmdq hyp w).seen pf (sampleRead hyp w + 1)) (w.waiting pf smmuBase cmdq hyp) with
      | none => none
      | some (timeout, w) =>
        if timeout = 0 then
          some (true, (((w.valMmioRead pf (smmuBase + cmdqProdOffset)).2.valMmioRead pf
            (smmuBase + cmdqConsOffset)).2.valMmioRead pf (smmuBase + gerrorOffset)).2)
        else some (false, w) := by
  have hr : (w.issued pf smmuBase cmdq hyp).reads = sampleRead hyp w := issued_spec.1
  have hq : (sampled pf cmdq hyp w).seen pf (sampleRead hyp w + 1) =
      ⟨pf.answer (w.issued pf smmuBase cmdq hyp).reads, pf.answer ((w.issued pf smmuBase cmdq hyp).reads + 1),
        cmdq.queue.log2nent⟩ := by
    rw [hr]
    rfl
  rw [hq]
  rfl

-- A call that returns has read CONS until it showed an empty queue, and reports no timeout.
theorem tlbiCfgi_some {timedOut : Bool} {w' : World}
    (h : smmuTlbiCfgi pf smmuBase cmdq hyp fuel w = some (timedOut, w')) :
    timedOut = false ∧ ∃ i, w' = (w.waiting pf smmuBase cmdq hyp).readCons pf smmuBase i ∧
      (sampled pf cmdq hyp w).Drained pf (sampleRead hyp w + 1) i := by
  rw [tlbiCfgi_eq] at h
  split at h
  case h_1 => cases h
  case h_2 timeout w₁ hp =>
    have ⟨ht, hi⟩ := pollLoop_some (by decide) waiting_reads hp
    rw [if_neg (by rw [ht]; decide)] at h
    cases h
    exact ⟨rfl, hi⟩

variable (smmuBase) in
theorem tlbiCfgi_ends {i : Nat} (he : ((sampled pf cmdq hyp w).seen pf (sampleRead hyp w + 1 + i)).empty) :
    ∃ fuel, ∃ j ≤ i, smmuTlbiCfgi pf smmuBase cmdq hyp fuel w =
        some (false, (w.waiting pf smmuBase cmdq hyp).readCons pf smmuBase j) ∧
      ((sampled pf cmdq hyp w).seen pf (sampleRead hyp w + 1 + j)).empty := by
  have ht : 0 < smmuCmdqPollTimeout := by decide
  have hr : (w.waiting pf smmuBase cmdq hyp).reads = sampleRead hyp w + 1 + 1 := waiting_reads
  have ⟨fuel, j, hj, hp, hs⟩ := pollLoop_ends smmuBase ht hr he
  refine ⟨fuel, j, hj, ?_, hs⟩
  rw [tlbiCfgi_eq, hp]
  rfl

-- The call returns. Besides the read of CONS before its loop, and the one of the report, the wait
-- makes at most as many reads of CONS as the timeout allows. Unless it reports a timeout, CONS has
-- reached the value that the CMD_SYNC wrote to PROD.
def WaitBounded (pf : Platform) (smmuBase : Nat) (cmdq : CmdQueue) (hyp : Bool) (w : World) : Prop :=
  ∃ fuel timedOut w', smmuTlbiCfgi pf smmuBase cmdq hyp fuel w = some (timedOut, w') ∧
    readsOf (smmuBase + cmdqConsOffset) w'.trace ≤
      readsOf (smmuBase + cmdqConsOffset) w.trace + 1 + smmuCmdqPollTimeout + timedOut.toNat ∧
    (timedOut = true ∨ ∃ prod cons,
      lastWrite (smmuBase + cmdqProdOffset) w'.trace = some prod ∧
      lastRead (smmuBase + cmdqConsOffset) w'.trace = some cons ∧
      (Queue.mk prod cons cmdq.queue.log2nent).empty)

-- PROD reads back as the CMD_SYNC wrote it, and one of the first answers of CONS agrees with it.
def SyncConsumed (pf : Platform) (cmdq : CmdQueue) (hyp : Bool) (w : World) : Prop :=
  (Queue.mk (syncProd pf cmdq hyp w) (pf.answer (sampleRead hyp w)) cmdq.queue.log2nent).empty ∧
  ∃ i ≤ smmuCmdqPollTimeout,
    (Queue.mk (pf.answer (sampleRead hyp w)) (pf.answer (sampleRead hyp w + 1 + i)) cmdq.queue.log2nent).empty

theorem tlbi_cfgi_bounded_iff (pf : Platform) (smmuBase : Nat) (cmdq : CmdQueue) (hyp : Bool) (w : World) :
    WaitBounded pf smmuBase cmdq hyp w ↔ SyncConsumed pf cmdq hyp w := by
  constructor
  case mp =>
    intro ⟨fuel, timedOut, w', h, hc, hr⟩
    have ⟨ht, i, hw, he, _⟩ := tlbiCfgi_some h
    subst ht hw
    rw [World.readCons_readsOf, waiting_readsOf] at hc
    have ⟨prod, cons, hp, hl, hs⟩ := hr.resolve_left Bool.false_ne_true
    rw [World.readCons_lastWrite, waiting_lastWrite] at hp
    rw [World.readCons_lastRead waiting_reads waiting_lastRead] at hl
    cases hp
    cases hl
    refine ⟨?_, i, ?_, he⟩
    · rw [Queue.empty_iff] at hs he ⊢
      exact hs.trans he.symm
    · simp only [Bool.toNat_false] at hc
      omega
  case mpr =>
    intro ⟨hs, i, hi, he⟩
    have ⟨fuel, j, hj, hf, hc⟩ := tlbiCfgi_ends smmuBase he
    refine ⟨fuel, false, _, hf, ?_, .inr ⟨syncProd pf cmdq hyp w, _, ?_,
      World.readCons_lastRead waiting_reads waiting_lastRead, ?_⟩⟩
    · rw [World.readCons_readsOf, waiting_readsOf]
      omega
    · rw [World.readCons_lastWrite, waiting_lastWrite]
    · rw [Queue.empty_iff] at hs hc ⊢
      exact hs.trans hc

end

-- A queue of eight entries. PROD moves with the commands, and CONS stays where it is.
def stuckPlatform : Platform :=
  { mmio := fun n => if n ≤ 3 then n else 0, alloc := fun _ _ _ => 0 }

def eightEntries : CmdQueue :=
  ⟨⟨0, 0, 3⟩, 0x1000, 0x1080, 0x1080, queueBase 0x1080 3, ⟨rfl, rfl⟩⟩

theorem tlbi_cfgi_never_returns :
    (∀ fuel, smmuTlbiCfgi stuckPlatform 0x2b400000 eightEntries false fuel .start = none) ∧
      ¬WaitBounded stuckPlatform 0x2b400000 eightEntries false .start := by
  have hn : ∀ fuel, smmuTlbiCfgi stuckPlatform 0x2b400000 eightEntries false fuel .start = none := by
    intro fuel
    rw [← Option.not_isSome_iff_eq_none]
    intro h
    have ⟨⟨_, _⟩, h⟩ := Option.isSome_iff_exists.mp h
    have ⟨_, i, _, he, _⟩ := tlbiCfgi_some h
    have ha : stuckPlatform.answer (3 + 1 + i) = 0 := by
      rw [Platform.answer, stuckPlatform]
      simp only [if_neg (show ¬3 + 1 + i ≤ 3 by omega), Nat.zero_mod]
    have hq : (sampled stuckPlatform eightEntries false .start).seen stuckPlatform (3 + 1 + i) = ⟨3, 0, 3⟩ := by
      rw [Queue.seen, ha]
      rfl
    rw [show sampleRead false .start = 3 from rfl, hq] at he
    exact absurd he (by decide)
  refine ⟨hn, ?_⟩
  intro ⟨fuel, _, _, h, _⟩
  rw [hn fuel] at h
  cases h

end Smmu
