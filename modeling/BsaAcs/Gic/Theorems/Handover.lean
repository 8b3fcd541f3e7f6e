import BsaAcs.Gic.Translation

namespace Its

variable {env : Env} {its : Nat} {s s' : State}

section Peek

variable {w : Write} {writes : List Write} {addr : Nat}

theorem peek_cons_self (h : w.addr = addr) : peek (w :: writes) addr = w.value := by
  simp [peek, h]

theorem peek_cons_of_ne (h : w.addr ≠ addr) : peek (w :: writes) addr = peek writes addr := by
  simp [peek, h]

end Peek

section Whole

variable {l l' : List Nat}

theorem wholeCommands_append (h : 4 ∣ l.length) : wholeCommands (l ++ l') = wholeCommands l ++ wholeCommands l' := by
  induction l using wholeCommands.induct
  case case1 w₀ w₁ w₂ w₃ rest hi =>
    simp only [List.length_cons] at h
    simp only [List.cons_append, wholeCommands, List.cons.injEq, true_and]
    exact hi (by omega)
  case case2 l hn =>
    rcases l with _ | ⟨a, _ | ⟨b, _ | ⟨c, _ | ⟨d, rest⟩⟩⟩⟩
    · rfl
    · simp at h
    · simp at h
    · simp at h
    · exact absurd rfl (hn a b c d rest)

theorem wholeCommands_length : (wholeCommands l).length = l.length / 4 := by
  induction l using wholeCommands.induct
  case case1 w₀ w₁ w₂ w₃ rest hi =>
    simp only [wholeCommands, List.length_cons, hi]
    omega
  case case2 l hn =>
    rcases l with _ | ⟨a, _ | ⟨b, _ | ⟨c, _ | ⟨d, rest⟩⟩⟩⟩
    · rfl
    · simp [wholeCommands]
    · simp [wholeCommands]
    · simp [wholeCommands]
    · exact absurd rfl (hn a b c d rest)

theorem wholeCommands_get {n : Nat} (h : 4 * n + 3 < l.length) :
    (wholeCommands l)[n]? = some (l[4 * n], l[4 * n + 1], l[4 * n + 2]) := by
  induction l using wholeCommands.induct generalizing n
  case case1 w₀ w₁ w₂ w₃ rest hi =>
    cases n
    case zero => rfl
    case succ n =>
      simp only [List.length_cons] at h
      rw [wholeCommands, List.getElem?_cons_succ, hi (by omega)]
      rfl
  case case2 l hn =>
    rcases l with _ | ⟨a, _ | ⟨b, _ | ⟨c, _ | ⟨d, rest⟩⟩⟩⟩
    · simp at h
    · simp at h
    · simp at h
    · simp at h
    · exact absurd rfl (hn a b c d rest)

theorem wholeCommands_prefix : wholeCommands l <+: wholeCommands (l ++ l') := by
  induction l using wholeCommands.induct
  case case1 w₀ w₁ w₂ w₃ rest hi =>
    simp only [List.cons_append, wholeCommands, List.prefix_cons_inj]
    exact hi
  case case2 l hn =>
    rw [wholeCommands]
    · exact List.nil_prefix
    · exact hn

end Whole

-- The words of commands at consecutive addresses, the last one written last.
def queueWrites (its addr : Nat) : List Nat → List Write → List Write
  | [], writes         => writes
  | w :: words, writes => queueWrites its (addr + 8) words (⟨.command its, addr, w⟩ :: writes)

-- What an operation has the ITS do, by the number of interrupt bits, the translation table and the redistributor.
def Op.queued (bits itt rdBase : Nat) : Op → List Nat
  | create _ devID intID _ =>
    [devID <<< itsCmdShiftDevid ||| armItsCmdMapd, bits, 1 <<< itsCmdShiftValid ||| (itt &&& ittParMask), 0,
      armItsCmdMapc, 0, 1 <<< itsCmdShiftValid ||| rdBase % 2 ^ 32 ||| 1, 0,
      devID <<< itsCmdShiftDevid ||| armItsCmdMapi, intID, 1, 0,
      devID <<< itsCmdShiftDevid ||| armItsCmdInv, intID, 0, 0,
      armItsCmdSync, 0, rdBase % 2 ^ 32, 0]
  | clear _ devID intID =>
    [devID <<< itsCmdShiftDevid ||| armItsCmdDiscard, intID, 0, 0, armItsCmdSync, 0, rdBase % 2 ^ 32, 0]

def Op.commands (bits itt rdBase : Nat) : Op → List GitsCommand
  | create _ devID intID _ =>
    [.map (.mapd devID itt bits true), .map (.mapc (collectionOf rdBase) (redistributorOf rdBase) true),
      .map (.mapi devID intID 1), .map (.inv devID intID), .map (.sync (redistributorOf rdBase))]
  | clear _ devID intID => [.discard devID intID, .map (.sync (redistributorOf rdBase))]

def Op.configByte : Op → Nat
  | create _ _ _ priority => ((priority &&& lpiPriorityMask) ||| lpiEnable) % 2 ^ 8
  | clear ..              => lpiDisable

namespace Op

variable {op : Op} {bits itt rdBase : Nat}

theorem queued_length : (op.queued bits itt rdBase).length = op.words := by
  cases op <;> rfl

theorem words_dvd : 4 ∣ op.words := by
  cases op
  case create => exact ⟨5, rfl⟩
  case clear  => exact ⟨2, rfl⟩

theorem configByte_testBit : op.configByte.testBit 0 = op.creates := by
  cases op
  case clear  => simp [configByte, creates, lpiDisable]
  case create => simp [configByte, creates, lpiEnable]

theorem decode_of_opcode {w₀ w₁ w₂ : Nat} {command : ItsCommand} (hd : ItsCommand.decode w₀ w₁ w₂ = some command) :
    GitsCommand.decode (w₀, w₁, w₂) = some (.map command) := by
  simp only [GitsCommand.decode]
  split
  case h_1 ho => simp [ItsCommand.decode, ho] at hd
  case h_2    => rw [hd, Option.map_some]

theorem decode_discard {devID intID : Nat} (hd : devID < 2 ^ 32) (hi : intID < 2 ^ 32) :
    GitsCommand.decode (devID <<< itsCmdShiftDevid ||| armItsCmdDiscard, intID, 0) = some (.discard devID intID) := by
  obtain ⟨hdev, hop⟩ := @field_devID devID armItsCmdDiscard hd (by decide)
  have hint : field 31 0 intID = intID := by
    rw [field_eq]
    omega
  rw [GitsCommand.decode, hop]
  simp only [armItsCmdDiscard, hint] at hdev ⊢
  rw [hdev]

-- The queue gives the commands back.
theorem decode_queued (hv : op.Valid env) (hitt : 2 ^ 16 ∣ itt ∧ itt < 2 ^ 52) (hb : bits < 2 ^ 5) :
    (wholeCommands (op.queued bits itt rdBase)).map GitsCommand.decode =
      (op.commands bits itt rdBase).map some := by
  cases op
  case create its devID intID priority =>
    have hd : devID < 2 ^ 32 := hv.devId
    have hi : intID < 2 ^ 32 := hv.intId
    simp only [queued, wholeCommands, commands, List.map_cons, List.map_nil, collectionOf, redistributorOf,
      decode_of_opcode (decode_mapd hd hitt.1 hitt.2 hb), decode_of_opcode decode_mapc,
      decode_of_opcode (decode_mapi hd hi), decode_of_opcode (decode_inv hd hi), decode_of_opcode decode_sync]
  case clear its devID intID =>
    have hd : devID < 2 ^ 32 := hv.devId
    have hi : intID < 2 ^ 32 := hv.intId
    simp only [queued, wholeCommands, commands, List.map_cons, List.map_nil, redistributorOf,
      decode_discard hd hi, decode_of_opcode decode_sync]

end Op

section QueueWrites

variable {addr : Nat} {words words' : List Nat} {writes : List Write}

theorem queueWrites_append : queueWrites its addr (words ++ words') writes =
    queueWrites its (addr + 8 * words.length) words' (queueWrites its addr words writes) := by
  induction words generalizing addr writes
  case nil            => rfl
  case cons w words hi =>
    rw [List.cons_append, queueWrites, hi, queueWrites, List.length_cons, Nat.mul_add_one, Nat.add_assoc,
      Nat.add_comm 8]

theorem wordsWritten_queueWrites {k : Nat} : wordsWritten k (queueWrites its addr words writes) =
    wordsWritten k writes + if k = its then words.length else 0 := by
  induction words generalizing addr writes
  case nil            => simp [queueWrites]
  case cons w words hi =>
    rw [queueWrites, hi]
    by_cases h : k = its
    case pos =>
      simp only [wordsWritten, h, decide_true, List.filter_cons_of_pos, List.length_cons, if_true]
      omega
    case neg =>
      have hp : ¬Purpose.command its = Purpose.command k := by
        rintro ⟨⟩
        exact h rfl
      simp [wordsWritten, hp, h]

theorem commandWords_queueWrites {k : Nat} : commandWords k (queueWrites its addr words writes) =
    commandWords k writes ++ if k = its then words else [] := by
  induction words generalizing addr writes
  case nil            => simp [queueWrites]
  case cons w words hi =>
    rw [queueWrites, hi]
    by_cases h : k = its
    case pos => simp [commandWords, h]
    case neg =>
      have hp : ¬Purpose.command its = Purpose.command k := by
        rintro ⟨⟩
        exact h rfl
      simp [commandWords, hp, h]

end QueueWrites

-- The writes of one operation, if the ITS does not stall: the byte of the interrupt, registers of the GIC, the
-- commands and GITS_CWRITER.
structure Op.Writes (env : Env) (bits itt rdBase : Nat) (op : Op) (s s' : State) : Prop where
  writes : ∃ regs : List Write, (∀ w ∈ regs, w.purpose = .other ∧ OtherRegister env w.addr) ∧
    s'.writes = ⟨.cwriter op.its, env.itsBase op.its + armGitsCwriter,
        8 * (wordsWritten op.its s.writes + op.words)⟩ ::
      queueWrites op.its (s.commandQBase op.its + 8 * wordsWritten op.its s.writes) (op.queued bits itt rdBase)
        (regs ++ [⟨.other, configAddr op.intId s, op.configByte⟩] ++ s.writes)
  base   : s'.configBase = s.configBase

theorem pollLoop_writes (hu : Unstalled env) (cwriter n k : Nat) (writes : List Write) (s : State) :
    (pollLoop env its cwriter n (env.read k writes (env.itsBase its + armGitsCreadr)) s).writes = s.writes ∧
    (pollLoop env its cwriter n (env.read k writes (env.itsBase its + armGitsCreadr)) s).configBase = s.configBase := by
  induction n generalizing k writes s
  case zero =>
    rw [pollLoop]
    simp only [hu k writes its, ne_eq, not_true_eq_false, if_false]
    split <;> exact ⟨rfl, rfl⟩
  case succ n hi =>
    rw [pollLoop]
    simp only [hu k writes its, ne_eq, not_true_eq_false, if_false]
    split
    · exact ⟨rfl, rfl⟩
    · exact hi _ _ { s with reads := s.reads + 1 }

theorem updateCwriter_writes (hu : Unstalled env) (s : State) :
    (updateCwriter env its s).writes = ⟨.cwriter its, env.itsBase its + armGitsCwriter,
      s.gCwriterPtr its * numBytesInDw % 2 ^ 32⟩ :: s.writes ∧
    (updateCwriter env its s).configBase = s.configBase := by
  simp only [updateCwriter, pollTillCommandQueueDone, mmioRead]
  exact pollLoop_writes hu ..

-- A command is written at the write pointer, which then has moved on.
theorem writeCmdQ_writes {b w₀ w₁ w₂ w₃ : Nat} :
    (writeCmdQ its b w₀ w₁ w₂ w₃ s).writes =
      queueWrites its (b + 8 * s.gCwriterPtr its) [w₀, w₁, w₂, w₃] s.writes := by
  simp [writeCmdQ, mmioWrite, queueWrites, Nat.mul_add, Nat.add_assoc]

theorem writeCmdQ_ptr {b w₀ w₁ w₂ w₃ : Nat} (h : s.gCwriterPtr its + 4 < 2 ^ 32) :
    (writeCmdQ its b w₀ w₁ w₂ w₃ s).gCwriterPtr its = s.gCwriterPtr its + 4 := by
  simp only [writeCmdQ, mmioWrite, itsNextCmdPtr, Function.update_self]
  exact Nat.mod_eq_of_lt h

-- What a step does that writes these words at the write pointer.
structure Commands (its b : Nat) (words : List Nat) (s s' : State) : Prop where
  writes : s'.writes = queueWrites its (b + 8 * s.gCwriterPtr its) words s.writes
  ptr    : s'.gCwriterPtr its = s.gCwriterPtr its + words.length
  base   : s'.configBase = s.configBase

theorem Commands.writeCmdQ (b w₀ w₁ w₂ w₃ : Nat) (h : s.gCwriterPtr its + 4 < 2 ^ 32) :
    Commands its b [w₀, w₁, w₂, w₃] s (writeCmdQ its b w₀ w₁ w₂ w₃ s) :=
  ⟨writeCmdQ_writes, writeCmdQ_ptr h, rfl⟩

-- One more command.
theorem Commands.next {b : Nat} {words : List Nat} (h : Commands its b words s s') (w₀ w₁ w₂ w₃ : Nat)
    (hp : s.gCwriterPtr its + words.length + 4 < 2 ^ 32) :
    Commands its b (words ++ [w₀, w₁, w₂, w₃]) s (Its.writeCmdQ its b w₀ w₁ w₂ w₃ s') where
  writes := by
    rw [writeCmdQ_writes, h.ptr, h.writes, queueWrites_append, Nat.mul_add, Nat.add_assoc]
  ptr    := by
    rw [writeCmdQ_ptr (by rw [h.ptr]; exact hp), h.ptr, List.length_append, Nat.add_assoc]
    rfl
  base   := h.base

-- The commands and the write pointer of one operation, after what it has written before them.
theorem Commands.handOver {words : List Nat} {writes : List Write} (hu : Unstalled env) (hr : Ready env s)
    (hi : its < env.gicNumIts) (hs : s'.writes = writes ++ s.writes) (hp : s'.gCwriterPtr its = s.gCwriterPtr its)
    (hb : s'.configBase = s.configBase) (hn : words.length ≤ 20)
    (h : Commands its (s.commandQBase its) words s' s'') :
    (updateCwriter env its s'').writes = ⟨.cwriter its, env.itsBase its + armGitsCwriter,
        8 * (wordsWritten its s.writes + words.length)⟩ ::
      queueWrites its (s.commandQBase its + 8 * wordsWritten its s.writes) words (writes ++ s.writes) ∧
    (updateCwriter env its s'').configBase = s.configBase := by
  have hroom := hr.room its
  have hq : queueSize = 32768 := rfl
  obtain ⟨hw, hc⟩ := @updateCwriter_writes env its hu s''
  rw [hw, hc, h.writes, h.ptr, hp, hr.ptr hi, hs, h.base, hb, numBytesInDw]
  have hmod : (wordsWritten its s.writes + words.length) * 8 % 2 ^ 32 =
      8 * (wordsWritten its s.writes + words.length) := by
    omega
  rw [hmod]
  exact ⟨rfl, rfl⟩

section

variable {typer : Nat → Nat} {gicrTyper : Nat}
variable (ht : ∀ its k writes, env.read k writes (env.itsBase its + armGitsTyper) = typer its)
variable (hg : ∀ k writes, env.read k writes (env.gicRdBase + armGicrTyper) = gicrTyper)

include ht hg

theorem create_writes (hu : Unstalled env) (hr : Ready env s) (hi : its < env.gicNumIts) (devID intID priority : Nat) :
    Op.Writes env (s.idBits its) (s.ittBase its) (rdBaseFormat env (typer its) gicrTyper)
      (.create its devID intID priority) s (armGicItsCreateLpiMap env its devID intID priority s) := by
  have hroom := hr.ptr_lt hi
  have hrd := @getRDBaseFormat_eq env its (enableITS env its (enableLPIsRD env (setConfigTable intID priority s)))
    (typer its) gicrTyper (ht its) hg
  rw [armGicItsCreateLpiMap, if_neg (by simp [hr.setup])]
  simp only [hrd]
  set s₁ := (getRDBaseFormat env its (enableITS env its (enableLPIsRD env (setConfigTable intID priority s)))).2
  have hk : s₁.gCwriterPtr = s.gCwriterPtr ∧ s₁.idBits = s.idBits ∧ s₁.ittBase = s.ittBase ∧
      s₁.configBase = s.configBase ∧ ∃ v₁ v₂, s₁.writes = [⟨.other, env.itsBase its + armGitsCtlr, v₂⟩,
        ⟨.other, env.gicRdBase + armGicrCtlr, v₁⟩, ⟨.other, configAddr intID s,
          ((priority &&& lpiPriorityMask) ||| lpiEnable) % 2 ^ 8⟩] ++ s.writes := by
    simp only [s₁, getRDBaseFormat]
    split
    · exact ⟨rfl, rfl, rfl, rfl, _, _, rfl⟩
    · exact ⟨rfl, rfl, rfl, rfl, _, _, rfl⟩
  obtain ⟨hptr, hbits, hitt, hbase, v₁, v₂, hw⟩ := hk
  have hp : s₁.gCwriterPtr its = s.gCwriterPtr its := by rw [hptr]
  simp only [hbits, hitt, writeCmdQMAPD, writeCmdQMAPC, writeCmdQMAPI, writeCmdQINV, writeCmdQSYNC]
  have hlen (words : List Nat) (h : words.length ≤ 16) : s₁.gCwriterPtr its + words.length + 4 < 2 ^ 32 := by
    omega
  have hc := Commands.writeCmdQ (s.commandQBase its) (devID <<< itsCmdShiftDevid ||| armItsCmdMapd)
      (s.idBits its) (1 <<< itsCmdShiftValid ||| (s.ittBase its &&& ittParMask)) 0 (hlen [] (by simp))
    |>.next armItsCmdMapc 0
      (1 <<< itsCmdShiftValid ||| rdBaseFormat env (typer its) gicrTyper % 2 ^ 32 ||| 1) 0 (hlen _ (by simp))
    |>.next (devID <<< itsCmdShiftDevid ||| armItsCmdMapi) intID 1 0 (hlen _ (by simp))
    |>.next (devID <<< itsCmdShiftDevid ||| armItsCmdInv) intID 0 0 (hlen _ (by simp))
    |>.next armItsCmdSync 0 (rdBaseFormat env (typer its) gicrTyper % 2 ^ 32) 0 (hlen _ (by simp))
  obtain ⟨hwr, hcb⟩ := hc.handOver hu hr hi hw hp hbase (by simp)
  refine ⟨⟨[⟨.other, env.itsBase its + armGitsCtlr, v₂⟩, ⟨.other, env.gicRdBase + armGicrCtlr, v₁⟩], ?_, hwr⟩, hcb⟩
  intro w hm
  simp only [List.mem_cons, List.not_mem_nil, or_false] at hm
  rcases hm with rfl | rfl
  · exact ⟨rfl, .its hi (by decide) (by decide)⟩
  · exact ⟨rfl, .rd (by decide)⟩

theorem clear_writes (hu : Unstalled env) (hr : Ready env s) (hi : its < env.gicNumIts) (devID intID : Nat) :
    Op.Writes env (s.idBits its) (s.ittBase its) (rdBaseFormat env (typer its) gicrTyper)
      (.clear its devID intID) s (armGicItsClearLpiMappings env its devID intID s) := by
  have hroom := hr.ptr_lt hi
  have hrd := @getRDBaseFormat_eq env its (clearConfigTable intID s) (typer its) gicrTyper (ht its) hg
  rw [armGicItsClearLpiMappings, if_neg (by simp [hr.setup])]
  simp only [hrd]
  set s₁ := (getRDBaseFormat env its (clearConfigTable intID s)).2
  have hk : s₁.gCwriterPtr = s.gCwriterPtr ∧ s₁.configBase = s.configBase ∧
      s₁.writes = [⟨.other, configAddr intID s, lpiDisable⟩] ++ s.writes := by
    simp only [s₁, getRDBaseFormat]
    split
    · exact ⟨rfl, rfl, rfl⟩
    · exact ⟨rfl, rfl, rfl⟩
  obtain ⟨hptr, hbase, hw⟩ := hk
  have hp : s₁.gCwriterPtr its = s.gCwriterPtr its := by rw [hptr]
  simp only [writeCmdQDISCARD, writeCmdQSYNC]
  have hlen (words : List Nat) (h : words.length ≤ 16) : s₁.gCwriterPtr its + words.length + 4 < 2 ^ 32 := by
    omega
  have hc := Commands.writeCmdQ (s.commandQBase its) (devID <<< itsCmdShiftDevid ||| armItsCmdDiscard) intID 0 0
      (hlen [] (by simp))
    |>.next armItsCmdSync 0 (rdBaseFormat env (typer its) gicrTyper % 2 ^ 32) 0 (hlen _ (by simp))
  obtain ⟨hwr, hcb⟩ := hc.handOver hu hr hi hw hp hbase (by simp)
  exact ⟨⟨[], fun _ hm => absurd hm List.not_mem_nil, hwr⟩, hcb⟩

theorem apply_writes (hu : Unstalled env) (hr : Ready env s) (op : Op) (hi : op.its < env.gicNumIts) :
    op.Writes env (s.idBits op.its) (s.ittBase op.its) (rdBaseFormat env (typer op.its) gicrTyper) s
      (op.apply env s) := by
  cases op
  case create its devID intID priority => exact create_writes ht hg hu hr hi devID intID priority
  case clear its devID intID           => exact clear_writes ht hg hu hr hi devID intID

end

-- The writes as the ITS sees them, that has its queue at `q` and its GITS_CWRITER at `reg`: every word of a command
-- follows the one before it, GITS_CWRITER is given what has been written by then, in whole commands, and nothing
-- else is written to either of them.
def Write.Placed (its q reg : Nat) (w : Write) (earlier : List Write) : Prop :=
  match decide (w.purpose = .command its), decide (w.purpose = .cwriter its) with
  | true, _      => w.addr = q + 8 * wordsWritten its earlier ∧ wordsWritten its earlier < queueSize / 8
  | false, true  => w.addr = reg ∧ w.value = 8 * wordsWritten its earlier ∧ 4 ∣ wordsWritten its earlier
  | false, false => w.addr ≠ reg ∧ ¬(q ≤ w.addr ∧ w.addr < q + queueSize)

def Traced (its q reg : Nat) : List Write → Prop
  | []           => True
  | w :: earlier => w.Placed its q reg earlier ∧ Traced its q reg earlier

namespace Traced

variable {q reg : Nat} {w : Write} {writes writes' : List Write}

theorem of_suffix (h : Traced its q reg writes') (hs : writes <:+ writes') : Traced its q reg writes := by
  induction writes'
  case nil => exact List.suffix_nil.mp hs ▸ h
  case cons w writes' hi =>
    rcases List.suffix_cons_iff.mp hs with rfl | hs
    · exact h
    · exact hi h.right hs

theorem wordsWritten_le (h : Traced its q reg writes) : wordsWritten its writes ≤ queueSize / 8 := by
  induction writes
  case nil => exact Nat.zero_le _
  case cons w writes hi =>
    have hle := hi h.right
    by_cases hc : w.purpose = .command its
    case pos =>
      have hp := h.left
      simp only [Write.Placed, hc, decide_true] at hp
      have hw : wordsWritten its (w :: writes) = wordsWritten its writes + 1 := by simp [wordsWritten, hc]
      omega
    case neg =>
      have hw : wordsWritten its (w :: writes) = wordsWritten its writes := by simp [wordsWritten, hc]
      omega

theorem commandWords_length : (commandWords its writes).length = wordsWritten its writes := by
  simp [commandWords, wordsWritten]

-- In memory, the words are where the ITS looks for them.
theorem peek_word (hq : ¬(q ≤ reg ∧ reg < q + queueSize)) (h : Traced its q reg writes) {k : Nat}
    (hk : k < (commandWords its writes).length) : peek writes (q + 8 * k) = (commandWords its writes)[k] := by
  induction writes generalizing k
  case nil => simp [commandWords] at hk
  case cons w writes hi =>
    have hlen : wordsWritten its writes ≤ queueSize / 8 := h.right.wordsWritten_le
    have hqs : queueSize = 32768 := rfl
    by_cases hc : w.purpose = .command its
    case pos =>
      have hp := h.left
      simp only [Write.Placed, hc, decide_true] at hp
      have hcw : commandWords its (w :: writes) = commandWords its writes ++ [w.value] := by simp [commandWords, hc]
      simp only [hcw] at hk ⊢
      simp only [List.length_append, List.length_singleton] at hk
      by_cases hlt : k < (commandWords its writes).length
      case pos =>
        rw [List.getElem_append_left hlt, ← hi h.right hlt]
        refine peek_cons_of_ne ?_
        rw [commandWords_length] at hlt
        omega
      case neg =>
        rw [List.getElem_append_right (Nat.le_of_not_lt hlt), List.getElem_singleton]
        refine peek_cons_self ?_
        rw [commandWords_length] at hlt hk
        rw [hp.left]
        omega
    case neg =>
      have hcw : commandWords its (w :: writes) = commandWords its writes := by simp [commandWords, hc]
      simp only [hcw] at hk ⊢
      rw [← hi h.right hk]
      refine peek_cons_of_ne ?_
      rw [commandWords_length] at hk
      have hp := h.left
      by_cases hw : w.purpose = .cwriter its
      case pos =>
        simp only [Write.Placed, hw, decide_true] at hp
        obtain ⟨ha, _, _⟩ := hp
        omega
      case neg =>
        simp only [Write.Placed, hc, hw, decide_false] at hp
        omega

-- GITS_CWRITER holds the offset of a command that is not beyond what has been written.
theorem cwriter (hq : ¬(q ≤ reg ∧ reg < q + queueSize)) (h : Traced its q reg writes) :
    ∃ m, peek writes reg = 8 * m ∧ 4 ∣ m ∧ m ≤ wordsWritten its writes := by
  induction writes
  case nil => exact ⟨0, rfl, Nat.dvd_zero 4, Nat.le_refl 0⟩
  case cons w writes hi =>
    obtain ⟨m, hm, hd, hle⟩ := hi h.right
    have hp := h.left
    by_cases hc : w.purpose = .command its
    case pos =>
      simp only [Write.Placed, hc, decide_true] at hp
      have hw : wordsWritten its (w :: writes) = wordsWritten its writes + 1 := by simp [wordsWritten, hc]
      have hqs : queueSize = 32768 := rfl
      exact ⟨m, (peek_cons_of_ne (by omega)).trans hm, hd, by omega⟩
    case neg =>
      have hw : wordsWritten its (w :: writes) = wordsWritten its writes := by simp [wordsWritten, hc]
      by_cases hcw : w.purpose = .cwriter its
      case pos =>
        simp only [Write.Placed, hcw, decide_true] at hp
        obtain ⟨ha, hv, hdv⟩ := hp
        exact ⟨wordsWritten its writes, (peek_cons_self ha).trans hv, hdv, hw.ge⟩
      case neg =>
        simp only [Write.Placed, hc, hcw, decide_false] at hp
        exact ⟨m, (peek_cons_of_ne hp.left).trans hm, hd, by omega⟩

-- Just after a write of GITS_CWRITER, everything has been handed over.
theorem cwriter_head (hw : w.purpose = .cwriter its) (h : Traced its q reg (w :: writes)) :
    peek (w :: writes) reg = 8 * wordsWritten its (w :: writes) ∧ 4 ∣ wordsWritten its (w :: writes) := by
  have hp := h.left
  simp only [Write.Placed, hw, decide_true] at hp
  obtain ⟨ha, hv, hd⟩ := hp
  have he : wordsWritten its (w :: writes) = wordsWritten its writes := by simp [wordsWritten, hw]
  rw [he]
  exact ⟨(peek_cons_self ha).trans hv, hd⟩

end Traced

section Lawful

variable {all : List Write}

def cwriterAddr (env : Env) (its : Nat) : Nat :=
  env.itsBase its + armGitsCwriter

theorem commandWords_cons {w : Write} {writes : List Write} :
    commandWords its (w :: writes) = commandWords its writes ++ if w.purpose = .command its then [w.value] else [] := by
  by_cases hc : w.purpose = .command its
  case pos => simp [commandWords, hc]
  case neg => simp [commandWords, hc]

theorem handedOver_eq {writes : List Write} {m : Nat} (hm : peek writes (cwriterAddr env its) = 8 * m) (hd : 4 ∣ m)
    (hl : m ≤ queueSize / 8) : handedOver env its writes = m / 4 ∧ 4 * (m / 4) = m := by
  have hqs : queueSize = 32768 := rfl
  refine ⟨?_, by omega⟩
  rw [handedOver]
  rw [cwriterAddr] at hm
  rw [hm, field_eq]
  omega

-- However the code and the ITS take turns, the ITS finds the commands that have been handed over, as they have been
-- written.
theorem gitsFeed_lawful (hq : ¬(s.commandQBase its ≤ cwriterAddr env its ∧
      cwriterAddr env its < s.commandQBase its + queueSize))
    (ht : Traced its (s.commandQBase its) (cwriterAddr env its) all) :
    (gitsFeed env s its all).Lawful (· <:+ all) := by
  have handed {writes : List Write} (hs : writes <:+ all) : ∃ m, peek writes (cwriterAddr env its) = 8 * m ∧
      handedOver env its writes = m / 4 ∧ 4 * (m / 4) = m ∧ m ≤ wordsWritten its writes := by
    have htr := ht.of_suffix hs
    obtain ⟨m, hm, hd, hle⟩ := htr.cwriter hq
    obtain ⟨he, hmul⟩ := handedOver_eq hm hd (hle.trans htr.wordsWritten_le)
    exact ⟨m, hm, he, hmul, hle⟩
  refine ⟨?inv, ?grows, ?mono, ?bounded, ?fetch⟩
  case inv =>
    rintro writes writes' _ ⟨w, rfl, hs⟩
    exact hs
  case grows =>
    rintro writes writes' _ ⟨w, rfl, _⟩
    simp only [gitsFeed, commandWords_cons]
    exact wholeCommands_prefix
  case mono =>
    rintro writes writes' hs ⟨w, rfl, hs'⟩
    obtain ⟨m, hm, he, _, hle⟩ := handed hs
    obtain ⟨m', hm', he', _, _⟩ := handed hs'
    simp only [gitsFeed, he, he']
    have hp := (ht.of_suffix hs').left
    by_cases hw : w.purpose = .cwriter its
    case pos =>
      have hh := ((ht.of_suffix hs').cwriter_head hw).left
      have hwords : wordsWritten its (w :: writes) = wordsWritten its writes := by simp [wordsWritten, hw]
      omega
    case neg =>
      have hne : w.addr ≠ cwriterAddr env its := by
        have hqs : queueSize = 32768 := rfl
        by_cases hc : w.purpose = .command its
        case pos =>
          simp only [Write.Placed, hc, decide_true] at hp
          omega
        case neg =>
          simp only [Write.Placed, hc, hw, decide_false] at hp
          exact hp.left
      rw [peek_cons_of_ne hne, hm] at hm'
      omega
  case bounded =>
    intro writes hs
    obtain ⟨m, _, he, _, hle⟩ := handed hs
    simp only [gitsFeed, he, wholeCommands_length, Traced.commandWords_length]
    omega
  case fetch =>
    intro writes n hs hn
    obtain ⟨m, _, he, _, hle⟩ := handed hs
    simp only [gitsFeed, he] at hn ⊢
    have hlt : 4 * n + 3 < (commandWords its writes).length := by
      rw [Traced.commandWords_length]
      omega
    have hword (k : Nat) (hk : 4 * n + k < (commandWords its writes).length) :
        peek writes (s.commandQBase its + 32 * n + 8 * k) = (commandWords its writes)[4 * n + k] := by
      rw [← (ht.of_suffix hs).peek_word hq]
      congr 1
      omega
    rw [wholeCommands_get hlt]
    simp only [fetchCommand]
    rw [hword 0 (by omega), hword 1 (by omega), hword 2 (by omega)]
    rfl

end Lawful

-- The writes of a run are placed as the ITS needs them.

section Run

variable {q reg : Nat} {writes : List Write}

theorem traced_cons_other {w : Write} (hc : w.purpose ≠ .command its) (hw : w.purpose ≠ .cwriter its)
    (hreg : w.addr ≠ reg) (ha : ¬(q ≤ w.addr ∧ w.addr < q + queueSize)) (h : Traced its q reg writes) :
    Traced its q reg (w :: writes) := by
  refine ⟨?_, h⟩
  simp only [Write.Placed, hc, hw, decide_false]
  exact ⟨hreg, ha⟩

theorem traced_append_other {regs : List Write} (hr : ∀ w ∈ regs, w.purpose = .other ∧ w.addr ≠ reg ∧
    ¬(q ≤ w.addr ∧ w.addr < q + queueSize)) (h : Traced its q reg writes) : Traced its q reg (regs ++ writes) := by
  induction regs
  case nil => exact h
  case cons w regs hi =>
    obtain ⟨hp, hreg, ha⟩ := hr w List.mem_cons_self
    rw [List.cons_append]
    exact traced_cons_other (by simp [hp]) (by simp [hp]) hreg ha (hi fun w hw => hr w (List.mem_cons_of_mem _ hw))

-- The commands of the ITS itself.
theorem traced_queueWrites {words : List Nat} {addr : Nat} (ha : addr = q + 8 * wordsWritten its writes)
    (hroom : wordsWritten its writes + words.length ≤ queueSize / 8) (h : Traced its q reg writes) :
    Traced its q reg (queueWrites its addr words writes) := by
  induction words generalizing addr writes
  case nil => exact h
  case cons w words hi =>
    simp only [List.length_cons] at hroom
    have hw : wordsWritten its (⟨.command its, addr, w⟩ :: writes) = wordsWritten its writes + 1 := by
      simp [wordsWritten]
    refine hi (by rw [hw]; omega) (by rw [hw]; omega) ⟨?_, h⟩
    simp only [Write.Placed, decide_true]
    exact ⟨ha, by omega⟩

-- The commands of another one.
theorem traced_queueWrites_other {words : List Nat} {addr k : Nat} (hk : k ≠ its)
    (ha : ∀ a, addr ≤ a → a < addr + 8 * words.length → a ≠ reg ∧ ¬(q ≤ a ∧ a < q + queueSize))
    (h : Traced its q reg writes) : Traced its q reg (queueWrites k addr words writes) := by
  induction words generalizing addr writes
  case nil => exact h
  case cons w words hi =>
    simp only [List.length_cons] at ha
    obtain ⟨hreg, hout⟩ := ha addr (Nat.le_refl _) (by omega)
    refine hi (fun a h₁ h₂ => ha a (by omega) (by omega)) (traced_cons_other ?_ (by simp) hreg hout h)
    simpa using hk

end Run

-- The configuration writes registers alone.

def Registers (env : Env) (s : State) : Prop :=
  ∀ w ∈ s.writes, w.purpose = .other ∧ OtherRegister env w.addr

namespace Registers

theorem mmioWrite {addr value : Nat} (ha : OtherRegister env addr) (h : Registers env s) :
    Registers env (mmioWrite .other addr value s) := by
  intro w hw
  rcases List.mem_cons.mp hw with rfl | hw
  · exact ⟨rfl, ha⟩
  · exact h w hw

theorem congr (h : Registers env s) (hw : s'.writes = s.writes) : Registers env s' :=
  fun w hm => h w (hw ▸ hm)

theorem setInitialConfiguration (h : Registers env s) : Registers env (setInitialConfiguration env its s).2 := by
  simp only [Its.setInitialConfiguration]
  split
  · exact h.congr rfl
  · exact mmioWrite (.rd (by decide)) (h.congr rfl)

theorem redistributorConfiguration (h : Registers env s) :
    Registers env (armGicRedistributorConfigurationForLPI env s).2 := by
  have hc : Registers env (armGicSetItsConfigTableBase env s).2 := by
    simp only [armGicSetItsConfigTableBase]
    split
    · exact h.congr rfl
    · refine congr (mmioWrite (.rd (by decide)) ?_) rfl
      exact h.congr rfl
  rw [armGicRedistributorConfigurationForLPI]
  split
  case h_2 => exact hc
  case h_1 s₁ he =>
    rw [he] at hc
    simp only [armGicSetItsPendingTableBase]
    split
    · exact hc.congr rfl
    · exact mmioWrite (.rd (by decide)) (hc.congr rfl)

theorem setItsTablesLoop (hi : its < env.gicNumIts) (n it : Nat) (hn : it + n ≤ armNumGitsBaser)
    (h : Registers env s) : Registers env (setItsTablesLoop env its n it s).2 := by
  induction n generalizing it s
  case zero => exact h
  case succ n ih =>
    have hoff : armGitsBaser it < 2 ^ 16 ∧ armGitsBaser it ≠ armGitsCwriter := by
      simp only [armNumGitsBaser, armGitsBaser, armGitsCwriter] at *
      omega
    simp only [Its.setItsTablesLoop]
    split
    · split
      · exact h.congr rfl
      · exact ih (it + 1) (by omega) (mmioWrite (.its hi hoff.left hoff.right) (h.congr rfl))
    · exact ih (it + 1) (by omega) (h.congr rfl)

theorem setQueueAndTables (hi : its < env.gicNumIts) (h : Registers env s) :
    Registers env (setQueueAndTables env its s).2 := by
  have hq : Registers env (armGicSetItsCommandQueueBase env its s).2 := by
    simp only [armGicSetItsCommandQueueBase]
    split
    · exact h.congr rfl
    · exact mmioWrite (.its hi (by decide) (by decide)) (h.congr rfl)
  rw [Its.setQueueAndTables]
  split
  case h_2 => exact hq
  case h_1 s₁ he =>
    rw [he] at hq
    have ht := setItsTablesLoop hi armNumGitsBaser 0 (by decide) hq
    rw [armGicSetItsTables]
    split
    case h_2 => exact ht
    case h_1 s₂ he =>
      rw [he] at ht
      simp only
      split
      · exact ht.congr rfl
      · exact ht.congr rfl

theorem configuration {s₀ : State} (h₀ : s₀.writes = []) (h : armGicItsConfiguration env s₀ = (.success, s)) :
    Registers env s := by
  have hn : Registers env s₀ := by
    intro w hw
    rw [h₀] at hw
    exact absurd hw List.not_mem_nil
  simp only [armGicItsConfiguration] at h
  split at h
  case isTrue => cases h
  case isFalse =>
    split at h
    case h_2 hne => exact absurd h (hne _)
    case h_1 s₁ he₁ =>
      have h₁ : Registers env s₁ := by
        refine forEachIts_invariant (P := fun _ s => Registers env s) ?_ ?_ he₁
        · intro its s s' _ hs he
          have := @setInitialConfiguration env its s hs
          rwa [he] at this
        · exact hn.congr rfl
      split at h
      case h_2 hne => exact absurd h (hne _)
      case h_1 s₂ he₂ =>
        have h₂ : Registers env s₂ := by
          have := h₁.redistributorConfiguration
          rwa [he₂] at this
        split at h
        case h_2 hne => exact absurd h (hne _)
        case h_1 s₃ he₃ =>
          have h₃ : 0 + env.gicNumIts ≤ env.gicNumIts → Registers env s₃ := by
            refine forEachIts_invariant (P := fun n s => n ≤ env.gicNumIts → Registers env s) ?_ (fun _ => h₂) he₃
            intro its s s' _ hs he hle
            have := (hs (by omega)).setQueueAndTables (show its < env.gicNumIts by omega)
            rwa [he] at this
          cases h
          exact (h₃ (by omega)).congr rfl

end Registers

section Peek

variable {words : List Nat} {writes regs : List Write} {addr x : Nat}

theorem peek_queueWrites_of_ne (h : ∀ a, addr ≤ a → a < addr + 8 * words.length → a ≠ x) :
    peek (queueWrites its addr words writes) x = peek writes x := by
  induction words generalizing addr writes
  case nil => rfl
  case cons w words hi =>
    simp only [List.length_cons] at h
    rw [queueWrites, hi fun a h₁ h₂ => h a (by omega) (by omega)]
    exact peek_cons_of_ne (h addr (Nat.le_refl _) (by omega))

theorem peek_append_of_ne (h : ∀ w ∈ regs, w.addr ≠ x) : peek (regs ++ writes) x = peek writes x := by
  induction regs
  case nil => rfl
  case cons w regs hi =>
    rw [List.cons_append, peek_cons_of_ne (h w List.mem_cons_self)]
    exact hi fun w hw => h w (List.mem_cons_of_mem _ hw)

end Peek

section Other

variable {regs writes : List Write} (h : ∀ w ∈ regs, w.purpose = .other)

include h

theorem filter_append_other : (regs ++ writes).filter (·.purpose = .command its) =
    writes.filter (·.purpose = .command its) := by
  have hn : regs.filter (·.purpose = .command its) = [] := by
    rw [List.filter_eq_nil_iff]
    intro w hw
    simp [h w hw]
  rw [List.filter_append, hn, List.nil_append]

theorem wordsWritten_append_other : wordsWritten its (regs ++ writes) = wordsWritten its writes := by
  rw [wordsWritten, filter_append_other h, wordsWritten]

theorem commandWords_append_other : commandWords its (regs ++ writes) = commandWords its writes := by
  rw [commandWords, filter_append_other h, commandWords]

end Other

-- The state after the first operations `ops` of `all`.
structure Tracks (env : Env) (s : State) (typer : Nat → Nat) (gicrTyper : Nat) (all ops : List Op) (t : State) :
    Prop where
  ready  : Ready env t
  base   : t.commandQBase = s.commandQBase
  keeps  : Keeps s t
  config : t.configBase = s.configBase
  traced {its : Nat} : its < env.gicNumIts → Traced its (s.commandQBase its) (cwriterAddr env its) t.writes
  words (its : Nat) : commandWords its t.writes = (ops.filter (·.its = its)).flatMap
    (Op.queued (s.idBits its) (s.ittBase its) (rdBaseFormat env (typer its) gicrTyper))
  handed {its : Nat} : its < env.gicNumIts → peek t.writes (cwriterAddr env its) = 8 * wordsWritten its t.writes
  bytes (its bits : Nat) {op : Op} : op ∈ all → lpiEnabled s t.writes op.intId = (routes its bits ops).enabled op.intId

theorem configAddr_inj {i j : Nat} (hi : i < 2 ^ 32) (hj : j < 2 ^ 32) :
    configAddr i s = configAddr j s ↔ i = j := by
  simp only [configAddr, armLpiMinid]
  omega

theorem configAddr_congr {i : Nat} (h : s'.configBase = s.configBase) : configAddr i s' = configAddr i s := by
  rw [configAddr, configAddr, h]

theorem routes_append {bits : Nat} {ops : List Op} {op : Op} :
    routes its bits (ops ++ [op]) = (routes its bits ops).apply its bits op := by
  simp [routes]

theorem enabled_apply {bits : Nat} {r : Routes} {op : Op} :
    (r.apply its bits op).enabled = Function.update r.enabled op.intId op.creates := by
  cases op <;> simp only [Routes.apply] <;> split <;> rfl

section Tracks

variable {typer : Nat → Nat} {gicrTyper : Nat} {all ops : List Op} {s₀ t : State}

theorem peek_registers {addr : Nat} (hr : Registers env s) (ha : ¬OtherRegister env addr) : peek s.writes addr = 0 := by
  have hn : s.writes.find? (·.addr = addr) = none := by
    rw [List.find?_eq_none]
    intro w hw he
    exact ha (of_decide_eq_true he ▸ (hr w hw).right)
  rw [peek, hn]
  rfl

namespace Tracks

theorem start (h₀ : s₀.writes = []) (hc : armGicItsConfiguration env s₀ = (.success, s)) (hap : Apart env s all) :
    Tracks env s typer gicrTyper all [] s := by
  obtain ⟨hready, hwords, _⟩ := configuration_ready h₀ hc
  have hr := Registers.configuration h₀ hc
  refine ⟨hready, rfl, .refl s, rfl, ?traced, ?words, ?handed, ?bytes⟩
  case traced =>
    intro its hi
    rw [← List.append_nil s.writes]
    refine traced_append_other ?_ trivial
    intro w hw
    obtain ⟨hp, ha⟩ := hr w hw
    exact ⟨hp, hap.registers ha hi, hap.queue (.inl ha) hi⟩
  case words =>
    intro its
    rw [List.filter_nil, List.flatMap_nil, ← List.length_eq_zero_iff, Traced.commandWords_length]
    exact hwords its
  case handed =>
    intro its hi
    rw [hwords its]
    exact peek_registers hr fun ha => hap.registers ha hi rfl
  case bytes =>
    intro its bits op hop
    rw [lpiEnabled, peek_registers hr (hap.bytes hop).left]
    rfl

variable (ht : ∀ its k writes, env.read k writes (env.itsBase its + armGitsTyper) = typer its)
variable (hg : ∀ k writes, env.read k writes (env.gicRdBase + armGicrTyper) = gicrTyper)

include ht hg

theorem apply (hu : Unstalled env) (hap : Apart env s all) (hv : ∀ op ∈ all, op.Valid env)
    (h : Tracks env s typer gicrTyper all ops t) {op : Op} (hop : op ∈ all)
    (hroom : wordsWritten op.its t.writes + op.words < queueSize / 8) :
    Tracks env s typer gicrTyper all (ops ++ [op]) (op.apply env t) := by
  have hi := (hv op hop).its
  have hqs : queueSize = 32768 := rfl
  obtain ⟨hbase, hwords, _, hready⟩ := apply_spec hu h.ready op hi
  obtain ⟨⟨regs, hregs, hw⟩, hconfig⟩ := apply_writes ht hg hu h.ready op hi
  rw [h.base, configAddr_congr h.config, h.keeps.idBits, h.keeps.ittBase] at hw
  -- The writes before the commands.
  have hout {its : Nat} (hi : its < env.gicNumIts) : ∀ w ∈ regs ++ [⟨.other, configAddr op.intId s, op.configByte⟩],
      w.purpose = .other ∧ w.addr ≠ cwriterAddr env its ∧
        ¬(s.commandQBase its ≤ w.addr ∧ w.addr < s.commandQBase its + queueSize) := by
    intro w hm
    rcases List.mem_append.mp hm with hm | hm
    · obtain ⟨hp, ha⟩ := hregs w hm
      exact ⟨hp, hap.registers ha hi, hap.queue (.inl ha) hi⟩
    · rw [List.mem_singleton.mp hm]
      exact ⟨rfl, (hap.bytes hop).right its hi, hap.config hop hi⟩
  have hother : ∀ w ∈ regs ++ [⟨.other, configAddr op.intId s, op.configByte⟩], w.purpose = .other :=
    fun w hm => (hout hi w hm).left
  -- The queue of an ITS has no address of another one, nor of the byte of an interrupt.
  have hrange {a : Nat} (h₁ : s.commandQBase op.its + 8 * wordsWritten op.its t.writes ≤ a)
      (h₂ : a < s.commandQBase op.its + 8 * wordsWritten op.its t.writes +
        8 * (op.queued (s.idBits op.its) (s.ittBase op.its) (rdBaseFormat env (typer op.its) gicrTyper)).length) :
      s.commandQBase op.its ≤ a ∧ a < s.commandQBase op.its + queueSize := by
    rw [Op.queued_length] at h₂
    omega
  refine ⟨hready hroom, hbase.trans h.base, h.keeps.trans (apply_keeps op t), hconfig.trans h.config, ?traced, ?words,
    ?handed, ?bytes⟩
  case traced =>
    intro its hits
    have hbefore := traced_append_other (hout hits) (h.traced hits)
    rw [hw]
    by_cases hk : op.its = its
    case pos =>
      subst hk
      refine ⟨?_, traced_queueWrites (by rw [wordsWritten_append_other hother])
        (by rw [wordsWritten_append_other hother, Op.queued_length]; omega) hbefore⟩
      simp only [Write.Placed, reduceCtorEq, decide_false, decide_true, wordsWritten_queueWrites, if_true,
        wordsWritten_append_other hother, Op.queued_length]
      exact ⟨rfl, trivial, Nat.dvd_add (h.ready.whole hi) Op.words_dvd⟩
    case neg =>
      have hc : ¬(s.commandQBase its ≤ env.itsBase op.its + armGitsCwriter ∧
          env.itsBase op.its + armGitsCwriter < s.commandQBase its + queueSize) :=
        hap.queue (.inr ⟨op.its, hi, rfl⟩) hits
      refine traced_cons_other (by simp) (by simpa using hk) ?_ hc (traced_queueWrites_other hk ?_ hbefore)
      · have := hap.cwriters hi hits hk
        simp only [cwriterAddr]
        omega
      · intro a h₁ h₂
        obtain ⟨hle, hlt⟩ := hrange h₁ h₂
        refine ⟨?_, ?_⟩
        · rintro rfl
          exact hap.queue (.inr ⟨its, hits, rfl⟩) hi ⟨hle, hlt⟩
        · have := hap.queues hi hits hk
          omega
  case words =>
    intro its
    rw [hw, commandWords_cons, if_neg (by simp), List.append_nil, commandWords_queueWrites,
      commandWords_append_other hother, h.words its, List.filter_append, List.flatMap_append]
    by_cases hk : op.its = its
    case pos =>
      subst hk
      simp
    case neg =>
      have hk' : its ≠ op.its := fun he => hk he.symm
      simp [hk, hk']
  case handed =>
    intro its hits
    rw [hwords, hw]
    by_cases hk : op.its = its
    case pos =>
      subst hk
      rw [cwriterAddr, peek_cons_self rfl, if_pos rfl]
    case neg =>
      have hk' : its ≠ op.its := fun he => hk he.symm
      have hne := hap.cwriters hi hits hk
      rw [if_neg hk', Nat.add_zero, peek_cons_of_ne (by simp only [cwriterAddr]; omega), peek_queueWrites_of_ne,
        peek_append_of_ne fun w hm => (hout hits w hm).right.left, h.handed hits]
      rintro a h₁ h₂ rfl
      exact hap.queue (.inr ⟨its, hits, rfl⟩) hi (hrange h₁ h₂)
  case bytes =>
    intro its bits op' hop'
    have hc : env.itsBase op.its + armGitsCwriter ≠ configAddr op'.intId s :=
      fun he => (hap.bytes hop').right op.its hi he.symm
    rw [lpiEnabled, hw, peek_cons_of_ne hc, peek_queueWrites_of_ne, List.append_assoc, peek_append_of_ne,
      routes_append, enabled_apply, List.singleton_append]
    · by_cases he : op.intId = op'.intId
      case pos =>
        have hself : peek (⟨.other, configAddr op.intId s, op.configByte⟩ :: t.writes) (configAddr op.intId s) =
            op.configByte := peek_cons_self (Eq.refl (configAddr op.intId s))
        rw [← he, hself, Function.update_self, Op.configByte_testBit]
      case neg =>
        have hne : peek (⟨.other, configAddr op.intId s, op.configByte⟩ :: t.writes) (configAddr op'.intId s) =
            peek t.writes (configAddr op'.intId s) := by
          refine peek_cons_of_ne ?_
          rw [ne_eq, configAddr_inj (hv op hop).intId (hv op' hop').intId]
          exact he
        rw [hne, Function.update_of_ne fun h => he h.symm, ← h.bytes its bits hop', lpiEnabled]
    · intro w hm he
      refine (hap.bytes hop').left ?_
      rw [← he]
      exact (hregs w hm).right
    · intro a h₁ h₂ he
      refine hap.config hop' hi ?_
      rw [← he]
      exact hrange h₁ h₂

-- Every run that leaves room in the queues.
theorem run (hu : Unstalled env) (hap : Apart env s all) (hv : ∀ op ∈ all, op.Valid env)
    (h : Tracks env s typer gicrTyper all ops t) {rest : List Op} (hall : ops ++ rest = all)
    (hroom : ∀ its, wordsWritten its t.writes + used its rest < queueSize / 8) :
    Tracks env s typer gicrTyper all all (Its.run env rest t) := by
  induction rest generalizing ops t
  case nil =>
    rw [List.append_nil] at hall
    rw [hall] at h
    exact h
  case cons op rest hi =>
    have hop : op ∈ all := hall ▸ List.mem_append_right ops List.mem_cons_self
    have hr := hroom op.its
    rw [used_cons, if_pos rfl] at hr
    have hnext := h.apply ht hg hu hap hv hop (by omega)
    refine hi hnext (by rw [List.append_assoc, List.singleton_append, hall]) fun its => ?_
    obtain ⟨_, hwords, _⟩ := apply_spec hu h.ready op (hv op hop).its
    have := hroom its
    rw [used_cons] at this
    rw [hwords]
    omega

end Tracks

end Tracks

end Its
