import BsaAcs.Gic.Its
import Mathlib.Tactic

namespace Its

def queueSize : Nat := numPages8 * size4KB

def wordsWritten (its : Nat) (writes : List Write) : Nat :=
  (writes.filter (·.purpose = .command its)).length

-- A command word lies in the queue of its ITS; GITS_CWRITER is given the offset at which the next
-- command of the ITS belongs.
def Write.Ok (base : Nat → Nat) (w : Write) (earlier : List Write) : Prop :=
  match w.purpose with
  | .command its => base its ≤ w.addr ∧ w.addr + 8 ≤ base its + queueSize
  | .cwriter its =>
    w.value = 8 * wordsWritten its earlier % queueSize ∧ 32 ∣ w.value ∧ w.value < queueSize
  | .other => True

-- Every write of a run, against the writes before it.
def InBounds (base : Nat → Nat) : List Write → Prop
  | [] => True
  | w :: earlier => w.Ok base earlier ∧ InBounds base earlier

-- The ITS never reports a stalled command.
def Unstalled (env : Env) : Prop :=
  ∀ k writes its, env.read k writes (env.itsBase its + armGitsCreadr) &&& armGitsCreadrStall = 0

def Op.words : Op → Nat
  | create .. => 5 * itsNextCmdPtr
  | clear .. => 2 * itsNextCmdPtr

-- The words that a list of operations needs in the queue of an ITS.
def used (its : Nat) (ops : List Op) : Nat :=
  (ops.map fun op => if op.its = its then op.words else 0).sum

theorem InBounds.of_suffix {base : Nat → Nat} (h : InBounds base l') (hs : l <:+ l') :
    InBounds base l := by
  induction l'
  case nil => exact List.suffix_nil.mp hs ▸ h
  case cons w l' hi =>
    rcases List.suffix_cons_iff.mp hs with rfl | hs
    · exact h
    · exact hi h.right hs

-- What a step that only writes `n` words for one ITS does.
structure Emits (its n : Nat) (s s' : State) : Prop where
  setup  : s'.gItsSetupDone = s.gItsSetupDone
  base   : s'.commandQBase = s.commandQBase
  ptr    : s'.gCwriterPtr = Function.update s.gCwriterPtr its (s.gCwriterPtr its + n)
  words  : wordsWritten k s'.writes = wordsWritten k s.writes + if k = its then n else 0
  suffix : s.writes <:+ s'.writes
  bounds : InBounds s.commandQBase s'.writes ↔
    InBounds s.commandQBase s.writes ∧ (n = 0 ∨ 8 * (s.gCwriterPtr its + n) ≤ queueSize)

variable {env : Env} {s s' s'' : State}

namespace Emits

theorem refl (its : Nat) (s : State) : Emits its 0 s s where
  setup  := rfl
  base   := rfl
  ptr    := by simp
  words  := by simp
  suffix := List.suffix_rfl
  bounds := by simp

theorem trans (h₁ : Emits its n s s') (h₂ : Emits its k s' s'') : Emits its (n + k) s s'' where
  setup  := h₂.setup.trans h₁.setup
  base   := h₂.base.trans h₁.base
  ptr    := by rw [h₂.ptr, h₁.ptr]; simp [Nat.add_assoc]
  words  := by
    intro i
    rw [h₂.words, h₁.words]
    split <;> omega
  suffix := h₁.suffix.trans h₂.suffix
  bounds := by
    have hb := h₂.bounds
    rw [h₁.base, h₁.bounds, h₁.ptr, Function.update_self] at hb
    rw [hb, and_assoc, and_congr_right_iff]
    intro _
    omega

-- A write that is neither a command nor the write pointer of an ITS.
theorem mmioWrite (its addr value : Nat) (s : State) :
    Emits its 0 s (mmioWrite .other addr value s) where
  setup  := rfl
  base   := rfl
  ptr    := by simp [Its.mmioWrite]
  words  := by simp [Its.mmioWrite, wordsWritten]
  suffix := List.suffix_cons ..
  bounds := by simp [Its.mmioWrite, InBounds, Write.Ok]

theorem mmioRead (env : Env) (its addr : Nat) (s : State) : Emits its 0 s (mmioRead env addr s).2 where
  setup  := rfl
  base   := rfl
  ptr    := by simp [Its.mmioRead]
  words  := by simp [Its.mmioRead]
  suffix := List.suffix_rfl
  bounds := by simp [Its.mmioRead]

theorem writeCmdQ (hp : s.gCwriterPtr its + 4 < 2 ^ 32) (hb : s.commandQBase its = b) :
    Emits its 4 s (writeCmdQ its b w₀ w₁ w₂ w₃ s) where
  setup  := rfl
  base   := rfl
  ptr    := by
    simp only [Its.writeCmdQ, Its.mmioWrite, itsNextCmdPtr]
    rw [Nat.mod_eq_of_lt hp]
  words  := by
    intro k
    by_cases h : its = k
    · simp [Its.writeCmdQ, Its.mmioWrite, wordsWritten, h]
    · have h' : ¬k = its := fun hc => h hc.symm
      simp [Its.writeCmdQ, Its.mmioWrite, wordsWritten, h, h']
  suffix := by
    simp only [Its.writeCmdQ, Its.mmioWrite]
    exact ⟨[_, _, _, _], rfl⟩
  bounds := by
    simp only [Its.writeCmdQ, Its.mmioWrite, InBounds, Write.Ok, hb]
    constructor
    · rintro ⟨⟨_, h⟩, _, _, _, hall⟩
      exact ⟨hall, by omega⟩
    · rintro ⟨hall, h⟩
      have h : 8 * (s.gCwriterPtr its + 4) ≤ queueSize := by omega
      refine ⟨?_, ?_, ?_, ?_, hall⟩ <;> omega

theorem setBits (its addr bits : Nat) (s : State) : Emits its 0 s (setBits env addr bits s) :=
  (mmioRead env its addr s).trans (mmioWrite its ..)

theorem getRDBaseFormat (its : Nat) (s : State) : Emits its 0 s (getRDBaseFormat env its s).2 := by
  have h := mmioRead env its (env.itsBase its + armGitsTyper) s
  simp only [Its.getRDBaseFormat]
  split
  · exact h
  · exact h.trans (mmioRead env its (env.gicRdBase + armGicrTyper) _)

theorem pollLoop (hu : Unstalled env) (n : Nat) (k : Nat) (writes : List Write) (s : State) :
    Emits its 0 s (pollLoop env its cwriter n (env.read k writes (env.itsBase its + armGitsCreadr)) s) := by
  induction n generalizing k writes s
  case zero =>
    rw [Its.pollLoop]
    simp only [hu k writes its, ne_eq, not_true_eq_false, if_false]
    split <;> exact refl its s
  case succ n hi =>
    rw [Its.pollLoop]
    simp only [hu k writes its, ne_eq, not_true_eq_false, if_false]
    split
    · exact refl its s
    · exact (mmioRead env its (env.itsBase its + armGitsCreadr) s).trans (hi ..)

theorem pollTillCommandQueueDone (hu : Unstalled env) (its : Nat) (s : State) :
    Emits its 0 s (pollTillCommandQueueDone env its s) :=
  (mmioRead env its (env.itsBase its + armGitsCwriter) s).trans
    ((mmioRead env its (env.itsBase its + armGitsCreadr) _).trans (pollLoop hu ..))

end Emits

-- The state between two operations: the write pointers count the words written so far, in whole
-- commands, and no queue has been filled.
structure Ready (env : Env) (s : State) : Prop where
  setup : s.gItsSetupDone = true
  ptr   : its < env.gicNumIts → s.gCwriterPtr its = wordsWritten its s.writes
  whole : its < env.gicNumIts → 4 ∣ wordsWritten its s.writes
  room  : ∀ its, wordsWritten its s.writes < queueSize / 8

-- Handing over the commands adds the write of GITS_CWRITER and nothing else.
theorem updateCwriter_spec (hu : Unstalled env) (hp : s.gCwriterPtr its = wordsWritten its s.writes)
    (hw : 4 ∣ wordsWritten its s.writes) (hl : wordsWritten its s.writes < 2 ^ 16) :
    (updateCwriter env its s).gItsSetupDone = s.gItsSetupDone ∧
    (updateCwriter env its s).commandQBase = s.commandQBase ∧
    (updateCwriter env its s).gCwriterPtr = s.gCwriterPtr ∧
    (∀ k, wordsWritten k (updateCwriter env its s).writes = wordsWritten k s.writes) ∧
    s.writes <:+ (updateCwriter env its s).writes ∧
    (InBounds s.commandQBase (updateCwriter env its s).writes ↔
      InBounds s.commandQBase s.writes ∧ wordsWritten its s.writes < queueSize / 8) := by
  have hv : s.gCwriterPtr its * numBytesInDw % 2 ^ 32 = 8 * wordsWritten its s.writes := by
    rw [hp, numBytesInDw]
    omega
  have h := Emits.pollTillCommandQueueDone hu its (mmioWrite (.cwriter its)
    (env.itsBase its + armGitsCwriter) (s.gCwriterPtr its * numBytesInDw % 2 ^ 32) s)
  refine ⟨h.setup, h.base, ?_, fun k => ?_, (List.suffix_cons ..).trans h.suffix, ?_⟩
  · rw [updateCwriter, h.ptr]
    simp [mmioWrite]
  · rw [updateCwriter, h.words]
    simp [mmioWrite, wordsWritten]
  · have hb := h.bounds
    simp only [mmioWrite, InBounds, Write.Ok, hv, true_or, and_true] at hb
    simp only [updateCwriter, mmioWrite, hv]
    rw [hb, and_comm, and_congr_right_iff]
    intro _
    simp only [queueSize, numPages8, size4KB]
    omega

-- One operation that emits `n` words and hands them over.
theorem Ready.emit (hu : Unstalled env) (hr : Ready env s) (hi : its < env.gicNumIts) (hn : 4 ∣ n)
    (hn' : n ≤ 20) (he : Emits its n s s') (hpos : 0 < n) :
    s.writes <:+ (updateCwriter env its s').writes ∧
    (updateCwriter env its s').commandQBase = s.commandQBase ∧
    (∀ k, wordsWritten k (updateCwriter env its s').writes =
      wordsWritten k s.writes + if k = its then n else 0) ∧
    (InBounds s.commandQBase (updateCwriter env its s').writes ↔
      InBounds s.commandQBase s.writes ∧ wordsWritten its s.writes + n < queueSize / 8) ∧
    (wordsWritten its s.writes + n < queueSize / 8 → Ready env (updateCwriter env its s')) := by
  have hroom := hr.room its
  have hq : queueSize = 32768 := rfl
  have hwords : wordsWritten its s'.writes = wordsWritten its s.writes + n := by
    rw [he.words, if_pos rfl]
  have hptr : s'.gCwriterPtr its = wordsWritten its s'.writes := by
    rw [he.ptr, Function.update_self, hr.ptr hi, hwords]
  have hwhole : 4 ∣ wordsWritten its s'.writes := hwords ▸ Nat.dvd_add (hr.whole hi) hn
  have ⟨h₁, h₂, h₃, h₄, h₅, h₆⟩ := updateCwriter_spec hu hptr hwhole (by omega)
  have hw : ∀ k, wordsWritten k (updateCwriter env its s').writes =
      wordsWritten k s.writes + if k = its then n else 0 := fun k => by rw [h₄, he.words]
  refine ⟨he.suffix.trans h₅, h₂.trans he.base, hw, ?_, fun hlt => ⟨?_, ?_, ?_, ?_⟩⟩
  · rw [he.base, he.bounds, hwords, hr.ptr hi, and_assoc] at h₆
    rw [h₆, and_congr_right_iff]
    intro _
    omega
  · rw [h₁, he.setup, hr.setup]
  · intro k hk
    rw [h₃, he.ptr, hw]
    by_cases hki : k = its
    case pos => simp [hki, hr.ptr hi]
    case neg => simp [hki, hr.ptr hk]
  · intro k hk
    rw [hw]
    by_cases hki : k = its
    case pos => simpa [hki] using Nat.dvd_add (hr.whole hi) hn
    case neg => simpa [hki] using hr.whole hk
  · intro k
    rw [hw]
    by_cases hki : k = its
    case pos => simpa [hki] using hlt
    case neg => simpa [hki] using hr.room k

-- One more command at the end of a step.
theorem Emits.command (h : Emits its n s s') (hp : s.gCwriterPtr its + n + 4 < 2 ^ 32) :
    Emits its (n + 4) s (Its.writeCmdQ its (s.commandQBase its) w₀ w₁ w₂ w₃ s') := by
  refine h.trans (Emits.writeCmdQ ?_ (by rw [h.base]))
  rw [h.ptr, Function.update_self]
  exact hp

section Ops

variable (hr : Ready env s) (hi : its < env.gicNumIts)

include hr hi

theorem Ready.ptr_lt : s.gCwriterPtr its < 4096 := by
  rw [hr.ptr hi]
  exact hr.room its

theorem create_eq (devID intID priority : Nat) :
    ∃ s', armGicItsCreateLpiMap env its devID intID priority s = updateCwriter env its s' ∧
      Emits its 20 s s' := by
  have hp := hr.ptr_lt hi
  have h₀ : Emits its 0 s (getRDBaseFormat env its (enableITS env its (enableLPIsRD env
      (setConfigTable intID priority s)))).2 :=
    (Emits.mmioWrite its ..).trans ((Emits.setBits its ..).trans ((Emits.setBits its ..).trans
      (Emits.getRDBaseFormat its _)))
  rw [armGicItsCreateLpiMap, if_neg (by simp [hr.setup])]
  refine ⟨_, rfl, ?_⟩
  exact h₀.command (by omega) |>.command (by omega) |>.command (by omega) |>.command (by omega)
    |>.command (by omega)

theorem clear_eq (devID intID : Nat) :
    ∃ s', armGicItsClearLpiMappings env its devID intID s = updateCwriter env its s' ∧
      Emits its 8 s s' := by
  have hp := hr.ptr_lt hi
  have h₀ : Emits its 0 s (getRDBaseFormat env its (clearConfigTable intID s)).2 :=
    (Emits.mmioWrite its ..).trans (Emits.getRDBaseFormat its _)
  rw [armGicItsClearLpiMappings, if_neg (by simp [hr.setup])]
  exact ⟨_, rfl, h₀.command (by omega) |>.command (by omega)⟩

end Ops

-- One operation is in bounds if the queue has room for it and for one more word.
theorem apply_spec (hu : Unstalled env) (hr : Ready env s) (op : Op) (hi : op.its < env.gicNumIts) :
    (op.apply env s).commandQBase = s.commandQBase ∧
    (∀ k, wordsWritten k (op.apply env s).writes =
      wordsWritten k s.writes + if k = op.its then op.words else 0) ∧
    (InBounds s.commandQBase (op.apply env s).writes ↔
      InBounds s.commandQBase s.writes ∧
        wordsWritten op.its s.writes + op.words < queueSize / 8) ∧
    (wordsWritten op.its s.writes + op.words < queueSize / 8 → Ready env (op.apply env s)) := by
  cases op
  case create its devID intID priority =>
    have ⟨s', he, hs⟩ := create_eq hr hi devID intID priority
    have h := hr.emit hu hi (by decide) (by decide) hs (by decide)
    rw [←he] at h
    exact h.right
  case clear its devID intID =>
    have ⟨s', he, hs⟩ := clear_eq hr hi devID intID
    have h := hr.emit hu hi (by decide) (by decide) hs (by decide)
    rw [←he] at h
    exact h.right

theorem used_cons (its : Nat) (op : Op) (ops : List Op) :
    used its (op :: ops) = (if its = op.its then op.words else 0) + used its ops := by
  simp [used, eq_comm]

theorem used_replicate (op : Op) (n : Nat) :
    used op.its (List.replicate n op) = n * op.words := by
  simp [used]

section Suffix

-- No operation takes back a write.
theorem suffix_mmioWrite : s.writes <:+ (mmioWrite purpose addr value s).writes :=
  List.suffix_cons ..

theorem suffix_writeCmdQ : s.writes <:+ (writeCmdQ its b w₀ w₁ w₂ w₃ s).writes :=
  ⟨[_, _, _, _], rfl⟩

theorem suffix_pollLoop (n creadr : Nat) (s : State) :
    s.writes <:+ (pollLoop env its cwriter n creadr s).writes := by
  have hstall : ∀ (p : Prop) [Decidable p] (t : State),
      t.writes <:+ (if p then mmioWrite (.cwriter its) (env.itsBase its + armGitsCwriter)
        (cwriter ||| armGitsCwriterRetry) t else t).writes := by
    intro p _ t
    split
    · exact suffix_mmioWrite
    · exact List.suffix_rfl
  induction n generalizing creadr s
  case zero =>
    rw [pollLoop]
    split
    · exact List.suffix_rfl
    · exact hstall ..
  case succ n hi =>
    rw [pollLoop]
    split
    · exact List.suffix_rfl
    · refine (hstall (creadr &&& armGitsCreadrStall ≠ 0) s).trans ?_
      generalize (if creadr &&& armGitsCreadrStall ≠ 0 then _ else s) = t
      exact hi _ { t with reads := t.reads + 1 }

theorem suffix_updateCwriter : s.writes <:+ (updateCwriter env its s).writes := by
  simp only [updateCwriter, pollTillCommandQueueDone, mmioRead]
  refine .trans ?_ (suffix_pollLoop ..)
  exact suffix_mmioWrite

theorem suffix_getRDBaseFormat : s.writes <:+ (getRDBaseFormat env its s).2.writes :=
  (Emits.getRDBaseFormat its s).suffix

theorem suffix_setBits : s.writes <:+ (setBits env addr bits s).writes :=
  (Emits.setBits 0 addr bits s).suffix

theorem suffix_apply (op : Op) (s : State) : s.writes <:+ (op.apply env s).writes := by
  cases op
  case create its devID intID priority =>
    simp only [Op.apply, armGicItsCreateLpiMap]
    split
    · exact List.suffix_rfl
    · refine .trans ?_ suffix_updateCwriter
      simp only [writeCmdQMAPD, writeCmdQMAPC, writeCmdQMAPI, writeCmdQINV, writeCmdQSYNC]
      refine .trans (.trans (.trans (.trans (.trans ?_ suffix_writeCmdQ) suffix_writeCmdQ)
        suffix_writeCmdQ) suffix_writeCmdQ) suffix_writeCmdQ
      refine .trans ?_ suffix_getRDBaseFormat
      simp only [enableITS, enableLPIsRD, setConfigTable]
      exact .trans (.trans suffix_mmioWrite suffix_setBits) suffix_setBits
  case clear its devID intID =>
    simp only [Op.apply, armGicItsClearLpiMappings]
    split
    · exact List.suffix_rfl
    · refine .trans ?_ suffix_updateCwriter
      simp only [writeCmdQDISCARD, writeCmdQSYNC]
      refine .trans (.trans ?_ suffix_writeCmdQ) suffix_writeCmdQ
      refine .trans ?_ suffix_getRDBaseFormat
      exact suffix_mmioWrite

theorem suffix_run (ops : List Op) (s : State) : s.writes <:+ (run env ops s).writes := by
  induction ops generalizing s
  case nil => exact List.suffix_rfl
  case cons op ops hi => exact (suffix_apply op s).trans (hi _)

end Suffix

theorem run_inBounds_iff (hu : Unstalled env) (hr : Ready env s) (ops : List Op)
    (hi : ∀ op ∈ ops, op.its < env.gicNumIts) :
    InBounds s.commandQBase (run env ops s).writes ↔
      InBounds s.commandQBase s.writes ∧
        ∀ its, wordsWritten its s.writes + used its ops < queueSize / 8 := by
  induction ops generalizing s
  case nil =>
    refine ⟨fun h => ⟨h, fun its => ?_⟩, fun h => h.left⟩
    simpa [used] using hr.room its
  case cons op ops ih =>
    have ⟨hb, hw, hin, hready⟩ := apply_spec hu hr op (hi op (by simp))
    have hrun : run env (op :: ops) s = run env ops (op.apply env s) := rfl
    rw [hrun]
    by_cases hroom : wordsWritten op.its s.writes + op.words < queueSize / 8
    case pos =>
      have h := ih (hready hroom) fun op hm => hi op (by simp [hm])
      rw [hb, hin] at h
      rw [h, and_assoc, and_congr_right_iff]
      intro _
      simp only [hroom, true_and, hw, used_cons, Nat.add_assoc]
    case neg =>
      -- The write of GITS_CWRITER at the end of this operation is out of bounds already.
      refine iff_of_false (fun h => ?_) (fun h => ?_)
      · exact hroom (hin.mp (h.of_suffix (suffix_run ..))).right
      · have := h.right op.its
        rw [used_cons, if_pos rfl] at this
        omega

-- The configuration leaves the write pointers at 0 and writes no command.
structure Quiet (p : Nat → Nat) (s : State) : Prop where
  ptr   : s.gCwriterPtr = p
  other : ∀ w ∈ s.writes, w.purpose = .other

namespace Quiet

variable {p : Nat → Nat}

theorem mmioWrite (h : Quiet p s) : Quiet p (mmioWrite .other addr value s) := by
  refine ⟨h.ptr, fun w hw => ?_⟩
  rcases List.mem_cons.mp hw with rfl | hw
  · rfl
  · exact h.other w hw

-- Reads, allocations and the bases of the tables do not matter.
theorem congr (h : Quiet p s) (hp : s'.gCwriterPtr = s.gCwriterPtr) (hw : s'.writes = s.writes) :
    Quiet p s' :=
  ⟨hp.trans h.ptr, hw ▸ h.other⟩

theorem setInitialConfiguration (h : Quiet p s) :
    Quiet p (setInitialConfiguration env its s).2 := by
  simp only [Its.setInitialConfiguration]
  split
  · exact h.congr rfl rfl
  · exact mmioWrite (h.congr rfl rfl)

theorem setTableBase (h : Quiet p s) : Quiet p (setTableBase env reg mask address s) :=
  mmioWrite (h.congr rfl rfl)

theorem armGicRedistributorConfigurationForLPI (env : Env) (h : Quiet p s) :
    Quiet p (armGicRedistributorConfigurationForLPI env s).2 := by
  have hc : Quiet p (armGicSetItsConfigTableBase env s).2 := by
    simp only [armGicSetItsConfigTableBase]
    split
    · exact h.congr rfl rfl
    · refine congr (s := Its.setTableBase env armGicrPropbaser armGicrPropbaserPaMask
        (allocate env _ (mmioRead env (env.gicRdBase + armGicrPropbaser) s).2).1
        (allocate env _ (mmioRead env (env.gicRdBase + armGicrPropbaser) s).2).2) ?_ rfl rfl
      refine setTableBase ?_
      exact h.congr rfl rfl
  rw [Its.armGicRedistributorConfigurationForLPI]
  split
  case h_1 s' he =>
    rw [he] at hc
    simp only [armGicSetItsPendingTableBase]
    split
    · exact hc.congr rfl rfl
    · exact setTableBase (hc.congr rfl rfl)
  case h_2 => exact hc

theorem armGicSetItsCommandQueueBase (env : Env) (its : Nat) (h : Quiet p s) :
    Quiet p (armGicSetItsCommandQueueBase env its s).2 := by
  simp only [Its.armGicSetItsCommandQueueBase]
  split
  · exact h.congr rfl rfl
  · exact mmioWrite (h.congr rfl rfl)

theorem setItsTablesLoop (env : Env) (its : Nat) (h : Quiet p s) (n it : Nat) :
    Quiet p (setItsTablesLoop env its n it s).2 := by
  induction n generalizing it s
  case zero => exact h
  case succ n hi =>
    simp only [Its.setItsTablesLoop]
    split
    · split
      · exact h.congr rfl rfl
      · refine hi ?_ (it + 1)
        refine mmioWrite ?_
        exact h.congr rfl rfl
    · refine hi ?_ (it + 1)
      exact h.congr rfl rfl

theorem setQueueAndTables (h : Quiet p s) : Quiet p (setQueueAndTables env its s).2 := by
  rw [Its.setQueueAndTables]
  have hq := h.armGicSetItsCommandQueueBase env its
  split
  case h_2 => exact hq
  case h_1 s' he =>
    rw [he] at hq
    have ht := hq.setItsTablesLoop env its armNumGitsBaser 0
    rw [armGicSetItsTables]
    split
    case h_2 => exact ht
    case h_1 t he =>
      rw [he] at ht
      simp only
      split
      · exact ht.congr rfl rfl
      · exact ht.congr rfl rfl

theorem forEachIts (step : Nat → State → Status × State)
    (hstep : ∀ its s, Quiet p s → Quiet p (step its s).2) (h : Quiet p s) (n its : Nat) :
    Quiet p (forEachIts step n its s).2 := by
  induction n generalizing its s
  case zero => exact h
  case succ n hi =>
    have hs := hstep its s h
    rw [Its.forEachIts]
    split
    case h_1 s' he =>
      rw [he] at hs
      exact hi hs (its + 1)
    case h_2 => exact hs

end Quiet

theorem wordsWritten_eq_zero (h : ∀ w ∈ l, w.purpose = Purpose.other) : wordsWritten its l = 0 := by
  rw [wordsWritten, List.length_eq_zero_iff, List.filter_eq_nil_iff]
  intro w hw
  simp [h w hw]

theorem inBounds_of_other {base : Nat → Nat} (h : ∀ w ∈ l, w.purpose = Purpose.other) :
    InBounds base l := by
  induction l
  case nil => trivial
  case cons w l hi =>
    refine ⟨?_, hi fun w hw => h w (by simp [hw])⟩
    simp [Write.Ok, h w (by simp)]

-- What a successful configuration leaves behind.
theorem configuration_ready (h₀ : s₀.writes = [])
    (h : armGicItsConfiguration env s₀ = (.success, s)) :
    Ready env s ∧ (∀ its, wordsWritten its s.writes = 0) ∧ InBounds s.commandQBase s.writes := by
  have ⟨p, hp, hset, hq⟩ : ∃ p : Nat → Nat, (∀ its < env.gicNumIts, p its = 0) ∧
      s.gItsSetupDone = true ∧ Quiet p s := by
    refine ⟨fun its => if its < env.gicNumIts then 0 else s₀.gCwriterPtr its,
      fun its hi => if_pos hi, ?_⟩
    have hq₀ : Quiet (fun its => if its < env.gicNumIts then 0 else s₀.gCwriterPtr its)
        { (allocate env (4 * env.gicNumIts) s₀).2 with gCwriterPtr := fun its =>
          if its < env.gicNumIts then 0 else s₀.gCwriterPtr its } := by
      refine ⟨rfl, ?_⟩
      simp [allocate, h₀]
    have hq₁ := hq₀.forEachIts (setInitialConfiguration env)
      (fun _ _ => Quiet.setInitialConfiguration) env.gicNumIts 0
    simp only [armGicItsConfiguration] at h
    split at h
    case isTrue => simp at h
    case isFalse =>
      split at h
      case h_2 hne => simp_all
      case h_1 s₁ he₁ =>
        have hq₂ := (he₁ ▸ hq₁).armGicRedistributorConfigurationForLPI env
        split at h
        case h_2 hne => simp_all
        case h_1 s₂ he₂ =>
          rw [he₂] at hq₂
          have hq₃ := hq₂.forEachIts (setQueueAndTables env)
            (fun _ _ => Quiet.setQueueAndTables) env.gicNumIts 0
          split at h
          case h_2 hne => simp_all
          case h_1 s₃ he₃ =>
            rw [he₃] at hq₃
            simp only [Prod.mk.injEq, true_and] at h
            subst h
            exact ⟨rfl, hq₃.ptr, hq₃.other⟩
  have hw : ∀ its, wordsWritten its s.writes = 0 := fun its => wordsWritten_eq_zero hq.other
  refine ⟨⟨hset, fun hi => ?_, fun _ => ?_, ?_⟩, hw, inBounds_of_other hq.other⟩
  · rw [hq.ptr, hp _ hi, hw]
  · rw [hw]
    exact Nat.dvd_zero 4
  · intro its
    rw [hw]
    decide

-- As long as the ITS does not stall, the operations stay in bounds exactly when they need fewer
-- words than the queue has: the write pointer is never wrapped.
theorem run_in_bounds_iff (h₀ : s₀.writes = [])
    (hc : armGicItsConfiguration env s₀ = (.success, s)) (hu : Unstalled env) (ops : List Op)
    (hi : ∀ op ∈ ops, op.its < env.gicNumIts) :
    InBounds s.commandQBase (run env ops s).writes ↔ ∀ its, used its ops < queueSize / 8 := by
  have ⟨hr, hw, hb⟩ := configuration_ready h₀ hc
  rw [run_inBounds_iff hu hr ops hi]
  simp [hw, hb]

-- One ITS with 16-bit interrupt numbers that is never behind.
def oneIts : Env where
  gicDBase  := 0x8000000
  gicRdBase := 0x80A0000
  gicNumIts := 1
  itsBase _ := 0x8080000
  read _ _ addr :=
    if addr = 0x8000000 + armGicdTyper then 15 <<< 19
    else if addr = 0x8080000 + armGitsTyper then 15 <<< 8
    else 0
  alloc k   := 0x10000 * (k + 1)

def initial : State where
  gCwriterPtr _  := 0
  gItsSetupDone  := false
  commandQBase _ := 0
  idBits _       := 0
  ittBase _      := 0
  configBase     := 0
  reads          := 0
  allocs         := 0
  requests       := []
  writes         := []

def configured : State := (armGicItsConfiguration oneIts initial).2

theorem configured_eq : armGicItsConfiguration oneIts initial = (.success, configured) :=
  Prod.ext (by decide) rfl

theorem oneIts_unstalled : Unstalled oneIts := by
  intro k writes its
  simp [oneIts, armGitsCreadr, armGicdTyper, armGitsTyper]

theorem queue_overrun :
    ¬InBounds configured.commandQBase
      (run oneIts (List.replicate 205 (.create 0 0 8192 0x50)) configured).writes := by
  have ⟨hr, hw, _⟩ := configuration_ready rfl configured_eq
  have hi : ∀ op ∈ List.replicate 205 (Op.create 0 0 8192 0x50), op.its < oneIts.gicNumIts := by
    intro op hm
    rw [List.eq_of_mem_replicate hm]
    decide
  rw [run_inBounds_iff oneIts_unstalled hr _ hi]
  intro h
  have := h.right (Op.create 0 0 8192 0x50).its
  rw [hw, used_replicate] at this
  revert this
  decide

theorem queue_not_full :
    InBounds configured.commandQBase
      (run oneIts [.create 0 0 8192 0x50, .clear 0 0 8192] configured).writes := by
  refine (run_in_bounds_iff rfl configured_eq oneIts_unstalled _ (by decide)).mpr ?_
  intro its
  simp only [used, List.map_cons, List.map_nil, List.sum_cons, List.sum_nil, queueSize, numPages8,
    size4KB, Op.words, itsNextCmdPtr]
  split <;> split <;> omega

end Its
