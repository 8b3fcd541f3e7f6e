import BsaAcs.Gic.Theorems.Its
import BsaAcs.Lib.Bits

namespace Its

-- The commands of an ITS, as the architecture has them. A redistributor is named by RDbase[51:16].
inductive ItsCommand
  | mapd (deviceId ittAddr size : Nat) (valid : Bool)
  | mapc (icid rdBase : Nat) (valid : Bool)
  | mapi (deviceId eventId icid : Nat)
  | inv (deviceId eventId : Nat)
  | sync (rdBase : Nat)
deriving DecidableEq, Repr

-- The bits `lo` to `hi` of a word, as a number.
def field (hi lo w : Nat) : Nat :=
  (w >>> lo) % 2 ^ (hi - lo + 1)

def ItsCommand.decode (w₀ w₁ w₂ : Nat) : Option ItsCommand :=
  match field 7 0 w₀ with
  | 0x8 => some (mapd (field 63 32 w₀) (field 51 8 w₂ <<< 8) (field 4 0 w₁) (w₂.testBit 63))
  | 0x9 => some (mapc (field 15 0 w₂) (field 51 16 w₂) (w₂.testBit 63))
  | 0xB => some (mapi (field 63 32 w₀) (field 31 0 w₁) (field 15 0 w₂))
  | 0xC => some (inv (field 63 32 w₀) (field 31 0 w₁))
  | 0x5 => some (sync (field 51 16 w₂))
  | _   => none

-- The words of a queue, four for each command.
def decodeQueue : List Nat → Option (List ItsCommand)
  | [] => some []
  | w₀ :: w₁ :: w₂ :: _ :: rest =>
    match ItsCommand.decode w₀ w₁ w₂, decodeQueue rest with
    | some command, some commands => some (command :: commands)
    | _, _                        => none
  | _ => none

-- The words of commands that have been written for an ITS, in order.
def commandWords (its : Nat) (writes : List Write) : List Nat :=
  (writes.filter (·.purpose = .command its)).reverse.map (·.value)

-- GITS_TYPER.PTA and GICR_TYPER.Processor_Number.
def pta (typer : Nat) : Bool := typer.testBit 19
def processorNumber (gicrTyper : Nat) : Nat := field 23 8 gicrTyper

-- How the commands name the redistributor of the current PE.
def target (env : Env) (typer gicrTyper : Nat) : Nat :=
  if pta typer then field 51 16 env.gicRdBase else processorNumber gicrTyper

-- What the operation is to queue for an interrupt: the device, the collection 1 at the redistributor, the
-- interrupt in the collection, and the synchronisation with the redistributor.
def lpiMapCommands (s : State) (its devID intID target : Nat) : List ItsCommand :=
  [.mapd devID (s.ittBase its) (s.idBits its) true, .mapc 1 target true, .mapi devID intID 1, .inv devID intID,
    .sync target]

section Field

variable {hi lo w v : Nat}

theorem field_or : field hi lo (w ||| v) = field hi lo w ||| field hi lo v := by
  rw [field, Nat.shiftRight_or_distrib, Nat.or_mod_two_pow]
  rfl

theorem field_eq : field hi lo w = w / 2 ^ lo % 2 ^ (hi - lo + 1) := by
  rw [field, Nat.shiftRight_eq_div_pow]

theorem field_devID {devID opcode : Nat} (hd : devID < 2 ^ 32) (ho : opcode < 2 ^ 8) :
    field 63 32 (devID <<< itsCmdShiftDevid ||| opcode) = devID ∧
      field 7 0 (devID <<< itsCmdShiftDevid ||| opcode) = opcode := by
  have hs : devID <<< itsCmdShiftDevid = devID * 2 ^ 32 := Nat.shiftLeft_eq ..
  rw [field_or, field_or, hs]
  have h₁ : field 63 32 (devID * 2 ^ 32) = devID := by
    rw [field_eq]
    omega
  have h₂ : field 63 32 opcode = 0 := by
    rw [field_eq]
    omega
  have h₃ : field 7 0 (devID * 2 ^ 32) = 0 := by
    rw [field_eq]
    omega
  have h₄ : field 7 0 opcode = opcode := by
    rw [field_eq]
    omega
  rw [h₁, h₂, h₃, h₄, Nat.or_zero, Nat.zero_or]
  exact ⟨rfl, rfl⟩

end Field

-- The five commands, word by word.

section Decode

variable {devID intID ittBase size rdBase : Nat}

theorem decode_mapd (hd : devID < 2 ^ 32) (hi : 2 ^ 16 ∣ ittBase) (hl : ittBase < 2 ^ 52) (hs : size < 2 ^ 5) :
    ItsCommand.decode (devID <<< itsCmdShiftDevid ||| armItsCmdMapd) size
      (1 <<< itsCmdShiftValid ||| (ittBase &&& ittParMask)) = some (.mapd devID ittBase size true) := by
  have ⟨hdev, hop⟩ := @field_devID devID armItsCmdMapd hd (by decide)
  have hmask : ittBase &&& ittParMask = ittBase := by
    have hm : ittBase &&& ittParMask = Bits.slice 51 8 ittBase := rfl
    rw [hm]
    exact Bits.slice_eq_self (Nat.dvd_trans (by decide) hi) hl (by decide)
  have haddr : field 51 8 (1 <<< itsCmdShiftValid ||| ittBase) <<< 8 = ittBase := by
    have hv : field 51 8 (1 <<< itsCmdShiftValid) = 0 := by decide
    rw [field_or, hv, Nat.zero_or, field_eq, Nat.shiftLeft_eq]
    have ⟨n, hn⟩ := hi
    omega
  have hvalid : (1 <<< itsCmdShiftValid ||| ittBase).testBit 63 = true := by
    have hv : (1 <<< itsCmdShiftValid).testBit 63 = true := by decide
    rw [Nat.testBit_or, hv, Bool.true_or]
  have hsize : field 4 0 size = size := by
    rw [field_eq]
    omega
  rw [ItsCommand.decode, hop, hmask]
  simp only [armItsCmdMapd, haddr, hsize, hvalid] at hdev ⊢
  rw [hdev]

theorem decode_mapi (hd : devID < 2 ^ 32) (hi : intID < 2 ^ 32) :
    ItsCommand.decode (devID <<< itsCmdShiftDevid ||| armItsCmdMapi) intID 1 = some (.mapi devID intID 1) := by
  have ⟨hdev, hop⟩ := @field_devID devID armItsCmdMapi hd (by decide)
  have hint : field 31 0 intID = intID := by
    rw [field_eq]
    omega
  have hcol : field 15 0 1 = 1 := by decide
  rw [ItsCommand.decode, hop]
  simp only [armItsCmdMapi, hint, hcol] at hdev ⊢
  rw [hdev]

theorem decode_inv (hd : devID < 2 ^ 32) (hi : intID < 2 ^ 32) :
    ItsCommand.decode (devID <<< itsCmdShiftDevid ||| armItsCmdInv) intID 0 = some (.inv devID intID) := by
  have ⟨hdev, hop⟩ := @field_devID devID armItsCmdInv hd (by decide)
  have hint : field 31 0 intID = intID := by
    rw [field_eq]
    omega
  rw [ItsCommand.decode, hop]
  simp only [armItsCmdInv, hint] at hdev ⊢
  rw [hdev]

-- The collection and the redistributor share a word: bits 8 to 15 of what names the redistributor end up
-- in the number of the collection.
theorem decode_mapc :
    ItsCommand.decode armItsCmdMapc 0 (1 <<< itsCmdShiftValid ||| rdBase % 2 ^ 32 ||| 1) =
      some (.mapc (rdBase % 2 ^ 16 ||| 1) (rdBase % 2 ^ 32 / 2 ^ 16) true) := by
  have hop : field 7 0 armItsCmdMapc = 0x9 := by decide
  have hcol : field 15 0 (1 <<< itsCmdShiftValid ||| rdBase % 2 ^ 32 ||| 1) = rdBase % 2 ^ 16 ||| 1 := by
    have hv : field 15 0 (1 <<< itsCmdShiftValid) = 0 := by decide
    have h₁ : field 15 0 1 = 1 := by decide
    have hr : field 15 0 (rdBase % 2 ^ 32) = rdBase % 2 ^ 16 := by
      rw [field_eq]
      omega
    rw [field_or, field_or, hv, h₁, hr, Nat.zero_or]
  have hrd : field 51 16 (1 <<< itsCmdShiftValid ||| rdBase % 2 ^ 32 ||| 1) = rdBase % 2 ^ 32 / 2 ^ 16 := by
    have hv : field 51 16 (1 <<< itsCmdShiftValid) = 0 := by decide
    have h₁ : field 51 16 1 = 0 := by decide
    have hr : field 51 16 (rdBase % 2 ^ 32) = rdBase % 2 ^ 32 / 2 ^ 16 := by
      rw [field_eq]
      omega
    rw [field_or, field_or, hv, h₁, hr, Nat.zero_or, Nat.or_zero]
  have hvalid : (1 <<< itsCmdShiftValid ||| rdBase % 2 ^ 32 ||| 1).testBit 63 = true := by
    have hv : (1 <<< itsCmdShiftValid).testBit 63 = true := by decide
    rw [Nat.testBit_or, Nat.testBit_or, hv, Bool.true_or, Bool.true_or]
  rw [ItsCommand.decode, hop]
  simp only [hcol, hrd, hvalid]

theorem decode_sync :
    ItsCommand.decode armItsCmdSync 0 (rdBase % 2 ^ 32) = some (.sync (rdBase % 2 ^ 32 / 2 ^ 16)) := by
  have hop : field 7 0 armItsCmdSync = 0x5 := by decide
  have hrd : field 51 16 (rdBase % 2 ^ 32) = rdBase % 2 ^ 32 / 2 ^ 16 := by
    rw [field_eq]
    omega
  rw [ItsCommand.decode, hop]
  simp only [hrd]

end Decode

-- The operations do not touch what the configuration has set up.
structure Keeps (s s' : State) : Prop where
  setup   : s'.gItsSetupDone = s.gItsSetupDone
  idBits  : s'.idBits = s.idBits
  ittBase : s'.ittBase = s.ittBase

-- What a step does that writes these words of commands for an ITS.
structure Queues (its : Nat) (words : List Nat) (s s' : State) : Prop extends Keeps s s' where
  words : commandWords its s'.writes = commandWords its s.writes ++ words

variable {env : Env} {its : Nat} {s s' s'' : State}

theorem Keeps.refl (s : State) : Keeps s s :=
  ⟨rfl, rfl, rfl⟩

theorem Keeps.trans (h : Keeps s s') (h' : Keeps s' s'') : Keeps s s'' where
  setup   := h'.setup.trans h.setup
  idBits  := h'.idBits.trans h.idBits
  ittBase := h'.ittBase.trans h.ittBase

theorem Keeps.writeCmdQ {base w₀ w₁ w₂ w₃ : Nat} : Keeps s (writeCmdQ its base w₀ w₁ w₂ w₃ s) :=
  ⟨rfl, rfl, rfl⟩

namespace Queues

variable {words words' : List Nat}

theorem refl (its : Nat) (s : State) : Queues its [] s s :=
  ⟨.refl s, (List.append_nil _).symm⟩

theorem trans (h : Queues its words s s') (h' : Queues its words' s' s'') : Queues its (words ++ words') s s'' where
  toKeeps := h.toKeeps.trans h'.toKeeps
  words   := by rw [h'.words, h.words, List.append_assoc]

theorem mmioRead (env : Env) (its addr : Nat) (s : State) : Queues its [] s (mmioRead env addr s).2 :=
  ⟨⟨rfl, rfl, rfl⟩, (List.append_nil _).symm⟩

theorem mmioWrite {purpose : Purpose} (hp : purpose ≠ .command its) (addr value : Nat) (s : State) :
    Queues its [] s (mmioWrite purpose addr value s) := by
  refine ⟨⟨rfl, rfl, rfl⟩, ?_⟩
  simp [Its.mmioWrite, commandWords, hp]

theorem setBits (its addr bits : Nat) (s : State) : Queues its [] s (setBits env addr bits s) :=
  (mmioRead env its addr s).trans (mmioWrite (by simp) ..)

theorem writeCmdQ {base w₀ w₁ w₂ w₃ : Nat} (s : State) :
    Queues its [w₀, w₁, w₂, w₃] s (writeCmdQ its base w₀ w₁ w₂ w₃ s) := by
  refine ⟨.writeCmdQ, ?_⟩
  simp [Its.writeCmdQ, Its.mmioWrite, commandWords]

theorem getRDBaseFormat (its k : Nat) (s : State) : Queues its [] s (getRDBaseFormat env k s).2 := by
  simp only [Its.getRDBaseFormat]
  split
  · exact mmioRead env its (env.itsBase k + armGitsTyper) s
  · exact (mmioRead env its (env.itsBase k + armGitsTyper) s).trans (mmioRead env its (env.gicRdBase + armGicrTyper) _)

theorem pollLoop {cwriter : Nat} (its k n creadr : Nat) (s : State) :
    Queues its [] s (pollLoop env k cwriter n creadr s) := by
  have hstall {p : Prop} [Decidable p] (s : State) : Queues its [] s (if p then Its.mmioWrite (.cwriter k)
      (env.itsBase k + armGitsCwriter) (cwriter ||| armGitsCwriterRetry) s else s) := by
    split
    · exact mmioWrite (by simp) ..
    · exact refl its s
  induction n generalizing creadr s
  case zero =>
    rw [Its.pollLoop]
    split
    · exact refl its s
    · exact hstall s
  case succ n hi =>
    rw [Its.pollLoop]
    split
    · exact refl its s
    · exact (hstall s).trans ((mmioRead env its (env.itsBase k + armGitsCreadr) _).trans (hi ..))

theorem updateCwriter (its k : Nat) (s : State) : Queues its [] s (updateCwriter env k s) :=
  (mmioWrite (by simp) ..).trans ((mmioRead env its (env.itsBase k + armGitsCwriter) _).trans
    ((mmioRead env its (env.itsBase k + armGitsCreadr) _).trans (pollLoop ..)))

end Queues

-- The bits that are handed on for the redistributor.
def rdBaseFormat (env : Env) (typer gicrTyper : Nat) : Nat :=
  if pta typer then env.gicRdBase else gicrTyper % 2 ^ 32 &&& armGicrTyperPnMask

section

variable {typer gicrTyper devID intID priority : Nat}
variable (ht : ∀ k writes, env.read k writes (env.itsBase its + armGitsTyper) = typer)
variable (hg : ∀ k writes, env.read k writes (env.gicRdBase + armGicrTyper) = gicrTyper)
include ht hg

theorem getRDBaseFormat_eq : (getRDBaseFormat env its s).1 = rdBaseFormat env typer gicrTyper := by
  have hpta : (typer % 2 ^ 32 &&& armGitsTyperPta ≠ 0) ↔ pta typer = true := by
    have hb : (typer % 2 ^ 32).testBit 19 = typer.testBit 19 := by
      rw [Nat.testBit_mod_two_pow]
      rfl
    have hm : armGitsTyperPta = 2 ^ 19 := rfl
    rw [pta, ← hb, hm, Nat.and_two_pow]
    cases (typer % 2 ^ 32).testBit 19 <;> decide
  simp only [getRDBaseFormat, mmioRead, ht, hg, rdBaseFormat]
  by_cases h : pta typer = true
  case pos => rw [if_pos (hpta.mpr h), if_pos h]
  case neg => rw [if_neg (fun hc => h (hpta.mp hc)), if_neg h]

theorem create_queues (hs : s.gItsSetupDone = true) :
    Queues its
      ([devID <<< itsCmdShiftDevid ||| armItsCmdMapd, s.idBits its,
          1 <<< itsCmdShiftValid ||| (s.ittBase its &&& ittParMask), 0] ++
        ([armItsCmdMapc, 0, 1 <<< itsCmdShiftValid ||| rdBaseFormat env typer gicrTyper % 2 ^ 32 ||| 1, 0] ++
        ([devID <<< itsCmdShiftDevid ||| armItsCmdMapi, intID, 1, 0] ++
        ([devID <<< itsCmdShiftDevid ||| armItsCmdInv, intID, 0, 0] ++
          [armItsCmdSync, 0, rdBaseFormat env typer gicrTyper % 2 ^ 32, 0]))))
      s (armGicItsCreateLpiMap env its devID intID priority s) := by
  have hrd := @getRDBaseFormat_eq env its (enableITS env its (enableLPIsRD env (setConfigTable intID priority s)))
    typer gicrTyper ht hg
  have h₀ : Queues its [] s (getRDBaseFormat env its (enableITS env its (enableLPIsRD env
      (setConfigTable intID priority s)))).2 :=
    (Queues.mmioWrite (by simp) ..).trans ((Queues.setBits its ..).trans ((Queues.setBits its ..).trans
      (Queues.getRDBaseFormat its its _)))
  rw [armGicItsCreateLpiMap, if_neg (by simp [hs])]
  simp only [hrd, h₀.idBits, h₀.ittBase, writeCmdQMAPD, writeCmdQMAPC, writeCmdQMAPI, writeCmdQINV, writeCmdQSYNC]
  exact h₀.trans (.trans (.writeCmdQ _) (.trans (.writeCmdQ _) (.trans (.writeCmdQ _) (.trans (.writeCmdQ _)
    (.trans (.writeCmdQ _) (.updateCwriter its its _))))))

end

-- The operations before this one.

theorem apply_keeps (op : Op) (s : State) : Keeps s (op.apply env s) := by
  cases op
  case create its devID intID priority =>
    have h₀ : Queues its [] s (getRDBaseFormat env its (enableITS env its (enableLPIsRD env
        (setConfigTable intID priority s)))).2 :=
      (Queues.mmioWrite (by simp) ..).trans ((Queues.setBits its ..).trans ((Queues.setBits its ..).trans
        (Queues.getRDBaseFormat its its _)))
    simp only [Op.apply, armGicItsCreateLpiMap]
    split
    · exact .refl s
    · exact h₀.toKeeps.trans (.trans .writeCmdQ (.trans .writeCmdQ (.trans .writeCmdQ (.trans .writeCmdQ
        (.trans .writeCmdQ (Queues.updateCwriter its its _).toKeeps)))))
  case clear its devID intID =>
    have h₀ : Queues its [] s (getRDBaseFormat env its (clearConfigTable intID s)).2 :=
      (Queues.mmioWrite (by simp) ..).trans (Queues.getRDBaseFormat its its _)
    simp only [Op.apply, armGicItsClearLpiMappings]
    split
    · exact .refl s
    · exact h₀.toKeeps.trans (.trans .writeCmdQ (.trans .writeCmdQ (Queues.updateCwriter its its _).toKeeps))

theorem run_keeps (ops : List Op) (s : State) : Keeps s (run env ops s) := by
  induction ops generalizing s
  case nil            => exact .refl s
  case cons op ops hi => exact (apply_keeps op s).trans (hi _)

-- The configuration.

theorem forEachIts_invariant {P : Nat → State → Prop} {step : Nat → State → Status × State} {n i : Nat}
    (hs : ∀ {its s s'}, i ≤ its → P its s → step its s = (.success, s') → P (its + 1) s') (h₀ : P i s)
    (h : forEachIts step n i s = (.success, s')) : P (i + n) s' := by
  induction n generalizing i s
  case zero =>
    cases h
    exact h₀
  case succ n hi =>
    rw [forEachIts] at h
    split at h
    case h_1 s₁ he =>
      rw [← Nat.add_assoc, Nat.add_right_comm]
      exact hi (fun hle => hs (by omega)) (hs le_rfl h₀ he) h
    case h_2 hne => exact absurd h (hne _)

theorem setInitialConfiguration_idBits (h : setInitialConfiguration env its s = (.success, s')) :
    ∃ bits < 2 ^ 5, s'.idBits = Function.update s.idBits its bits := by
  simp only [setInitialConfiguration] at h
  split at h
  case isTrue => cases h
  case isFalse =>
    cases h
    exact ⟨_, Nat.lt_of_le_of_lt (Nat.min_le_left ..) (Nat.lt_succ_of_le Nat.and_le_right), rfl⟩

theorem redistributorConfiguration_idBits : (armGicRedistributorConfigurationForLPI env s).2.idBits = s.idBits := by
  have hc : (armGicSetItsConfigTableBase env s).2.idBits = s.idBits := by
    simp only [armGicSetItsConfigTableBase]
    split <;> rfl
  rw [armGicRedistributorConfigurationForLPI]
  split
  case h_2 => exact hc
  case h_1 s₁ he =>
    rw [he] at hc
    simp only [armGicSetItsPendingTableBase]
    split
    · exact hc
    · exact hc

theorem setItsTablesLoop_idBits (n it : Nat) : (setItsTablesLoop env its n it s).2.idBits = s.idBits := by
  induction n generalizing it s
  case zero => rfl
  case succ n hi =>
    simp only [setItsTablesLoop]
    split
    · split
      · rfl
      · exact hi (it + 1)
    · exact hi (it + 1)

theorem setQueueAndTables_idBits : (setQueueAndTables env its s).2.idBits = s.idBits := by
  have hq : (armGicSetItsCommandQueueBase env its s).2.idBits = s.idBits := by
    simp only [armGicSetItsCommandQueueBase]
    split <;> rfl
  rw [setQueueAndTables]
  split
  case h_2 => exact hq
  case h_1 s₁ he =>
    rw [he] at hq
    have ht := @setItsTablesLoop_idBits env its s₁ armNumGitsBaser 0
    rw [armGicSetItsTables]
    split
    case h_2 => exact ht.trans hq
    case h_1 s₂ he =>
      rw [he] at ht
      simp only
      split
      · exact ht.trans hq
      · exact ht.trans hq

-- After a successful configuration, the number of interrupt bits of each ITS is known and has 5 bits.
theorem configuration_idBits {s₀ : State} (h : armGicItsConfiguration env s₀ = (.success, s)) :
    s.gItsSetupDone = true ∧ ∀ its < env.gicNumIts, s.idBits its < 2 ^ 5 := by
  simp only [armGicItsConfiguration] at h
  split at h
  case isTrue => cases h
  case isFalse =>
    split at h
    case h_2 hne => exact absurd h (hne _)
    case h_1 s₁ he₁ =>
      have h₁ := forEachIts_invariant (P := fun n s => ∀ its < n, s.idBits its < 2 ^ 5) ?_
        (fun _ hlt => absurd hlt (by omega)) he₁
      · split at h
        case h_2 hne => exact absurd h (hne _)
        case h_1 s₂ he₂ =>
          have h₂ : s₂.idBits = s₁.idBits := by
            have := @redistributorConfiguration_idBits env s₁
            rwa [he₂] at this
          split at h
          case h_2 hne => exact absurd h (hne _)
          case h_1 s₃ he₃ =>
            have h₃ := forEachIts_invariant (P := fun _ s => s.idBits = s₂.idBits) ?_ rfl he₃
            · cases h
              refine ⟨rfl, ?_⟩
              rw [h₃, h₂]
              intro its hlt
              exact h₁ its (by omega)
            · intro its s s' _ hi hs
              have := @setQueueAndTables_idBits env its s
              rw [hs] at this
              exact this.trans hi
      · intro its s s' _ hi hs
        obtain ⟨bits, hlt, he⟩ := setInitialConfiguration_idBits hs
        intro k hk
        rw [he]
        by_cases hc : k = its
        case pos =>
          rw [hc, Function.update_self]
          exact hlt
        case neg =>
          rw [Function.update_of_ne hc]
          exact hi k (by omega)

-- The commands name the redistributor by the bits that were handed on.
theorem rdBase_named_iff {typer gicrTyper : Nat} (hd : 2 ^ 16 ∣ env.gicRdBase) (hl : env.gicRdBase < 2 ^ 52) :
    (rdBaseFormat env typer gicrTyper % 2 ^ 16 ||| 1 = 1 ∧
        rdBaseFormat env typer gicrTyper % 2 ^ 32 / 2 ^ 16 = target env typer gicrTyper) ↔
      if pta typer then env.gicRdBase < 2 ^ 32 else processorNumber gicrTyper = 0 := by
  cases hp : pta typer
  case true =>
    simp only [rdBaseFormat, target, hp, if_true]
    have hz : env.gicRdBase % 2 ^ 16 = 0 := Nat.mod_eq_zero_of_dvd hd
    have hf : field 51 16 env.gicRdBase = env.gicRdBase / 2 ^ 16 := by
      rw [field_eq]
      omega
    rw [hz, hf]
    constructor
    · intro ⟨_, h⟩
      omega
    · intro h
      exact ⟨rfl, by omega⟩
  case false =>
    simp only [rdBaseFormat, target, hp, Bool.false_eq_true, if_false]
    have hm : gicrTyper % 2 ^ 32 &&& armGicrTyperPnMask = processorNumber gicrTyper * 2 ^ 8 := by
      have hs : gicrTyper % 2 ^ 32 &&& armGicrTyperPnMask = Bits.slice 23 8 (gicrTyper % 2 ^ 32) := rfl
      rw [hs, Bits.slice_eq_mul, processorNumber, field_eq]
      omega
    have hlt : processorNumber gicrTyper < 2 ^ 16 := by
      rw [processorNumber, field_eq]
      omega
    have hmod : processorNumber gicrTyper * 2 ^ 8 % 2 ^ 32 = processorNumber gicrTyper * 2 ^ 8 :=
      Nat.mod_eq_of_lt (by omega)
    rw [hm, hmod]
    constructor
    · intro ⟨_, h⟩
      omega
    · intro h
      rw [h]
      exact ⟨rfl, rfl⟩

-- An LPI is mapped in any state that the operations reach after the configuration.
theorem lpi_map_encodes_iff {s₀ s₁ : State} {typer gicrTyper devID intID : Nat} (priority : Nat)
    (hc : armGicItsConfiguration env s₀ = (.success, s₁)) (ops : List Op) (hi : its < env.gicNumIts)
    (ht : ∀ k writes, env.read k writes (env.itsBase its + armGitsTyper) = typer)
    (hg : ∀ k writes, env.read k writes (env.gicRdBase + armGicrTyper) = gicrTyper)
    (hrd : 2 ^ 16 ∣ env.gicRdBase ∧ env.gicRdBase < 2 ^ 52)
    (hitt : 2 ^ 16 ∣ s₁.ittBase its ∧ s₁.ittBase its < 2 ^ 52) (hd : devID < 2 ^ 32) (hint : intID < 2 ^ 32) :
    (∃ words, commandWords its (armGicItsCreateLpiMap env its devID intID priority (run env ops s₁)).writes =
        commandWords its (run env ops s₁).writes ++ words ∧
      decodeQueue words = some (lpiMapCommands s₁ its devID intID (target env typer gicrTyper))) ↔
    if pta typer then env.gicRdBase < 2 ^ 32 else processorNumber gicrTyper = 0 := by
  have ⟨hset, hbits⟩ := configuration_idBits hc
  have hk : Keeps s₁ (run env ops s₁) := run_keeps ops s₁
  have hq : Queues its _ (run env ops s₁) (armGicItsCreateLpiMap env its devID intID priority (run env ops s₁)) :=
    create_queues ht hg (hk.setup.trans hset)
  rw [hk.idBits, hk.ittBase] at hq
  have hdecode := decode_mapd hd hitt.1 hitt.2 (hbits its hi)
  rw [← rdBase_named_iff hrd.1 hrd.2]
  constructor
  · intro ⟨words, hw, hdec⟩
    rw [hq.words, List.append_cancel_left_eq] at hw
    subst hw
    simp only [List.cons_append, List.nil_append, decodeQueue, hdecode, decode_mapc, decode_mapi hd hint,
      decode_inv hd hint, decode_sync, lpiMapCommands, Option.some.injEq, List.cons.injEq, ItsCommand.mapc.injEq,
      and_true, true_and, ItsCommand.sync.injEq] at hdec
    exact hdec.1
  · intro ⟨hcol, htarget⟩
    refine ⟨_, hq.words, ?_⟩
    simp only [List.cons_append, List.nil_append, decodeQueue, hdecode, decode_mapc, decode_mapi hd hint,
      decode_inv hd hint, decode_sync, lpiMapCommands, hcol, htarget]

-- The PE with processor number 0, on a system with redistributors below 4 GB.
theorem first_pe_named :
    armGicItsConfiguration oneIts initial = (.success, configured) ∧
      ∃ words, commandWords 0 (armGicItsCreateLpiMap oneIts 0 3 8192 0x50 configured).writes =
          commandWords 0 configured.writes ++ words ∧
        decodeQueue words = some (lpiMapCommands configured 0 3 8192 (target oneIts (15 <<< 8) 0)) := by
  have hitt : 2 ^ 16 ∣ configured.ittBase 0 ∧ configured.ittBase 0 < 2 ^ 52 := by decide +kernel
  exact ⟨configured_eq, (lpi_map_encodes_iff 0x50 configured_eq [] (by decide) (fun _ _ => rfl) (fun _ _ => rfl)
    (by decide) hitt (by decide) (by decide)).mpr (by decide)⟩

-- The PE with processor number 1.
def secondPe : Env :=
  { oneIts with
    read := fun k writes addr => if addr = oneIts.gicRdBase + armGicrTyper then 1 <<< 8 else oneIts.read k writes addr }

-- A redistributor above 4 GB, named by its address.
def highRd : Env :=
  { oneIts with
    gicRdBase := 0x1080A0000
    read      := fun k writes addr =>
      if addr = oneIts.itsBase 0 + armGitsTyper then 15 <<< 8 ||| 1 <<< 19 else oneIts.read k writes addr }

-- The collection is not mapped to the redistributor of the PE: the processor number ends up 8 bits too low, and
-- the address loses its upper half.
theorem rd_misnamed :
    (∃ s₁, armGicItsConfiguration secondPe initial = (.success, s₁) ∧
      ¬∃ words, commandWords 0 (armGicItsCreateLpiMap secondPe 0 3 8192 0x50 s₁).writes =
          commandWords 0 s₁.writes ++ words ∧
        decodeQueue words = some (lpiMapCommands s₁ 0 3 8192 (target secondPe (15 <<< 8) (1 <<< 8)))) ∧
    (∃ s₁, armGicItsConfiguration highRd initial = (.success, s₁) ∧
      ¬∃ words, commandWords 0 (armGicItsCreateLpiMap highRd 0 3 8192 0x50 s₁).writes =
          commandWords 0 s₁.writes ++ words ∧
        decodeQueue words = some (lpiMapCommands s₁ 0 3 8192 (target highRd (15 <<< 8 ||| 1 <<< 19) 0))) := by
  constructor
  · refine ⟨(armGicItsConfiguration secondPe initial).2, Prod.ext (by decide +kernel) rfl, ?_⟩
    rintro ⟨words, hw, hd⟩
    have hnone : commandWords 0 (armGicItsConfiguration secondPe initial).2.writes = [] := by decide +kernel
    rw [hnone, List.nil_append] at hw
    rw [← hw] at hd
    revert hd
    decide +kernel
  · refine ⟨(armGicItsConfiguration highRd initial).2, Prod.ext (by decide +kernel) rfl, ?_⟩
    rintro ⟨words, hw, hd⟩
    have hnone : commandWords 0 (armGicItsConfiguration highRd initial).2.writes = [] := by decide +kernel
    rw [hnone, List.nil_append] at hw
    rw [← hw] at hd
    revert hd
    decide +kernel

end Its
