import BsaAcs.Gic.Theorems.Handover

namespace Its

variable {env : Env} {its : Nat} {s s' : State}

-- What the commands do to the tables of the ITS, against the routes.

structure Refines (bits itt rdBase : Nat) (r : Routes) (t : GitsTables) : Prop where
  devices     : ∀ d, t.devices d = if r.devices d then some (itt, bits) else none
  events      : ∀ e, t.itt itt e = if r.mapped e then some (e, 1) else none
  collections : (∃ d, r.devices d = true) →
    ∀ c, t.collections c = if c = collectionOf rdBase then some (redistributorOf rdBase) else none
  unset       : (∀ d, r.devices d = false) → ∀ c, t.collections c = none
  range       : ∀ e, r.mapped e = true → e < 2 ^ (bits + 1)

namespace Refines

variable {bits itt rdBase : Nat} {r : Routes} {t : GitsTables}

theorem empty : Refines bits itt rdBase Routes.none GitsTables.empty where
  devices _     := rfl
  events _      := rfl
  collections h := by simp [Routes.none] at h
  unset _ _     := rfl
  range _ h     := by simp [Routes.none] at h

-- The operations of other ITSs change the enabled interrupts alone.
theorem congr {r' : Routes} (h : Refines bits itt rdBase r t) (hd : r'.devices = r.devices)
    (hm : r'.mapped = r.mapped) : Refines bits itt rdBase r' t := by
  obtain ⟨h₁, h₂, h₃, h₄, h₅⟩ := h
  rw [← hd, ← hm] at *
  exact ⟨h₁, h₂, h₃, h₄, h₅⟩

theorem setEvent_of_some {d e a n : Nat} {entry : Option (Nat × Nat)} (h : t.devices d = some (a, n)) :
    t.setEvent d e entry = if e < 2 ^ (n + 1) then
      { t with itt := Function.update t.itt a (Function.update (t.itt a) e entry) } else t := by
  rw [GitsTables.setEvent, h]

theorem setEvent_of_none {d e : Nat} {entry : Option (Nat × Nat)} (h : t.devices d = none) :
    t.setEvent d e entry = t := by
  rw [GitsTables.setEvent, h]

-- The device and the collection are mapped, whether or not they have been before.
theorem map (h : Refines bits itt rdBase r t) (devID : Nat) :
    Refines bits itt rdBase { r with devices := Function.update r.devices devID true }
      { t with
        devices     := Function.update t.devices devID (some (itt, bits))
        collections := Function.update t.collections (collectionOf rdBase) (some (redistributorOf rdBase)) } := by
  refine ⟨?devices, h.events, ?collections, ?unset, h.range⟩
  case devices =>
    intro d
    by_cases hd : d = devID
    case pos => simp [hd]
    case neg => simp [hd, h.devices d]
  case collections =>
    intro _ c
    by_cases hc : c = collectionOf rdBase
    case pos => simp [hc]
    case neg =>
      simp only [Function.update_of_ne hc, hc, if_false]
      by_cases hd : ∃ d, r.devices d = true
      case pos => rw [h.collections hd c, if_neg hc]
      case neg => exact h.unset (fun d => Bool.eq_false_iff.mpr fun he => hd ⟨d, he⟩) c
  case unset =>
    intro hd
    simpa using hd devID

theorem mapEvent (h : Refines bits itt rdBase r t) {devID intID : Nat} (hd : r.devices devID = true) :
    Refines bits itt rdBase
      { r with mapped := if armLpiMinid ≤ intID ∧ intID < 2 ^ (bits + 1) then Function.update r.mapped intID true
          else r.mapped }
      (t.exec (.map (.mapi devID intID 1))) := by
  have hdev : t.devices devID = some (itt, bits) := by rw [h.devices, if_pos hd]
  simp only [GitsTables.exec, setEvent_of_some hdev]
  by_cases hi : armLpiMinid ≤ intID ∧ intID < 2 ^ (bits + 1)
  case pos =>
    rw [if_pos hi.left, if_pos hi.right, if_pos hi]
    refine ⟨h.devices, ?events, h.collections, h.unset, ?range⟩
    case events =>
      intro e
      by_cases he : e = intID
      case pos => simp [he]
      case neg => simp [he, h.events e]
    case range =>
      intro e
      by_cases he : e = intID
      case pos =>
        rw [he]
        exact fun _ => hi.right
      case neg =>
        simp only [Function.update_of_ne he]
        exact h.range e
  case neg =>
    rw [if_neg hi]
    split
    case isFalse => exact h
    case isTrue hle =>
      rw [if_neg fun hlt => hi ⟨hle, hlt⟩]
      exact h

theorem unmapEvent (h : Refines bits itt rdBase r t) {devID intID : Nat} :
    Refines bits itt rdBase
      { r with mapped := if r.devices devID then Function.update r.mapped intID false else r.mapped }
      (t.exec (.discard devID intID)) := by
  rw [GitsTables.exec]
  cases hd : r.devices devID
  case false =>
    rw [setEvent_of_none (by rw [h.devices, hd]; rfl)]
    exact h
  case true =>
    rw [setEvent_of_some (by rw [h.devices, hd]; rfl), if_pos rfl]
    split
    case isTrue hlt =>
      refine ⟨h.devices, fun e => ?_, h.collections, h.unset, fun e => ?_⟩
      · by_cases he : e = intID
        case pos => simp [he]
        case neg => simp [he, h.events e]
      · by_cases he : e = intID
        case pos => simp [he]
        case neg =>
          simp only [Function.update_of_ne he]
          exact h.range e
    case isFalse hge =>
      -- The device has no such event: it is not mapped.
      have hn : r.mapped intID = false := Bool.eq_false_iff.mpr fun he => hge (h.range intID he)
      rw [← hn, Function.update_eq_self]
      exact h

theorem exec (h : Refines bits itt rdBase r t) (op : Op) :
    Refines bits itt rdBase (r.onIts bits op) ((op.commands bits itt rdBase).foldl GitsTables.exec t) := by
  cases op
  case create its devID intID priority =>
    exact (h.map devID).mapEvent (Function.update_self ..)
  case clear its devID intID => exact h.unmapEvent

theorem apply (h : Refines bits itt rdBase r t) (op : Op) :
    Refines bits itt rdBase (r.apply its bits op)
      ((if op.its = its then op.commands bits itt rdBase else []).foldl GitsTables.exec t) := by
  have hc : Refines bits itt rdBase { r with enabled := Function.update r.enabled op.intId op.creates } t :=
    h.congr rfl rfl
  rw [Routes.apply]
  split
  · exact hc.exec op
  · exact hc

theorem run (ops : List Op) : Refines bits itt rdBase (routes its bits ops)
    (((ops.filter (·.its = its)).flatMap (Op.commands bits itt rdBase)).foldl GitsTables.exec GitsTables.empty) := by
  induction ops using List.reverseRecOn
  case nil => exact empty
  case append_singleton ops op hi =>
    have h := @apply its _ _ _ _ _ hi op
    rw [routes_append, List.filter_append, List.flatMap_append, List.foldl_append]
    by_cases hk : op.its = its
    case pos =>
      rw [if_pos hk] at h
      simpa [hk] using h
    case neg =>
      rw [if_neg hk] at h
      simpa [hk] using h

-- Where an event ends up.
theorem translate (h : Refines bits itt rdBase r t) (d e : Nat) :
    t.translate d e = if (r.devices d && r.mapped e) = true ∧ collectionOf rdBase = 1 then
      some (e, redistributorOf rdBase) else none := by
  rw [GitsTables.translate, h.devices]
  cases hd : r.devices d
  case false => simp
  case true =>
    simp only [if_true, Option.bind_eq_bind, Option.bind_some, h.events, Bool.true_and]
    cases hm : r.mapped e
    case false => simp
    case true =>
      have hcol := h.collections ⟨d, hd⟩ 1
      simp only [if_true, h.range e hm, guard, true_and, Option.pure_def, Option.bind_some]
      by_cases hc : collectionOf rdBase = 1
      case pos =>
        rw [if_pos hc.symm] at hcol
        rw [if_pos hc, hcol]
        rfl
      case neg =>
        rw [if_neg fun he => hc he.symm] at hcol
        rw [if_neg hc, hcol]
        rfl

end Refines

theorem mapped_mem {bits e : Nat} {ops : List Op} (h : (routes its bits ops).mapped e = true) :
    ∃ op ∈ ops, op.intId = e := by
  induction ops using List.reverseRecOn
  case nil => simp [routes, Routes.none] at h
  case append_singleton ops op hi =>
    by_cases he : op.intId = e
    case pos => exact ⟨op, by simp, he⟩
    case neg =>
      have hm : (routes its bits ops).mapped e = true := by
        rw [routes_append, Routes.apply] at h
        have he' : e ≠ op.intId := fun hc => he hc.symm
        cases op <;> simp only [Routes.onIts, Op.intId] at h he' <;> split at h
        · split at h
          · simpa [he'] using h
          · exact h
        · exact h
        · split at h
          · simpa [he'] using h
          · exact h
        · exact h
      obtain ⟨op', hm', he'⟩ := hi hm
      exact ⟨op', List.mem_append_left _ hm', he'⟩

section Decode

variable {bits itt rdBase : Nat} {ops : List Op} {cs : List CommandWords} {commands : List GitsCommand}

theorem foldl_execWords (t : GitsTables) (h : cs.map GitsCommand.decode = commands.map some) :
    cs.foldl GitsTables.execWords t = commands.foldl GitsTables.exec t := by
  induction cs generalizing commands t
  case nil =>
    rw [List.map_nil, eq_comm, List.map_eq_nil_iff] at h
    rw [h]
    rfl
  case cons words cs hi =>
    cases commands
    case nil => simp at h
    case cons command commands =>
      simp only [List.map_cons, List.cons.injEq] at h
      rw [List.foldl_cons, List.foldl_cons, hi _ h.right, GitsTables.execWords, h.left]

theorem decode_run (hv : ∀ op ∈ ops, op.Valid env) (hitt : 2 ^ 16 ∣ itt ∧ itt < 2 ^ 52) (hb : bits < 2 ^ 5) :
    (wholeCommands (ops.flatMap (Op.queued bits itt rdBase))).map GitsCommand.decode =
      (ops.flatMap (Op.commands bits itt rdBase)).map some := by
  induction ops
  case nil => rfl
  case cons op ops hi =>
    have hd : 4 ∣ (op.queued bits itt rdBase).length := by
      rw [Op.queued_length]
      exact Op.words_dvd
    rw [List.flatMap_cons, List.flatMap_cons, wholeCommands_append hd, List.map_append, List.map_append,
      Op.decode_queued (hv op List.mem_cons_self) hitt hb, hi fun op hm => hv op (List.mem_cons_of_mem _ hm)]

end Decode

-- What the ITS is asked for in a run.
def commandsOf (s : State) (rdBase its : Nat) (ops : List Op) : List GitsCommand :=
  (ops.filter (·.its = its)).flatMap (Op.commands (s.idBits its) (s.ittBase its) rdBase)

theorem commandWords_suffix {writes writes' : List Write} (h : writes <:+ writes') :
    wholeCommands (commandWords its writes) <+: wholeCommands (commandWords its writes') := by
  obtain ⟨rest, rfl⟩ := h
  have he : commandWords its (rest ++ writes) = commandWords its writes ++ commandWords its rest := by
    simp [commandWords]
  rw [he]
  exact wholeCommands_prefix

section Reach

variable {typer : Nat → Nat} {gicrTyper n : Nat} {ops : List Op} {final : State} {writes : List Write}
  {t : GitsTables} {rdBase : Nat}

-- All the commands of a run, as the ITS decodes them.
theorem Tracks.decoded (h : Tracks env s typer gicrTyper ops ops final) (hv : ∀ op ∈ ops, op.Valid env)
    (hitt : 2 ^ 16 ∣ s.ittBase its ∧ s.ittBase its < 2 ^ 52) (hb : s.idBits its < 2 ^ 5) :
    (wholeCommands (commandWords its final.writes)).map GitsCommand.decode =
      (commandsOf s (rdBaseFormat env (typer its) gicrTyper) its ops).map some := by
  rw [h.words, commandsOf]
  exact decode_run (fun op hm => hv op (List.mem_of_mem_filter hm)) hitt hb

variable (hd : (wholeCommands (commandWords its final.writes)).map GitsCommand.decode =
    (commandsOf s rdBase its ops).map some)
variable (hl : (gitsFeed env s its final.writes).Lawful (· <:+ final.writes)) (hs : s.writes <:+ final.writes)
variable (h : GitsReach env s its final.writes writes n t)

include hd hl hs h

-- At any time, the ITS has executed the first of the commands.
theorem reach_executed : t = ((commandsOf s rdBase its ops).take n).foldl GitsTables.exec .empty := by
  have hw : writes <:+ final.writes := Feed.Reach.inv (I := (· <:+ final.writes)) hl hs h
  have hn := (h.le_published hl hs).trans (hl.bounded hw)
  obtain ⟨rest, hrest⟩ := @commandWords_suffix its _ _ hw
  rw [h.executed hl hs]
  refine foldl_execWords _ ?_
  have htake : (wholeCommands (commandWords its writes)).take n =
      (wholeCommands (commandWords its final.writes)).take n := by
    rw [← hrest]
    exact (List.take_append_of_le_length hn).symm
  simp only [gitsFeed]
  rw [htake, List.map_take, hd, List.map_take]

-- Where it has not caught up, it finds the next of the commands.
theorem reach_progress (hn : n ≠ handedOver env its writes) :
    GitsCommand.decode (fetchCommand (s.commandQBase its) writes n) = (commandsOf s rdBase its ops)[n]? := by
  have hw : writes <:+ final.writes := Feed.Reach.inv (I := (· <:+ final.writes)) hl hs h
  obtain ⟨words, hf, hlog⟩ := h.progress hl hs hn
  obtain ⟨rest, hrest⟩ := @commandWords_suffix its _ _ hw
  have hall : (wholeCommands (commandWords its final.writes))[n]? = some words := by
    rw [← hrest]
    have hlt : n < (wholeCommands (commandWords its writes)).length := (List.getElem?_eq_some_iff.mp hlog).1
    rw [List.getElem?_append_left hlt]
    exact hlog
  have he := congrArg (·[n]?) hd
  simp only [List.getElem?_map, hall, Option.map_some] at he
  simp only [gitsFeed, Option.some.injEq] at hf
  rw [hf]
  cases hc : (commandsOf s rdBase its ops)[n]?
  case none =>
    rw [hc] at he
    cases he
  case some command =>
    rw [hc, Option.map_some, Option.some.injEq] at he
    exact he

-- Once it has caught up, it has executed all of them.
theorem reach_drained (hp : peek final.writes (cwriterAddr env its) = 8 * wordsWritten its final.writes)
    (htr : Traced its (s.commandQBase its) (cwriterAddr env its) final.writes)
    (hw4 : 4 ∣ wordsWritten its final.writes) (he : writes = final.writes) (hn : n = handedOver env its writes) :
    t = (commandsOf s rdBase its ops).foldl GitsTables.exec .empty := by
  subst he
  obtain ⟨hho, _⟩ := handedOver_eq hp hw4 htr.wordsWritten_le
  rw [h.drained hl hs hn]
  · exact foldl_execWords _ hd
  · simp only [gitsFeed, hho, wholeCommands_length, Traced.commandWords_length]

end Reach

-- The code may be done before the ITS takes the first command, and the ITS always catches up.
theorem gitsReach_written {all writes : List Write} (h : s.writes <:+ writes) (hw : writes <:+ all) :
    GitsReach env s its all writes 0 .empty := by
  induction writes
  case nil =>
    rw [← List.suffix_nil.mp h]
    exact .start
  case cons w writes hi =>
    rcases List.suffix_cons_iff.mp h with he | h
    · rw [← he]
      exact .start
    · exact (hi h ((List.suffix_cons ..).trans hw)).produce ⟨w, rfl, hw⟩

theorem gitsReach_drained {all : List Write} (hl : (gitsFeed env s its all).Lawful (· <:+ all)) (h : s.writes <:+ all) :
    ∃ t, GitsReach env s its all all (handedOver env its all) t :=
  (gitsReach_written h List.suffix_rfl).catchUp hl h

-- An interrupt that is mapped has been named by an operation, so that its byte is that of the last one.
theorem deliver_eq {typer : Nat → Nat} {gicrTyper rdBase bits itt : Nat} {ops : List Op} {final : State} {t : GitsTables}
    (h : Tracks env s typer gicrTyper ops ops final) (hr : Refines bits itt rdBase (routes its bits ops) t) (d e : Nat) :
    t.deliver s final.writes d e = if (routes its bits ops).deliver d e = true ∧ collectionOf rdBase = 1 then
      some (e, redistributorOf rdBase) else none := by
  rw [GitsTables.deliver, hr.translate, Routes.deliver]
  by_cases hm : ((routes its bits ops).devices d && (routes its bits ops).mapped e) = true ∧ collectionOf rdBase = 1
  case neg =>
    have hn : ¬(((routes its bits ops).devices d && (routes its bits ops).mapped e &&
        (routes its bits ops).enabled e) = true ∧ collectionOf rdBase = 1) := by
      rw [Bool.and_eq_true]
      exact fun hc => hm ⟨hc.left.left, hc.right⟩
    rw [if_neg hm, if_neg hn]
    rfl
  case pos =>
    obtain ⟨hd, he⟩ := Bool.and_eq_true_iff.mp hm.left
    obtain ⟨op, hop, rfl⟩ := mapped_mem he
    have hb := h.bytes its bits hop
    rw [if_pos hm, Option.bind_eq_bind, Option.bind_some, hm.left, Bool.true_and]
    simp only [hb]
    cases (routes its bits ops).enabled op.intId
    case false => simp
    case true  => simp [hm.right]

section Run

variable {s₀ : State} {typer : Nat → Nat} {gicrTyper : Nat} {ops : List Op} {writes : List Write} {n : Nat}
  {t : GitsTables}
variable (h₀ : s₀.writes = []) (hc : armGicItsConfiguration env s₀ = (.success, s)) (hu : Unstalled env)
  (ht : ∀ its k writes, env.read k writes (env.itsBase its + armGitsTyper) = typer its)
  (hg : ∀ k writes, env.read k writes (env.gicRdBase + armGicrTyper) = gicrTyper)
  (hap : Apart env s ops) (hv : ∀ op ∈ ops, op.Valid env) (hroom : ∀ its, used its ops < queueSize / 8)
  (hi : its < env.gicNumIts)

include h₀ hc hu ht hg hap hv hroom

theorem run_tracks : Tracks env s typer gicrTyper ops ops (run env ops s) := by
  obtain ⟨_, hwords, _⟩ := configuration_ready h₀ hc
  refine (Tracks.start h₀ hc hap).run ht hg hu hap hv (List.nil_append ops) fun k => ?_
  rw [hwords k, Nat.zero_add]
  exact hroom k

include hi

theorem run_lawful : (gitsFeed env s its (run env ops s).writes).Lawful (· <:+ (run env ops s).writes) :=
  gitsFeed_lawful (hap.queue (.inr ⟨its, hi, rfl⟩) hi) ((run_tracks h₀ hc hu ht hg hap hv hroom).traced hi)

-- The ITS can catch up with every run.
theorem run_drains : ∃ t, GitsReach env s its (run env ops s).writes (run env ops s).writes
    (handedOver env its (run env ops s).writes) t :=
  gitsReach_drained (run_lawful h₀ hc hu ht hg hap hv hroom hi) (suffix_run ops s)

theorem run_decoded (hitt : 2 ^ 16 ∣ s.ittBase its ∧ s.ittBase its < 2 ^ 52) :
    (wholeCommands (commandWords its (run env ops s).writes)).map GitsCommand.decode =
      (commandsOf s (rdBaseFormat env (typer its) gicrTyper) its ops).map some :=
  (run_tracks h₀ hc hu ht hg hap hv hroom).decoded hv hitt ((configuration_idBits hc).right its hi)

-- What an ITS delivers that has caught up with a run.
theorem drained_delivers (hitt : 2 ^ 16 ∣ s.ittBase its ∧ s.ittBase its < 2 ^ 52)
    (h : GitsReach env s its (run env ops s).writes (run env ops s).writes
      (handedOver env its (run env ops s).writes) t) (deviceId eventId : Nat) :
    t.deliver s (run env ops s).writes deviceId eventId =
      if (routes its (s.idBits its) ops).deliver deviceId eventId = true ∧
        collectionOf (rdBaseFormat env (typer its) gicrTyper) = 1
      then some (eventId, redistributorOf (rdBaseFormat env (typer its) gicrTyper)) else none := by
  have htr := run_tracks h₀ hc hu ht hg hap hv hroom
  have hex := reach_drained (run_decoded h₀ hc hu ht hg hap hv hroom hi hitt)
    (run_lawful h₀ hc hu ht hg hap hv hroom hi) (suffix_run ops s) h (htr.handed hi) (htr.traced hi)
    (htr.ready.whole hi) rfl rfl
  have href := @Refines.run its (s.idBits its) (s.ittBase its) (rdBaseFormat env (typer its) gicrTyper) ops
  rw [commandsOf] at hex
  rw [← hex] at href
  exact deliver_eq htr href deviceId eventId

-- However the operations and the ITS take turns, the ITS has executed the first of the commands at any time, and can
-- always go on. Once it has caught up, an interrupt is delivered if it has been mapped for any of the devices of the
-- ITS and has been enabled last, whichever ITS that was for.
theorem run_delivers (hitt : 2 ^ 16 ∣ s.ittBase its ∧ s.ittBase its < 2 ^ 52)
    (h : GitsReach env s its (run env ops s).writes writes n t) :
    t = ((commandsOf s (rdBaseFormat env (typer its) gicrTyper) its ops).take n).foldl GitsTables.exec .empty ∧
    (n ≠ handedOver env its writes → GitsCommand.decode (fetchCommand (s.commandQBase its) writes n) =
      (commandsOf s (rdBaseFormat env (typer its) gicrTyper) its ops)[n]?) ∧
    (writes = (run env ops s).writes → n = handedOver env its writes → ∀ deviceId eventId,
      t.deliver s writes deviceId eventId =
        if (routes its (s.idBits its) ops).deliver deviceId eventId = true ∧
          collectionOf (rdBaseFormat env (typer its) gicrTyper) = 1
        then some (eventId, redistributorOf (rdBaseFormat env (typer its) gicrTyper)) else none) := by
  have hd := run_decoded h₀ hc hu ht hg hap hv hroom hi hitt
  have hl := run_lawful h₀ hc hu ht hg hap hv hroom hi
  have hs : s.writes <:+ (run env ops s).writes := suffix_run ops s
  refine ⟨reach_executed hd hl hs h, reach_progress hd hl hs h, ?_⟩
  rintro rfl rfl deviceId eventId
  exact drained_delivers h₀ hc hu ht hg hap hv hroom hi hitt h deviceId eventId

end Run

-- Operations on one interrupt, on a system with one ITS.

theorem oneIts_apart {ops : List Op} (hops : ∀ op ∈ ops, op.intId = 8192) : Apart oneIts configured ops := by
  have hq : configured.commandQBase 0 = 0x40000 := by decide
  have hb : configured.configBase = 0x20000 := by decide
  have hqs : queueSize = 32768 := rfl
  have hother {addr : Nat} (h : OtherRegister oneIts addr) : 0x8080000 ≤ addr ∧ addr ≠ 0x8080088 := by
    cases h
    case rd offset _ =>
      simp only [oneIts]
      omega
    case its k offset _ _ hn =>
      simp only [oneIts, armGitsCwriter] at *
      omega
  have hc : configAddr 8192 configured = 0x20000 := by
    rw [configAddr, hb]
    decide
  have hone {its : Nat} (h : its < oneIts.gicNumIts) : its = 0 := Nat.lt_one_iff.mp h
  have hreg (its : Nat) : oneIts.itsBase its + armGitsCwriter = 0x8080088 := rfl
  refine ⟨?registers, ?cwriters, ?queue, ?queues, ?config, ?bytes⟩
  case registers =>
    intro addr its h _
    exact (hother h).right
  case cwriters =>
    intro its k hi hk hne
    exact absurd ((hone hi).trans (hone hk).symm) hne
  case queue =>
    intro addr its h hi
    rw [hone hi, hq]
    rcases h with h | ⟨k, _, rfl⟩
    · have := (hother h).left
      omega
    · rw [hreg]
      omega
  case queues =>
    intro its k hi hk hne
    exact absurd ((hone hi).trans (hone hk).symm) hne
  case config =>
    intro op its hop hi
    rw [hops op hop, hone hi, hq, hc]
    omega
  case bytes =>
    intro op hop
    rw [hops op hop, hc]
    refine ⟨fun h => ?_, fun its _ => ?_⟩
    · have := (hother h).left
      omega
    · rw [hreg]
      decide

theorem oneIts_typer (its k : Nat) (writes : List Write) :
    oneIts.read k writes (oneIts.itsBase its + armGitsTyper) = 15 <<< 8 := by
  rfl

theorem oneIts_gicrTyper (k : Nat) (writes : List Write) : oneIts.read k writes (oneIts.gicRdBase + armGicrTyper) = 0 := by
  rfl

theorem used_oneOp (op : Op) (its : Nat) : used its [op] < queueSize / 8 := by
  have hw : op.words ≤ 20 := by
    cases op
    case create => exact Nat.le_refl 20
    case clear  => exact Nat.le_of_ble_eq_true rfl
  have hq : queueSize = 32768 := rfl
  have hn : used its [] = 0 := rfl
  rw [used_cons, hn]
  split <;> omega

theorem lpi_delivered : ∃ t,
    GitsReach oneIts configured 0 (run oneIts [.create 0 3 8192 0x50] configured).writes
      (run oneIts [.create 0 3 8192 0x50] configured).writes
      (handedOver oneIts 0 (run oneIts [.create 0 3 8192 0x50] configured).writes) t ∧
    t.deliver configured (run oneIts [.create 0 3 8192 0x50] configured).writes 3 8192 = some (8192, 0) := by
  have hi : 0 < oneIts.gicNumIts := by decide
  have hv : ∀ op ∈ [Op.create 0 3 8192 0x50], op.Valid oneIts := by
    intro op hop
    rw [List.mem_singleton.mp hop]
    exact ⟨by decide, by decide, by decide⟩
  have hap := @oneIts_apart [.create 0 3 8192 0x50] fun op hop => by rw [List.mem_singleton.mp hop]; rfl
  obtain ⟨t, h⟩ := run_drains rfl configured_eq oneIts_unstalled oneIts_typer oneIts_gicrTyper hap hv (used_oneOp _) hi
  refine ⟨t, h, ?_⟩
  rw [(run_delivers rfl configured_eq oneIts_unstalled oneIts_typer oneIts_gicrTyper hap hv (used_oneOp _) hi
    (by decide) h).right.right rfl rfl 3 8192]
  decide

end Its
