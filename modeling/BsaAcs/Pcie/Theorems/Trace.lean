import BsaAcs.Pcie.Trace
import BsaAcs.Pcie.Theorems.Positions

namespace Pcie

-- Bus numbers stay in their 8 bits, and only what answers to its own vendor id is acted on.
def Event.Ok : Event → Prop
  | entered bus               => bus ≤ 255
  | acted _ own               => own = true
  | programmed subBus secBus _ => subBus ≤ 255 ∧ secBus ≤ 255

abbrev Absent (vendorId : BitVec 32) : Prop :=
  vendorId = 0x0 ∨ vendorId = 0xFFFFFFFF

inductive WalkTask
  | bus
  | functions (bus : Nat) (rest : List (Nat × Nat))

section Walk

variable {S : Type} (hw : Mmio S) (table : PcieInfoTable) (unset : S → Nat → BitVec 32 × BitVec 32)

-- The depth-first walk through what answers. `n` bus numbers have been given away before and `n'`
-- behind, and a bridge takes the next one while there is one. The bus that got the last number so far is
-- scanned, unless it is the bus 255. No function of a bus without mapping answers, and it has to be by
-- luck that none seems to.
inductive Walks : S → WalkTask → Nat → S → Nat → Prop
  | last {s} : Walks s .bus 255 s 255
  | silent {s n} :
    (n < 255) → (ecamBase table 0 n = 0) → (Absent (unset s n).1) → Walks s .bus n s n
  | scan {s s' n n'} :
    (n < 255) → (ecamBase table 0 n ≠ 0) → Walks s (.functions n functionsOfBus) n s' n' → Walks s .bus n s' n'
  | done {s b n} : Walks s (.functions b []) n s n
  | absent {s s' b dev func rest n n' v} :
    (valPcieReadCfg hw table s (pcieCreateBdf 0 b dev func) 0 = some v) → (Absent v) →
    Walks s (.functions b rest) n s' n' → Walks s (.functions b ((dev, func) :: rest)) n s' n'
  | other {s s' b dev func rest n n' v h} :
    (valPcieReadCfg hw table s (pcieCreateBdf 0 b dev func) 0 = some v) → (¬Absent v) →
    (valPcieReadCfg hw table s (pcieCreateBdf 0 b dev func) headerOffset = some h) →
    (pcieHeaderType h ≠ type1Header) →
    Walks s (.functions b rest) n s' n' → Walks s (.functions b ((dev, func) :: rest)) n s' n'
  | bridge {s s₁ s₂ b dev func rest n n₁ n₂ v h} :
    (valPcieReadCfg hw table s (pcieCreateBdf 0 b dev func) 0 = some v) → (¬Absent v) →
    (valPcieReadCfg hw table s (pcieCreateBdf 0 b dev func) headerOffset = some h) →
    (pcieHeaderType h = type1Header) → (n < 255) →
    Walks (valPcieWriteCfg hw table s (pcieCreateBdf 0 b dev func) busNumRegOffset (busNumRegCfg 0xFF (n + 1) b))
      .bus (n + 1) s₁ n₁ →
    Walks (valPcieWriteCfg hw table s₁ (pcieCreateBdf 0 b dev func) busNumRegOffset (busNumRegCfg n₁ (n + 1) b))
      (.functions b rest) n₁ s₂ n₂ →
    Walks s (.functions b ((dev, func) :: rest)) n s₂ n₂

-- The enumeration comes to an end with a bounded depth of recursion, and all it does is in order.
def EnumerationSound (s : S) : Prop :=
  ∃ depth, ∀ fuel ≥ depth, ∃ s' n events, valBsaPcieEnumerateTrace hw table unset fuel s = some (s', n, events) ∧
    ∀ event ∈ events, event.Ok

end Walk

section Reads

variable {S : Type} {hw : Mmio S} {table : PcieInfoTable} {s : S} {bus dev func offset : Nat}

theorem mem_functionsOfBus (h : (dev, func) ∈ functionsOfBus) : dev < 32 ∧ func < 8 := by
  simp only [functionsOfBus, pcieMaxDev, pcieMaxFunc, List.mem_flatMap, List.mem_map, List.mem_range,
    Prod.mk.injEq] at h
  omega

-- A bus is mapped for all of its functions or for none.
theorem configAddr_isSome (hb : bus < 256) (hd : dev < 32) (hf : func < 8) :
    (configAddr table (pcieCreateBdf 0 bus dev func) offset).isSome ↔ ecamBase table 0 bus ≠ 0 := by
  have ⟨h₁, h₂, h₃, h₄⟩ := @extract_pcieCreateBdf 0 bus dev func hb hd hf
  have hv : ¬(bus ≥ pcieMaxBus ∨ dev ≥ pcieMaxDev ∨ func ≥ pcieMaxFunc) := by
    simp only [pcieMaxBus, pcieMaxDev, pcieMaxFunc]
    omega
  simp only [configAddr, h₁, h₂, h₃, h₄, hv, if_false, Nat.zero_mod]
  split <;> simp_all

theorem read_eq_none (hb : bus < 256) (hd : dev < 32) (hf : func < 8) (he : ecamBase table 0 bus = 0) :
    valPcieReadCfg hw table s (pcieCreateBdf 0 bus dev func) offset = none := by
  have := (@configAddr_isSome table bus dev func offset hb hd hf).not.mpr (by simpa using he)
  simp only [valPcieReadCfg, Option.map_eq_none_iff]
  simpa using this

theorem read_eq_some (hb : bus < 256) (hd : dev < 32) (hf : func < 8) (he : ecamBase table 0 bus ≠ 0) :
    ∃ v, valPcieReadCfg hw table s (pcieCreateBdf 0 bus dev func) offset = some v := by
  have := (@configAddr_isSome table bus dev func offset hb hd hf).mpr he
  have ⟨addr, ha⟩ := Option.isSome_iff_exists.mp this
  exact ⟨palMmioRead hw s addr, by simp [valPcieReadCfg, ha]⟩

end Reads

section Run

variable {S : Type} {hw : Mmio S} {table : PcieInfoTable} {unset : S → Nat → BitVec 32 × BitVec 32}
  {s s' : S} {n n' b fuel : Nat} {rest : List (Nat × Nat)} {v : Locals} {events : List Event} {task : WalkTask}

theorem Walks.le (h : Walks hw table unset s task n s' n') (hn : n ≤ 255) : n ≤ n' ∧ n' ≤ 255 := by
  induction h
  case last         => omega
  case silent       => omega
  case scan hi      => exact hi hn
  case done         => omega
  case absent hi    => exact hi hn
  case other hi     => exact hi hn
  case bridge h₁ h₂ =>
    have := h₁ (by omega)
    have := h₂ (by omega)
    omega

-- What a walk says of the calls that go through it.
def Runs (hw : Mmio S) (table : PcieInfoTable) (unset : S → Nat → BitVec 32 × BitVec 32) (s s' : S)
    (n n' : Nat) : WalkTask → Prop
  | .bus => n ≤ 255 → ∃ depth, ∀ fuel ≥ depth, ∃ events,
    pcieEnumerateTrace hw table unset fuel s n (n + 1) = some (s', n', events) ∧ ∀ event ∈ events, event.Ok
  | .functions b rest => n ≤ 255 → b ≤ 255 → ∃ depth, ∀ fuel ≥ depth, ∀ v : Locals, v.secBus = n + 1 →
    v.subBus = n → ∃ events,
    functionLoopTrace hw table (pcieEnumerateTrace hw table unset fuel) b rest s v = some (s', n', events) ∧
      ∀ event ∈ events, event.Ok

theorem functionLoopTrace_silent {enumerate : S → Nat → Nat → Option (S × Nat × List Event)}
    (hb : b < 256) (he : ecamBase table 0 b = 0) (hr : ∀ f ∈ rest, f.1 < 32 ∧ f.2 < 8)
    (hv : Absent v.vendorId) : functionLoopTrace hw table enumerate b rest s v = some (s, v.subBus, []) := by
  induction rest
  case nil => rfl
  case cons f rest hi =>
    have ⟨hd, hf⟩ := hr f (by simp)
    have hread : valPcieReadCfg hw table s (pcieCreateBdf 0 b f.1 f.2) 0 = none := read_eq_none hb hd hf he
    simp only [functionLoopTrace, hread, Option.getD_none]
    rw [if_pos hv]
    exact hi fun f hf => hr f (by simp [hf])

-- One lemma for each way in which a walk goes on.
theorem Runs.last : Runs hw table unset s s 255 255 .bus := by
  intro _
  refine ⟨1, ?_⟩
  intro fuel hf
  obtain ⟨fuel, rfl⟩ : ∃ k, fuel = k + 1 := ⟨fuel - 1, by omega⟩
  exact ⟨[.entered 255], rfl, by simp [Event.Ok]⟩

theorem Runs.silent (hn : n < 255) (he : ecamBase table 0 n = 0) (hv : Absent (unset s n).1) :
    Runs hw table unset s s n n .bus := by
  intro _
  refine ⟨1, ?_⟩
  intro fuel hf
  obtain ⟨fuel, rfl⟩ : ∃ k, fuel = k + 1 := ⟨fuel - 1, by omega⟩
  refine ⟨[.entered n], ?_, by simp [Event.Ok]; omega⟩
  have hne : ¬n = pcieMaxBus - 1 := by simp only [pcieMaxBus]; omega
  rw [pcieEnumerateTrace, if_neg hne, functionLoopTrace_silent (by omega) he
    (fun f hm => mem_functionsOfBus hm) hv]
  rfl

theorem Runs.scan (hn : n < 255) (h : Runs hw table unset s s' n n' (.functions n functionsOfBus)) :
    Runs hw table unset s s' n n' .bus := by
  intro _
  obtain ⟨depth, hd⟩ := h (by omega) (by omega)
  refine ⟨depth + 1, ?_⟩
  intro fuel hf
  obtain ⟨fuel, rfl⟩ : ∃ k, fuel = k + 1 := ⟨fuel - 1, by omega⟩
  obtain ⟨events, hr, ho⟩ := hd fuel (by omega)
    { vendorId := (unset s n).1, headerValue := (unset s n).2, secBus := n + 1, subBus := n } rfl rfl
  have hne : ¬n = pcieMaxBus - 1 := by simp only [pcieMaxBus]; omega
  refine ⟨.entered n :: events, ?_, ?_⟩
  · rw [pcieEnumerateTrace, if_neg hne, hr]
    rfl
  · exact List.forall_mem_cons.mpr ⟨hn.le, ho⟩

section

variable {s₁ s₂ : S} {dev func n₁ n₂ : Nat} {vendor header : BitVec 32}

theorem Runs.absent (hread : valPcieReadCfg hw table s (pcieCreateBdf 0 b dev func) 0 = some vendor)
    (ha : Absent vendor) (h : Runs hw table unset s s' n n' (.functions b rest)) :
    Runs hw table unset s s' n n' (.functions b ((dev, func) :: rest)) := by
  intro hn hb
  obtain ⟨depth, hd⟩ := h hn hb
  refine ⟨depth, ?_⟩
  intro fuel hf v hsec hsub
  simp only [functionLoopTrace, hread, Option.getD_some]
  rw [if_pos ha]
  exact hd fuel hf _ hsec hsub

theorem Runs.other (hread : valPcieReadCfg hw table s (pcieCreateBdf 0 b dev func) 0 = some vendor)
    (ha : ¬Absent vendor)
    (hhead : valPcieReadCfg hw table s (pcieCreateBdf 0 b dev func) headerOffset = some header)
    (ht : pcieHeaderType header ≠ type1Header) (h : Runs hw table unset s s' n n' (.functions b rest)) :
    Runs hw table unset s s' n n' (.functions b ((dev, func) :: rest)) := by
  intro hn hb
  obtain ⟨depth, hd⟩ := h hn hb
  refine ⟨depth, ?_⟩
  intro fuel hf v hsec hsub
  simp only [functionLoopTrace, hread, hhead, Option.getD_some, if_neg ht, Option.isSome_some]
  rw [if_neg ha]
  have hpred : pred32 v.secBus = n := by
    rw [pred32, hsec]
    omega
  split
  case isTrue =>
    obtain ⟨events, hr, ho⟩ := hd fuel hf
      { vendorId := vendor, headerValue := header, secBus := v.secBus, subBus := pred32 v.secBus } hsec hpred
    refine ⟨_, by rw [hr]; rfl, ?_⟩
    exact List.forall_mem_cons.mpr ⟨rfl, ho⟩
  case isFalse =>
    obtain ⟨events, hr, ho⟩ := hd fuel hf { v with vendorId := vendor, headerValue := header } hsec hsub
    refine ⟨_, by rw [hr]; rfl, ?_⟩
    exact List.forall_mem_cons.mpr ⟨rfl, ho⟩

-- `hle` bounds the number that the bus behind the bridge leaves for the functions that follow.
theorem Runs.bridge (hread : valPcieReadCfg hw table s (pcieCreateBdf 0 b dev func) 0 = some vendor)
    (ha : ¬Absent vendor)
    (hhead : valPcieReadCfg hw table s (pcieCreateBdf 0 b dev func) headerOffset = some header)
    (ht : pcieHeaderType header = type1Header) (hlt : n < 255) (hle : n₁ ≤ 255)
    (h₁ : Runs hw table unset
      (valPcieWriteCfg hw table s (pcieCreateBdf 0 b dev func) busNumRegOffset (busNumRegCfg 0xFF (n + 1) b))
      s₁ (n + 1) n₁ .bus)
    (h₂ : Runs hw table unset
      (valPcieWriteCfg hw table s₁ (pcieCreateBdf 0 b dev func) busNumRegOffset (busNumRegCfg n₁ (n + 1) b))
      s₂ n₁ n₂ (.functions b rest)) :
    Runs hw table unset s s₂ n n₂ (.functions b ((dev, func) :: rest)) := by
  intro _ hb
  obtain ⟨d₁, hd₁⟩ := h₁ hlt
  obtain ⟨d₂, hd₂⟩ := h₂ hle hb
  refine ⟨max d₁ d₂, ?_⟩
  intro fuel hf v hsec hsub
  have hs₁ : succ32 n₁ = n₁ + 1 := Nat.mod_eq_of_lt (by omega)
  have hs₂ : succ32 (n + 1) = n + 1 + 1 := Nat.mod_eq_of_lt (by omega)
  obtain ⟨inner, hr₁, ho₁⟩ := hd₁ fuel (le_of_max_le_left hf)
  obtain ⟨events, hr₂, ho₂⟩ := hd₂ fuel (le_of_max_le_right hf)
    { vendorId := vendor, headerValue := header, secBus := succ32 n₁, subBus := n₁ } hs₁ rfl
  simp only [functionLoopTrace, hread, hhead, Option.getD_some, if_pos ht, Option.isSome_some, hsec, hs₂, hr₁, hr₂]
  rw [if_neg ha]
  refine ⟨_, rfl, ?_⟩
  -- The bus numbers are programmed before and after the bus behind the bridge is scanned.
  have hprog₁ : (Event.programmed 0xFF (n + 1) b).Ok := ⟨le_rfl, hlt⟩
  have hprog₂ : (Event.programmed n₁ (n + 1) b).Ok := ⟨hle, hlt⟩
  simp only [List.forall_mem_cons, List.forall_mem_append]
  exact ⟨rfl, hprog₁, ho₁, hprog₂, ho₂⟩

end

theorem Walks.runs (h : Walks hw table unset s task n s' n') : Runs hw table unset s s' n n' task := by
  induction h
  case last                        => exact .last
  case silent hn he hv             => exact .silent hn he hv
  case scan hn _ _ hi              => exact .scan hn hi
  case done                        =>
    intro _ _
    exact ⟨0, fun fuel _ v _ hsub => ⟨[], by rw [functionLoopTrace, hsub], by simp⟩⟩
  case absent hread ha _ hi        => exact .absent hread ha hi
  case other hread ha hhead ht _ hi => exact .other hread ha hhead ht hi
  case bridge hread ha hhead ht hlt hw₁ _ h₁ h₂ =>
    exact .bridge hread ha hhead ht hlt (hw₁.le (by omega)).right h₁ h₂

-- The other way round, a scan in which all is in order is a walk, if this is so for the calls that it
-- makes.
theorem functionLoopTrace_walks
    (hcall : ∀ {s s' : S} {n n' events}, pcieEnumerateTrace hw table unset fuel s n (n + 1) = some (s', n', events) →
      (∀ event ∈ events, event.Ok) → Walks hw table unset s .bus n s' n')
    (hb : b < 256) (he : ecamBase table 0 b ≠ 0) (hr : ∀ f ∈ rest, f.1 < 32 ∧ f.2 < 8) (hn : n ≤ 255)
    (hsec : v.secBus = n + 1) (hsub : v.subBus = n)
    (h : functionLoopTrace hw table (pcieEnumerateTrace hw table unset fuel) b rest s v = some (s', n', events))
    (ho : ∀ event ∈ events, event.Ok) : Walks hw table unset s (.functions b rest) n s' n' := by
  induction rest generalizing s n v events
  case nil =>
    simp only [functionLoopTrace, Option.some.injEq, Prod.mk.injEq] at h
    cases h.left
    cases h.right.left.symm.trans hsub
    exact .done
  case cons f rest hi =>
    have ⟨hd, hf⟩ := hr f (by simp)
    have hr := fun f hf => hr f (List.mem_cons_of_mem _ hf)
    have ⟨vendor, hv⟩ := @read_eq_some S hw table s b f.1 f.2 0 hb hd hf he
    have ⟨header, hh⟩ := @read_eq_some S hw table s b f.1 f.2 headerOffset hb hd hf he
    simp only [functionLoopTrace, hv, hh, Option.getD_some, Option.isSome_some] at h
    split at h
    case isTrue ha => exact .absent hv ha (hi hr hn (by exact hsec) (by exact hsub) h ho)
    case isFalse ha =>
      split at h
      case isFalse ht =>
        have hpred : pred32 v.secBus = n := by
          rw [pred32, hsec]
          omega
        split at h
        all_goals
          have ⟨⟨s₁, n₁, events₁⟩, hl, heq⟩ := Option.map_eq_some_iff.mp h
          simp only [Prod.mk.injEq] at heq
          cases heq.left
          cases heq.right.left
          have ho := fun event hm => ho event (heq.right.right ▸ List.mem_cons_of_mem _ hm)
        · exact .other hv ha hh ht (hi hr hn (by exact hsec) (by exact hpred) hl ho)
        · exact .other hv ha hh ht (hi hr hn (by exact hsec) (by exact hsub) hl ho)
      case isTrue ht =>
        split at h
        case h_1 => simp at h
        case h_2 s₁ n₁ inner hc =>
          have ⟨⟨s₂, n₂, events₂⟩, hl, heq⟩ := Option.map_eq_some_iff.mp h
          simp only [Prod.mk.injEq] at heq
          cases heq.left
          cases heq.right.left
          rw [← heq.right.right] at ho
          have hprog : (Event.programmed 0xFF v.secBus b).Ok := ho _ (by simp)
          have hlt : n < 255 := by
            have := hprog.right
            omega
          have hs₂ : succ32 (n + 1) = n + 1 + 1 := Nat.mod_eq_of_lt (by omega)
          rw [hsec, hs₂] at hc
          have hw₁ := hcall hc fun event hm => ho event (by simp [hm])
          have hle := hw₁.le (by omega)
          have hs₁ : succ32 n₁ = n₁ + 1 := Nat.mod_eq_of_lt (by omega)
          rw [hsec] at hl
          exact .bridge hv ha hh ht hlt hw₁
            (hi hr (by omega) (by exact hs₁) rfl hl fun event hm => ho event (by simp [hm]))

-- If the vendor id that is left over seems to be one, the first function of a bus without mapping is acted on
-- without an answer of its own.
theorem functionLoopTrace_acted {enumerate : S → Nat → Nat → Option (S × Nat × List Event)} (hb : b < 256)
    (he : ecamBase table 0 b = 0) (hv : ¬Absent v.vendorId)
    (h : functionLoopTrace hw table enumerate b functionsOfBus s v = some (s', n', events)) :
    Event.acted (pcieCreateBdf 0 b 0 0) false ∈ events := by
  have hfirst : functionsOfBus = (0, 0) :: functionsOfBus.tail := by decide +kernel
  have hread : valPcieReadCfg hw table s (pcieCreateBdf 0 b 0 0) 0 = none :=
    read_eq_none hb (by omega) (by omega) he
  rw [hfirst] at h
  simp only [functionLoopTrace, hread, Option.getD_none, Option.isSome_none, if_neg hv] at h
  split at h
  case isTrue =>
    split at h
    case h_1 => simp at h
    case h_2 =>
      obtain ⟨_, _, heq⟩ := Option.map_eq_some_iff.mp h
      simp only [Prod.mk.injEq] at heq
      simp [← heq.right.right]
  case isFalse =>
    split at h
    all_goals
      obtain ⟨_, _, heq⟩ := Option.map_eq_some_iff.mp h
      simp only [Prod.mk.injEq] at heq
      simp [← heq.right.right]

theorem pcieEnumerateTrace_walks
    (h : pcieEnumerateTrace hw table unset fuel s n (n + 1) = some (s', n', events))
    (ho : ∀ event ∈ events, event.Ok) : Walks hw table unset s .bus n s' n' := by
  induction fuel generalizing s s' n n' events
  case zero => simp [pcieEnumerateTrace] at h
  case succ fuel hi =>
    rw [pcieEnumerateTrace] at h
    split at h
    case isTrue he =>
      simp only [Option.some.injEq, Prod.mk.injEq] at h
      cases h.left
      cases h.right.left
      cases show n = 255 from he
      exact .last
    case isFalse hne =>
      have ⟨⟨s₁, n₁, events₁⟩, hl, heq⟩ := Option.map_eq_some_iff.mp h
      simp only [Prod.mk.injEq] at heq
      cases heq.left
      cases heq.right.left
      rw [← heq.right.right] at ho
      have hent : (Event.entered n).Ok := ho _ (by simp)
      have hlt : n < 255 := by
        simp only [Event.Ok, pcieMaxBus] at hent hne
        omega
      have ho₁ : ∀ event ∈ events₁, event.Ok := fun event hm => ho event (by simp [hm])
      by_cases he : ecamBase table 0 n = 0
      case neg =>
        exact .scan hlt he (functionLoopTrace_walks hi (by omega) he (fun f hm => mem_functionsOfBus hm)
          (by omega) rfl rfl hl ho₁)
      case pos =>
        by_cases hv : Absent (unset s n).1
        case pos =>
          rw [functionLoopTrace_silent (by omega) he (fun f hm => mem_functionsOfBus hm) hv] at hl
          cases hl
          exact .silent hlt he hv
        case neg =>
          have := ho₁ _ (functionLoopTrace_acted (by omega) he hv hl)
          simp [Event.Ok] at this

-- The enumeration is sound exactly where the walk has a bus number for every bridge that it meets, and
-- meets no bus without mapping, or is lucky there.
theorem enumeration_sound_iff (hw : Mmio S) (table : PcieInfoTable) (unset : S → Nat → BitVec 32 × BitVec 32) (s : S) :
    EnumerationSound hw table unset s ↔ ∃ s' n, Walks hw table unset s .bus 0 s' n := by
  constructor
  · intro ⟨depth, hd⟩
    have ⟨s', n, events, hr, ho⟩ := hd depth le_rfl
    exact ⟨s', n, pcieEnumerateTrace_walks hr ho⟩
  · intro ⟨s', n, hw⟩
    have ⟨depth, hd⟩ := hw.runs (by omega)
    exact ⟨depth, fun fuel hf => have ⟨events, hr, ho⟩ := hd fuel hf; ⟨s', n, events, hr, ho⟩⟩

-- Without the events this is the enumeration.
theorem functionLoopTrace_result {enumerate : S → Nat → Nat → Option (S × Nat × List Event)} :
    (functionLoopTrace hw table enumerate b rest s v).map (fun r => (r.1, r.2.1)) =
      functionLoop hw table (fun s b n => (enumerate s b n).map fun r => (r.1, r.2.1)) b rest s v := by
  induction rest generalizing s v
  case nil => rfl
  case cons f rest hi =>
    simp only [functionLoopTrace, functionLoop]
    split
    case isTrue => exact hi
    case isFalse =>
      split
      case isTrue =>
        cases enumerate (valPcieWriteCfg hw table s (pcieCreateBdf 0 b f.1 f.2) busNumRegOffset
          (busNumRegCfg 0xFF v.secBus b)) v.secBus (succ32 v.secBus)
        case none => rfl
        case some r => simp only [Option.map_some, ← hi, Option.map_map]; rfl
      case isFalse =>
        split
        all_goals
          simp only [← hi, Option.map_map]
          rfl

theorem pcieEnumerateTrace_result {vendorId headerValue : BitVec 32} {bus sec : Nat} :
    (pcieEnumerateTrace hw table (fun _ _ => (vendorId, headerValue)) fuel s bus sec).map (fun r => (r.1, r.2.1)) =
      pcieEnumerateDevice hw table vendorId headerValue fuel s bus sec := by
  induction fuel generalizing s bus sec
  case zero => rfl
  case succ fuel hi =>
    rw [pcieEnumerateTrace, pcieEnumerateDevice]
    split
    case isTrue => rfl
    case isFalse =>
      have hf : (fun s b n => (pcieEnumerateTrace hw table (fun _ _ => (vendorId, headerValue)) fuel s b n).map
          fun r => (r.1, r.2.1)) = pcieEnumerateDevice hw table vendorId headerValue fuel := by
        funext s b n
        exact hi
      rw [← hf, ← functionLoopTrace_result, Option.map_map]
      rfl

end Run

-- The root bus has a bridge at every device and function number, with nothing behind them.
def fullBus : Mmio Unit where
  read _ addr :=
    if (addr - 0x40000000) / 2 ^ 20 = 0 then
      if addr % 4096 = 0 then 0x12341234 else if addr % 4096 = 0xC then 0x00010000 else 0
    else 0xFFFFFFFF
  write _ _ _ := ()

def fullTable : PcieInfoTable :=
  [{ ecamBase := 0x40000000, segmentNum := 0, startBusNum := 0, endBusNum := 255 }]

theorem fullBus_read : ∀ dev < 32, ∀ func < 8,
    valPcieReadCfg fullBus fullTable () (pcieCreateBdf 0 0 dev func) 0 = some 0x12341234 ∧
    valPcieReadCfg fullBus fullTable () (pcieCreateBdf 0 0 dev func) headerOffset = some 0x00010000 := by
  decide +kernel

-- Each function of the root bus takes a number.
theorem fullBus_walks {unset : Unit → Nat → BitVec 32 × BitVec 32} {s s' : Unit} {task : WalkTask} {n n' : Nat}
    (h : Walks fullBus fullTable unset s task n s' n') {rest : List (Nat × Nat)}
    (ht : task = .functions 0 rest) (hr : ∀ f ∈ rest, f.1 < 32 ∧ f.2 < 8) (hn : n ≤ 255) :
    n + rest.length ≤ n' := by
  induction h generalizing rest
  case last   => simp at ht
  case silent => simp at ht
  case scan   => simp at ht
  case done =>
    cases ht
    simp
  case absent dev func rest _ _ v hv ha _ _ =>
    cases ht
    have ⟨hd, hf⟩ := hr (dev, func) (by simp)
    have he := hv.symm.trans (fullBus_read dev hd func hf).left
    cases he
    exact absurd ha (by decide)
  case other dev func rest _ _ v h _ _ hh ht' _ _ =>
    cases ht
    have ⟨hd, hf⟩ := hr (dev, func) (by simp)
    have he := hh.symm.trans (fullBus_read dev hd func hf).right
    cases he
    exact absurd (by decide) ht'
  case bridge hlt hw₁ _ _ hi =>
    cases ht
    have hle := hw₁.le (by omega)
    have := hi rfl (fun f hf => hr f (by simp [hf])) (by omega)
    simp only [List.length_cons]
    omega

-- The last of its 256 bridges gets the bus number 256, behind which the root bus answers again.
theorem bus_numbers_run_out :
    ¬∀ (S : Type) (hw : Mmio S) (table : PcieInfoTable) (unset : S → Nat → BitVec 32 × BitVec 32) (s : S),
      EnumerationSound hw table unset s := by
  intro h
  have ⟨depth, hd⟩ := h Unit fullBus fullTable (fun _ _ => (0, 0)) ()
  have ⟨s', n, events, hr, ho⟩ := hd depth le_rfl
  have hw := pcieEnumerateTrace_walks hr ho
  have hle := hw.le (by decide)
  cases hw
  case silent he => exact absurd he (by decide)
  case scan hs =>
    have hlen : functionsOfBus.length = 256 := by decide +kernel
    have := fullBus_walks hs rfl (fun f hm => mem_functionsOfBus hm) (by decide)
    simp only [priBus] at this
    omega

end Pcie
