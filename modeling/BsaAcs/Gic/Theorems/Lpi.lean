import BsaAcs.Gic.Theorems.Commands

namespace Its

-- A register that holds what was written last.
def readBack (init addr : Nat) (writes : List Write) : Nat :=
  match writes.find? (·.addr = addr) with
  | some w => w.value
  | none   => init

-- The registers that the LPI id space depends on: the two identification registers, and GICR_PROPBASER with
-- what it holds before the configuration.
structure LpiRegisters (env : Env) (gicdTyper propbaser : Nat) (gitsTyper : Nat → Nat) : Prop where
  gicd : ∀ k writes, env.read k writes (env.gicDBase + armGicdTyper) = gicdTyper
  gits : ∀ its < env.gicNumIts, ∀ k writes, env.read k writes (env.itsBase its + armGitsTyper) = gitsTyper its
  prop : ∀ k writes, env.read k writes (env.gicRdBase + armGicrPropbaser) =
    readBack propbaser (env.gicRdBase + armGicrPropbaser) writes

-- The IDbits of an ITS, as far as the distributor has them, and the least of all.
def itsBits (gicdTyper : Nat) (gitsTyper : Nat → Nat) (its : Nat) : Nat :=
  min (armGicdTyperIDbits gicdTyper) (armGitsTyperIDbits (gitsTyper its))

def leastBits (gicdTyper : Nat) (gitsTyper : Nat → Nat) (n : Nat) : Nat :=
  (List.range n).foldl (fun bits its => min bits (armGitsTyperIDbits (gitsTyper its))) (armGicdTyperIDbits gicdTyper)

-- GICR_PROPBASER.IDbits in a state.
def propbaserIDbits (env : Env) (propbaser : Nat) (s : State) : Nat :=
  armGicrPropbaserIDbits (readBack propbaser (env.gicRdBase + armGicrPropbaser) s.writes)

-- The sizes of the tables are what they would be with unbounded numbers.
def SizesExact (idbits : Nat) : Prop :=
  idbits + 1 < 32 ∧ configTableSize idbits = 2 ^ (idbits + 1) - armLpiMinid ∧
    pendingTableSize idbits = 2 ^ (idbits + 1) / 8

instance (idbits : Nat) : Decidable (SizesExact idbits) :=
  inferInstanceAs (Decidable (_ ∧ _ ∧ _))

-- `s₁` follows the configuration of the ITSs, `s₂` that of the redistributor. The configuration table has a byte
-- for each LPI and the pending table a bit for each interrupt.
structure LpiSpace (env : Env) (propbaser least : Nat) (s₁ s₂ : State) : Prop where
  idbits : propbaserIDbits env propbaser s₁ = least
  tables : ∃ config pending, s₂.requests = pending :: config :: s₁.requests ∧
    armGicItsGetMaxLpiID env { s₂ with gItsSetupDone := true } < armLpiMinid + config ∧
    armGicItsGetMaxLpiID env { s₂ with gItsSetupDone := true } < 8 * pending
  sizes  : SizesExact (propbaserIDbits env propbaser s₁)

section

variable {env : Env} {gicdTyper propbaser : Nat} {gitsTyper : Nat → Nat} {s s' s₁ s₂ : State} {its n : Nat}

theorem readBack_mmioWrite {purpose : Purpose} {addr value : Nat} :
    readBack propbaser addr (mmioWrite purpose addr value s).writes = value := by
  simp [readBack, mmioWrite]

theorem itsBits_lt : itsBits gicdTyper gitsTyper its < 2 ^ 5 :=
  Nat.lt_of_le_of_lt (Nat.min_le_left ..) (Nat.lt_succ_of_le Nat.and_le_right)

theorem leastBits_le_gicd : leastBits gicdTyper gitsTyper n ≤ armGicdTyperIDbits gicdTyper := by
  induction n
  case zero => exact le_rfl
  case succ n hi =>
    simp only [leastBits, List.range_succ, List.foldl_append, List.foldl_cons, List.foldl_nil] at hi ⊢
    exact (Nat.min_le_left ..).trans hi

theorem leastBits_succ : leastBits gicdTyper gitsTyper (n + 1) =
    min (leastBits gicdTyper gitsTyper n) (itsBits gicdTyper gitsTyper n) := by
  have hle : leastBits gicdTyper gitsTyper n ≤ armGicdTyperIDbits gicdTyper := leastBits_le_gicd
  have hs : leastBits gicdTyper gitsTyper (n + 1) =
      min (leastBits gicdTyper gitsTyper n) (armGitsTyperIDbits (gitsTyper n)) := by
    simp [leastBits, List.range_succ]
  rw [hs, itsBits]
  omega

theorem leastBits_le (h : its < n) : leastBits gicdTyper gitsTyper n ≤ itsBits gicdTyper gitsTyper its := by
  induction n
  case zero => omega
  case succ n hi =>
    rw [leastBits_succ]
    by_cases hc : its = n
    case pos => exact hc ▸ Nat.min_le_right ..
    case neg => exact (Nat.min_le_left ..).trans (hi (by omega))

-- The least is that of some ITS.
theorem leastBits_mem (hn : 0 < n) : ∃ its < n, leastBits gicdTyper gitsTyper n = itsBits gicdTyper gitsTyper its := by
  induction n
  case zero => omega
  case succ n hi =>
    rw [leastBits_succ]
    cases n
    case zero =>
      refine ⟨0, by omega, ?_⟩
      have hz : leastBits gicdTyper gitsTyper 0 = armGicdTyperIDbits gicdTyper := rfl
      rw [hz, itsBits]
      omega
    case succ n =>
      have ⟨its, hlt, he⟩ := hi (by omega)
      by_cases hc : leastBits gicdTyper gitsTyper (n + 1) ≤ itsBits gicdTyper gitsTyper (n + 1)
      case pos => exact ⟨its, by omega, (Nat.min_eq_left hc).trans he⟩
      case neg => exact ⟨n + 1, by omega, Nat.min_eq_right (Nat.le_of_not_le hc)⟩

-- What is in GICR_PROPBASER after `n` ITSs: their bits are added to it, one after the other.
def orBits (propbaser gicdTyper : Nat) (gitsTyper : Nat → Nat) (n : Nat) : Nat :=
  (List.range n).foldl (fun value its => value ||| itsBits gicdTyper gitsTyper its) propbaser

theorem orBits_succ : orBits propbaser gicdTyper gitsTyper (n + 1) =
    orBits propbaser gicdTyper gitsTyper n ||| itsBits gicdTyper gitsTyper n := by
  simp [orBits, List.range_succ]

theorem initialConfiguration_spec (hr : LpiRegisters env gicdTyper propbaser gitsTyper) (hi : its < env.gicNumIts)
    (h : setInitialConfiguration env its s = (.success, s')) :
    readBack propbaser (env.gicRdBase + armGicrPropbaser) s'.writes =
        readBack propbaser (env.gicRdBase + armGicrPropbaser) s.writes ||| itsBits gicdTyper gitsTyper its ∧
      s'.idBits = Function.update s.idBits its (itsBits gicdTyper gitsTyper its) ∧
      14 ≤ itsBits gicdTyper gitsTyper its := by
  simp only [setInitialConfiguration, mmioRead, hr.gicd, hr.gits its hi, hr.prop] at h
  split at h
  case isTrue => cases h
  case isFalse hge =>
    cases h
    exact ⟨readBack_mmioWrite, rfl, Nat.le_of_not_lt hge⟩

-- All ITSs, when none was refused.
theorem initialConfiguration_all (hr : LpiRegisters env gicdTyper propbaser gitsTyper) (hs : s.writes = [])
    (h : forEachIts (setInitialConfiguration env) env.gicNumIts 0 s = (.success, s₁)) :
    readBack propbaser (env.gicRdBase + armGicrPropbaser) s₁.writes =
        orBits propbaser gicdTyper gitsTyper env.gicNumIts ∧
      ∀ its < env.gicNumIts, s₁.idBits its = itsBits gicdTyper gitsTyper its ∧ 14 ≤ itsBits gicdTyper gitsTyper its := by
  have hinv := forEachIts_invariant
    (P := fun n s => n ≤ env.gicNumIts → readBack propbaser (env.gicRdBase + armGicrPropbaser) s.writes =
        orBits propbaser gicdTyper gitsTyper n ∧
      ∀ its < n, s.idBits its = itsBits gicdTyper gitsTyper its ∧ 14 ≤ itsBits gicdTyper gitsTyper its) ?_ ?_ h
  · rw [Nat.zero_add] at hinv
    exact hinv le_rfl
  · intro its s s' _ hi hst hle
    have ⟨hprop, hbits⟩ := hi (by omega)
    have ⟨h₁, h₂, h₃⟩ := initialConfiguration_spec hr (by omega) hst
    refine ⟨by rw [h₁, hprop, orBits_succ], fun k hk => ?_⟩
    rw [h₂]
    by_cases hc : k = its
    case pos =>
      rw [hc, Function.update_self]
      exact ⟨rfl, h₃⟩
    case neg =>
      rw [Function.update_of_ne hc]
      exact hbits k (by omega)
  · intro _
    rw [hs]
    exact ⟨rfl, fun _ hlt => absurd hlt (by omega)⟩

-- The bits that are added stay there.
theorem idbits_le_orBits (h : its < n) :
    itsBits gicdTyper gitsTyper its ≤ armGicrPropbaserIDbits (orBits propbaser gicdTyper gitsTyper n) ∧
      propbaser &&& 0x1F ||| armGicrPropbaserIDbits (orBits propbaser gicdTyper gitsTyper n) =
        armGicrPropbaserIDbits (orBits propbaser gicdTyper gitsTyper n) := by
  have hfield {v w : Nat} : armGicrPropbaserIDbits (v ||| w) = armGicrPropbaserIDbits v ||| armGicrPropbaserIDbits w :=
    Nat.and_or_distrib_right ..
  have hits (k : Nat) : armGicrPropbaserIDbits (itsBits gicdTyper gitsTyper k) = itsBits gicdTyper gitsTyper k := by
    have hm : armGicrPropbaserIDbits (itsBits gicdTyper gitsTyper k) = itsBits gicdTyper gitsTyper k &&& (2 ^ 5 - 1) := rfl
    rw [hm, Nat.and_two_pow_sub_one_eq_mod, Nat.mod_eq_of_lt itsBits_lt]
  have hinit (n : Nat) : propbaser &&& 0x1F ||| armGicrPropbaserIDbits (orBits propbaser gicdTyper gitsTyper n) =
      armGicrPropbaserIDbits (orBits propbaser gicdTyper gitsTyper n) := by
    induction n
    case zero       => exact Nat.or_self _
    case succ n hi => rw [orBits_succ, hfield, ← Nat.or_assoc, hi]
  refine ⟨?_, hinit n⟩
  induction n
  case zero => omega
  case succ n hi =>
    rw [orBits_succ, hfield, hits]
    by_cases hc : its = n
    case pos => exact hc ▸ Nat.right_le_or
    case neg => exact (hi (by omega)).trans Nat.left_le_or

-- The field holds the least exactly if all the bits that are added are those of the least.
theorem orBits_eq_least_iff (hn : 0 < n) :
    armGicrPropbaserIDbits (orBits propbaser gicdTyper gitsTyper n) = leastBits gicdTyper gitsTyper n ↔
      (∀ its < n, itsBits gicdTyper gitsTyper its = leastBits gicdTyper gitsTyper n) ∧
        propbaser &&& 0x1F ||| leastBits gicdTyper gitsTyper n = leastBits gicdTyper gitsTyper n := by
  constructor
  · intro he
    rw [← he]
    refine ⟨fun its hlt => ?_, (idbits_le_orBits hn).2⟩
    exact Nat.le_antisymm (idbits_le_orBits hlt).1 (he ▸ leastBits_le hlt)
  · intro ⟨hall, hinit⟩
    generalize leastBits gicdTyper gitsTyper n = least at hall hinit
    have hsmall : armGicrPropbaserIDbits least = least := by
      have hm : armGicrPropbaserIDbits least = least &&& (2 ^ 5 - 1) := rfl
      rw [hm, Nat.and_two_pow_sub_one_eq_mod, Nat.mod_eq_of_lt (hall 0 hn ▸ itsBits_lt)]
    have hor {k : Nat} (hk : k < n) : orBits propbaser gicdTyper gitsTyper (k + 1) = propbaser ||| least := by
      induction k
      case zero =>
        rw [orBits_succ, hall 0 hk]
        rfl
      case succ k hi => rw [orBits_succ, hi (by omega), hall _ hk, Nat.or_assoc, Nat.or_self]
    have hlast := @hor (n - 1) (by omega)
    rw [Nat.sub_add_cancel hn] at hlast
    rw [hlast, armGicrPropbaserIDbits, Nat.and_or_distrib_right]
    change propbaser &&& 0x1F ||| armGicrPropbaserIDbits least = least
    rw [hsmall, hinit]

theorem sizesExact_iff : ∀ idbits < 2 ^ 5, 14 ≤ idbits → (SizesExact idbits ↔ idbits ≤ 29) := by
  decide

-- The tables that are allocated for a number of bits for which the sizes are exact.
theorem tables_hold : ∀ idbits < 30, 14 ≤ idbits →
    (shl1 (idbits + 1) + 2 ^ 32 - 1) % 2 ^ 32 <
        armLpiMinid + efiPagesToSize (efiSizeToPages (configTableSize idbits) + 1) ∧
      (shl1 (idbits + 1) + 2 ^ 32 - 1) % 2 ^ 32 <
        8 * efiPagesToSize (efiSizeToPages (pendingTableSize idbits) + 1) := by
  decide

-- The base of the configuration table leaves the number of bits as it is.
theorem idbits_setTableBase {value address : Nat} : armGicrPropbaserIDbits
    (clear64 value armGicrPropbaserPaMask ||| (address &&& armGicrPropbaserPaMask)) = armGicrPropbaserIDbits value := by
  have h₁ : 2 ^ 64 - 1 - armGicrPropbaserPaMask &&& 0x1F = 0x1F := by decide
  have h₂ : armGicrPropbaserPaMask &&& 0x1F = 0 := by decide
  rw [armGicrPropbaserIDbits, Nat.and_or_distrib_right, clear64, Nat.and_assoc, h₁, Nat.and_assoc, h₂, Nat.and_zero,
    Nat.or_zero, armGicrPropbaserIDbits]

theorem configTableBase_spec (hr : LpiRegisters env gicdTyper propbaser gitsTyper)
    (h : armGicSetItsConfigTableBase env s = (.success, s')) :
    s'.requests =
        efiPagesToSize (efiSizeToPages (configTableSize (propbaserIDbits env propbaser s)) + 1) :: s.requests ∧
      propbaserIDbits env propbaser s' = propbaserIDbits env propbaser s := by
  simp only [armGicSetItsConfigTableBase] at h
  split at h
  case isTrue => cases h
  case isFalse =>
    cases h
    refine ⟨?_, ?_⟩
    · simp only [setTableBase, mmioWrite, mmioRead, allocate, hr.prop, propbaserIDbits]
    · simp only [propbaserIDbits, setTableBase, readBack_mmioWrite, idbits_setTableBase]
      simp only [mmioRead, allocate, hr.prop]

theorem pendingTableBase_spec (hr : LpiRegisters env gicdTyper propbaser gitsTyper)
    (h : armGicSetItsPendingTableBase env s = (.success, s')) :
    s'.requests =
      efiPagesToSize (efiSizeToPages (pendingTableSize (propbaserIDbits env propbaser s)) + 1) :: s.requests := by
  simp only [armGicSetItsPendingTableBase] at h
  split at h
  case isTrue => cases h
  case isFalse =>
    cases h
    simp only [setTableBase, mmioWrite, mmioRead, allocate, hr.prop, propbaserIDbits]

theorem redistributorConfiguration_requests (hr : LpiRegisters env gicdTyper propbaser gitsTyper)
    (h : armGicRedistributorConfigurationForLPI env s₁ = (.success, s₂)) :
    s₂.requests =
      efiPagesToSize (efiSizeToPages (pendingTableSize (propbaserIDbits env propbaser s₁)) + 1) ::
      efiPagesToSize (efiSizeToPages (configTableSize (propbaserIDbits env propbaser s₁)) + 1) :: s₁.requests := by
  rw [armGicRedistributorConfigurationForLPI] at h
  split at h
  case h_2 hne => exact absurd h (hne _)
  case h_1 s₃ he =>
    obtain ⟨h₁, h₂⟩ := configTableBase_spec hr he
    rw [pendingTableBase_spec hr h, h₂, h₁]

-- The largest LPI, when all ITSs have the same number of bits.
theorem getMaxLpiID_eq {least : Nat} (hn : 0 < env.gicNumIts) (hs : s.gItsSetupDone = true) (hl : least ≤ 31)
    (hb : ∀ its < env.gicNumIts, s.idBits its = least) :
    armGicItsGetMaxLpiID env s = (shl1 (least + 1) + 2 ^ 32 - 1) % 2 ^ 32 := by
  have hfold (n : Nat) (hn : n < env.gicNumIts) :
      (List.range (n + 1)).foldl (fun minIdbits index => if minIdbits < s.idBits index then minIdbits
        else s.idBits index) armLpiMaxIdbits = least := by
    induction n
    case zero =>
      have hm : armLpiMaxIdbits = 31 := rfl
      simp only [List.range_succ, List.range_zero, List.nil_append, List.foldl_cons, List.foldl_nil, hb 0 hn, hm]
      rw [if_neg (by omega)]
    case succ n hi =>
      rw [List.range_succ, List.foldl_append, hi (by omega)]
      simp only [List.foldl_cons, List.foldl_nil, hb _ hn, lt_irrefl, if_false]
  have hlast := hfold (env.gicNumIts - 1) (by omega)
  rw [Nat.sub_add_cancel hn] at hlast
  rw [armGicItsGetMaxLpiID, if_neg (by omega), if_neg (by simp [hs])]
  simp only [hlast]

-- The id space is right exactly if all ITSs agree, the register has no bits to start with that are not among
-- theirs, and the numbers are not too large for a signed word.
theorem lpi_space_iff (hn : 0 < env.gicNumIts) (hr : LpiRegisters env gicdTyper propbaser gitsTyper) (hs : s.writes = [])
    (h₁ : forEachIts (setInitialConfiguration env) env.gicNumIts 0 s = (.success, s₁))
    (h₂ : armGicRedistributorConfigurationForLPI env s₁ = (.success, s₂)) :
    LpiSpace env propbaser (leastBits gicdTyper gitsTyper env.gicNumIts) s₁ s₂ ↔
      (∀ its < env.gicNumIts, itsBits gicdTyper gitsTyper its = leastBits gicdTyper gitsTyper env.gicNumIts) ∧
        propbaser &&& 0x1F ||| leastBits gicdTyper gitsTyper env.gicNumIts =
          leastBits gicdTyper gitsTyper env.gicNumIts ∧
        leastBits gicdTyper gitsTyper env.gicNumIts ≤ 29 := by
  have ⟨hprop, hbits⟩ := initialConfiguration_all hr hs h₁
  have ⟨its, hlt, hleast⟩ := @leastBits_mem gicdTyper gitsTyper env.gicNumIts hn
  have hge : 14 ≤ leastBits gicdTyper gitsTyper env.gicNumIts := hleast ▸ (hbits its hlt).2
  have hlt : leastBits gicdTyper gitsTyper env.gicNumIts < 2 ^ 5 := hleast ▸ itsBits_lt
  have hfield : propbaserIDbits env propbaser s₁ =
      armGicrPropbaserIDbits (orBits propbaser gicdTyper gitsTyper env.gicNumIts) := by rw [propbaserIDbits, hprop]
  constructor
  · intro hsp
    have he := hsp.idbits
    have hexact := hsp.sizes
    rw [he, sizesExact_iff _ hlt hge] at hexact
    rw [hfield, orBits_eq_least_iff hn] at he
    exact ⟨he.1, he.2, hexact⟩
  · intro ⟨hall, hinit, hle⟩
    have he : propbaserIDbits env propbaser s₁ = leastBits gicdTyper gitsTyper env.gicNumIts := by
      rw [hfield, orBits_eq_least_iff hn]
      exact ⟨hall, hinit⟩
    have hreq := redistributorConfiguration_requests hr h₂
    rw [he] at hreq
    have hid : s₂.idBits = s₁.idBits := by
      have := @redistributorConfiguration_idBits env s₁
      rwa [h₂] at this
    have hsame : ∀ its < env.gicNumIts, s₂.idBits its = leastBits gicdTyper gitsTyper env.gicNumIts := by
      intro its hi
      rw [hid, (hbits its hi).1]
      exact hall its hi
    have hmax := @getMaxLpiID_eq env { s₂ with gItsSetupDone := true } _ hn rfl (by omega) hsame
    have ⟨hconfig, hpending⟩ := tables_hold _ (by omega) hge
    refine ⟨he, ⟨_, _, hreq, ?_, ?_⟩, ?_⟩
    · rw [hmax]
      exact hconfig
    · rw [hmax]
      exact hpending
    · rw [he, sizesExact_iff _ hlt hge]
      exact hle

end

-- A distributor and ITSs with these numbers of bits.
def lpiEnv (gicdBits : Nat) (gitsBits : List Nat) (propbaser : Nat) : Env where
  gicDBase    := 0x8000000
  gicRdBase   := 0x8100000
  gicNumIts   := gitsBits.length
  itsBase its := 0x8200000 + 0x20000 * its
  read _ writes addr :=
    if addr = 0x8000000 + armGicdTyper then gicdBits <<< 19
    else if addr = 0x8100000 + armGicrPropbaser then readBack propbaser addr writes
    else gitsBits.getD ((addr - 0x8200000) / 0x20000) 0 <<< 8
  alloc k     := 0x10000 * (k + 1)

theorem lpiEnv_registers {gicdBits propbaser : Nat} {gitsBits : List Nat} :
    LpiRegisters (lpiEnv gicdBits gitsBits propbaser) (gicdBits <<< 19) propbaser fun its => gitsBits.getD its 0 <<< 8 := by
  refine ⟨fun _ _ => ?_, fun its _ _ _ => ?_, fun _ _ => ?_⟩
  · simp [lpiEnv]
  · have hi : (0x8200000 + 0x20000 * its + armGitsTyper - 0x8200000) / 0x20000 = its := by
      simp only [armGitsTyper]
      omega
    have h₁ : 0x8200000 + 0x20000 * its + armGitsTyper ≠ 0x8000000 + armGicdTyper := by
      simp only [armGitsTyper, armGicdTyper]
      omega
    have h₂ : 0x8200000 + 0x20000 * its + armGitsTyper ≠ 0x8100000 + armGicrPropbaser := by
      simp only [armGitsTyper, armGicrPropbaser]
      omega
    simp only [lpiEnv, h₁, h₂, if_false, hi]
  · simp [lpiEnv, armGicdTyper, armGicrPropbaser]

-- Two ITSs with 16 bits.
theorem lpi_space_two_its :
    ∃ s₁ s₂, forEachIts (setInitialConfiguration (lpiEnv 15 [15, 15] 0)) 2 0 initial = (.success, s₁) ∧
      armGicRedistributorConfigurationForLPI (lpiEnv 15 [15, 15] 0) s₁ = (.success, s₂) ∧
      LpiSpace (lpiEnv 15 [15, 15] 0) 0 15 s₁ s₂ := by
  have h₁ : forEachIts (setInitialConfiguration (lpiEnv 15 [15, 15] 0)) 2 0 initial =
      (.success, (forEachIts (setInitialConfiguration (lpiEnv 15 [15, 15] 0)) 2 0 initial).2) :=
    Prod.ext (by decide +kernel) rfl
  generalize (forEachIts (setInitialConfiguration (lpiEnv 15 [15, 15] 0)) 2 0 initial).2 = s₁ at h₁
  have h₂ : armGicRedistributorConfigurationForLPI (lpiEnv 15 [15, 15] 0) s₁ =
      (.success, (armGicRedistributorConfigurationForLPI (lpiEnv 15 [15, 15] 0) s₁).2) := by
    have hs : s₁ = (forEachIts (setInitialConfiguration (lpiEnv 15 [15, 15] 0)) 2 0 initial).2 := by rw [h₁]
    rw [hs]
    exact Prod.ext (by decide +kernel) rfl
  exact ⟨s₁, _, h₁, h₂, (lpi_space_iff (by decide) lpiEnv_registers rfl h₁ h₂).mpr (by decide)⟩

-- Two ITSs with 16 and with 17 bits make a register with 32, and so does an ITS with 16 bits and a register that
-- was not 0. With 31 bits, the pending table has a wrong size.
theorem lpi_space_wrong :
    (∃ s₁ s₂, forEachIts (setInitialConfiguration (lpiEnv 16 [15, 16] 0)) 2 0 initial = (.success, s₁) ∧
      armGicRedistributorConfigurationForLPI (lpiEnv 16 [15, 16] 0) s₁ = (.success, s₂) ∧
      ¬LpiSpace (lpiEnv 16 [15, 16] 0) 0 (leastBits (16 <<< 19) (fun its => [15, 16].getD its 0 <<< 8) 2) s₁ s₂) ∧
    (∃ s₁ s₂, forEachIts (setInitialConfiguration (lpiEnv 15 [15] 0x10)) 1 0 initial = (.success, s₁) ∧
      armGicRedistributorConfigurationForLPI (lpiEnv 15 [15] 0x10) s₁ = (.success, s₂) ∧
      ¬LpiSpace (lpiEnv 15 [15] 0x10) 0x10 (leastBits (15 <<< 19) (fun its => [15].getD its 0 <<< 8) 1) s₁ s₂) ∧
    (∃ s₁ s₂, forEachIts (setInitialConfiguration (lpiEnv 30 [30] 0)) 1 0 initial = (.success, s₁) ∧
      armGicRedistributorConfigurationForLPI (lpiEnv 30 [30] 0) s₁ = (.success, s₂) ∧
      ¬LpiSpace (lpiEnv 30 [30] 0) 0 (leastBits (30 <<< 19) (fun its => [30].getD its 0 <<< 8) 1) s₁ s₂) := by
  refine ⟨⟨_, _, Prod.ext ?_ rfl, Prod.ext ?_ rfl, fun hs => ?_⟩, ⟨_, _, Prod.ext ?_ rfl, Prod.ext ?_ rfl, fun hs => ?_⟩,
    ⟨_, _, Prod.ext ?_ rfl, Prod.ext ?_ rfl, fun hs => ?_⟩⟩
  case refine_3 => exact absurd hs.idbits (by decide +kernel)
  case refine_6 => exact absurd hs.idbits (by decide +kernel)
  case refine_9 => exact absurd hs.sizes (by decide +kernel)
  all_goals decide +kernel

end Its
