import BsaAcs.Pcie.Capability
import BsaAcs.Pcie.Theorems.Capability
import Mathlib.Logic.Function.Iterate

namespace Pcie

section List

variable (layout : CapLayout) (word : Nat → BitVec 32) (cid : Nat)

def capId (offset : Nat) : Nat :=
  (word offset &&& layout.cidrMask).toNat

def nextPointer (offset : Nat) : Nat :=
  ((word offset >>> layout.ncprShift) &&& layout.ncprMask).toNat

-- The pointers of a list from `start` on. The list ends at the first one that is 0.
def pointer (start k : Nat) : Nat :=
  (nextPointer layout word)^[k] start

-- The first `k` entries of the list are there, and none has the identifier.
def Before (start k : Nat) : Prop :=
  ∀ j < k, pointer layout word start j ≠ 0 ∧ capId layout word (pointer layout word start j) ≠ cid

-- The identifier occurs on the list, at `offset` for the first time.
def OccursAt (start offset : Nat) : Prop :=
  ∃ k, Before layout word cid start k ∧ pointer layout word start k ≠ 0 ∧
    capId layout word (pointer layout word start k) = cid ∧ pointer layout word start k = offset

-- The list has the identifier or an end.
def Ends (start : Nat) : Prop :=
  ∃ k, pointer layout word start k = 0 ∨ capId layout word (pointer layout word start k) = cid

end List

section Loop

variable {layout : CapLayout} {read : Nat → Option (BitVec 32)} {word : Nat → BitVec 32} {cid start k n : Nat}
  {regValue : BitVec 32} {r : Option Nat}

theorem pointer_succ : pointer layout word start (k + 1) = pointer layout word (nextPointer layout word start) k :=
  Function.iterate_succ_apply _ _ _

theorem Before.tail (h : Before layout word cid start (k + 1)) :
    Before layout word cid (nextPointer layout word start) k :=
  fun j hj => pointer_succ ▸ h (j + 1) (by omega)

theorem Before.cons (h₁ : start ≠ 0) (h₂ : capId layout word start ≠ cid)
    (h : Before layout word cid (nextPointer layout word start) k) : Before layout word cid start (k + 1) := by
  intro j hj
  cases j
  case zero   => exact ⟨h₁, h₂⟩
  case succ j => exact pointer_succ ▸ h j (by omega)

theorem Ends.first (h : Ends layout word cid start) : ∃ k, Before layout word cid start k ∧
    (pointer layout word start k = 0 ∨ capId layout word (pointer layout word start k) = cid) := by
  classical
  refine ⟨Nat.find h, ?_, Nat.find_spec h⟩
  intro j hj
  exact not_or.mp (Nat.find_min h hj)

variable (hr : ∀ offset, read offset = some (word offset))
include hr

theorem capStepReg_found (h : start ≠ 0) (hc : capId layout word start = cid) :
    capStepReg layout read cid (start, regValue) = .inr (some start) := by
  rw [capId] at hc
  simp only [capStepReg, h, if_false, hr, Option.getD_some, hc, if_true]

theorem capStepReg_next (h : start ≠ 0) (hc : capId layout word start ≠ cid) :
    capStepReg layout read cid (start, regValue) = .inl (nextPointer layout word start, word start) := by
  rw [capId] at hc
  simp only [capStepReg, h, if_false, hr, Option.getD_some, hc, nextPointer]

-- Behind entries without the identifier the search is at the entry that comes next.
theorem Before.leaves (hb : Before layout word cid start k)
    (hl : ∀ regValue, Loop.Leaves (capStepReg layout read cid) 1 (pointer layout word start k, regValue) r) :
    Loop.Leaves (capStepReg layout read cid) (k + 1) (start, regValue) r := by
  induction k generalizing start regValue
  case zero => exact hl regValue
  case succ k hi =>
    have ⟨h₁, h₂⟩ := hb 0 (by omega)
    exact .next (capStepReg_next hr h₁ h₂) (hi hb.tail (pointer_succ ▸ hl))

theorem of_leaves (h : Loop.Leaves (capStepReg layout read cid) n (start, regValue) r) :
    ∃ k, Before layout word cid start k ∧
      ((pointer layout word start k = 0 ∧ r = none) ∨ (pointer layout word start k ≠ 0 ∧
        capId layout word (pointer layout word start k) = cid ∧ r = some (pointer layout word start k))) := by
  generalize hp : (start, regValue) = p at h
  induction h generalizing start regValue
  case now p r hs =>
    cases hp
    refine ⟨0, by simp [Before], ?_⟩
    by_cases h0 : start = 0
    case pos =>
      cases h0
      cases hs
      exact .inl ⟨rfl, rfl⟩
    case neg =>
      by_cases hc : capId layout word start = cid
      case pos =>
        rw [capStepReg_found hr h0 hc] at hs
        cases hs
        exact .inr ⟨h0, hc, rfl⟩
      case neg =>
        rw [capStepReg_next hr h0 hc] at hs
        cases hs
  case next p q r n hs _ hi =>
    cases hp
    by_cases h0 : start = 0
    case pos =>
      cases h0
      cases hs
    case neg =>
      by_cases hc : capId layout word start = cid
      case pos =>
        rw [capStepReg_found hr h0 hc] at hs
        cases hs
      case neg =>
        rw [capStepReg_next hr h0 hc] at hs
        cases hs
        have ⟨k, hb, h⟩ := hi rfl
        exact ⟨k + 1, hb.cons h0 hc, by simpa only [pointer_succ] using h⟩

theorem leaves_some_iff {offset : Nat} :
    (∃ n, Loop.Leaves (capStepReg layout read cid) n (start, regValue) (some offset)) ↔
      OccursAt layout word cid start offset := by
  constructor
  · intro ⟨n, h⟩
    have ⟨k, hb, hk⟩ := of_leaves hr h
    cases hk
    case inl hk => simp at hk
    case inr hk => exact ⟨k, hb, hk.left, hk.right.left, (Option.some.inj hk.right.right).symm⟩
  · intro ⟨k, hb, h₁, h₂, he⟩
    exact ⟨k + 1, hb.leaves hr fun regValue => .now (he ▸ capStepReg_found hr h₁ h₂)⟩

theorem leaves_iff_ends :
    (∃ n r, Loop.Leaves (capStepReg layout read cid) n (start, regValue) r) ↔ Ends layout word cid start := by
  constructor
  · intro ⟨n, r, h⟩
    have ⟨k, _, hk⟩ := of_leaves hr h
    exact ⟨k, hk.imp And.left fun hk => hk.right.left⟩
  · intro h
    have ⟨k, hb, hk⟩ := h.first
    by_cases h0 : pointer layout word start k = 0
    case pos => exact ⟨k + 1, none, hb.leaves hr fun regValue => .now (by rw [h0]; rfl)⟩
    case neg =>
      exact ⟨k + 1, _, hb.leaves hr fun regValue => .now (capStepReg_found hr h0 (hk.resolve_left h0))⟩

end Loop

def CidType.layout : CidType → CapLayout
  | pcieCap  => capLayout
  | pcieEcap => ecapLayout

section Config

variable {S : Type} (hw : Mmio S) (table : PcieInfoTable) (s : S) (bdf : Nat)

def Mapped : Prop :=
  configAddr table bdf 0 ≠ none

-- The config space of a function that is mapped.
def configWord (offset : Nat) : BitVec 32 :=
  (valPcieReadCfg hw table s bdf offset).getD 0

def listStart : CidType → Nat
  | .pcieCap  => (configWord hw table s bdf type01Cpr &&& 0xFF).toNat
  | .pcieEcap => pcieEcapStart

-- The function does not respond: the capabilities pointer reads as all ones, or all of the config space
-- does where there is no such pointer.
def Silent : CidType → Prop
  | .pcieCap  => configWord hw table s bdf type01Cpr = pcieUnknownResponse
  | .pcieEcap => ∀ offset < 4096, configWord hw table s bdf offset = pcieUnknownResponse

def HasCapabilityAt (cidType : CidType) (cid offset : Nat) : Prop :=
  Mapped table bdf ∧ ¬Silent hw table s bdf cidType ∧
    OccursAt cidType.layout (configWord hw table s bdf) cid (listStart hw table s bdf cidType) offset

-- The status and the offset tell where the capability is, or that there is none.
def Tells (cidType : CidType) (cid cidOffset : Nat) (result : Nat × Nat) : Prop :=
  (∀ offset, HasCapabilityAt hw table s bdf cidType cid offset → result = (pcieSuccess, offset)) ∧
  ((¬∃ offset, HasCapabilityAt hw table s bdf cidType cid offset) →
    result.1 ≠ pcieSuccess ∧ result.2 = cidOffset)

-- The search comes to an end, and tells this.
def FindsCapability (unset : BitVec 32) (cidType : CidType) (cid cidOffset : Nat) : Prop :=
  ∃ rounds, ∀ fuel ≥ rounds, ∃ result,
    valPcieFindCapabilityOut hw table s unset bdf cidType cid cidOffset fuel = some result ∧
      Tells hw table s bdf cidType cid cidOffset result

-- The function responds, and its list has the identifier or an end. Without mapping, the word that is not
-- set must look like the only entry of a list, with another identifier, where there is a search at all.
def Searchable (unset : BitVec 32) (cidType : CidType) (cid : Nat) : Prop :=
  (Mapped table bdf → ¬Silent hw table s bdf cidType ∧
    Ends cidType.layout (configWord hw table s bdf) cid (listStart hw table s bdf cidType)) ∧
  (¬Mapped table bdf → cidType = .pcieEcap →
    (unset &&& 0xFFFF).toNat ≠ cid ∧ (unset >>> 20 &&& 0xFFF).toNat = 0)

end Config

section Search

variable {S : Type} {hw : Mmio S} {table : PcieInfoTable} {s : S} {bdf : Nat} {unset : BitVec 32}
  {cidType : CidType} {cid cidOffset : Nat}

-- Whether a function is mapped does not depend on the register.
theorem configAddr_none_iff {offset : Nat} : configAddr table bdf offset = none ↔ ¬Mapped table bdf := by
  simp only [Mapped, configAddr, ne_eq, not_not]
  split_ifs <;> simp

theorem read_of_mapped (h : Mapped table bdf) (offset : Nat) :
    valPcieReadCfg hw table s bdf offset = some (configWord hw table s bdf offset) := by
  have hs : configAddr table bdf offset ≠ none := fun hn => configAddr_none_iff.mp hn h
  cases hc : configAddr table bdf offset
  case none      => exact absurd hc hs
  case some addr => simp [configWord, valPcieReadCfg, hc]

theorem read_of_not_mapped (h : ¬Mapped table bdf) (offset : Nat) :
    valPcieReadCfg hw table s bdf offset = none := by
  simp [valPcieReadCfg, configAddr_none_iff.mpr h]

-- A loop has a result from some number of rounds on exactly if it is left.
theorem eventually_iff {P R Q : Type*} {step : P → P ⊕ R} {p : P} {f : R → Q} {C : Q → Prop} :
    (∃ rounds, ∀ fuel ≥ rounds, ∃ q, (loop step fuel p).map f = some q ∧ C q) ↔
      ∃ n r, Loop.Leaves step n p r ∧ C (f r) := by
  constructor
  · intro ⟨rounds, h⟩
    have ⟨q, hq, hc⟩ := h rounds le_rfl
    have ⟨r, hl, he⟩ := Option.map_eq_some_iff.mp hq
    have ⟨n, _, hleaves⟩ := Loop.Leaves.of_run hl
    exact ⟨n, r, hleaves, he ▸ hc⟩
  · intro ⟨n, r, hl, hc⟩
    exact ⟨n, fun fuel hf => ⟨f r, by rw [hl.run hf]; rfl, hc⟩⟩

theorem not_hasCapabilityAt_of_not_mapped (h : ¬Mapped table bdf) :
    ¬∃ offset, HasCapabilityAt hw table s bdf cidType cid offset :=
  fun ⟨_, hc⟩ => h hc.left

theorem not_hasCapabilityAt_of_silent (h : Silent hw table s bdf cidType) :
    ¬∃ offset, HasCapabilityAt hw table s bdf cidType cid offset :=
  fun ⟨_, hc⟩ => hc.right.left h

-- The search through the list of a function that responds.
theorem search_tells_iff (hm : Mapped table bdf) (hs : ¬Silent hw table s bdf cidType) {regValue : BitVec 32} :
    (∃ n r, Loop.Leaves (capStepReg cidType.layout (valPcieReadCfg hw table s bdf) cid) n
        (listStart hw table s bdf cidType, regValue) r ∧
      Tells hw table s bdf cidType cid cidOffset (capResult cidOffset r)) ↔
      Ends cidType.layout (configWord hw table s bdf) cid (listStart hw table s bdf cidType) := by
  have hr := @read_of_mapped S hw table s bdf hm
  rw [← @leaves_iff_ends cidType.layout _ _ cid (listStart hw table s bdf cidType) regValue hr]
  constructor
  · intro ⟨n, r, hl, _⟩
    exact ⟨n, r, hl⟩
  · intro ⟨n, r, hl⟩
    refine ⟨n, r, hl, ?_, ?_⟩
    · intro offset hc
      have hfound : ∃ m, Loop.Leaves (capStepReg cidType.layout (valPcieReadCfg hw table s bdf) cid) m
          (listStart hw table s bdf cidType, regValue) (some offset) := (leaves_some_iff hr).mpr hc.right.right
      have ⟨m, hl'⟩ := hfound
      rw [(hl.deterministic hl').right]
      rfl
    · intro hno
      cases r
      case none => simp [capResult, pcieCapNotFound, pcieSuccess]
      case some offset => exact absurd ⟨offset, hm, hs, (leaves_some_iff hr).mp ⟨n, hl⟩⟩ hno

-- A space of all ones has a list that runs in a circle, or the identifier is taken from there.
theorem silent_ecap_not_found (hm : Mapped table bdf) (hs : Silent hw table s bdf .pcieEcap) {regValue : BitVec 32} :
    ¬∃ n r, Loop.Leaves (capStepReg ecapLayout (valPcieReadCfg hw table s bdf) cid) n (pcieEcapStart, regValue) r ∧
      Tells hw table s bdf .pcieEcap cid cidOffset (capResult cidOffset r) := by
  intro ⟨n, r, hl, ht⟩
  have hpointer : ∀ k, pointer ecapLayout (configWord hw table s bdf) pcieEcapStart k = 0x100 ∨
      pointer ecapLayout (configWord hw table s bdf) pcieEcapStart k = 0xFFF := by
    intro k
    induction k
    case zero => exact .inl rfl
    case succ k hi =>
      right
      rw [pointer, Function.iterate_succ_apply', ← pointer, nextPointer]
      cases hi
      case inl h => rw [h, hs 0x100 (by decide)]; rfl
      case inr h => rw [h, hs 0xFFF (by decide)]; rfl
  have ⟨k, _, hk⟩ := of_leaves (read_of_mapped hm) hl
  have ⟨hne, _⟩ := ht.right (not_hasCapabilityAt_of_silent hs)
  cases hk
  case inl hk =>
    cases hpointer k
    case inl h => simp [h] at hk
    case inr h => simp [h] at hk
  case inr hk =>
    rw [hk.right.right] at hne
    exact hne rfl

-- Without mapping the same word is looked at for ever, unless it ends the search at once.
theorem unmapped_ecap_iff (hm : ¬Mapped table bdf) :
    (∃ n r, Loop.Leaves (capStepReg ecapLayout (valPcieReadCfg hw table s bdf) cid) n (pcieEcapStart, unset) r ∧
      Tells hw table s bdf .pcieEcap cid cidOffset (capResult cidOffset r)) ↔
      (unset &&& 0xFFFF).toNat ≠ cid ∧ (unset >>> 20 &&& 0xFFF).toNat = 0 := by
  have hr := @read_of_not_mapped S hw table s bdf hm
  have hno : ¬∃ offset, HasCapabilityAt hw table s bdf .pcieEcap cid offset := not_hasCapabilityAt_of_not_mapped hm
  have hstep : ∀ offset, offset ≠ 0 → (unset &&& 0xFFFF).toNat ≠ cid →
      capStepReg ecapLayout (valPcieReadCfg hw table s bdf) cid (offset, unset) =
        .inl ((unset >>> 20 &&& 0xFFF).toNat, unset) := by
    intro offset h0 hc
    simp only [capStepReg, h0, if_false, hr, Option.getD_none, ecapLayout, hc]
  constructor
  · intro ⟨n, r, hl, ht⟩
    have ⟨hne, _⟩ := ht.right hno
    have hc : (unset &&& 0xFFFF).toNat ≠ cid := by
      intro hc
      have hfound : capStepReg ecapLayout (valPcieReadCfg hw table s bdf) cid (pcieEcapStart, unset) =
          .inr (some pcieEcapStart) := by
        simp only [capStepReg, pcieEcapStart, hr, Option.getD_none, ecapLayout, hc, if_true]
        rfl
      have he := (hl.deterministic (.now hfound)).right
      rw [he] at hne
      exact hne rfl
    refine ⟨hc, ?_⟩
    by_contra h0
    -- From the second round on, the search stays where it is.
    have hstay : ∀ n r, ¬Loop.Leaves (capStepReg ecapLayout (valPcieReadCfg hw table s bdf) cid) n
        ((unset >>> 20 &&& 0xFFF).toNat, unset) r :=
      fun _ _ => Loop.Leaves.not_of_stays (hstep _ h0 hc)
    cases hl
    case now hs =>
      rw [hstep pcieEcapStart (by decide) hc] at hs
      cases hs
    case next hs h =>
      rw [hstep pcieEcapStart (by decide) hc] at hs
      cases hs
      exact hstay _ _ h
  · intro ⟨hc, h0⟩
    refine ⟨2, none, .next (hstep pcieEcapStart (by decide) hc) (.now (by rw [h0]; rfl)), ?_, ?_⟩
    · intro offset h
      exact absurd ⟨offset, h⟩ hno
    · simp [capResult, pcieCapNotFound, pcieSuccess]

theorem find_capability_iff (hw : Mmio S) (table : PcieInfoTable) (s : S) (bdf : Nat) (unset : BitVec 32)
    (cidType : CidType) (cid cidOffset : Nat) :
    FindsCapability hw table s bdf unset cidType cid cidOffset ↔
      Searchable hw table s bdf unset cidType cid := by
  by_cases hm : Mapped table bdf
  case pos =>
    have hread := @read_of_mapped S hw table s bdf hm
    simp only [Searchable, hm, not_true_eq_false, IsEmpty.forall_iff, and_true, true_imp_iff]
    cases cidType
    case pcieCap =>
      simp only [FindsCapability, valPcieFindCapabilityOut, hread]
      by_cases hs : Silent hw table s bdf .pcieCap
      case pos =>
        have hs' : configWord hw table s bdf type01Cpr = pcieUnknownResponse := hs
        simp only [hs', if_true, hs, not_true_eq_false, false_and, iff_false]
        intro ⟨rounds, h⟩
        have ⟨result, he, ht⟩ := h rounds le_rfl
        cases he
        exact (ht.right (not_hasCapabilityAt_of_silent hs)).left rfl
      case neg =>
        have hs' : ¬configWord hw table s bdf type01Cpr = pcieUnknownResponse := hs
        simp only [hs', if_false, hs, not_false_eq_true, true_and, eventually_iff]
        exact search_tells_iff hm hs
    case pcieEcap =>
      simp only [FindsCapability, valPcieFindCapabilityOut, eventually_iff]
      by_cases hs : Silent hw table s bdf .pcieEcap
      case pos =>
        simp only [hs, not_true_eq_false, false_and, iff_false]
        exact silent_ecap_not_found hm hs
      case neg =>
        simp only [hs, not_false_eq_true, true_and]
        exact search_tells_iff hm hs
  case neg =>
    simp only [Searchable, hm, IsEmpty.forall_iff, true_and, not_false_eq_true, true_imp_iff]
    cases cidType
    case pcieCap =>
      simp only [reduceCtorEq, IsEmpty.forall_iff, iff_true]
      refine ⟨0, fun fuel _ => ⟨(pcieNoMapping, cidOffset), ?_, ?_, ?_⟩⟩
      · simp only [valPcieFindCapabilityOut, read_of_not_mapped hm]
      · intro offset hc
        exact absurd hc.left hm
      · simp [pcieNoMapping, pcieSuccess]
    case pcieEcap =>
      simp only [FindsCapability, valPcieFindCapabilityOut, eventually_iff, true_imp_iff]
      exact unmapped_ecap_iff hm

-- The search without the word that is carried on, which a mapped function never needs.
theorem loop_capStepReg {layout : CapLayout} (hm : Mapped table bdf) (fuel offset : Nat) (regValue : BitVec 32) :
    loop (capStepReg layout (valPcieReadCfg hw table s bdf) cid) fuel (offset, regValue) =
      loop (capStep layout ((valPcieReadCfg hw table s bdf · |>.getD 0)) cid) fuel offset := by
  induction fuel generalizing offset regValue
  case zero => rfl
  case succ fuel hi =>
    simp only [loop, capStepReg, capStep, read_of_mapped hm, Option.getD_some]
    split_ifs
    · rfl
    · rfl
    · exact hi _ _

-- A capability that is there is found.
theorem HasCapabilityAt.found {offset : Nat} (h : HasCapabilityAt hw table s bdf cidType cid offset) :
    valPcieFindCapability hw table s bdf cidType cid = some (pcieSuccess, some offset) := by
  have ⟨hm, hs, ho⟩ := h
  have hread := @read_of_mapped S hw table s bdf hm
  have ⟨n, hl⟩ := (@leaves_some_iff _ _ _ _ _ (0 : BitVec 32) hread _).mpr ho
  have hrun := hl.run le_rfl
  rw [loop_capStepReg hm] at hrun
  have ⟨_, _, hleaves⟩ := Loop.Leaves.of_run hrun
  cases cidType
  case pcieCap =>
    have hu : ¬configWord hw table s bdf type01Cpr = pcieUnknownResponse := hs
    have hpointer := hread type01Cpr
    have hsearch : loop (capStep capLayout ((valPcieReadCfg hw table s bdf · |>.getD 0)) cid) 256
        (configWord hw table s bdf type01Cpr &&& 0xFF).toNat = some (some offset) :=
      search_within hleaves (and_toNat_le _ _)
    simp only [valPcieFindCapability, hpointer, hu, if_false, hsearch]
  case pcieEcap =>
    have hstart := hread pcieEcapStart
    have hsearch : loop (capStep ecapLayout ((valPcieReadCfg hw table s bdf · |>.getD 0)) cid) 4096
        pcieEcapStart = some (some offset) :=
      search_within hleaves (show pcieEcapStart ≤ _ by decide)
    simp only [valPcieFindCapability, hstart, hsearch]

end Search

def firstBus : PcieInfoTable :=
  [{ ecamBase := 0x40000000, segmentNum := 0, startBusNum := 0, endBusNum := 0 }]

-- The config space of a function that is not there.
def allOnes : Mmio Unit where
  read _ _    := pcieUnknownResponse
  write s _ _ := s

theorem absent_function_succeeds : ¬∀ (S : Type) (hw : Mmio S) (table : PcieInfoTable) (s : S) (bdf : Nat)
    (unset : BitVec 32) (cidType : CidType) (cid cidOffset : Nat),
    FindsCapability hw table s bdf unset cidType cid cidOffset := by
  intro h
  have ⟨rounds, hr⟩ := h Unit allOnes firstBus () 0 0 .pcieCap cidPciecs 0
  have ⟨result, he, ht⟩ := hr rounds le_rfl
  have hsilent : Silent allOnes firstBus () 0 .pcieCap := rfl
  have hresult : result = (pcieSuccess, 0) := (Option.some.inj he).symm
  have ⟨hne, _⟩ := ht.right (not_hasCapabilityAt_of_silent hsilent)
  rw [hresult] at hne
  exact hne rfl

end Pcie
