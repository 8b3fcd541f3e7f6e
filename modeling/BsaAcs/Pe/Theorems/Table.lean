import BsaAcs.Pe.Table
import Mathlib.Order.Nat

namespace Pe

-- At least one access, and none but to the elements of one PE.
structure Touches (index : Nat) (m m' : Machine) : Prop where
  numOfPe : m'.numOfPe = m.numOfPe
  made    : ∃ l ≠ [], m'.accesses = m.accesses ++ l ∧ ∀ a ∈ l, a.index = index

namespace Touches

variable {index : Nat} {m m' m'' : Machine}

theorem trans (h : Touches index m m') (h' : Touches index m' m'') : Touches index m m'' where
  numOfPe := h'.numOfPe.trans h.numOfPe
  made := by
    have ⟨l, hl, ha, hi⟩ := h.made
    have ⟨l', _, ha', hi'⟩ := h'.made
    refine ⟨l ++ l', by simp [hl], by rw [ha', ha, List.append_assoc], ?_⟩
    intro a hm
    exact (List.mem_append.mp hm).elim (hi a) (hi' a)

theorem single {a : Access} (ha : a.index = index) (hn : m'.numOfPe = m.numOfPe)
    (hm : m'.accesses = m.accesses ++ [a]) : Touches index m m' where
  numOfPe := hn
  made := ⟨[a], by simp, hm, fun b hb => List.mem_singleton.mp hb ▸ ha⟩

theorem readPeInfo : Touches index m (m.readPeInfo index).snd := single (a := .peInfo index) rfl rfl rfl

theorem readShared : Touches index m (m.readShared index).snd := single (a := .sharedMem index) rfl rfl rfl

theorem writeShared {f : SharedMem → SharedMem} : Touches index m (m.writeShared index f) :=
  single (a := .sharedMem index) rfl rfl rfl

end Touches

-- What is printed apart, nothing happens.
structure Untouched (m m' : Machine) : Prop where
  numOfPe   : m'.numOfPe = m.numOfPe
  peInfo    : m'.peInfo = m.peInfo
  sharedMem : m'.sharedMem = m.sharedMem
  accesses  : m'.accesses = m.accesses

namespace Untouched

variable {index status : Nat} {m : Machine}

theorem refl : Untouched m m := ⟨rfl, rfl, rfl, rfl⟩

theorem report : Untouched m (m.report index status) := ⟨rfl, rfl, rfl, rfl⟩

end Untouched

section

variable {index : Nat} {m : Machine}

section Rejected

variable (h : index > m.numOfPe)
include h

theorem peField_rejected (field : PeInfoEntry → Nat) : Untouched m (peField field index m).snd := by
  rw [peField, if_pos h]
  exact .report

-- The bound that the functions check lets the first index past the end of the arrays through.
theorem Operation.run_rejected (op : Operation) : Untouched m (op.run index m) := by
  cases op
  case setTestData addr testData =>
    rw [run, valSetTestData, valPeGetNum, if_pos h]
    exact .refl
  case getTestData =>
    rw [run, valGetTestData, valPeGetNum, if_pos h]
    exact .refl
  case getMpidIndex => exact peField_rejected h _
  case executeOnPe cpuOn payload testInput =>
    rw [run, valExecuteOnPe, if_pos h]
    exact .report
  case getPmuGsiv   => exact peField_rejected h _
  case getGmainGsiv => exact peField_rejected h _

end Rejected

theorem peField_touches (field : PeInfoEntry → Nat) (h : index ≤ m.numOfPe) :
    Touches index m (peField field index m).snd := by
  rw [peField, if_neg (Nat.not_lt.mpr h)]
  exact .readPeInfo

theorem valSetTestData_touches (addr testData : Nat) (h : index ≤ m.numOfPe) :
    Touches index m (valSetTestData index addr testData m) := by
  rw [valSetTestData, valPeGetNum, if_neg (Nat.not_lt.mpr h)]
  exact .writeShared

theorem valGetTestData_touches (h : index ≤ m.numOfPe) : Touches index m (valGetTestData index m).snd := by
  rw [valGetTestData, valPeGetNum, if_neg (Nat.not_lt.mpr h)]
  exact .readShared

-- Each request reads the MPIDR of the PE and writes its data.
theorem request_touches (payload testInput : Nat) (h : index ≤ m.numOfPe) :
    Touches index m (valSetTestData index payload testInput (valPeGetMpidIndex index m).snd) :=
  have hr := peField_touches (·.mpidr) h
  hr.trans (valSetTestData_touches payload testInput (hr.numOfPe ▸ h))

theorem executeLoop_touches (cpuOn : CpuOn) (payload testInput timeout k : Nat) (h : index ≤ m.numOfPe) :
    Touches index m (executeLoop cpuOn index payload testInput timeout k m).snd := by
  induction timeout generalizing k m
  case zero =>
    rw [executeLoop]
    dsimp only
    split <;> exact request_touches payload testInput h
  case succ timeout hi =>
    have hr := request_touches payload testInput h
    rw [executeLoop]
    dsimp only
    split
    · exact hr.trans (hi _ (hr.numOfPe ▸ h))
    · exact hr

theorem Operation.run_touches (op : Operation) (h : index ≤ m.numOfPe) : Touches index m (op.run index m) := by
  cases op
  case setTestData addr testData => exact valSetTestData_touches addr testData h
  case getTestData               => exact valGetTestData_touches h
  case getMpidIndex              => exact peField_touches _ h
  case executeOnPe cpuOn payload testInput =>
    have hl := executeLoop_touches cpuOn payload testInput Infra.timeoutLarge 0 h
    rw [run, valExecuteOnPe, if_neg (Nat.not_lt.mpr h)]
    dsimp only
    split
    · exact hl
    · exact hl.trans .writeShared
  case getPmuGsiv                => exact peField_touches _ h
  case getGmainGsiv              => exact peField_touches _ h

end

-- The accesses that an operation makes.
def Operation.accesses (op : Operation) (index : Nat) (m : Machine) : List Access :=
  (op.run index { m with accesses := [] }).accesses

-- They stay in the arrays, and there are none for an index that is not that of a PE.
structure Confined (numOfPe index : Nat) (accesses : List Access) : Prop where
  inside   : ∀ a ∈ accesses, a.index < numOfPe
  rejected : index ≥ numOfPe → accesses = []

-- The bound check fails at the number of the PEs, and only there.
theorem accesses_confined_iff (op : Operation) (index : Nat) (m : Machine) :
    Confined m.numOfPe index (op.accesses index m) ↔ index ≠ m.numOfPe := by
  constructor
  case mp =>
    intro hc he
    have ⟨l, hl, ha, _⟩ := (op.run_touches (m := { m with accesses := [] }) he.le).made
    exact hl (List.append_eq_nil_iff.mp (ha.symm.trans (hc.rejected he.ge))).right
  case mpr =>
    intro hn
    rcases Nat.lt_or_gt_of_ne hn with hl | hg
    case inl =>
      have ⟨l, _, ha, hi⟩ := (op.run_touches (m := { m with accesses := [] }) hl.le).made
      constructor
      case inside   => exact fun a hm => (hi a (List.nil_append l ▸ ha ▸ hm)).symm ▸ hl
      case rejected => exact fun hg => absurd hl (Nat.not_lt.mpr hg)
    case inr =>
      have he : op.accesses index m = [] := (op.run_rejected (m := { m with accesses := [] }) hg).accesses
      constructor
      case inside   => exact fun a hm => absurd (he ▸ hm) List.not_mem_nil
      case rejected => exact fun _ => he

-- One PE, and the index 1: the entry past the end is returned, and the data past the end is written.
theorem index_past_end_accessed :
    let m : Machine := {
      numOfPe   := 1
      peInfo    := fun index => ⟨index, 23, if index = 0 then 25 else 0xBAD⟩
      sharedMem := fun _ => ⟨0, 0, 0⟩
      accesses  := []
      reports   := []
    }
    valPeGetGmainGsiv 1 m = (0xBAD, { m with accesses := [.peInfo 1] }) ∧
    (valSetTestData 1 0x1000 5 m).accesses = [.sharedMem 1] ∧
    (valSetTestData 1 0x1000 5 m).sharedMem 1 = ⟨0x1000, 5, 0⟩ ∧
    ¬Confined m.numOfPe 1 (Operation.getGmainGsiv.accesses 1 m) ∧
    ¬Confined m.numOfPe 1 ((Operation.setTestData 0x1000 5).accesses 1 m) := by
  refine ⟨rfl, rfl, rfl, fun h => ?_, fun h => ?_⟩
  · exact absurd (h.inside (.peInfo 1) (by decide)) (by decide)
  · exact absurd (h.inside (.sharedMem 1) (by decide)) (by decide)

end Pe
