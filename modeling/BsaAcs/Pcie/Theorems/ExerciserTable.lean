import BsaAcs.Pcie.ExerciserTable
import Mathlib.Data.List.Dedup
import Mathlib.Tactic

namespace Pcie

variable {S : Type} {hw : Mmio S} {table : PcieInfoTable} {s : S} {mcfg : List McfgEntry}
variable {devices : List PcieDeviceAttr} {n : Nat}

section

variable (hw : Mmio S) (table : PcieInfoTable) (s : S) (mcfg : List McfgEntry) (devices : List PcieDeviceAttr)

def exercisers : List Nat :=
  (devices.map (·.bdf)).filter (palIsBdfExerciser hw s mcfg)

-- The functions behind the last one that has no mapping, from the end on, and the exercisers among them.
def mappedSuffix : List Nat :=
  (devices.reverse.map (·.bdf)).takeWhile fun bdf => (configAddr table bdf type01Vidr).isSome

def reachedExercisers : List Nat :=
  (mappedSuffix table devices).filter (palIsBdfExerciser hw s mcfg)

-- Each exerciser is listed once, and the array is only indexed inside of it.
structure ListsExercisers (eTable : ExerciserInfoTable) : Prop where
  listed  : eTable.bdfs.Perm (exercisers hw s mcfg devices).dedup
  number  : eTable.numExerciser = (exercisers hw s mcfg devices).dedup.length
  indexed : ∀ i ∈ eTable.indexed, i < maxExerciserCards

end

namespace ExerciserInfoTable

variable {eTable : ExerciserInfoTable} {bdf : Nat}

theorem store_numExerciser : (eTable.store bdf).numExerciser = (eTable.numExerciser + 1) % 2 ^ 32 := rfl

theorem store_eInfo :
    (eTable.store bdf).eInfo = Function.update eTable.eInfo eTable.numExerciser { bdf, initialized := 0 } := rfl

theorem store_indexed : (eTable.store bdf).indexed = eTable.indexed ++ [eTable.numExerciser] := rfl

-- The functions that are stored stand at the indices from 0 on, counted in 32 bits.
theorem foldl_store (l : List Nat) : (l.foldl store initial).indexed = (List.range l.length).map (· % 2 ^ 32) ∧
    (l.foldl store initial).numExerciser = l.length % 2 ^ 32 := by
  induction l using List.reverseRecOn
  case nil => simp [initial]
  case append_singleton l bdf hi =>
    have ⟨h₁, h₂⟩ := hi
    rw [List.foldl_concat, List.length_append, List.length_singleton, List.range_succ, List.map_append]
    refine ⟨?_, ?_⟩
    · rw [store_indexed, h₁, h₂]
      rfl
    · rw [store_numExerciser, h₂, Nat.mod_add_mod]

theorem foldl_store_bdfs (l : List Nat) (h : l.length < 2 ^ 32) : (l.foldl store initial).bdfs = l := by
  induction l using List.reverseRecOn
  case nil => rfl
  case append_singleton l bdf hi =>
    rw [List.length_append, List.length_singleton] at h
    have hl := (foldl_store l).right
    rw [Nat.mod_eq_of_lt (by omega)] at hl
    have hi := hi (by omega)
    rw [bdfs, hl] at hi
    rw [List.foldl_concat, bdfs, store_numExerciser, store_eInfo, hl, Nat.mod_eq_of_lt h, List.range_succ,
      List.map_append, List.map_singleton, Function.update_self]
    congr 1
    refine Eq.trans ?_ hi
    apply List.map_congr_left
    intro i hm
    rw [Function.update_of_ne (Nat.ne_of_lt (List.mem_range.mp hm))]

end ExerciserInfoTable

section Run

variable {eTable : ExerciserInfoTable}

theorem exerciserLoop_eq (l : List PcieDeviceAttr) : exerciserLoop hw table s mcfg l eTable =
    (((l.map (·.bdf)).takeWhile fun bdf => (configAddr table bdf type01Vidr).isSome).filter
      (palIsBdfExerciser hw s mcfg)).foldl .store eTable := by
  induction l generalizing eTable
  case nil => rfl
  case cons device rest hi =>
    rw [exerciserLoop, List.map_cons, valPcieReadCfg]
    cases ha : configAddr table device.bdf type01Vidr
    case none => simp [ha]
    case some =>
      cases hx : palIsBdfExerciser hw s mcfg device.bdf <;> simp [ha, hx, hi]

theorem valExerciserCreateInfoTable_eq : valExerciserCreateInfoTable hw table s mcfg devices eTable =
    (reachedExercisers hw table s mcfg devices).foldl .store eTable := by
  rw [valExerciserCreateInfoTable]
  split
  case isTrue h =>
    rw [List.length_eq_zero_iff.mp h]
    rfl
  case isFalse => exact exerciserLoop_eq devices.reverse

-- All calls together store the exercisers over and over again.
theorem exerciserTable_eq : exerciserTable hw table s mcfg devices n =
    (List.replicate n (reachedExercisers hw table s mcfg devices)).flatten.foldl .store .initial := by
  induction n
  case zero => rfl
  case succ n hi =>
    rw [exerciserTable, Function.iterate_succ_apply', ← exerciserTable, hi, valExerciserCreateInfoTable_eq,
      List.replicate_succ', List.flatten_append, List.foldl_append, List.flatten_singleton]

theorem mem_exercisers_of_reached {bdf : Nat} (h : bdf ∈ reachedExercisers hw table s mcfg devices) :
    bdf ∈ exercisers hw s mcfg devices := by
  have ⟨hm, hx⟩ := List.mem_filter.mp h
  have hm := (List.takeWhile_sublist _).subset hm
  rw [List.map_reverse, List.mem_reverse] at hm
  exact List.mem_filter.mpr ⟨hm, hx⟩

end Run

-- There are no exercisers, or there was one call that came to all of them, each once, and there was room for them.
def Creatable (hw : Mmio S) (table : PcieInfoTable) (s : S) (mcfg : List McfgEntry) (devices : List PcieDeviceAttr)
    (n : Nat) : Prop :=
  exercisers hw s mcfg devices = [] ∨
    n = 1 ∧ (∀ bdf ∈ exercisers hw s mcfg devices, bdf ∈ mappedSuffix table devices) ∧
      (reachedExercisers hw table s mcfg devices).Nodup ∧
      (reachedExercisers hw table s mcfg devices).length ≤ 20

section

variable {l : List Nat}

-- What is stored without a repetition is stored once.
theorem eq_one_of_nodup (h : (List.replicate n l).flatten.Nodup) (hl : (List.replicate n l).flatten ≠ []) : n = 1 := by
  cases n
  case zero => exact absurd rfl hl
  case succ n =>
    cases n
    case zero => rfl
    case succ n =>
      rw [List.replicate_succ, List.replicate_succ, List.flatten_cons, List.flatten_cons, ← List.append_assoc] at h
      have hd := (List.nodup_append'.mp (List.nodup_append'.mp h).left).right.right
      have he : l = [] := List.eq_nil_iff_forall_not_mem.mpr fun x hx => hd hx hx
      subst he
      simp at hl

-- The index is in the array as long as there are no more functions than there is room for.
theorem indexed_lt_iff : (∀ i ∈ (l.foldl ExerciserInfoTable.store .initial).indexed, i < maxExerciserCards) ↔
    l.length ≤ 20 := by
  rw [(ExerciserInfoTable.foldl_store l).left]
  simp only [List.mem_map, List.mem_range, forall_exists_index, and_imp, maxExerciserCards]
  constructor
  · intro h
    by_contra hc
    have := h 20 20 (by omega) rfl
    omega
  · intro h i j hj he
    omega

end

theorem exercisers_listed_iff :
    ListsExercisers hw s mcfg devices (exerciserTable hw table s mcfg devices n) ↔
      Creatable hw table s mcfg devices n := by
  rw [exerciserTable_eq]
  constructor
  · intro h
    by_cases hne : exercisers hw s mcfg devices = []
    case pos => exact .inl hne
    case neg =>
      have hlen := indexed_lt_iff.mp h.indexed
      have hp := h.listed
      rw [ExerciserInfoTable.foldl_store_bdfs _ (by omega)] at hp
      have hn := eq_one_of_nodup (hp.nodup_iff.mpr (List.nodup_dedup _)) fun hz => by
        rw [hz, List.nil_perm, List.dedup_eq_nil] at hp
        exact hne hp
      subst hn
      rw [List.replicate_one, List.flatten_singleton] at hp hlen
      refine .inr ⟨rfl, ?_, hp.nodup_iff.mpr (List.nodup_dedup _), hlen⟩
      intro bdf hb
      exact List.mem_of_mem_filter (hp.mem_iff.mpr (List.mem_dedup.mpr hb))
  · rintro (he | ⟨rfl, hall, hn, hlen⟩)
    case inl =>
      have hr : reachedExercisers hw table s mcfg devices = [] :=
        List.eq_nil_iff_forall_not_mem.mpr fun bdf hb => by
          have := mem_exercisers_of_reached hb
          rw [he] at this
          cases this
      have hz : (List.replicate n ([] : List Nat)).flatten = [] := by simp
      rw [hr, hz]
      exact ⟨by rw [he]; rfl, by rw [he]; rfl, by simp [ExerciserInfoTable.initial]⟩
    case inr =>
      rw [List.replicate_one, List.flatten_singleton]
      have hp : (reachedExercisers hw table s mcfg devices).Perm (exercisers hw s mcfg devices).dedup := by
        apply (List.perm_ext_iff_of_nodup hn (List.nodup_dedup _)).mpr
        intro bdf
        rw [List.mem_dedup]
        refine ⟨mem_exercisers_of_reached, fun hb => List.mem_filter.mpr ⟨hall bdf hb, ?_⟩⟩
        exact (List.mem_filter.mp hb).right
      refine ⟨?_, ?_, indexed_lt_iff.mpr hlen⟩
      · rw [ExerciserInfoTable.foldl_store_bdfs _ (by omega)]
        exact hp
      · rw [(ExerciserInfoTable.foldl_store _).right, Nat.mod_eq_of_lt (by omega), hp.length_eq]

-- A bus on which every function is an exerciser.
def exerciserBus : Mmio Unit where
  read _ _    := exerciserId
  write _ _ _ := ()

def exerciserMcfg : List McfgEntry :=
  [{ baseAddress := 0x40000000, pciSegmentGroupNumber := 0, startBusNumber := 0, endBusNumber := 0 }]

def exerciserDevices (n : Nat) : List PcieDeviceAttr :=
  (List.range n).map fun i => { bdf := i * 256, rpBdf := none }

-- After two calls one exerciser is listed twice, and 21 exercisers do not fit after one call.
theorem exercisers_listed_twice :
    ((exerciserTable exerciserBus (palPcieCreateInfoTable exerciserMcfg) () exerciserMcfg (exerciserDevices 1) 2).bdfs =
        [0, 0] ∧
      ¬ListsExercisers exerciserBus () exerciserMcfg (exerciserDevices 1)
        (exerciserTable exerciserBus (palPcieCreateInfoTable exerciserMcfg) () exerciserMcfg (exerciserDevices 1) 2)) ∧
    maxExerciserCards ∈ (exerciserTable exerciserBus (palPcieCreateInfoTable exerciserMcfg) () exerciserMcfg
        (exerciserDevices 21) 1).indexed ∧
      ¬ListsExercisers exerciserBus () exerciserMcfg (exerciserDevices 21)
        (exerciserTable exerciserBus (palPcieCreateInfoTable exerciserMcfg) () exerciserMcfg (exerciserDevices 21) 1) := by
  refine ⟨⟨by decide, fun h => ?_⟩, ?_⟩
  · exact absurd h.number (by decide)
  · have hi : maxExerciserCards ∈ (exerciserTable exerciserBus (palPcieCreateInfoTable exerciserMcfg) () exerciserMcfg
        (exerciserDevices 21) 1).indexed := by decide +kernel
    exact ⟨hi, fun h => absurd (h.indexed _ hi) (Nat.lt_irrefl _)⟩

end Pcie
