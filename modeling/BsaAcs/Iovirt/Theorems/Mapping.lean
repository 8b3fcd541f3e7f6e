import BsaAcs.Iovirt.Mapping
import Mathlib.Data.List.Basic

namespace Iovirt

-- All ID mappings of a table: the data maps of its blocks, where these are not ITS groups.
def IovirtInfoTable.mappings (table : IovirtInfoTable) : List Nat :=
  (table.blocks.filter fun block => decide (table.mem block ≠ NodeType.itsGroup.code)).flatMap
    (dataMaps table.mem)

-- The output ids that the overlap check counts to a mapping.
def Belongs (mem : Memory) (map id : Nat) : Prop :=
  outputBase mem map ≤ id ∧ id ≤ lastId mem map

-- The output ids that the translation can produce from a mapping.
def Produces (mem : Memory) (map id : Nat) : Prop :=
  ∃ input, takes mem input map = true ∧ translate mem input map = id

def NoWrap (mem : Memory) (map : Nat) : Prop :=
  inputBase mem map + idCount mem map < 2 ^ 32 ∧ outputBase mem map + idCount mem map < 2 ^ 32

instance {mem : Memory} {map : Nat} : Decidable (NoWrap mem map) :=
  inferInstanceAs (Decidable (_ ∧ _))

def isSmmu (mem : Memory) (block : Nat) : Prop :=
  mem block = NodeType.smmu.code ∨ mem block = NodeType.smmuV3.code

-- If no block is flagged, then two requester ids that go through different mappings to one SMMU have
-- different stream ids there.
def Separated (table : IovirtInfoTable) : Prop :=
  (∀ block ∈ table.blocks, (table.mem (block + flagsWord)).testBit stridOverlapShift = false) →
  ∀ rid rid' segment segment' map map' info info',
    rcMapping table rid segment = some map → rcMapping table rid' segment' = some map' →
    map ≠ map' → rid ≠ rid' → outputRef table.mem map = outputRef table.mem map' →
    isSmmu table.mem (outputRef table.mem map / 4) →
    valIovirtGetDeviceInfo table rid segment = some info →
    valIovirtGetDeviceInfo table rid' segment' = some info' → info.streamId ≠ info'.streamId

-- The check and the translation read the range of every mapping alike, and so the check sees to it that
-- stream ids are not shared.
def IdRangesAgree (table : IovirtInfoTable) : Prop :=
  (∀ map ∈ table.mappings, ∀ id, Belongs table.mem map id ↔ Produces table.mem map id) ∧
  Separated (checkMappingOverlap table)

section Ranges

variable {mem : Memory} {map id : Nat}

theorem produces_iff (h : NoWrap mem map) :
    Produces mem map id ↔ outputBase mem map ≤ id ∧ id ≤ outputBase mem map + idCount mem map := by
  have ⟨h₁, h₂⟩ := h
  have hm : (inputBase mem map + idCount mem map) % 2 ^ 32 = inputBase mem map + idCount mem map :=
    Nat.mod_eq_of_lt h₁
  constructor
  · intro ⟨input, ht, he⟩
    simp only [takes, hm, Bool.and_eq_true, decide_eq_true_eq] at ht
    rw [translate, Nat.mod_eq_of_lt (by omega)] at he
    omega
  · intro ⟨h₃, h₄⟩
    refine ⟨id - outputBase mem map + inputBase mem map, ?_, ?_⟩
    · simp only [takes, hm, Bool.and_eq_true, decide_eq_true_eq]
      omega
    · rw [translate, Nat.add_sub_cancel, Nat.sub_add_cancel h₃, Nat.mod_eq_of_lt (by omega)]

-- The check takes the count for the number of ids, so for it the range ends one id earlier.
theorem belongs_iff (h : NoWrap mem map) (hp : 0 < outputBase mem map + idCount mem map) :
    Belongs mem map id ↔ outputBase mem map ≤ id ∧ id < outputBase mem map + idCount mem map := by
  have ⟨_, h₂⟩ := h
  have hl : lastId mem map = outputBase mem map + idCount mem map - 1 := by
    rw [lastId]
    omega
  rw [Belongs, hl]
  omega

-- The last id of a mapping tells the two apart. A mapping of the id 0 alone is the whole range of ids
-- for the check.
theorem ranges_differ (h : NoWrap mem map) : ∃ id, ¬(Belongs mem map id ↔ Produces mem map id) := by
  by_cases hp : 0 < outputBase mem map + idCount mem map
  case pos =>
    refine ⟨outputBase mem map + idCount mem map, ?_⟩
    rw [belongs_iff h hp, produces_iff h]
    omega
  case neg =>
    have h₁ : outputBase mem map = 0 := by omega
    have h₂ : idCount mem map = 0 := by omega
    refine ⟨1, ?_⟩
    rw [produces_iff h, Belongs, lastId, h₁, h₂]
    omega

end Ranges

section NoMappings

variable {mem : Memory} {block n : Nat}

-- Without mappings there is nothing to compare.
theorem keyBlockLoop_eq_self
    (h : ∀ b ∈ blocksFrom mem n block, mem b ≠ NodeType.itsGroup.code → mem (b + numDataMapWord) = 0) :
    keyBlockLoop n block mem = mem := by
  induction n generalizing block
  case zero => rfl
  case succ n hi =>
    have hb := h block (by simp [blocksFrom])
    have hr : keyBlockLoop n (iovirtNextBlock mem block) mem = mem :=
      hi fun b hm => h b (by simp [blocksFrom, hm])
    simp only [keyBlockLoop]
    by_cases ht : mem block = NodeType.itsGroup.code
    case pos => simpa only [ht, if_true] using hr
    case neg => simpa only [ht, if_false, hb ht, keyMapLoop] using hr

variable {table : IovirtInfoTable}

theorem numDataMap_eq_zero (h : table.mappings = []) :
    ∀ b ∈ table.blocks, table.mem b ≠ NodeType.itsGroup.code → table.mem (b + numDataMapWord) = 0 := by
  intro b hb ht
  have := List.flatMap_eq_nil_iff.mp h b (List.mem_filter.mpr ⟨hb, by simpa using ht⟩)
  simpa [dataMaps] using this

theorem checkMappingOverlap_eq_self (h : table.mappings = []) : checkMappingOverlap table = table := by
  simp only [checkMappingOverlap, keyBlockLoop_eq_self (numDataMap_eq_zero h)]

theorem rcMapping_eq_none (h : table.mappings = []) (rid segment : Nat) :
    rcMapping table rid segment = none := by
  simp only [rcMapping]
  split
  case h_1 => rfl
  case h_2 block hf =>
    have hm := List.mem_of_find?_eq_some hf
    have ht := List.find?_some hf
    simp only [Bool.and_eq_true, decide_eq_true_eq] at ht
    have h0 := numDataMap_eq_zero h block hm (by simp [ht.left, NodeType.code])
    simp [dataMaps, h0]

end NoMappings

-- With ranges that do not wrap, the two readings agree only where there is nothing to read.
theorem id_ranges_agree_iff (table : IovirtInfoTable) (hw : ∀ map ∈ table.mappings, NoWrap table.mem map) :
    IdRangesAgree table ↔ table.mappings = [] := by
  constructor
  · intro ⟨hr, _⟩
    rw [List.eq_nil_iff_forall_not_mem]
    intro map hm
    have ⟨id, hd⟩ := ranges_differ (hw map hm)
    exact hd (hr map hm id)
  · intro h
    refine ⟨by simp [h], ?_⟩
    rw [checkMappingOverlap_eq_self h]
    intro _ rid _ segment _ _ _ _ _ hm
    simp [rcMapping_eq_none h rid segment] at hm

-- A table with an ITS group alone.
def itsTable : IovirtInfoTable where
  mem
    | 7  => 1
    | 8  => 1
    | _  => 0
  numBlocks          := 1
  numSmmus           := 0
  numPciRcs          := 0
  numNamedComponents := 0
  numItsGroups       := 1
  numPmcgs           := 0

-- A root complex with the ids 0 to 0xFF to the stream ids from 0 on, and the ids 0x100 to 0x1FF to the
-- stream ids from 0xFF on, then the SMMU and its ITS group.
def sharedTable : IovirtInfoTable where
  mem
    | 6   => 2
    | 7   => 2
    | 73  => 0
    | 74  => 0xFF
    | 75  => 0
    | 76  => 324
    | 77  => 0x100
    | 78  => 0xFF
    | 79  => 0xFF
    | 80  => 324
    | 81  => 4
    | 82  => 1
    | 83  => 3
    | 148 => 0
    | 149 => 0xFFFF
    | 150 => 0
    | 151 => 608
    | 153 => 1
    | 154 => 1
    | _   => 0
  numBlocks          := 3
  numSmmus           := 1
  numPciRcs          := 1
  numNamedComponents := 0
  numItsGroups       := 1
  numPmcgs           := 0

-- The ranges of the three mappings do not wrap, and the readings differ. In the other table there is no range.
theorem sharedTable_disagrees :
    sharedTable.mappings = [73, 77, 148] ∧ (∀ map ∈ sharedTable.mappings, NoWrap sharedTable.mem map) ∧
      ¬IdRangesAgree sharedTable ∧ IdRangesAgree itsTable := by
  have hm : sharedTable.mappings = [73, 77, 148] := by decide +kernel
  have hw : ∀ map ∈ sharedTable.mappings, NoWrap sharedTable.mem map := by decide +kernel
  refine ⟨hm, hw, fun h => ?_, (id_ranges_agree_iff itsTable (by decide)).mpr (by decide)⟩
  exact absurd ((id_ranges_agree_iff sharedTable hw).mp h) (by simp [hm])

-- No block is flagged, and the requester ids 0xFF and 0x100 have the same stream id.
theorem stream_id_shared :
    ¬∀ table : IovirtInfoTable, (∀ map ∈ table.mappings, NoWrap table.mem map) → IdRangesAgree table := by
  intro h
  have ⟨_, hs⟩ := h sharedTable (by decide +kernel)
  have hflags : ∀ block ∈ (checkMappingOverlap sharedTable).blocks,
      ((checkMappingOverlap sharedTable).mem (block + flagsWord)).testBit stridOverlapShift = false := by
    decide +kernel
  exact hs hflags 0xFF 0x100 0 0 73 77 { deviceId := 0xFF, streamId := 0xFF, itsId := 0 }
    { deviceId := 0xFF, streamId := 0xFF, itsId := 0 } (by decide +kernel) (by decide +kernel)
    (by decide) (by decide) (by decide +kernel) (.inr (by decide +kernel)) (by decide +kernel)
    (by decide +kernel) rfl

end Iovirt
