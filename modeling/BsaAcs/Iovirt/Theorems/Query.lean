import BsaAcs.Iovirt.Query
import BsaAcs.Iovirt.Theorems.Mapping
import Mathlib.Data.List.Pairwise

namespace Iovirt

def IsRootComplex (mem : Memory) (block segment : Nat) : Prop :=
  mem block = NodeType.pciRootComplex.code ∧ rcSegment mem block = segment

instance {mem : Memory} {block segment : Nat} : Decidable (IsRootComplex mem block segment) :=
  inferInstanceAs (Decidable (_ ∧ _))

-- The input ranges of two mappings have no id in common.
def Apart (mem : Memory) (map map' : Nat) : Prop :=
  inputBase mem map + idCount mem map < inputBase mem map' ∨
    inputBase mem map' + idCount mem map' < inputBase mem map

instance {mem : Memory} {map map' : Nat} : Decidable (Apart mem map map') :=
  inferInstanceAs (Decidable (_ ∨ _))

instance {mem : Memory} : Std.Symm (Apart mem) where
  symm _ _ := Or.symm

structure IovirtInfoTable.WellFormed (table : IovirtInfoTable) : Prop where
  segments  : ∀ block ∈ table.blocks, ∀ block' ∈ table.blocks, ∀ segment,
    IsRootComplex table.mem block segment → IsRootComplex table.mem block' segment → block = block'
  apart     : ∀ block ∈ table.blocks, table.mem block ≠ NodeType.itsGroup.code →
    (dataMaps table.mem block).Pairwise (Apart table.mem)
  noWrap    : ∀ map ∈ table.mappings, NoWrap table.mem map
  refs      : ∀ map ∈ table.mappings, ∃ block ∈ table.blocks, outputRef table.mem map = 4 * block
  itsGroups : ∀ block ∈ table.blocks, isSmmu table.mem block → ∀ map ∈ dataMaps table.mem block,
    table.mem (outputRef table.mem map / 4) = NodeType.itsGroup.code

section Search

variable {α : Type*} {l : List α} {p : α → Bool} {a : α}

end Search

section Mapping

variable {mem : Memory} {map map' id id' : Nat}

end Mapping

section DeviceInfo

variable {table : IovirtInfoTable} {rid segment rc map block id : Nat} {info info' : DeviceInfo}

namespace IovirtInfoTable

theorem mem_mappings (hb : block ∈ table.blocks) (ht : table.mem block ≠ NodeType.itsGroup.code)
    (hm : map ∈ dataMaps table.mem block) : map ∈ table.mappings := by
  rw [mappings, List.mem_flatMap]
  exact ⟨block, List.mem_filter.mpr ⟨hb, by simpa using ht⟩, hm⟩

namespace WellFormed

variable (h : table.WellFormed)
include h

end WellFormed

end IovirtInfoTable

variable {out : DeviceInfoOut}

end DeviceInfo

section RcSmmu

-- The root complex of a segment. No other block is looked at.
def IovirtInfoTable.rootComplex? (table : IovirtInfoTable) (segment : Nat) : Option Nat :=
  table.blocks.find? fun block => IsRootComplex table.mem block segment

def IovirtInfoTable.smmuBaseOf (table : IovirtInfoTable) (segment : Nat) : Nat :=
  match table.rootComplex? segment with
  | some rc => rcSmmuBase table.mem rc
  | none    => 0

-- The base 0 stands for a root complex that is not behind any SMMU.
def IsIndexOf (table : IovirtInfoTable) (base index : Nat) : Prop :=
  if base ≠ 0 ∧ ∃ smmu ∈ table.smmuBlocks, smmuBase table.mem smmu = base then
    ∃ smmu, table.smmuBlocks[index]? = some smmu ∧ smmuBase table.mem smmu = base
  else index = acsInvalidIndex

def RcSmmuFound (table : IovirtInfoTable) (segment : Nat) : Prop :=
  palIovirtGetRcSmmuBase table segment = table.smmuBaseOf segment ∧
  IsIndexOf table (table.smmuBaseOf segment) (valIovirtGetRcSmmuIndex table.numSmmus table segment)

-- The first block with the segment in the first word of its data is a root complex, or holds by chance
-- what the root complex holds.
def Unshadowed (table : IovirtInfoTable) (segment : Nat) : Prop :=
  ∀ block, table.blocks.find? (fun block => rcSegment table.mem block = segment) = some block →
    table.mem block = NodeType.pciRootComplex.code ∨ rcSmmuBase table.mem block = table.smmuBaseOf segment

variable {table : IovirtInfoTable} {segment base n index : Nat}

theorem find?_and_eq {α : Type*} {l : List α} {p q : α → Bool} {a : α} (h : l.find? q = some a) (hp : p a) :
    l.find? (fun b => p b && q b) = some a := by
  induction l
  case nil => simp at h
  case cons b l hi =>
    rw [List.find?_cons] at h ⊢
    cases hq : q b
    case true =>
      simp only [hq, Option.some.injEq] at h
      simp [h, hp]
    case false =>
      simp only [hq] at h
      simpa using hi h

theorem palIovirtGetRcSmmuBase_eq_iff :
    palIovirtGetRcSmmuBase table segment = table.smmuBaseOf segment ↔ Unshadowed table segment := by
  rw [palIovirtGetRcSmmuBase, Unshadowed]
  cases hf : table.blocks.find? fun block => rcSegment table.mem block = segment
  case none =>
    have hn : table.rootComplex? segment = none := by
      rw [IovirtInfoTable.rootComplex?, List.find?_eq_none]
      intro block hb hr
      have := List.find?_eq_none.mp hf block hb
      simp only [decide_eq_true_eq] at hr this
      exact this hr.right
    simp [IovirtInfoTable.smmuBaseOf, hn]
  case some block =>
    constructor
    · intro h block' hb
      cases hb
      exact .inr h
    · intro h
      cases h block rfl
      case inr h => exact h
      case inl h =>
        have hp : decide (table.mem block = NodeType.pciRootComplex.code) = true := by simpa using h
        have hr : table.rootComplex? segment = some block := by
          rw [← find?_and_eq (p := fun block => decide (table.mem block = NodeType.pciRootComplex.code)) hf hp]
          apply congrArg (List.find? · table.blocks)
          funext block
          exact Bool.decide_and _ _
        simp [IovirtInfoTable.smmuBaseOf, hr]

theorem valSmmuGetInfo_ctrlBase (hn : table.numSmmus = table.smmuBlocks.length) (hi : index < table.numSmmus) :
    ∃ smmu, table.smmuBlocks[index]? = some smmu ∧
      valSmmuGetInfo table.numSmmus table .ctrlBase index = smmuBase table.mem smmu := by
  have hl : index < table.smmuBlocks.length := hn ▸ hi
  refine ⟨table.smmuBlocks[index], List.getElem?_eq_getElem hl, ?_⟩
  simp [valSmmuGetInfo, Nat.not_le.mpr hi, valIovirtGetSmmuInfo, List.getElem?_eq_getElem hl]

-- The loop goes down through the SMMUs, and ends at one with the base, or with none.
theorem smmuIndexLoop_spec (hn : table.numSmmus = table.smmuBlocks.length) (hl : n ≤ table.numSmmus) :
    (∃ smmu, table.smmuBlocks[smmuIndexLoop table.numSmmus table base n]? = some smmu ∧
      smmuBase table.mem smmu = base) ∨
    (smmuIndexLoop table.numSmmus table base n = acsInvalidIndex ∧
      ∀ i < n, ∀ smmu, table.smmuBlocks[i]? = some smmu → smmuBase table.mem smmu ≠ base) := by
  induction n
  case zero => exact .inr ⟨rfl, by simp⟩
  case succ n hi =>
    have ⟨smmu, hs, hv⟩ := valSmmuGetInfo_ctrlBase hn hl
    rw [smmuIndexLoop, hv]
    split
    case isTrue he => exact .inl ⟨smmu, hs, he.symm⟩
    case isFalse he =>
      cases hi (by omega)
      case inl h => exact .inl h
      case inr h =>
        refine .inr ⟨h.left, ?_⟩
        intro i hl' smmu' hs'
        by_cases hc : i = n
        case neg => exact h.right i (by omega) smmu' hs'
        case pos =>
          rw [hc, hs] at hs'
          cases hs'
          exact Ne.symm he

theorem valIovirtGetRcSmmuIndex_spec (hn : table.numSmmus = table.smmuBlocks.length) :
    IsIndexOf table (palIovirtGetRcSmmuBase table segment)
      (valIovirtGetRcSmmuIndex table.numSmmus table segment) := by
  rw [valIovirtGetRcSmmuIndex, IsIndexOf]
  generalize palIovirtGetRcSmmuBase table segment = base
  by_cases h0 : base = 0
  case pos => simp [h0]
  case neg =>
    have hm : valSmmuGetInfo table.numSmmus table .numCtrl 0 = table.numSmmus := by
      simp [valSmmuGetInfo, valIovirtGetSmmuInfo]
      omega
    simp only [hm, Ne, h0, not_false_eq_true, true_and]
    have hl := @smmuIndexLoop_spec table base _ hn le_rfl
    cases hl
    case inl h =>
      have ⟨smmu, hs, hb⟩ := h
      rw [if_pos ⟨smmu, List.mem_of_getElem? hs, hb⟩]
      exact h
    case inr h =>
      rw [if_neg]
      · exact h.left
      · intro ⟨smmu, hs, hb⟩
        have ⟨i, hi⟩ := List.mem_iff_getElem?.mp hs
        have hl : i < table.numSmmus := hn ▸ (List.getElem?_eq_some_iff.mp hi).1
        exact h.right i hl smmu hi hb

-- `num_smmus` counts the SMMU blocks of the table.
theorem rc_smmu_found_iff (table : IovirtInfoTable) (segment : Nat)
    (hn : table.numSmmus = table.smmuBlocks.length) :
    RcSmmuFound table segment ↔ Unshadowed table segment := by
  rw [← palIovirtGetRcSmmuBase_eq_iff, RcSmmuFound]
  constructor
  · exact And.left
  · intro h
    exact ⟨h, h ▸ valIovirtGetRcSmmuIndex_spec hn⟩

-- An ITS group with one identifier, an SMMU, and the root complexes 0 and 1 behind it.
def countedTable : IovirtInfoTable where
  mem
    | 7   => 1
    | 8   => 1
    | 77  => 4
    | 78  => 1
    | 79  => 3
    | 81  => 0x2B400000
    | 145 => 0x1FFFF
    | 147 => 24
    | 148 => 2
    | 149 => 1
    | 152 => 1
    | 154 => 0x2B400000
    | 216 => 0xFFFF
    | 218 => 308
    | 219 => 2
    | 220 => 1
    | 221 => 1
    | 223 => 1
    | 225 => 0x2B400000
    | 287 => 0xFFFF
    | 288 => 0x10000
    | 289 => 308
    | _   => 0
  numBlocks          := 4
  numSmmus           := 1
  numPciRcs          := 2
  numNamedComponents := 0
  numItsGroups       := 1
  numPmcgs           := 0

theorem countedTable_rc_smmu :
    countedTable.numSmmus = countedTable.smmuBlocks.length ∧
    RcSmmuFound countedTable 0 ∧ valIovirtGetRcSmmuIndex countedTable.numSmmus countedTable 0 = 0 := by
  have hn : countedTable.numSmmus = countedTable.smmuBlocks.length := by decide +kernel
  refine ⟨hn, (rc_smmu_found_iff countedTable 0 hn).mpr ?_, by decide +kernel⟩
  have hu : ∀ block ∈ countedTable.blocks, rcSegment countedTable.mem block = 0 →
      countedTable.mem block = NodeType.pciRootComplex.code := by
    decide +kernel
  intro block hf
  have hs := List.find?_some hf
  exact .inl (hu block (List.mem_of_find?_eq_some hf) (by simpa using hs))

-- The identifier count of the ITS group is taken for the segment 1.
theorem its_group_taken_for_root_complex :
    ¬∀ table : IovirtInfoTable, table.numSmmus = table.smmuBlocks.length → ∀ segment, RcSmmuFound table segment := by
  intro h
  have hn : countedTable.numSmmus = countedTable.smmuBlocks.length := by decide +kernel
  have hf : palIovirtGetRcSmmuBase countedTable 1 ≠ countedTable.smmuBaseOf 1 := by decide +kernel
  exact hf (h countedTable hn 1).left

end RcSmmu

end Iovirt
