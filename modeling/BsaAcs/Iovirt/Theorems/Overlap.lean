import BsaAcs.Iovirt.Theorems.Describe
import BsaAcs.Iovirt.Theorems.Mapping

namespace Iovirt

-- The overlap check as one pass over the pairs of mappings that its loops compare.

structure Comparison where
  keyBlock : Nat
  keyMap   : Nat
  block    : Nat
  map      : Nat
deriving DecidableEq, Repr

-- The mappings of a block that a key is compared with, as the loop counts them.
def comparedMaps (mem : Memory) (keyBlock keyMap block : Nat) : List Nat :=
  if mem block = NodeType.itsGroup.code then []
  else if block = keyBlock then
    (List.range (mem (block + numDataMapWord) - 1)).map fun j => keyMap + dataMapSize + dataMapSize * j
  else dataMaps mem block

def keyComparisons (mem : Memory) (keyBlock keyMap : Nat) (blocks : List Nat) : List Comparison :=
  blocks.flatMap fun block => (comparedMaps mem keyBlock keyMap block).map (⟨keyBlock, keyMap, block, ·⟩)

def comparisonsFrom (mem : Memory) : Nat → Nat → List Comparison
  | 0, _ => []
  | n + 1, block =>
    (if mem block = NodeType.itsGroup.code then []
      else (dataMaps mem block).flatMap fun map => keyComparisons mem block map (blocksFrom mem (n + 1) block)) ++
    comparisonsFrom mem n (iovirtNextBlock mem block)

def IovirtInfoTable.comparisons (table : IovirtInfoTable) : List Comparison :=
  comparisonsFrom table.mem table.numBlocks firstBlock

-- One comparison. The range of the key is read before the flags are written.
def Comparison.run (mem₀ mem : Memory) (c : Comparison) : Memory :=
  compareMaps c.keyBlock c.keyMap (outputBase mem₀ c.keyMap) (lastId mem₀ c.keyMap) c.block c.map mem

variable {table : IovirtInfoTable} {mem mem' mem₀ mem₁ : Memory} {blocks : List Nat}
  {keyBlock keyMap keyStart keyEnd block map start b c n m x : Nat}

section Stable

-- The word is not the flags of a block.
def Stable (blocks : List Nat) (x : Nat) : Prop :=
  ∀ b ∈ blocks, x ≠ b + flagsWord

theorem nextBlock_le (hb : b ∈ blocksFrom mem n start) (hc : c ∈ blocksFrom mem n start) (hlt : b < c) :
    iovirtNextBlock mem b ≤ c := by
  induction n generalizing start
  case zero => simp [blocksFrom] at hb
  case succ n hi =>
    rcases List.mem_cons.mp hc with rfl | hc
    case inl => exact absurd (le_of_mem_blocksFrom hb) (Nat.not_le_of_lt hlt)
    case inr =>
      rcases List.mem_cons.mp hb with rfl | hb
      case inl => exact le_of_mem_blocksFrom hc
      case inr => exact hi hb hc

-- The words of a block below its flags, and those of its own mappings, are stable.
theorem stable_header (hb : b ∈ blocksFrom mem n start) (hx : x < flagsWord) :
    Stable (blocksFrom mem n start) (b + x) := by
  intro c hc
  have := blocksFrom_spaced hb hc
  simp only [dataMapWord, flagsWord] at *
  omega

theorem stable_dataMap (hb : b ∈ blocksFrom mem n start) (hm : map ∈ dataMaps mem b)
    (hx : x < dataMapSize) : Stable (blocksFrom mem n start) (map + x) := by
  obtain ⟨i, hi, rfl⟩ := List.mem_map.mp hm
  have hi := List.mem_range.mp hi
  intro c hc
  rcases Nat.lt_trichotomy b c with h | rfl | h
  case inl =>
    have := nextBlock_le hb hc h
    simp only [iovirtNextBlock, dataMap, dataMapSize, dataMapWord, flagsWord] at *
    omega
  case inr.inl =>
    simp only [dataMap, dataMapWord, flagsWord]
    omega
  case inr.inr =>
    simp only [dataMap, dataMapWord, flagsWord]
    omega

-- What the flags are not part of reads the same.
theorem FlagsOnly.stable (h : FlagsOnly blocks mem mem') (hs : Stable blocks x) : mem' x = mem x :=
  h x hs

theorem FlagsOnly.comparedMaps_eq (h : FlagsOnly (blocksFrom mem n start) mem mem')
    (hb : b ∈ blocksFrom mem n start) : comparedMaps mem' keyBlock keyMap b = comparedMaps mem keyBlock keyMap b := by
  have ht : mem' b = mem b := h.stable (stable_header hb (x := 0) (by decide))
  have hn : mem' (b + numDataMapWord) = mem (b + numDataMapWord) :=
    h.stable (stable_header hb (by decide))
  simp only [comparedMaps, dataMaps, ht, hn]

end Stable

section Fold

theorem mapLoop_eq_foldl : mapLoop keyBlock keyMap keyStart keyEnd block n map mem =
    ((List.range n).map (map + dataMapSize * ·)).foldl
      (fun mem map => compareMaps keyBlock keyMap keyStart keyEnd block map mem) mem := by
  induction n generalizing map mem
  case zero => rfl
  case succ n hi =>
    rw [mapLoop, hi, List.range_succ_eq_map, List.map_cons, List.foldl_cons, List.map_map]
    congr 1
    apply List.map_congr_left
    intro j _
    simp only [Function.comp_apply, Nat.mul_succ]
    omega

theorem foldl_flagsOnly {l : List Comparison} (hfo : FlagsOnly blocks mem₀ mem)
    (hl : ∀ c ∈ l, c.keyBlock ∈ blocks ∧ c.block ∈ blocks) :
    FlagsOnly blocks mem₀ (l.foldl (Comparison.run mem₀) mem) := by
  induction l generalizing mem
  case nil => exact hfo
  case cons c l hi =>
    have hc := hl c List.mem_cons_self
    exact hi (hfo.trans (compareMaps_flagsOnly hc.left hc.right)) fun c h => hl c (List.mem_cons_of_mem _ h)

-- A round of the block loop, and with it the whole loop for a key.
theorem blockRound_eq_foldl :
    (if mem block = NodeType.itsGroup.code then mem
      else if block = keyBlock then
        mapLoop keyBlock keyMap (outputBase mem₀ keyMap) (lastId mem₀ keyMap) block
          (mem (block + numDataMapWord) - 1) (keyMap + dataMapSize) mem
      else mapLoop keyBlock keyMap (outputBase mem₀ keyMap) (lastId mem₀ keyMap) block
        (mem (block + numDataMapWord)) (dataMap block 0) mem) =
    ((comparedMaps mem keyBlock keyMap block).map (⟨keyBlock, keyMap, block, ·⟩)).foldl
      (Comparison.run mem₀) mem := by
  simp only [comparedMaps, mapLoop_eq_foldl, List.foldl_map]
  split
  case isTrue => rfl
  case isFalse =>
    split
    case isTrue => simp only [List.foldl_map, Comparison.run]
    case isFalse => simp only [List.foldl_map, dataMaps, Comparison.run, dataMap, Nat.mul_zero, Nat.add_zero]

theorem blockLoop_eq_foldl (hfo : FlagsOnly (blocksFrom mem₀ m start) mem₀ mem)
    (hk : keyBlock ∈ blocksFrom mem₀ m start)
    (hb : ∀ b ∈ blocksFrom mem₀ n block, b ∈ blocksFrom mem₀ m start) :
    blockLoop keyBlock keyMap (outputBase mem₀ keyMap) (lastId mem₀ keyMap) n block mem =
    (keyComparisons mem₀ keyBlock keyMap (blocksFrom mem₀ n block)).foldl (Comparison.run mem₀) mem := by
  induction n generalizing block mem
  case zero => rfl
  case succ n hi =>
    have hblock : block ∈ blocksFrom mem₀ m start := hb block (by simp [blocksFrom])
    rw [blockLoop, blockRound_eq_foldl, hfo.comparedMaps_eq hblock, blocksFrom, keyComparisons,
      List.flatMap_cons, List.foldl_append]
    generalize hround : ((comparedMaps mem₀ keyBlock keyMap block).map _).foldl _ mem = mem₁
    have hfo₁ : FlagsOnly (blocksFrom mem₀ m start) mem₀ mem₁ := by
      rw [←hround]
      refine foldl_flagsOnly hfo fun c hc => ?_
      obtain ⟨_, _, rfl⟩ := List.mem_map.mp hc
      exact ⟨hk, hblock⟩
    rw [hfo₁.nextBlock_eq spaced_blocks hblock]
    exact hi hfo₁ fun b h => hb b (by simp [blocksFrom, h])

theorem mem_keyComparisons {cmp : Comparison} (h : cmp ∈ keyComparisons mem keyBlock keyMap blocks) :
    cmp.keyBlock = keyBlock ∧ cmp.keyMap = keyMap ∧ cmp.block ∈ blocks ∧
    cmp.map ∈ comparedMaps mem keyBlock keyMap cmp.block := by
  obtain ⟨b, hb, h⟩ := List.mem_flatMap.mp h
  obtain ⟨map, hm, rfl⟩ := List.mem_map.mp h
  exact ⟨rfl, rfl, hb, hm⟩

theorem keyMapLoop_eq_foldl (hfo : FlagsOnly (blocksFrom mem₀ m start) mem₀ mem)
    (hk : keyBlock ∈ blocksFrom mem₀ m start)
    (hb : ∀ b ∈ blocksFrom mem₀ n keyBlock, b ∈ blocksFrom mem₀ m start) {k : Nat}
    (hm : ∀ j < k, keyMap + dataMapSize * j ∈ dataMaps mem₀ keyBlock) :
    keyMapLoop keyBlock n k keyMap mem =
    (((List.range k).map (keyMap + dataMapSize * ·)).flatMap fun map =>
      keyComparisons mem₀ keyBlock map (blocksFrom mem₀ n keyBlock)).foldl (Comparison.run mem₀) mem := by
  induction k generalizing keyMap mem
  case zero => rfl
  case succ k hi =>
    have hkm : keyMap ∈ dataMaps mem₀ keyBlock := by simpa using hm 0 (Nat.succ_pos k)
    -- The key is a mapping of its own block, so that the flags are not part of it.
    have hstart : outputBase mem keyMap = outputBase mem₀ keyMap :=
      hfo.stable (stable_dataMap hk hkm (by decide))
    have hcount : idCount mem keyMap = idCount mem₀ keyMap :=
      hfo.stable (stable_dataMap hk hkm (by decide))
    have hend : lastId mem keyMap = lastId mem₀ keyMap := by rw [lastId, lastId, hstart, hcount]
    rw [keyMapLoop, hstart, hend, blockLoop_eq_foldl hfo hk hb, List.range_succ_eq_map, List.map_cons,
      List.flatMap_cons, List.foldl_append, Nat.mul_zero, Nat.add_zero, List.map_map]
    generalize hround : (keyComparisons mem₀ keyBlock keyMap _).foldl _ mem = mem₁
    have hfo₁ : FlagsOnly (blocksFrom mem₀ m start) mem₀ mem₁ := by
      rw [←hround]
      refine foldl_flagsOnly hfo fun c hc => ?_
      obtain ⟨h₁, _, h₂, _⟩ := mem_keyComparisons hc
      exact ⟨h₁ ▸ hk, hb _ h₂⟩
    have hshift : ∀ j, keyMap + dataMapSize + dataMapSize * j = keyMap + dataMapSize * (j + 1) := by
      intro j
      rw [Nat.mul_succ]
      omega
    rw [hi hfo₁ fun j hj => hshift j ▸ hm (j + 1) (by omega)]
    simp only [hshift]
    rfl

theorem keyBlockLoop_eq_foldl (hfo : FlagsOnly (blocksFrom mem₀ m start) mem₀ mem)
    (hb : ∀ b ∈ blocksFrom mem₀ n block, b ∈ blocksFrom mem₀ m start) :
    keyBlockLoop n block mem = (comparisonsFrom mem₀ n block).foldl (Comparison.run mem₀) mem := by
  induction n generalizing block mem
  case zero => rfl
  case succ n hi =>
    have hblock : block ∈ blocksFrom mem₀ m start := hb block (by simp [blocksFrom])
    have hrest : ∀ b ∈ blocksFrom mem₀ n (iovirtNextBlock mem₀ block), b ∈ blocksFrom mem₀ m start :=
      fun b h => hb b (by simp [blocksFrom, h])
    have ht : mem block = mem₀ block := hfo.stable (stable_header hblock (x := 0) (by decide))
    have hn : mem (block + numDataMapWord) = mem₀ (block + numDataMapWord) :=
      hfo.stable (stable_header hblock (by decide))
    rw [keyBlockLoop, comparisonsFrom, List.foldl_append, ht]
    split
    case isTrue =>
      simp only [List.foldl_nil]
      rw [hfo.nextBlock_eq spaced_blocks hblock]
      exact hi hfo hrest
    case isFalse =>
      have hmap : ∀ j < mem₀ (block + numDataMapWord),
          dataMap block 0 + dataMapSize * j ∈ dataMaps mem₀ block :=
        fun j hj => List.mem_map.mpr ⟨j, List.mem_range.mpr hj, by simp [dataMap]⟩
      rw [hn, keyMapLoop_eq_foldl hfo hblock hb hmap]
      have hmaps : (List.range (mem₀ (block + numDataMapWord))).map (dataMap block 0 + dataMapSize * ·) =
          dataMaps mem₀ block := by simp [dataMaps, dataMap]
      rw [hmaps]
      generalize hround : (List.flatMap _ (dataMaps mem₀ block)).foldl _ mem = mem₁
      have hfo₁ : FlagsOnly (blocksFrom mem₀ m start) mem₀ mem₁ := by
        rw [←hround]
        refine foldl_flagsOnly hfo fun c hc => ?_
        obtain ⟨map, _, hc⟩ := List.mem_flatMap.mp hc
        obtain ⟨h₁, _, h₂, _⟩ := mem_keyComparisons hc
        exact ⟨h₁ ▸ hblock, hb _ h₂⟩
      rw [hfo₁.nextBlock_eq spaced_blocks hblock]
      exact hi hfo₁ hrest

theorem checkMappingOverlap_eq_foldl :
    (checkMappingOverlap table).mem = table.comparisons.foldl (Comparison.run table.mem) table.mem :=
  keyBlockLoop_eq_foldl (.refl : FlagsOnly (blocksFrom table.mem table.numBlocks firstBlock) _ _) fun _ h => h

end Fold

-- Whether a comparison finds an overlap, and the flag that it then sets on both blocks.
def Comparison.Hits (mem : Memory) (cmp : Comparison) : Prop :=
  outputRef mem cmp.map = outputRef mem cmp.keyMap ∧
  rangesOverlap (outputBase mem cmp.keyMap) (lastId mem cmp.keyMap) (outputBase mem cmp.map) (lastId mem cmp.map)

def Comparison.shift (mem : Memory) (cmp : Comparison) : Nat :=
  if mem (outputRef mem cmp.map / 4) = NodeType.itsGroup.code then devidOverlapShift else stridOverlapShift

-- The words that a comparison reads are not flags.
structure Comparison.Reliable (blocks : List Nat) (mem : Memory) (cmp : Comparison) : Prop where
  keyBlock : cmp.keyBlock ∈ blocks
  block    : cmp.block ∈ blocks
  keyMap   : ∀ x < dataMapSize, Stable blocks (cmp.keyMap + x)
  map      : ∀ x < dataMapSize, Stable blocks (cmp.map + x)
  target   : Stable blocks (outputRef mem cmp.map / 4)

section Flags

theorem setFlag_testBit {shift i : Nat} : (setFlag mem block shift (b + flagsWord)).testBit i = true ↔
    (mem (b + flagsWord)).testBit i = true ∨ (b = block ∧ i = shift) := by
  by_cases hb : b = block
  case pos =>
    subst hb
    rw [setFlag, Memory.write_same, Nat.testBit_or, Nat.one_shiftLeft, Nat.testBit_two_pow]
    simp only [Bool.or_eq_true, decide_eq_true_eq, true_and, eq_comm (a := i) (b := shift)]
  case neg =>
    rw [setFlag, Memory.write_ne (by omega)]
    simp [hb]

theorem run_testBit {cmp : Comparison} {i : Nat} (hfo : FlagsOnly blocks mem₀ mem) (hr : cmp.Reliable blocks mem₀) :
    (cmp.run mem₀ mem (b + flagsWord)).testBit i = true ↔
    (mem (b + flagsWord)).testBit i = true ∨
      (cmp.Hits mem₀ ∧ (b = cmp.keyBlock ∨ b = cmp.block) ∧ i = cmp.shift mem₀) := by
  have href : outputRef mem cmp.map = outputRef mem₀ cmp.map := hfo.stable (hr.map 3 (by decide))
  have hbase : outputBase mem cmp.map = outputBase mem₀ cmp.map := hfo.stable (hr.map 2 (by decide))
  have hcount : idCount mem cmp.map = idCount mem₀ cmp.map := hfo.stable (hr.map 1 (by decide))
  have hkey : outputRef mem cmp.keyMap = outputRef mem₀ cmp.keyMap := hfo.stable (hr.keyMap 3 (by decide))
  have hlast : lastId mem cmp.map = lastId mem₀ cmp.map := by rw [lastId, lastId, hbase, hcount]
  have htype : mem (outputRef mem₀ cmp.map / 4) = mem₀ (outputRef mem₀ cmp.map / 4) := hfo.stable hr.target
  simp only [Comparison.run, compareMaps, href, hbase, hlast, hkey, htype, Comparison.Hits, Comparison.shift]
  by_cases h₁ : outputRef mem₀ cmp.map = outputRef mem₀ cmp.keyMap
  case neg => simp [h₁]
  case pos =>
    by_cases h₂ : rangesOverlap (outputBase mem₀ cmp.keyMap) (lastId mem₀ cmp.keyMap)
      (outputBase mem₀ cmp.map) (lastId mem₀ cmp.map)
    case neg => simp [h₁, h₂]
    case pos =>
      simp only [h₁, h₂, ne_eq, not_true, if_false, if_true, setFlag_testBit, true_and]
      grind

-- A flag is set in the end if it was set before or if one of the comparisons sets it.
theorem foldl_testBit {l : List Comparison} {i : Nat} (hfo : FlagsOnly blocks mem₀ mem)
    (hl : ∀ cmp ∈ l, cmp.Reliable blocks mem₀) :
    (l.foldl (Comparison.run mem₀) mem (b + flagsWord)).testBit i = true ↔
    (mem (b + flagsWord)).testBit i = true ∨
      ∃ cmp ∈ l, cmp.Hits mem₀ ∧ (b = cmp.keyBlock ∨ b = cmp.block) ∧ i = cmp.shift mem₀ := by
  induction l generalizing mem
  case nil => simp
  case cons cmp l hi =>
    have hr := hl cmp List.mem_cons_self
    have hfo₁ : FlagsOnly blocks mem₀ (cmp.run mem₀ mem) :=
      hfo.trans (compareMaps_flagsOnly hr.keyBlock hr.block)
    rw [List.foldl_cons, hi hfo₁ fun c h => hl c (List.mem_cons_of_mem _ h), run_testBit hfo hr, or_assoc]
    simp only [List.mem_cons, exists_eq_or_imp]

end Flags

theorem mem_comparisonsFrom {cmp : Comparison} : cmp ∈ comparisonsFrom mem n start ↔
    cmp.keyBlock ∈ blocksFrom mem n start ∧ mem cmp.keyBlock ≠ NodeType.itsGroup.code ∧
    cmp.keyMap ∈ dataMaps mem cmp.keyBlock ∧ cmp.block ∈ blocksFrom mem n start ∧
    cmp.keyBlock ≤ cmp.block ∧ cmp.map ∈ comparedMaps mem cmp.keyBlock cmp.keyMap cmp.block := by
  induction n generalizing start
  case zero => simp [comparisonsFrom, blocksFrom]
  case succ n hi =>
    rw [comparisonsFrom, List.mem_append, hi]
    constructor
    case mp =>
      rintro (h | ⟨hk, ht, hkm, hb, hle, hm⟩)
      case inl =>
        split at h
        case isTrue => contradiction
        case isFalse ht =>
          obtain ⟨map, hmap, h⟩ := List.mem_flatMap.mp h
          obtain ⟨rfl, rfl, hb, hm⟩ := mem_keyComparisons h
          exact ⟨List.mem_cons_self, ht, hmap, hb, le_of_mem_blocksFrom hb, hm⟩
      case inr => exact ⟨List.mem_cons_of_mem _ hk, ht, hkm, List.mem_cons_of_mem _ hb, hle, hm⟩
    case mpr =>
      rintro ⟨hk, ht, hkm, hb, hle, hm⟩
      rcases List.mem_cons.mp hk with rfl | hk
      case inl =>
        left
        rw [if_neg ht]
        refine List.mem_flatMap.mpr ⟨cmp.keyMap, hkm, List.mem_flatMap.mpr ⟨cmp.block, hb, ?_⟩⟩
        exact List.mem_map.mpr ⟨cmp.map, hm, rfl⟩
      case inr =>
        right
        refine ⟨hk, ht, hkm, ?_, hle, hm⟩
        refine (List.mem_cons.mp hb).resolve_left fun he => ?_
        have hlt : start < cmp.keyBlock := by
          have := le_of_mem_blocksFrom hk
          simp only [iovirtNextBlock, dataMap, dataMapWord] at this
          omega
        omega

-- What the check is for.

-- Two mappings have an output id in common. The count is the number of ids.
def Intersect (mem : Memory) (map map' : Nat) : Prop :=
  ∃ id, (outputBase mem map ≤ id ∧ id < outputBase mem map + idCount mem map) ∧
    (outputBase mem map' ≤ id ∧ id < outputBase mem map' + idCount mem map')

-- A mapping of the block shares ids with another mapping to the same node, which is of the given kind.
def Overlaps (table : IovirtInfoTable) (kind : Nat → Prop) (block : Nat) : Prop :=
  table.mem block ≠ NodeType.itsGroup.code ∧
  ∃ map ∈ dataMaps table.mem block, ∃ map' ∈ table.mappings, map' ≠ map ∧
    outputRef table.mem map' = outputRef table.mem map ∧ kind (outputRef table.mem map / 4) ∧
    Intersect table.mem map map'

def isItsGroup (mem : Memory) (block : Nat) : Prop :=
  mem block = NodeType.itsGroup.code

instance : Decidable (isSmmu mem block) :=
  inferInstanceAs (Decidable (_ ∨ _))

instance : Decidable (isItsGroup mem block) :=
  inferInstanceAs (Decidable (_ = _))

structure WellFormed (table : IovirtInfoTable) : Prop where
  ids  : ∀ map ∈ table.mappings,
    1 ≤ idCount table.mem map ∧ outputBase table.mem map + idCount table.mem map ≤ 2 ^ 32
  refs : ∀ map ∈ table.mappings, ∃ block ∈ table.blocks, outputRef table.mem map = 4 * block ∧
    (isSmmu table.mem block ∨ isItsGroup table.mem block)

-- The flags tell the overlaps, nothing else is written, and only mappings of the table are read.
structure ChecksOverlap (table : IovirtInfoTable) : Prop where
  flags : ∀ block ∈ table.blocks, ∀ i,
    ((checkMappingOverlap table).mem (block + flagsWord)).testBit i = true ↔
      (table.mem (block + flagsWord)).testBit i = true ∨
      (i = stridOverlapShift ∧ Overlaps table (isSmmu table.mem) block) ∨
      (i = devidOverlapShift ∧ Overlaps table (isItsGroup table.mem) block)
  frame : FlagsOnly table.blocks table.mem (checkMappingOverlap table).mem
  reads : ∀ cmp ∈ table.comparisons, cmp.keyMap ∈ table.mappings ∧ cmp.map ∈ table.mappings

-- In the block of the key the loop makes as many rounds for a later key as for the first one. Only a
-- block with one mapping has no later key.
def SingleMaps (table : IovirtInfoTable) : Prop :=
  ∀ block ∈ table.blocks, table.mem block ≠ NodeType.itsGroup.code → table.mem (block + numDataMapWord) ≤ 1

section Correct

theorem mem_mappings : map ∈ table.mappings ↔
    ∃ block ∈ table.blocks, table.mem block ≠ NodeType.itsGroup.code ∧ map ∈ dataMaps table.mem block := by
  simp [IovirtInfoTable.mappings, and_assoc]

theorem intersect_comm {map' : Nat} : Intersect mem map map' ↔ Intersect mem map' map :=
  exists_congr fun _ => and_comm

theorem rangesOverlap_iff {map' : Nat} (h : 1 ≤ idCount mem map ∧ outputBase mem map + idCount mem map ≤ 2 ^ 32)
    (h' : 1 ≤ idCount mem map' ∧ outputBase mem map' + idCount mem map' ≤ 2 ^ 32) :
    rangesOverlap (outputBase mem map) (lastId mem map) (outputBase mem map') (lastId mem map') ↔
    Intersect mem map map' := by
  have hl : lastId mem map = outputBase mem map + idCount mem map - 1 := by
    rw [lastId]
    omega
  have hl' : lastId mem map' = outputBase mem map' + idCount mem map' - 1 := by
    rw [lastId]
    omega
  rw [hl, hl', rangesOverlap]
  constructor
  case mp =>
    intro h
    refine ⟨max (outputBase mem map) (outputBase mem map'), ?_, ?_⟩ <;> omega
  case mpr =>
    rintro ⟨id, _, _⟩
    omega

-- Mappings of different blocks are different, and the word behind the last mapping is none.
theorem dataMaps_disjoint {map' : Nat} (hb : b ∈ blocksFrom mem n start) (hc : c ∈ blocksFrom mem n start)
    (hne : b ≠ c) (hm : map ∈ dataMaps mem b) (hm' : map' ∈ dataMaps mem c) : map ≠ map' := by
  have separate : ∀ {b c map map'}, b ∈ blocksFrom mem n start → c ∈ blocksFrom mem n start → b < c →
      map ∈ dataMaps mem b → map' ∈ dataMaps mem c → map < map' := by
    intro b c map map' hb hc hlt hm hm'
    obtain ⟨i, hi, rfl⟩ := List.mem_map.mp hm
    obtain ⟨j, _, rfl⟩ := List.mem_map.mp hm'
    have := nextBlock_le hb hc hlt
    have := List.mem_range.mp hi
    simp only [iovirtNextBlock, dataMap, dataMapSize] at *
    omega
  rcases Nat.lt_or_gt_of_ne hne with hlt | hlt
  case inl => exact (separate hb hc hlt hm hm').ne
  case inr => exact (separate hc hb hlt hm' hm).ne'

theorem nextBlock_not_mem_dataMaps (hb : b ∈ blocksFrom mem n start) (hc : c ∈ blocksFrom mem n start) :
    iovirtNextBlock mem b ∉ dataMaps mem c := by
  intro hm
  obtain ⟨i, hi, he⟩ := List.mem_map.mp hm
  have hi := List.mem_range.mp hi
  rcases Nat.lt_trichotomy b c with h | rfl | h
  case inl =>
    have := nextBlock_le hb hc h
    simp only [dataMap, dataMapWord] at he
    omega
  case inr.inl =>
    simp only [iovirtNextBlock, dataMap, dataMapSize] at he
    omega
  case inr.inr =>
    have := nextBlock_le hc hb h
    simp only [iovirtNextBlock, dataMap, dataMapSize] at *
    omega

-- With two mappings or more, the second one is compared with what follows the last.
theorem singleMaps_of_reads
    (h : ∀ cmp ∈ table.comparisons, cmp.keyMap ∈ table.mappings ∧ cmp.map ∈ table.mappings) :
    SingleMaps table := by
  intro b hb ht
  by_contra hn
  have hkm : dataMap b 1 ∈ dataMaps table.mem b :=
    List.mem_map.mpr ⟨1, List.mem_range.mpr (by omega), rfl⟩
  have hm : iovirtNextBlock table.mem b ∈ comparedMaps table.mem b (dataMap b 1) b := by
    rw [comparedMaps, if_neg ht, if_pos rfl]
    refine List.mem_map.mpr ⟨table.mem (b + numDataMapWord) - 2, List.mem_range.mpr (by omega), ?_⟩
    simp only [iovirtNextBlock, dataMap, dataMapSize]
    omega
  have hc : ⟨b, dataMap b 1, b, iovirtNextBlock table.mem b⟩ ∈ table.comparisons :=
    mem_comparisonsFrom.mpr ⟨hb, ht, hkm, hb, le_rfl, hm⟩
  obtain ⟨c, hc, _, hm⟩ := mem_mappings.mp (h _ hc).right
  exact nextBlock_not_mem_dataMaps hb hc hm

section Single

variable {cmp : Comparison} (hs : SingleMaps table)

include hs

theorem SingleMaps.eq_of_mem {map' : Nat} (hb : b ∈ table.blocks) (ht : table.mem b ≠ NodeType.itsGroup.code)
    (hm : map ∈ dataMaps table.mem b) (hm' : map' ∈ dataMaps table.mem b) : map = map' := by
  obtain ⟨i, hi, rfl⟩ := List.mem_map.mp hm
  obtain ⟨j, hj, rfl⟩ := List.mem_map.mp hm'
  have := hs b hb ht
  have := List.mem_range.mp hi
  have := List.mem_range.mp hj
  rw [show i = j by omega]

-- The comparisons are then between mappings of different blocks.
theorem SingleMaps.mem_comparisons : cmp ∈ table.comparisons ↔
    cmp.keyBlock ∈ table.blocks ∧ table.mem cmp.keyBlock ≠ NodeType.itsGroup.code ∧
    cmp.keyMap ∈ dataMaps table.mem cmp.keyBlock ∧ cmp.block ∈ table.blocks ∧
    table.mem cmp.block ≠ NodeType.itsGroup.code ∧ cmp.keyBlock < cmp.block ∧
    cmp.map ∈ dataMaps table.mem cmp.block := by
  rw [IovirtInfoTable.comparisons, mem_comparisonsFrom]
  constructor
  case mp =>
    rintro ⟨hk, ht, hkm, hb, hle, hm⟩
    rw [comparedMaps] at hm
    split at hm
    case isTrue => contradiction
    case isFalse htb =>
      split at hm
      case isTrue he =>
        have := hs _ hk ht
        rw [he, Nat.sub_eq_zero_of_le this] at hm
        contradiction
      case isFalse hne => exact ⟨hk, ht, hkm, hb, htb, lt_of_le_of_ne hle (Ne.symm hne), hm⟩
  case mpr =>
    rintro ⟨hk, ht, hkm, hb, htb, hlt, hm⟩
    exact ⟨hk, ht, hkm, hb, hlt.le, by rwa [comparedMaps, if_neg htb, if_neg hlt.ne']⟩

theorem SingleMaps.reliable (hw : WellFormed table) (hc : cmp ∈ table.comparisons) :
    cmp.Reliable table.blocks table.mem := by
  have ⟨hk, ht, hkm, hb, htb, _, hm⟩ := hs.mem_comparisons.mp hc
  obtain ⟨b, htarget, href, _⟩ := hw.refs cmp.map (mem_mappings.mpr ⟨_, hb, htb, hm⟩)
  refine ⟨hk, hb, fun x hx => stable_dataMap hk hkm hx, fun x hx => stable_dataMap hb hm hx, ?_⟩
  rw [href, Nat.mul_div_cancel_left _ (by decide)]
  exact stable_header htarget (x := 0) (by decide)

-- A hit on a block is an overlap of one of its mappings, and the other way round.
theorem SingleMaps.hits_iff (hw : WellFormed table) (hb : b ∈ table.blocks) (kind : Nat → Prop) :
    (∃ cmp ∈ table.comparisons, cmp.Hits table.mem ∧ (b = cmp.keyBlock ∨ b = cmp.block) ∧
      kind (outputRef table.mem cmp.map / 4)) ↔ Overlaps table kind b := by
  constructor
  case mp =>
    rintro ⟨cmp, hc, ⟨href, hr⟩, hbc, hkind⟩
    have ⟨hk, ht, hkm, hbl, htb, hlt, hm⟩ := hs.mem_comparisons.mp hc
    have hkm' := mem_mappings.mpr ⟨_, hk, ht, hkm⟩
    have hm' := mem_mappings.mpr ⟨_, hbl, htb, hm⟩
    have hne := dataMaps_disjoint hk hbl hlt.ne hkm hm
    rw [rangesOverlap_iff (hw.ids _ hkm') (hw.ids _ hm')] at hr
    rcases hbc with rfl | rfl
    case inl => exact ⟨ht, _, hkm, _, hm', hne.symm, href, href ▸ hkind, hr⟩
    case inr => exact ⟨htb, _, hm, _, hkm', hne, href.symm, hkind, intersect_comm.mp hr⟩
  case mpr =>
    rintro ⟨ht, map, hm, map', hm', hne, href, hkind, hi⟩
    obtain ⟨c, hc, htc, hmc⟩ := mem_mappings.mp hm'
    have hids := hw.ids _ (mem_mappings.mpr ⟨b, hb, ht, hm⟩)
    have hids' := hw.ids _ hm'
    rcases Nat.lt_trichotomy b c with hlt | rfl | hlt
    case inl =>
      refine ⟨⟨b, map, c, map'⟩, hs.mem_comparisons.mpr ⟨hb, ht, hm, hc, htc, hlt, hmc⟩, ⟨href, ?_⟩,
        .inl rfl, by rwa [href]⟩
      exact (rangesOverlap_iff hids hids').mpr hi
    case inr.inl => exact absurd (hs.eq_of_mem hb ht hmc hm) hne
    case inr.inr =>
      refine ⟨⟨c, map', b, map⟩, hs.mem_comparisons.mpr ⟨hc, htc, hmc, hb, ht, hlt, hm⟩, ⟨href.symm, ?_⟩,
        .inr rfl, hkind⟩
      exact (rangesOverlap_iff hids' hids).mpr (intersect_comm.mp hi)

theorem SingleMaps.shift_iff (hw : WellFormed table) (hc : cmp ∈ table.comparisons) {i : Nat} :
    i = cmp.shift table.mem ↔
    (i = stridOverlapShift ∧ isSmmu table.mem (outputRef table.mem cmp.map / 4)) ∨
    (i = devidOverlapShift ∧ isItsGroup table.mem (outputRef table.mem cmp.map / 4)) := by
  have ⟨_, _, _, hb, htb, _, hm⟩ := hs.mem_comparisons.mp hc
  obtain ⟨b, _, href, hkind⟩ := hw.refs cmp.map (mem_mappings.mpr ⟨_, hb, htb, hm⟩)
  rw [href, Nat.mul_div_cancel_left _ (by decide), Comparison.shift, href,
    Nat.mul_div_cancel_left _ (by decide)]
  simp only [isSmmu, isItsGroup, NodeType.code] at *
  rcases hkind with (h | h) | h <;> simp [h]

theorem SingleMaps.checksOverlap (hw : WellFormed table) : ChecksOverlap table where
  flags := by
    intro b hb i
    rw [checkMappingOverlap_eq_foldl, foldl_testBit .refl fun cmp hc => hs.reliable hw hc,
      ←hs.hits_iff hw hb, ←hs.hits_iff hw hb]
    refine or_congr_right ?_
    constructor
    case mp =>
      rintro ⟨cmp, hc, hh, hbc, hi⟩
      refine ((hs.shift_iff hw hc).mp hi).imp ?_ ?_
      · rintro ⟨rfl, hk⟩
        exact ⟨rfl, cmp, hc, hh, hbc, hk⟩
      · rintro ⟨rfl, hk⟩
        exact ⟨rfl, cmp, hc, hh, hbc, hk⟩
    case mpr =>
      rintro (⟨rfl, cmp, hc, hh, hbc, hk⟩ | ⟨rfl, cmp, hc, hh, hbc, hk⟩)
      · exact ⟨cmp, hc, hh, hbc, (hs.shift_iff hw hc).mpr (.inl ⟨rfl, hk⟩)⟩
      · exact ⟨cmp, hc, hh, hbc, (hs.shift_iff hw hc).mpr (.inr ⟨rfl, hk⟩)⟩
  frame := checkMappingOverlap_flagsOnly
  reads := by
    intro cmp hc
    have ⟨hk, ht, hkm, hb, htb, _, hm⟩ := hs.mem_comparisons.mp hc
    exact ⟨mem_mappings.mpr ⟨_, hk, ht, hkm⟩, mem_mappings.mpr ⟨_, hb, htb, hm⟩⟩

end Single

end Correct

-- The check is right exactly where no block but an ITS group has more than one mapping.
theorem check_mapping_overlap_iff (table : IovirtInfoTable) (hw : WellFormed table) :
    ChecksOverlap table ↔ SingleMaps table :=
  ⟨fun h => singleMaps_of_reads h.reads, fun hs => hs.checksOverlap hw⟩

-- The second mapping of the root complex is compared with the header of the SMMU behind it.
theorem check_mapping_overlap_reads_header : WellFormed sharedTable ∧
    ⟨6, 77, 6, 81⟩ ∈ sharedTable.comparisons ∧ 81 ∈ sharedTable.blocks ∧ 81 ∉ sharedTable.mappings ∧
    ¬ChecksOverlap sharedTable := by
  have hc : ⟨6, 77, 6, 81⟩ ∈ sharedTable.comparisons := by decide +kernel
  have hm : 81 ∉ sharedTable.mappings := by decide +kernel
  exact ⟨⟨by decide +kernel, by decide +kernel⟩, hc, by decide +kernel, hm, fun h => hm (h.reads _ hc).right⟩

-- Two root complexes with one mapping each, to the same SMMU.
def twoRootsTable : IovirtInfoTable where
  mem
    | 6   => 2
    | 7   => 1
    | 73  => 0
    | 74  => 0x100
    | 75  => 0
    | 76  => 592
    | 77  => 2
    | 78  => 1
    | 79  => 1
    | 144 => 0
    | 145 => 0x100
    | 146 => 0xFF
    | 147 => 592
    | 148 => 4
    | _   => 0
  numBlocks          := 3
  numSmmus           := 1
  numPciRcs          := 2
  numNamedComponents := 0
  numItsGroups       := 0
  numPmcgs           := 0

theorem twoRootsTable_checked : WellFormed twoRootsTable ∧ SingleMaps twoRootsTable ∧
    ChecksOverlap twoRootsTable := by
  have hw : WellFormed twoRootsTable := ⟨by decide +kernel, by decide +kernel⟩
  have hs : SingleMaps twoRootsTable := by
    simp only [SingleMaps]
    decide +kernel
  exact ⟨hw, hs, (check_mapping_overlap_iff twoRootsTable hw).mpr hs⟩

end Iovirt
