import BsaAcs.Iovirt.Query
import BsaAcs.Iovirt.Theorems.Describe
import Mathlib.Logic.Function.Iterate

namespace Iovirt

section Boundary

-- A block starts here: a whole number of blocks lies before it.
def Boundary (mem : Memory) (block : Nat) : Prop :=
  ∃ n, (iovirtNextBlock mem)^[n] firstBlock = block

variable {mem mem' : Memory} {block b t n : Nat}

theorem le_nextBlock : block + dataMapWord ≤ iovirtNextBlock mem block := by
  simp only [iovirtNextBlock, dataMap]
  omega

theorem nextBlock_congr (h : mem' (block + numDataMapWord) = mem (block + numDataMapWord)) :
    iovirtNextBlock mem' block = iovirtNextBlock mem block := by
  rw [iovirtNextBlock, iovirtNextBlock, h]

theorem blocksFrom_eq_range :
    blocksFrom mem n block = (List.range n).map fun i => (iovirtNextBlock mem)^[i] block := by
  induction n generalizing block
  case zero => rfl
  case succ n hi =>
    rw [blocksFrom, hi, List.range_succ_eq_map, List.map_cons, List.map_map]
    rfl

theorem iterate_lt {m : Nat} (h : n < m) :
    iovirtNextBlock mem ((iovirtNextBlock mem)^[n] b) ≤ (iovirtNextBlock mem)^[m] b := by
  induction m
  case zero => omega
  case succ m hi =>
    rw [Function.iterate_succ_apply']
    by_cases he : n = m
    case pos => rw [he]
    case neg =>
      have h₁ := hi (by omega)
      have h₂ := @le_nextBlock mem ((iovirtNextBlock mem)^[m] b)
      omega

namespace Boundary

theorem first : Boundary mem firstBlock :=
  ⟨0, rfl⟩

theorem next (h : Boundary mem block) : Boundary mem (iovirtNextBlock mem block) := by
  have ⟨n, hn⟩ := h
  exact ⟨n + 1, by rw [Function.iterate_succ_apply', hn]⟩

-- Blocks do not overlap.
theorem separate (hb : Boundary mem b) (ht : Boundary mem t) :
    b = t ∨ iovirtNextBlock mem b ≤ t ∨ iovirtNextBlock mem t ≤ b := by
  have ⟨n, hn⟩ := hb
  have ⟨m, hm⟩ := ht
  rcases Nat.lt_trichotomy n m with h | h | h
  case inl    => exact .inr (.inl (hn ▸ hm ▸ iterate_lt h))
  case inr.inl => exact .inl (by rw [← hn, ← hm, h])
  case inr.inr => exact .inr (.inr (hn ▸ hm ▸ iterate_lt h))

-- Only the sizes of the blocks before it decide where a block starts.
theorem congr (hb : Boundary mem block)
    (h : ∀ b < block, Boundary mem b → mem' (b + numDataMapWord) = mem (b + numDataMapWord)) :
    Boundary mem' block := by
  have ⟨n, hn⟩ := hb
  refine ⟨n, ?_⟩
  rw [← hn]
  clear hb
  induction n generalizing block
  case zero => rfl
  case succ n hi =>
    have hlt : (iovirtNextBlock mem)^[n] firstBlock < block := by
      have h₁ := @iterate_lt mem firstBlock n (n + 1) (by omega)
      have h₂ := @le_nextBlock mem ((iovirtNextBlock mem)^[n] firstBlock)
      simp only [dataMapWord] at h₂
      omega
    have he := hi (fun b hb => h b (by omega)) rfl
    rw [Function.iterate_succ_apply', Function.iterate_succ_apply', he]
    exact nextBlock_congr (h _ hlt ⟨n, rfl⟩)

theorem of_below (hb : Boundary mem block) (h : ∀ x < block, mem' x = mem x) : Boundary mem' block := by
  apply hb.congr
  intro c hc hc'
  apply h
  cases hb.separate hc'
  case inl he => omega
  case inr hs =>
    have := @le_nextBlock mem c
    have := @le_nextBlock mem block
    simp only [dataMapWord, numDataMapWord] at *
    omega

-- Writing inside a block, behind its size, moves no block.
theorem of_inside (hb : Boundary mem block) (ht : Boundary mem t)
    (h : ∀ x, x ≤ block + numDataMapWord ∨ iovirtNextBlock mem block ≤ x → mem' x = mem x) : Boundary mem' t := by
  apply ht.congr
  intro c _ hc
  apply h
  have := @le_nextBlock mem c
  cases hb.separate hc
  case inl he => omega
  case inr hs =>
    simp only [dataMapWord, numDataMapWord] at *
    omega

end Boundary

end Boundary

section Find

variable {table : IovirtInfoTable} {block x : Nat}

theorem sameBlock_self : sameBlock table.mem block block = true := by
  simp [sameBlock]

-- A block that is found lies before the one that is searched for, or is that one itself.
theorem findBlock_found (hb : Boundary table.mem block) (h : findBlock block table ≠ 0) :
    ∃ t ≤ block, Boundary table.mem t ∧ findBlock block table = offsetOf t ∧ sameBlock table.mem block t = true := by
  rw [findBlock] at h ⊢
  cases hf : table.blocks.find? (sameBlock table.mem block)
  case none => simp [hf] at h
  case some t =>
    have hs := List.find?_some hf
    rw [IovirtInfoTable.blocks, blocksFrom_eq_range, List.find?_map, Option.map_eq_some_iff] at hf
    obtain ⟨i, hi, ht⟩ := hf
    obtain ⟨_, _, hfirst⟩ := List.find?_range_eq_some.mp hi
    obtain ⟨n, hn⟩ := hb
    refine ⟨t, ?_, ⟨i, ht⟩, rfl, hs⟩
    by_contra hlt
    have hni : n < i := by
      by_contra hle
      rcases Nat.lt_or_eq_of_le (Nat.le_of_not_lt hle) with hl | hl
      case inl =>
        have := @iterate_lt table.mem firstBlock i n hl
        have := @le_nextBlock table.mem t
        rw [ht] at *
        omega
      case inr =>
        rw [hl, hn] at ht
        omega
    have := hfirst n hni
    simp [hn, sameBlock_self] at this

end Find

-- What a call of `iort_add_block` does to the table, where the blocks of the table end at `block`.
structure AddSpec (node : IortNode) (table : IovirtInfoTable) (block : Nat) (added : Added) : Prop where
  le       : block ≤ added.next
  below    : ∀ x < block, added.table.mem x = table.mem x
  boundary : Boundary added.table.mem added.next
  tells    : 4 * added.next < 2 ^ 32 → ∃ t, added.offset = 4 * t ∧ Boundary added.table.mem t ∧
    TellsBase added.table.mem node t

def Adds (add : IortNode → IovirtInfoTable → Nat → Option Added) : Prop :=
  ∀ {node table block added}, Boundary table.mem block → add node table block = some added →
    AddSpec node table block added

-- The base that the last of the mappings leaves in the field of the root complex, and what was there
-- before if there are none.
def lastBase (iort : Iort) (node : IortNode) (maps : List IortIdMapping) (base : Nat) : Nat :=
  match maps.getLast? with
  | none     => base
  | some map => ((iort.nodeAt map.outputReference).map (baseLeft node)).getD 0

section Mappings

variable {iort : Iort} {node : IortNode} {add : IortNode → IovirtInfoTable → Nat → Option Added}
  {table table' : IovirtInfoTable} {block map next next' : Nat} {maps : List IortIdMapping} {mem : Memory}

theorem copyMapping_of_not_mem {mapping : IortIdMapping} {x : Nat} (h : x < map ∨ map + 3 ≤ x) :
    copyMapping mapping map mem x = mem x := by
  simp only [copyMapping]
  rw [Memory.write_ne (by omega), Memory.write_ne (by omega), Memory.write_ne (by omega)]

theorem setSmmuBase_of_ne {offset x : Nat} (h₁ : x ≠ block + dataWord + rcSmmuBaseWord)
    (h₂ : x ≠ block + dataWord + rcSmmuBaseWord + 1) : setSmmuBase node block offset mem x = mem x := by
  simp only [setSmmuBase]
  split
  · rw [Memory.write_ne h₂, Memory.write_ne h₁, Memory.write_ne h₂, Memory.write_ne h₁]
  · rw [Memory.write_ne h₂, Memory.write_ne h₁]

theorem TellsBase.congr {target : IortNode} {mem' : Memory} {t : Nat} (h : TellsBase mem target t)
    (he : ∀ k < 6, mem' (t + k) = mem (t + k)) : TellsBase mem' target t := by
  have h0 : mem' t = mem t := he 0 (by omega)
  have h4 : mem' (t + dataWord + smmuBaseWord) = mem (t + dataWord + smmuBaseWord) := he 4 (by omega)
  have h5 : mem' (t + dataWord + smmuBaseWord + 1) = mem (t + dataWord + smmuBaseWord + 1) := he 5 (by omega)
  rw [TellsBase, h0, h4, h5]
  exact h

-- The words that the loop over the mappings of a block leaves alone.
def Kept (block x : Nat) : Prop :=
  x < dataMap block 0 ∧ x ≠ block + dataWord + rcSmmuBaseWord ∧ x ≠ block + dataWord + rcSmmuBaseWord + 1

-- One round of the loop.
theorem addMapping_spec {mapping : IortIdMapping} {target : IortNode} {added : Added}
    (ha : AddSpec target { table with mem := copyMapping mapping map table.mem } next added)
    (hb : Boundary table.mem block) (hmap : dataMap block 0 ≤ map)
    (hend : map + dataMapSize ≤ iovirtNextBlock table.mem block) (hle : iovirtNextBlock table.mem block ≤ next)
    (hm : mem = setSmmuBase node block added.offset (added.table.mem.write (map + 3) added.offset)) :
    (∀ x, Kept block x → mem x = table.mem x) ∧ Boundary mem block ∧ Boundary mem added.next ∧
      (4 * added.next < 2 ^ 32 → rcSmmuBase mem block = baseLeft node target) := by
  simp only [dataMap, dataMapWord, dataMapSize, Nat.mul_zero, Nat.add_zero] at hmap hend
  have hcopy : ∀ x, x < map ∨ map + 3 ≤ x → copyMapping mapping map table.mem x = table.mem x :=
    fun x hx => copyMapping_of_not_mem hx
  have hbelow : ∀ x < next, x < map ∨ map + 3 ≤ x → added.table.mem x = table.mem x :=
    fun x hx hx' => (ha.below x hx).trans (hcopy x hx')
  have hb₁ : Boundary added.table.mem block := by
    apply hb.of_below
    intro x hx
    exact hbelow x (by omega) (by omega)
  have hnext : iovirtNextBlock added.table.mem block = iovirtNextBlock table.mem block :=
    nextBlock_congr (hbelow _ (by simp only [numDataMapWord]; omega) (by simp only [numDataMapWord]; omega))
  have hwrites : ∀ x, x ≤ block + numDataMapWord ∨ iovirtNextBlock added.table.mem block ≤ x →
      mem x = added.table.mem x := by
    intro x hx
    rw [hnext] at hx
    simp only [numDataMapWord] at hx
    rw [hm, setSmmuBase_of_ne (by simp only [dataWord, rcSmmuBaseWord]; omega)
      (by simp only [dataWord, rcSmmuBaseWord]; omega), Memory.write_ne (by omega)]
  refine ⟨?_, hb₁.of_inside hb₁ hwrites, hb₁.of_inside ha.boundary hwrites, ?_⟩
  · rintro x ⟨hx, hx₁, hx₂⟩
    simp only [dataMap, dataMapWord, dataMapSize, Nat.mul_zero, Nat.add_zero] at hx
    rw [hm, setSmmuBase_of_ne hx₁ hx₂, Memory.write_ne (by omega)]
    exact hbelow x (by omega) (by omega)
  · intro hfit
    obtain ⟨t, ho, ht, htell⟩ := ha.tells hfit
    have hl := @le_nextBlock added.table.mem t
    have hsep : block = t ∨ iovirtNextBlock added.table.mem block ≤ t ∨ iovirtNextBlock added.table.mem t ≤ block :=
      hb₁.separate ht
    simp only [dataMapWord] at hl
    have htell' : TellsBase (added.table.mem.write (map + 3) added.offset) target t :=
      htell.congr fun k hk => Memory.write_ne (by omega)
    rw [hm, ho, setSmmuBase_eq (by simp only [dataMapWord]; omega) (ho ▸ htell')]
    simp only [rcSmmuBase, longWord, Memory.write_same]
    rw [Memory.write_ne (by omega), Memory.write_same]
    exact Nat.mod_add_div _ _

theorem addMappings_spec
    (hadd : Adds add)
    (hb : Boundary table.mem block) (hn : Boundary table.mem next) (hmap : dataMap block 0 ≤ map)
    (hend : map + dataMapSize * maps.length ≤ iovirtNextBlock table.mem block)
    (hle : iovirtNextBlock table.mem block ≤ next)
    (h : addMappings iort add node block maps map table next = some (table', next')) :
    next ≤ next' ∧ (∀ x, Kept block x → table'.mem x = table.mem x) ∧ Boundary table'.mem next' ∧
      (4 * next' < 2 ^ 32 → rcSmmuBase table'.mem block = lastBase iort node maps (rcSmmuBase table.mem block)) := by
  induction maps generalizing map table next
  case nil =>
    simp only [addMappings, Option.some.injEq, Prod.mk.injEq] at h
    cases h.left
    cases h.right
    exact ⟨le_rfl, fun _ _ => rfl, hn, fun _ => rfl⟩
  case cons mapping maps hi =>
    simp only [addMappings, Option.bind_eq_bind, Option.bind_eq_some_iff] at h
    obtain ⟨target, ht, added, ha, h⟩ := h
    simp only [List.length_cons, dataMapSize] at hend
    have hcopy : Boundary (copyMapping mapping map table.mem) next := by
      apply hb.of_inside hn
      intro x hx
      apply copyMapping_of_not_mem
      simp only [numDataMapWord, dataMap, dataMapWord] at hx hmap
      omega
    have hspec := hadd hcopy ha
    obtain ⟨hkept, hb', hn', hbase⟩ := @addMapping_spec node table block map next _ mapping target added hspec hb hmap
      (by simp only [dataMapSize]; omega) hle rfl
    have hnext := nextBlock_congr (hkept (block + numDataMapWord)
      (by simp only [Kept, dataMap, dataMapWord, dataWord, rcSmmuBaseWord, numDataMapWord]; omega))
    obtain ⟨h₁, h₂, h₃, h₄⟩ := hi hb' hn' (by simp only [dataMapSize]; omega)
      (by rw [hnext]; simp only [dataMapSize]; omega) (by rw [hnext]; exact hle.trans hspec.le) h
    refine ⟨hspec.le.trans h₁, fun x hx => (h₂ x hx).trans (hkept x hx), h₃, ?_⟩
    intro hfit
    rw [h₄ hfit, hbase (by omega), lastBase, lastBase, List.getLast?_cons]
    cases maps.getLast?
    case none => simp [ht]
    case some => simp

end Mappings

-- The block of a node before it is searched. The reference of a PMCG has been replaced.
structure Populated (node : IortNode) (block : Nat) (mem mem' : Memory) : Prop where
  below      : ∀ x < block, mem' x = mem x
  type       : mem' block = node.data.type.code
  numDataMap : mem' (block + numDataMapWord) = node.numDataMap
  data       : ∀ w < dataSize, (w = nodeRefWord → node.data.type ≠ .pmcg) →
    mem' (block + dataWord + w) = node.data.word w

section Add

variable {iort : Iort} {node : IortNode} {add : IortNode → IovirtInfoTable → Nat → Option Added}
  {table table' : IovirtInfoTable} {block fuel : Nat} {mem mem' : Memory} {added : Added}

theorem addReference_below
    (hadd : Adds add) (hb : Boundary table.mem block)
    (h : addReference iort add node block table = some table') {x : Nat} (hx : x < dataMap block 0)
    (hr : x = block + dataWord + nodeRefWord → node.data.type ≠ .pmcg) : table'.mem x = table.mem x := by
  unfold addReference at h
  split at h
  case h_1 hd =>
    simp only [Option.bind_eq_bind, Option.bind_eq_some_iff, Option.some.injEq] at h
    have ⟨target, _, added, ha, he⟩ := h
    have hne : x ≠ block + dataWord + nodeRefWord := fun he => hr he (by simp [hd, NodeData.type])
    have hl := @le_nextBlock table.mem block
    simp only [dataMap, dataMapWord] at hl hx
    have hbelow : added.table.mem x = table.mem x := (hadd hb.next ha).below x (by omega)
    rw [← he]
    exact (Memory.write_ne hne).trans hbelow
  case h_2 =>
    cases h
    rfl

namespace Populated

theorem of_add
    (hadd : Adds add) (hb : Boundary table.mem block)
    (h : addReference iort add node block { table with mem := populate node block table.mem } = some table') :
    Populated node block table.mem (table'.mem.write (block + flagsWord) 0) := by
  have hkept : ∀ x < block + flagsWord, (x = block + dataWord + nodeRefWord → node.data.type ≠ .pmcg) →
      table'.mem.write (block + flagsWord) 0 x = populate node block table.mem x := by
    intro x hx hr
    rw [Memory.write_ne (by omega)]
    refine addReference_below hadd (hb.of_below fun x hx => populate_below hx) h ?_ hr
    simp only [dataMap, dataMapWord, flagsWord] at *
    omega
  constructor
  case below =>
    intro x hx
    rw [hkept x (by omega) (by omega), populate_below hx]
  case type =>
    rw [hkept block (by simp [flagsWord]) (by simp only [dataWord]; omega), populate_type]
  case numDataMap =>
    rw [hkept _ (by simp [flagsWord, numDataMapWord]) (by simp only [dataWord, numDataMapWord]; omega),
      populate_numDataMap]
  case data =>
    intro w hw hr
    simp only [dataSize] at hw
    have hx : block + (dataWord + w) = block + dataWord + w := by omega
    rw [hkept _ (by simp only [flagsWord, dataWord]; omega) (fun he => hr (by omega)), ← hx,
      populate_data (by omega) (by simp only [flagsWord, dataWord]; omega), Nat.add_sub_cancel_left]

variable (h : Populated node block mem mem')
include h

theorem boundary (hb : Boundary mem block) : Boundary mem' block :=
  hb.of_below h.below

theorem nextBlock_eq : iovirtNextBlock mem' block = block + node.size := by
  simp only [iovirtNextBlock, dataMap, h.numDataMap, IortNode.size]
  omega

theorem tellsBase : TellsBase mem' node block := by
  refine ⟨h.type, ?_⟩
  intro ht
  have hp : node.data.type ≠ .pmcg := by
    cases ht <;> simp [*]
  have h₂ := h.data smmuBaseWord (by decide) (fun _ => hp)
  have h₃ := h.data (smmuBaseWord + 1) (by decide) (fun _ => hp)
  rw [Nat.add_assoc (block + dataWord), h₂, h₃]
  cases hd : node.data <;> simp [hd, NodeData.type] at ht
  all_goals exact ⟨rfl, rfl⟩

-- A block that compares equal tells the same.
theorem tellsBase_of_same {t : Nat} (hs : sameBlock mem' block t = true) : TellsBase mem' node t := by
  simp only [sameBlock, Bool.and_eq_true, decide_eq_true_eq] at hs
  obtain ⟨ht, hw⟩ := h.tellsBase
  have hc : flagsWord ≤ cmpSize mem' t := by
    rw [cmpSize]
    split <;> omega
  have h4 : mem' (block + dataWord + smmuBaseWord) = mem' (t + dataWord + smmuBaseWord) :=
    hs.right 4 (Nat.lt_of_lt_of_le (by decide) hc)
  have h5 : mem' (block + dataWord + smmuBaseWord + 1) = mem' (t + dataWord + smmuBaseWord + 1) :=
    hs.right 5 (Nat.lt_of_lt_of_le (by decide) hc)
  exact ⟨hs.left ▸ ht, by rw [← h4, ← h5]; exact hw⟩

end Populated

-- A call finds the block of the node, or puts a new block at the end.
theorem iortAddBlock_cases
    (hadd : Adds (iortAddBlock iort fuel)) (hb : Boundary table.mem block)
    (h : iortAddBlock iort (fuel + 1) node table block = some added) :
    ∃ table₁ : IovirtInfoTable, Populated node block table.mem table₁.mem ∧
      ((findBlock block table₁ ≠ 0 ∧ added = { offset := findBlock block table₁, table := table₁, next := block }) ∨
      ∃ table₂ next₂,
        addMappings iort (iortAddBlock iort fuel) node block node.maps (dataMap block 0)
          { table₁ with mem := checkCtxInt node block table₁.mem } (iovirtNextBlock table₁.mem block) =
          some (table₂, next₂) ∧
        added = { offset := offsetOf block, table := table₂.increment node.data.type, next := next₂ }) := by
  simp only [iortAddBlock, Option.bind_eq_bind, Option.bind_eq_some_iff] at h
  obtain ⟨table₀, hr, h⟩ := h
  refine ⟨{ table₀ with mem := table₀.mem.write (block + flagsWord) 0 }, .of_add hadd hb hr, ?_⟩
  split at h
  case isTrue hf => exact .inl ⟨hf, (Option.some.inj h).symm⟩
  case isFalse =>
    obtain ⟨⟨table₂, next₂⟩, hm, he⟩ := Option.bind_eq_some_iff.mp h
    exact .inr ⟨table₂, next₂, hm, (Option.some.inj he).symm⟩

-- What is in the block of a new node when its mappings have been followed.
theorem addMappings_populated {next : Nat}
    (hadd : Adds add)
    (hp : Populated node block mem table.mem) (hb : Boundary mem block)
    (h : addMappings iort add node block node.maps (dataMap block 0)
      { table with mem := checkCtxInt node block table.mem } (iovirtNextBlock table.mem block) = some (table', next)) :
    block < next ∧ (∀ x, Kept block x → x ≠ block + flagsWord → table'.mem x = table.mem x) ∧
      Boundary table'.mem next ∧
      (4 * next < 2 ^ 32 →
        rcSmmuBase table'.mem block = lastBase iort node node.maps (rcSmmuBase table.mem block)) := by
  have hc : ∀ x, x ≠ block + flagsWord → checkCtxInt node block table.mem x = table.mem x :=
    fun x hx => checkCtxInt_of_ne hx
  have hnext : iovirtNextBlock (checkCtxInt node block table.mem) block = iovirtNextBlock table.mem block :=
    nextBlock_congr (hc _ (by simp only [numDataMapWord, flagsWord]; omega))
  have hb₁ : Boundary (checkCtxInt node block table.mem) block :=
    (hp.boundary hb).of_below fun x hx => hc x (by omega)
  have hsize : dataMap block 0 + dataMapSize * node.maps.length ≤ iovirtNextBlock table.mem block := by
    have := node.maps_length_le
    rw [hp.nextBlock_eq]
    simp only [IortNode.size, dataMap, dataMapSize]
    omega
  have hbase : rcSmmuBase (checkCtxInt node block table.mem) block = rcSmmuBase table.mem block := by
    simp only [rcSmmuBase, longWord]
    rw [hc _ (by simp only [dataWord, rcSmmuBaseWord, flagsWord]; omega),
      hc _ (by simp only [dataWord, rcSmmuBaseWord, flagsWord]; omega)]
  have hn₁ : Boundary (checkCtxInt node block table.mem) (iovirtNextBlock table.mem block) :=
    hnext ▸ hb₁.next
  obtain ⟨h₁, h₂, h₃, h₄⟩ := addMappings_spec hadd hb₁ hn₁ le_rfl (by rw [hnext]; exact hsize)
    (Nat.le_of_eq hnext) h
  have hl := @le_nextBlock table.mem block
  simp only [dataMapWord] at hl
  exact ⟨by omega, fun x hx hf => (h₂ x hx).trans (hc x hf), h₃, fun hfit => hbase ▸ h₄ hfit⟩

theorem kept_of_ne {w : Nat} (hw : w < dataSize) (h₁ : w ≠ rcSmmuBaseWord) (h₂ : w ≠ rcSmmuBaseWord + 1) :
    Kept block (block + dataWord + w) ∧ block + dataWord + w ≠ block + flagsWord := by
  simp only [Kept, dataMap, dataMapWord, dataWord, flagsWord, dataSize, rcSmmuBaseWord] at *
  omega

-- The induction is on the depth of the recursion: a call at one depth relies on the calls below it.
theorem iortAddBlock_adds : Adds (iortAddBlock iort fuel) := by
  induction fuel
  case zero =>
    intro _ _ _ _ _ h
    simp [iortAddBlock] at h
  case succ fuel hi =>
    intro node table block added hb h
    obtain ⟨table₁, hp, hc⟩ := iortAddBlock_cases hi hb h
    cases hc
    case inl hc =>
      obtain ⟨hf, he⟩ := hc
      cases he
      refine ⟨le_rfl, hp.below, hp.boundary hb, ?_⟩
      intro hfit
      obtain ⟨t, hle, ht, ho, hs⟩ := findBlock_found (hp.boundary hb) hf
      have hoff : offsetOf t = 4 * t := Nat.mod_eq_of_lt (by simp only at hfit; omega)
      exact ⟨t, ho.trans hoff, ht, hp.tellsBase_of_same hs⟩
    case inr hc =>
      obtain ⟨table₂, next₂, hm, he⟩ := hc
      obtain ⟨hlt, hkept, hn, _⟩ := addMappings_populated hi hp hb hm
      have hbelow : ∀ x < block, table₂.mem x = table₁.mem x := by
        intro x hx
        apply hkept x
        · simp only [Kept, dataMap, dataMapWord, dataWord, rcSmmuBaseWord]
          omega
        · omega
      cases he
      refine ⟨hlt.le, ?_, by rwa [increment_mem], ?_⟩
      · intro x hx
        rw [increment_mem, hbelow x hx, hp.below x hx]
      · intro hfit
        simp only at hfit
        refine ⟨block, Nat.mod_eq_of_lt (by omega), ?_, ?_⟩
        · rw [increment_mem]
          exact (hp.boundary hb).of_below hbelow
        · rw [increment_mem]
          apply hp.tellsBase.congr
          intro k hk
          apply hkept
          · simp only [Kept, dataMap, dataMapWord, dataWord, rcSmmuBaseWord]
            omega
          · simp only [flagsWord]
            omega

-- What a new block holds when the call that made it returns.
structure NewBlock (iort : Iort) (node : IortNode) (mem : Memory) (block : Nat) : Prop where
  data : ∀ w < dataSize, w ≠ rcSmmuBaseWord → w ≠ rcSmmuBaseWord + 1 →
    (w = nodeRefWord → node.data.type ≠ .pmcg) → mem (block + dataWord + w) = node.data.word w
  base : node.maps ≠ [] → rcSmmuBase mem block = lastBase iort node node.maps 0
  all  : node.maps = [] → mem (block + dataWord + rcSmmuBaseWord) = node.data.word rcSmmuBaseWord ∧
    mem (block + dataWord + (rcSmmuBaseWord + 1)) = node.data.word (rcSmmuBaseWord + 1)

theorem lastBase_congr {base base' : Nat} {maps : List IortIdMapping} (h : maps ≠ []) :
    lastBase iort node maps base = lastBase iort node maps base' := by
  rw [lastBase, lastBase]
  cases hl : maps.getLast?
  case none => exact absurd (List.getLast?_eq_none_iff.mp hl) h
  case some => rfl

theorem iortAddBlock_new (hb : Boundary table.mem block)
    (h : iortAddBlock iort fuel node table block = some added) (hnew : block < added.next)
    (hfit : 4 * added.next < 2 ^ 32) : NewBlock iort node added.table.mem block := by
  cases fuel
  case zero => simp [iortAddBlock] at h
  case succ fuel =>
    obtain ⟨table₁, hp, hc⟩ := iortAddBlock_cases iortAddBlock_adds hb h
    cases hc
    case inl hc =>
      rw [hc.right] at hnew
      exact absurd hnew (Nat.lt_irrefl _)
    case inr hc =>
      obtain ⟨table₂, next₂, hm, he⟩ := hc
      obtain ⟨_, hkept, _, hbase⟩ := addMappings_populated iortAddBlock_adds hp hb hm
      cases he
      rw [increment_mem]
      constructor
      case data =>
        intro w hw h₁ h₂ hr
        obtain ⟨hk, hf⟩ := @kept_of_ne block w hw h₁ h₂
        rw [hkept _ hk hf]
        exact hp.data w hw hr
      case base =>
        intro hne
        rw [hbase hfit]
        exact lastBase_congr hne
      case all =>
        intro hnil
        simp only [hnil, addMappings, Option.some.injEq, Prod.mk.injEq] at hm
        rw [← hm.left]
        have h₁ := hp.data rcSmmuBaseWord (by decide) (by simp [rcSmmuBaseWord, nodeRefWord])
        have h₂ := hp.data (rcSmmuBaseWord + 1) (by decide) (by simp [rcSmmuBaseWord, nodeRefWord])
        constructor
        · exact (checkCtxInt_of_ne (by simp only [dataWord, rcSmmuBaseWord, flagsWord]; omega)).trans h₁
        · exact (checkCtxInt_of_ne (by simp only [dataWord, rcSmmuBaseWord, flagsWord]; omega)).trans h₂

end Add

-- The base of the SMMU that a mapping refers to, 0 if it refers to something else.
def Iort.targetBase (iort : Iort) (map : IortIdMapping) : Nat :=
  ((iort.nodeAt map.outputReference).map (·.data.smmuBase)).getD 0

-- The data of the block is the node's own. The node that a PMCG belongs to is left out, and a root complex
-- has the base of an SMMU exactly if one of its mappings refers to one.
structure PayloadKept (iort : Iort) (node : IortNode) (mem : Memory) (block : Nat) : Prop where
  data : ∀ w < dataSize, (node.data.type = .pciRootComplex → w ≠ rcSmmuBaseWord ∧ w ≠ rcSmmuBaseWord + 1) →
    (w = nodeRefWord → node.data.type ≠ .pmcg) → mem (block + dataWord + w) = node.data.word w
  base : node.data.type = .pciRootComplex →
    (rcSmmuBase mem block ≠ 0 ↔ ∃ map ∈ node.mappings, iort.targetBase map ≠ 0)

-- A named component without mappings or with nothing in the characters 16 to 23, a root complex whose last
-- mapping refers to an SMMU if any of them does, or a node of another type.
def PayloadSafe (iort : Iort) (node : IortNode) : Prop :=
  match node.data with
  | .namedComponent deviceName => node.mappings = [] ∨ ∀ i, 16 ≤ i → i < 24 → nameByte deviceName i = 0
  | .rootComplex ..            =>
    (∃ map ∈ node.mappings, iort.targetBase map ≠ 0) →
      ∃ map, node.mappings.getLast? = some map ∧ iort.targetBase map ≠ 0
  | _                          => True

section Payload

variable {iort : Iort} {node : IortNode} {mem : Memory} {block : Nat}

theorem nameWord_eq_zero {deviceName : List Nat} {w : Nat} :
    nameWord deviceName w = 0 ↔ ∀ i, 4 * w ≤ i → i < 4 * w + 4 → nameByte deviceName i = 0 := by
  rw [nameWord]
  constructor
  · intro h i h₁ h₂
    have hi : i = 4 * w ∨ i = 4 * w + 1 ∨ i = 4 * w + 2 ∨ i = 4 * w + 3 := by omega
    rcases hi with rfl | rfl | rfl | rfl <;> omega
  · intro h
    rw [h (4 * w) (by omega) (by omega), h (4 * w + 1) (by omega) (by omega), h (4 * w + 2) (by omega) (by omega),
      h (4 * w + 3) (by omega) (by omega)]
    rfl

theorem lastBase_other (ht : node.data.type ≠ .pciRootComplex) (maps : List IortIdMapping) :
    lastBase iort node maps 0 = 0 := by
  rw [lastBase]
  split
  case h_1 => rfl
  case h_2 map _ =>
    cases iort.nodeAt map.outputReference <;> simp [baseLeft, ht]

theorem lastBase_rootComplex (ht : node.data.type = .pciRootComplex) (maps : List IortIdMapping) :
    lastBase iort node maps 0 = (maps.getLast?.map iort.targetBase).getD 0 := by
  rw [lastBase]
  cases maps.getLast?
  case none => rfl
  case some map =>
    have hb : baseLeft node = fun target => target.data.smmuBase := by
      funext target
      simp [baseLeft, ht]
    simp [Iort.targetBase, hb]

namespace NewBlock

variable (h : NewBlock iort node mem block)
include h

-- In the block of a node that is no root complex the field is cleared with the first mapping.
theorem cleared (ht : node.data.type ≠ .pciRootComplex) (hne : node.maps ≠ []) :
    mem (block + dataWord + rcSmmuBaseWord) = 0 ∧ mem (block + dataWord + (rcSmmuBaseWord + 1)) = 0 := by
  have hb := h.base hne
  rw [lastBase_other ht, rcSmmuBase, longWord] at hb
  rw [← Nat.add_assoc]
  omega

theorem kept_of_word_eq_zero (ht : node.data.type ≠ .pciRootComplex)
    (hw : node.maps ≠ [] → node.data.word rcSmmuBaseWord = 0 ∧ node.data.word (rcSmmuBaseWord + 1) = 0) :
    PayloadKept iort node mem block := by
  refine ⟨?_, fun he => absurd he ht⟩
  intro w hlt _ hr
  have hfield : mem (block + dataWord + rcSmmuBaseWord) = node.data.word rcSmmuBaseWord ∧
      mem (block + dataWord + (rcSmmuBaseWord + 1)) = node.data.word (rcSmmuBaseWord + 1) := by
    by_cases hne : node.maps = []
    case pos => exact h.all hne
    case neg =>
      rw [(hw hne).left, (hw hne).right]
      exact h.cleared ht hne
  by_cases h₁ : w = rcSmmuBaseWord
  case pos => exact h₁ ▸ hfield.left
  by_cases h₂ : w = rcSmmuBaseWord + 1
  case pos => exact h₂ ▸ hfield.right
  exact h.data w hlt h₁ h₂ hr

theorem kept_namedComponent {deviceName : List Nat} (hd : node.data = .namedComponent deviceName) :
    PayloadKept iort node mem block ↔
      node.mappings = [] ∨ ∀ i, 16 ≤ i → i < 24 → nameByte deviceName i = 0 := by
  have ht : node.data.type ≠ .pciRootComplex := by simp [hd, NodeData.type]
  have hm : node.maps = node.mappings := by simp [IortNode.maps, hd, NodeData.type]
  have hzero : (nameWord deviceName 4 = 0 ∧ nameWord deviceName 5 = 0) ↔
      ∀ i, 16 ≤ i → i < 24 → nameByte deviceName i = 0 := by
    rw [nameWord_eq_zero, nameWord_eq_zero]
    constructor
    · rintro ⟨h₁, h₂⟩ i hi hi'
      by_cases hc : i < 20
      case pos => exact h₁ i hi hc
      case neg => exact h₂ i (by omega) hi'
    · intro h
      exact ⟨fun i h₁ h₂ => h i (by omega) (by omega), fun i h₁ h₂ => h i (by omega) (by omega)⟩
  rw [← hzero]
  constructor
  · intro hk
    by_cases hne : node.mappings = []
    case pos => exact .inl hne
    case neg =>
      obtain ⟨h₁, h₂⟩ := h.cleared ht (hm ▸ hne)
      have h₄ := hk.data rcSmmuBaseWord (by decide) (fun he => absurd he ht)
        (by simp [rcSmmuBaseWord, nodeRefWord])
      have h₅ := hk.data (rcSmmuBaseWord + 1) (by decide) (fun he => absurd he ht)
        (by simp [rcSmmuBaseWord, nodeRefWord])
      rw [h₁, hd] at h₄
      rw [h₂, hd] at h₅
      exact .inr ⟨h₄.symm, h₅.symm⟩
  · intro hs
    apply h.kept_of_word_eq_zero ht
    intro hne
    rw [hd]
    exact hs.resolve_left (hm ▸ hne)

theorem kept_rootComplex (ht : node.data.type = .pciRootComplex) :
    PayloadKept iort node mem block ↔ ((∃ map ∈ node.mappings, iort.targetBase map ≠ 0) →
      ∃ map, node.mappings.getLast? = some map ∧ iort.targetBase map ≠ 0) := by
  have hm : node.maps = node.mappings := by simp [IortNode.maps, ht]
  have hbase : rcSmmuBase mem block = (node.mappings.getLast?.map iort.targetBase).getD 0 := by
    by_cases hne : node.maps = []
    case pos =>
      obtain ⟨h₁, h₂⟩ := h.all hne
      have hz : node.data.word rcSmmuBaseWord = 0 ∧ node.data.word (rcSmmuBaseWord + 1) = 0 := by
        cases hd : node.data <;> simp [hd, NodeData.type] at ht
        exact ⟨rfl, rfl⟩
      rw [rcSmmuBase, longWord, Nat.add_assoc _ rcSmmuBaseWord, h₁, h₂, hz.left, hz.right, ← hm, hne]
      rfl
    case neg => rw [h.base hne, lastBase_rootComplex ht, hm]
  have hlast : rcSmmuBase mem block ≠ 0 ↔
      ∃ map, node.mappings.getLast? = some map ∧ iort.targetBase map ≠ 0 := by
    rw [hbase]
    cases node.mappings.getLast? <;> simp
  constructor
  · intro hk hex
    exact hlast.mp ((hk.base ht).mpr hex)
  · intro hs
    refine ⟨?_, fun _ => ⟨?_, fun hex => hlast.mpr (hs hex)⟩⟩
    · intro w hw hne hr
      obtain ⟨h₁, h₂⟩ := hne ht
      exact h.data w hw h₁ h₂ hr
    · intro hne
      obtain ⟨map, hl, hb⟩ := hlast.mp hne
      exact ⟨map, List.mem_of_getLast? hl, hb⟩

end NewBlock

end Payload

-- Whenever the call adds a block, the data of the block is the node's own exactly for these nodes.
theorem payload_kept_iff (iort : Iort) (fuel : Nat) (node : IortNode) (table : IovirtInfoTable) (block : Nat)
    (added : Added) (hb : Boundary table.mem block)
    (h : iortAddBlock iort fuel node table block = some added) (hnew : block < added.next)
    (hfit : 4 * added.next < 2 ^ 32) :
    PayloadKept iort node added.table.mem block ↔ PayloadSafe iort node := by
  have hn := iortAddBlock_new hb h hnew hfit
  unfold PayloadSafe
  split
  case h_1 deviceName hd => exact hn.kept_namedComponent hd
  case h_2 hd            => exact hn.kept_rootComplex (by simp [hd, NodeData.type])
  case h_3 hd₁ hd₂ =>
    simp only [iff_true]
    cases hd : node.data
    case namedComponent => exact absurd hd (hd₁ _)
    case rootComplex    => exact absurd hd (hd₂ _ _ _)
    all_goals exact hn.kept_of_word_eq_zero (by simp [hd, NodeData.type]) (fun _ => by rw [hd]; exact ⟨rfl, rfl⟩)

-- A root complex with an id range for an SMMU and one for the ITS group, in two orders.
def mixedRc (maps : List IortIdMapping) : IortNode where
  offset   := 160
  data     := .rootComplex 1 0 0
  mappings := maps

def mixedIort : Iort := [
  { offset := 48, data := .itsGroup [0], mappings := [] },
  { offset := 72, data := .smmuV3 0x2B400000, mappings := [⟨0, 0xFFFF, 0, 48⟩] }]

def mixedTable : IovirtInfoTable := emptyTable fun _ => 0

def mixedAdded (maps : List IortIdMapping) : Option Added :=
  iortAddBlock mixedIort 3 (mixedRc maps) mixedTable firstBlock

def mixedEnds (maps : List IortIdMapping) : Bool :=
  match mixedAdded maps with
  | some added => decide (firstBlock < added.next) && decide (4 * added.next < 2 ^ 32)
  | none       => false

theorem of_mixedEnds {maps : List IortIdMapping} (h : mixedEnds maps = true) :
    ∃ added, iortAddBlock mixedIort 3 (mixedRc maps) mixedTable firstBlock = some added ∧
      firstBlock < added.next ∧ 4 * added.next < 2 ^ 32 := by
  rw [mixedEnds] at h
  split at h
  case h_1 added ha =>
    simp only [Bool.and_eq_true, decide_eq_true_eq] at h
    exact ⟨added, ha, h⟩
  case h_2 => simp at h

theorem smmu_last_kept : ∃ added,
    iortAddBlock mixedIort 3 (mixedRc [⟨0x100, 0xFF, 0, 48⟩, ⟨0, 0xFF, 0, 72⟩]) mixedTable firstBlock = some added ∧
    PayloadKept mixedIort (mixedRc [⟨0x100, 0xFF, 0, 48⟩, ⟨0, 0xFF, 0, 72⟩]) added.table.mem firstBlock := by
  have ⟨added, ha, hn, hf⟩ := @of_mixedEnds [⟨0x100, 0xFF, 0, 48⟩, ⟨0, 0xFF, 0, 72⟩] (by decide +kernel)
  refine ⟨added, ha, (payload_kept_iff _ _ _ _ _ _ .first ha hn hf).mpr ?_⟩
  intro _
  exact ⟨⟨0, 0xFF, 0, 72⟩, rfl, by decide⟩

-- With the ITS group last, the root complex loses the base of its SMMU.
theorem smmu_first_lost :
    ¬∀ (iort : Iort) (fuel : Nat) (node : IortNode) (table : IovirtInfoTable) (block : Nat) (added : Added),
      Boundary table.mem block → iortAddBlock iort fuel node table block = some added → block < added.next →
      4 * added.next < 2 ^ 32 → PayloadKept iort node added.table.mem block := by
  intro h
  have ⟨added, ha, hn, hf⟩ := @of_mixedEnds [⟨0, 0xFF, 0, 72⟩, ⟨0x100, 0xFF, 0, 48⟩] (by decide +kernel)
  have hk := h _ _ _ _ _ _ .first ha hn hf
  have hs := ((iortAddBlock_new .first ha hn hf).kept_rootComplex rfl).mp hk
  have ⟨map, hl, hb⟩ := hs ⟨⟨0, 0xFF, 0, 72⟩, by simp [mixedRc], by decide⟩
  cases hl
  exact hb (by decide)

end Iovirt
