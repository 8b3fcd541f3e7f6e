import BsaAcs.Iovirt.Theorems.Walk

namespace Iovirt

variable {iort : Iort} {w w' : Walk} {node target owner other : IortNode} {table : IovirtInfoTable}
  {mem mem' : Memory} {block next x i : Nat}

theorem NodeType.code_injective {t t' : NodeType} (h : t.code = t'.code) : t = t' := by
  cases t <;> cases t' <;> simp_all [code]

namespace IortNode

theorem flagsWord_le_cmpSize : flagsWord ≤ node.cmpSize := by
  unfold cmpSize
  split <;> omega

theorem cmpSize_le_size : node.cmpSize ≤ node.size := by
  unfold cmpSize size numDataMap
  split
  case h_1 => simp only [flagsWord, dataMapWord, dataMapSize]; omega
  case h_2 => simp only [flagsWord, dataMapWord]; omega

theorem cmpSize_eq (h : node.data.type ≠ .itsGroup) : node.cmpSize = flagsWord := by
  unfold cmpSize
  split
  case h_1 he => simp [he, NodeData.type] at h
  case h_2    => rfl

theorem numDataMap_eq (h : node.data.type ≠ .itsGroup) : node.numDataMap = node.mappings.length := by
  unfold numDataMap
  split
  case h_1 he => simp [he, NodeData.type] at h
  case h_2    => rfl

theorem maps_length_le : node.maps.length ≤ node.numDataMap := by
  unfold maps
  split
  case isTrue    => simp
  case isFalse h => rw [numDataMap_eq h]

theorem not_itsGroup_of_maps (h : i < node.maps.length) : node.data.type ≠ .itsGroup := by
  intro he
  simp [maps, he] at h

theorem reference?_eq_none (h : node.data.type ≠ .pmcg) : node.reference? = none := by
  unfold reference?
  split
  case h_1 he => simp [he, NodeData.type] at h
  case h_2    => rfl

theorem word_congr {ref ref' : Nat} (h : node.data.type ≠ .pmcg) : node.word ref x = node.word ref' x := by
  simp [word, h]

end IortNode

section Populate

theorem populate_itsGroup {ids : List Nat} (h : node.data = .itsGroup ids) :
    populate node block mem =
      (fill (((fill mem (block + dataWord) dataSize node.data.word).write block node.data.type.code).write
        (block + numDataMapWord) node.mappings.length) (dataMap block 0) ids.length
        fun i => ids.getD i 0).write (block + numDataMapWord) ((ids.length + 3) / 4) := by
  simp only [populate, h]

theorem populate_other (h : node.data.type ≠ .itsGroup) :
    populate node block mem =
      ((fill mem (block + dataWord) dataSize node.data.word).write block node.data.type.code).write
        (block + numDataMapWord) node.mappings.length := by
  unfold populate
  split
  case h_1 he => simp [he, NodeData.type] at h
  case h_2    => rfl

theorem itsGroup_or (node : IortNode) : (∃ ids, node.data = .itsGroup ids) ∨ node.data.type ≠ .itsGroup := by
  cases node.data <;> simp [NodeData.type]

theorem populate_below (h : x < block) : populate node block mem x = mem x := by
  have h₁ : x ≠ block := by omega
  have h₂ : x ≠ block + numDataMapWord := by simp only [numDataMapWord]; omega
  have h₃ : ¬(block + dataWord ≤ x) := by simp only [dataWord]; omega
  have h₄ : ¬(dataMap block 0 ≤ x) := by simp only [dataMap, dataMapWord]; omega
  rcases itsGroup_or node with ⟨ids, hd⟩ | ht
  case inl => simp [populate_itsGroup hd, Memory.write, fill, h₁, h₂, h₃, h₄]
  case inr => simp [populate_other ht, Memory.write, fill, h₁, h₂, h₃]

theorem populate_type : populate node block mem block = node.data.type.code := by
  rcases itsGroup_or node with ⟨ids, hd⟩ | ht
  case inl => simp [populate_itsGroup hd, Memory.write, fill, dataMap, dataMapWord, numDataMapWord]
  case inr => simp [populate_other ht, Memory.write, numDataMapWord]

theorem populate_numDataMap : populate node block mem (block + numDataMapWord) = node.numDataMap := by
  rcases itsGroup_or node with ⟨ids, hd⟩ | ht
  case inl => simp [populate_itsGroup hd, IortNode.numDataMap, hd]
  case inr => simp [populate_other ht, IortNode.numDataMap_eq ht]

theorem populate_data (h₁ : dataWord ≤ x) (h₂ : x < flagsWord) :
    populate node block mem (block + x) = node.data.word (x - dataWord) := by
  simp only [dataWord, flagsWord] at h₁ h₂
  have hs : block + x - (block + 2) = x - 2 := by omega
  rcases itsGroup_or node with ⟨ids, hd⟩ | ht
  case inl =>
    simp only [populate_itsGroup hd, Memory.write, fill, dataMap, dataMapWord, numDataMapWord, dataWord, dataSize,
      hs, if_neg (show ¬(block + x = block + 1) by omega), if_neg (show ¬(block + x = block) by omega),
      if_neg (show ¬(block + 67 + dataMapSize * 0 ≤ block + x ∧
        block + x < block + 67 + dataMapSize * 0 + ids.length) by omega),
      if_pos (show block + 2 ≤ block + x ∧ block + x < block + 2 + 64 by omega)]
  case inr =>
    simp only [populate_other ht, Memory.write, fill, numDataMapWord, dataWord, dataSize,
      hs, if_neg (show ¬(block + x = block + 1) by omega), if_neg (show ¬(block + x = block) by omega),
      if_pos (show block + 2 ≤ block + x ∧ block + x < block + 2 + 64 by omega)]

theorem populate_identifiers {ids : List Nat} (hd : node.data = .itsGroup ids) (h₁ : dataMapWord ≤ x)
    (h₂ : x < dataMapWord + ids.length) :
    populate node block mem (block + x) = ids.getD (x - dataMapWord) 0 := by
  simp only [dataMapWord] at h₁ h₂
  have hs : block + x - (block + 67 + dataMapSize * 0) = x - 67 := by omega
  simp only [populate_itsGroup hd, Memory.write, fill, dataMap, dataMapWord, numDataMapWord, hs,
    if_neg (show ¬(block + x = block + 1) by omega),
    if_pos (show block + 67 + dataMapSize * 0 ≤ block + x ∧
      block + x < block + 67 + dataMapSize * 0 + ids.length by omega)]

-- A populated block has the words of its node, once its flags are cleared.
theorem populate_word (h : x < node.cmpSize) :
    (populate node block mem).write (block + flagsWord) 0 (block + x) =
      node.word (node.reference?.getD 0) x := by
  by_cases hf : x = flagsWord
  case pos =>
    cases hf
    rcases itsGroup_or node with ⟨ids, hd⟩ | ht
    case inl => simp [IortNode.word, hd, NodeData.type, flagsWord, numDataMapWord, dataWord, nodeRefWord]
    case inr => exact absurd h (by simp [IortNode.cmpSize_eq ht])
  case neg =>
    rw [Memory.write_ne (by omega)]
    by_cases h0 : x = 0
    case pos => simp [h0, IortNode.word, populate_type]
    by_cases h1 : x = numDataMapWord
    case pos => rw [h1, populate_numDataMap, IortNode.word, if_neg (by decide), if_pos rfl]
    by_cases h2 : x < flagsWord
    case pos =>
      have hd : dataWord ≤ x := by simp only [dataWord, numDataMapWord] at *; omega
      rw [populate_data hd h2, IortNode.word, if_neg h0, if_neg h1, if_pos h2]
      split
      case isTrue hr =>
        have ⟨hx, ht⟩ := hr
        cases hn : node.data <;> simp [hn, NodeData.type] at ht
        simp [hx, IortNode.reference?, hn, NodeData.word, nodeRefWord]
      case isFalse => rfl
    case neg =>
      rcases itsGroup_or node with ⟨ids, hd⟩ | ht
      case inl =>
        have hx : dataMapWord ≤ x := by simp only [dataMapWord, flagsWord] at *; omega
        have hl : x < dataMapWord + ids.length := by
          simp only [IortNode.cmpSize, hd, flagsWord, dataMapWord] at *
          omega
        rw [populate_identifiers hd hx hl]
        simp [IortNode.word, h0, h1, h2, hf, hd, NodeData.type]
      case inr => exact absurd h (by rw [IortNode.cmpSize_eq ht]; exact h2)

end Populate

-- The data map at `map` holds the mapping, and refers to the block at `block`.
structure MapsTo (mem : Memory) (map : Nat) (mapping : IortIdMapping) (block : Nat) : Prop where
  inputBase  : Iovirt.inputBase mem map = mapping.inputBase
  idCount    : Iovirt.idCount mem map = mapping.idCount
  outputBase : Iovirt.outputBase mem map = mapping.outputBase
  outputRef  : Iovirt.outputRef mem map = 4 * block

structure Counts (table : IovirtInfoTable) (nodes : List IortNode) : Prop where
  numBlocks          : table.numBlocks = nodes.length
  numSmmus           : table.numSmmus = nodes.countP fun node => isSmmuNode node.data.type.code
  numPciRcs          : table.numPciRcs = nodes.countP fun node => node.data.type = .pciRootComplex
  numNamedComponents : table.numNamedComponents = nodes.countP fun node => node.data.type = .namedComponent
  numItsGroups       : table.numItsGroups = nodes.countP fun node => node.data.type = .itsGroup
  numPmcgs           : table.numPmcgs = nodes.countP fun node => node.data.type = .pmcg

-- The table holds the blocks of the walk.
structure Represents (iort : Iort) (w : Walk) (table : IovirtInfoTable) : Prop where
  counts  : Counts table w.closed
  words   : ∀ node ∈ w.placed, ∀ x < node.cmpSize, table.mem (w.position node + x) = w.blockWord iort node x
  maps    : ∀ node ∈ w.placed, ∀ i < w.followed node, ∀ map target, node.maps[i]? = some map →
    iort.nodeAt map.outputReference = some target →
    MapsTo table.mem (dataMap (w.position node) i) map (w.position target)

theorem MapsTo.congr {map b : Nat} {mapping : IortIdMapping} (h : MapsTo mem map mapping b)
    (he : ∀ k < 4, mem' (map + k) = mem (map + k)) : MapsTo mem' map mapping b where
  inputBase  := (he 0 (by omega)).trans h.inputBase
  idCount    := (he 1 (by omega)).trans h.idCount
  outputBase := (he 2 (by omega)).trans h.outputBase
  outputRef  := (he 3 (by omega)).trans h.outputRef

theorem Counts.congr {nodes : List IortNode} (h : Counts table nodes) : Counts { table with mem := mem } nodes where
  numBlocks          := h.numBlocks
  numSmmus           := h.numSmmus
  numPciRcs          := h.numPciRcs
  numNamedComponents := h.numNamedComponents
  numItsGroups       := h.numItsGroups
  numPmcgs           := h.numPmcgs

namespace Walk

theorem blockWord_of_ne (h₁ : x ≠ dataWord + rcSmmuBaseWord) (h₂ : x ≠ dataWord + rcSmmuBaseWord + 1) :
    w.blockWord iort node x = w.word iort node x := by
  unfold blockWord
  split
  case h_1 => rfl
  case h_2 => simp [h₁, h₂]

theorem word_eq_word (ref : Nat) (h : node.data.type ≠ .pmcg) : w.word iort node x = node.word ref x := by
  simp only [word, Iort.owner, IortNode.reference?_eq_none h, Option.bind_none]
  exact IortNode.word_congr h

theorem word_type : w.word iort node 0 = node.data.type.code := by
  unfold word
  split <;> simp [IortNode.word]

theorem word_numDataMap : w.word iort node numDataMapWord = node.numDataMap := by
  unfold word
  split <;> simp [IortNode.word, numDataMapWord]

end Walk

namespace Represents

theorem dataMap_lt (hok : w.Ok iort) (hn : node ∈ w.placed) (hi : i < w.followed node) :
    dataMap (w.position node) i + 4 ≤ w.next := by
  have h₁ := Walk.position_add_le hn
  have h₂ := hok.followed_le node hn
  have h₃ := node.maps_length_le
  simp only [IortNode.size, dataMapSize, dataMap] at *
  omega

-- Nothing below the end has been written.
theorem of_below (h : Represents iort w table) (hok : w.Ok iort) (hs : ∀ x < w.next, mem x = table.mem x) :
    Represents iort w { table with mem := mem } where
  counts  := h.counts.congr
  words := by
    intro n hn x hx
    have h₁ := Walk.position_add_le hn
    have h₂ := n.cmpSize_le_size
    exact (hs _ (by omega)).trans (h.words n hn x hx)
  maps := by
    intro n hn i hi map target hm ht
    have h₁ := dataMap_lt hok hn hi
    exact (h.maps n hn i hi map target hm ht).congr fun k hk => hs _ (by omega)

theorem type_eq (h : Represents iort w table) (hn : node ∈ w.placed) :
    table.mem (w.position node) = node.data.type.code := by
  have hx : 0 < node.cmpSize := Nat.lt_of_lt_of_le (by decide) node.flagsWord_le_cmpSize
  have := h.words node hn 0 hx
  rwa [Walk.blockWord_of_ne (by decide) (by decide), Walk.word_type] at this

theorem numDataMap_eq (h : Represents iort w table) (hn : node ∈ w.placed) :
    table.mem (w.position node + numDataMapWord) = node.numDataMap := by
  have hx : numDataMapWord < node.cmpSize := Nat.lt_of_lt_of_le (by decide) node.flagsWord_le_cmpSize
  have := h.words node hn _ hx
  rwa [Walk.blockWord_of_ne (by decide) (by decide), Walk.word_numDataMap] at this

theorem blocksFrom_eq {nodes : List IortNode} {start k : Nat} (hd : nodes.Nodup) (hk : k ≤ nodes.length)
    (h : ∀ node ∈ nodes,
      mem (Layout.position IortNode.size node start nodes + numDataMapWord) = node.numDataMap) :
    blocksFrom mem k start = (nodes.take k).map fun node => Layout.position IortNode.size node start nodes := by
  induction nodes generalizing start k
  case nil =>
    cases Nat.le_zero.mp hk
    rfl
  case cons n ns hi =>
    cases k
    case zero => rfl
    case succ k =>
      have ⟨hn, hd⟩ := List.nodup_cons.mp hd
      have hp : ∀ m ∈ ns, Layout.position IortNode.size m start (n :: ns) =
          Layout.position IortNode.size m (start + n.size) ns := by
        intro m hm
        have hne : n ≠ m := fun he => hn (he ▸ hm)
        simp [Layout.position, hne]
      have h₀ : mem (start + numDataMapWord) = n.numDataMap := by
        simpa [Layout.position] using h n (by simp)
      have hnext : iovirtNextBlock mem start = start + n.size := by
        simp only [iovirtNextBlock, dataMap, h₀, IortNode.size]
        omega
      have hrest : blocksFrom mem k (start + n.size) = (ns.take k).map fun node =>
          Layout.position IortNode.size node (start + n.size) ns := by
        refine hi hd (by simpa using hk) ?_
        intro m hm
        rw [← hp m hm]
        exact h m (by simp [hm])
      simp only [blocksFrom, hnext, hrest, List.take_succ_cons, List.map_cons]
      congr 1
      · simp [Layout.position]
      · exact List.map_congr_left fun m hm => (hp m (List.mem_of_mem_take hm)).symm

theorem blocks_eq (h : Represents iort w table) (hok : w.Ok iort) :
    table.blocks = w.visible.map w.position := by
  rw [IovirtInfoTable.blocks, h.counts.numBlocks]
  exact blocksFrom_eq hok.nodup hok.length_le fun node hn => h.numDataMap_eq hn

end Represents

-- The block at `next` has the words to search the node by.
def IsKey (iort : Iort) (w : Walk) (node : IortNode) (mem : Memory) (next : Nat) : Prop :=
  ∀ x < node.cmpSize, mem (next + x) = w.word iort node x

section FindBlock

theorem cmpSize_of_itsGroup (iort : Iort) (w : Walk) (h : node.data.type = .itsGroup) :
    node.cmpSize = flagsWord + (w.word iort node dataWord + 1) := by
  cases hd : node.data <;> simp [hd, NodeData.type] at h
  rw [Walk.word_eq_word 0 (by simp [hd, NodeData.type])]
  simp [IortNode.cmpSize, hd, IortNode.word, NodeData.type, NodeData.word, dataWord, numDataMapWord,
    nodeRefWord, flagsWord]

theorem cmpSize_eq_cmpSize (h : Represents iort w table) (ho : other ∈ w.placed) :
    cmpSize table.mem (w.position other) = other.cmpSize := by
  have hx : dataWord < other.cmpSize := Nat.lt_of_lt_of_le (by decide) other.flagsWord_le_cmpSize
  have hw := h.words other ho dataWord hx
  rw [Walk.blockWord_of_ne (by decide) (by decide)] at hw
  rw [cmpSize, h.type_eq ho, hw]
  split
  case isTrue hc  => exact (cmpSize_of_itsGroup iort w (NodeType.code_injective hc)).symm
  case isFalse hc => exact (IortNode.cmpSize_eq fun he => hc (by rw [he])).symm

theorem sameBlock_iff (h : Represents iort w table) (hk : IsKey iort w node table.mem next)
    (ho : other ∈ w.placed) : sameBlock table.mem next (w.position other) = true ↔ w.Matches iort node other := by
  have hn0 : 0 < node.cmpSize := Nat.lt_of_lt_of_le (by decide) node.flagsWord_le_cmpSize
  have hn2 : dataWord < node.cmpSize := Nat.lt_of_lt_of_le (by decide) node.flagsWord_le_cmpSize
  have ho2 : dataWord < other.cmpSize := Nat.lt_of_lt_of_le (by decide) other.flagsWord_le_cmpSize
  have htype : table.mem next = node.data.type.code := (hk 0 hn0).trans Walk.word_type
  have heq : table.mem next = table.mem (w.position other) ↔ node.data.type = other.data.type := by
    rw [htype, h.type_eq ho]
    exact ⟨NodeType.code_injective, congrArg _⟩
  simp only [sameBlock, Bool.and_eq_true, decide_eq_true_eq, cmpSize_eq_cmpSize h ho, heq, Walk.Matches]
  refine and_congr_right fun ht => ?_
  by_cases hs : node.cmpSize = other.cmpSize
  case pos =>
    refine forall₂_congr fun x hx => ?_
    rw [hk x (hs ▸ hx), h.words other ho x hx]
  case neg =>
    -- Two ITS groups of different size differ in the number of identifiers already.
    have hits : node.data.type = .itsGroup := by
      by_contra hne
      exact hs (by rw [IortNode.cmpSize_eq hne, IortNode.cmpSize_eq (ht ▸ hne)])
    have hcount : w.word iort node dataWord ≠ w.blockWord iort other dataWord := by
      rw [Walk.blockWord_of_ne (by decide) (by decide)]
      intro he
      exact hs (by rw [cmpSize_of_itsGroup iort w hits, he, ← cmpSize_of_itsGroup iort w (ht ▸ hits)])
    constructor
    · intro ha
      have := ha dataWord ho2
      rw [hk dataWord hn2, h.words other ho dataWord ho2] at this
      exact absurd this hcount
    · exact fun ha => absurd (ha dataWord ho2) hcount

theorem offsetOf_position (hok : w.Ok iort) (hn : node ∈ w.placed) :
    offsetOf (w.position node) = 4 * w.position node :=
  Nat.mod_eq_of_lt (hok.bound node hn)

theorem offsetOf_position_ne_zero : 4 * w.position node ≠ 0 := by
  have : firstBlock ≤ w.position node := Walk.le_position
  simp only [firstBlock] at this
  omega

theorem findBlock_eq (h : Represents iort w table) (hok : w.Ok iort)
    (hk : IsKey iort w node table.mem next) (hn : node ∈ w.visible)
    (hm : ∀ other ∈ w.visible, w.Matches iort node other ↔ other = node) :
    findBlock next table = 4 * w.position node := by
  have hfind : table.blocks.find? (sameBlock table.mem next) = some (w.position node) := by
    rw [h.blocks_eq hok]
    cases hf : (w.visible.map w.position).find? (sameBlock table.mem next)
    case none =>
      have := List.find?_eq_none.mp hf _ (List.mem_map_of_mem hn)
      rw [sameBlock_iff h hk (Walk.mem_placed_of_visible hn)] at this
      exact absurd ((hm node hn).mpr rfl) this
    case some b =>
      have ⟨other, ho, he⟩ := List.mem_map.mp (List.mem_of_find?_eq_some hf)
      have hs := List.find?_some hf
      rw [← he, sameBlock_iff h hk (Walk.mem_placed_of_visible ho), hm other ho] at hs
      rw [← he, hs]
  simp only [findBlock, hfind, offsetOf_position hok (Walk.mem_placed_of_visible hn)]

theorem findBlock_eq_zero (h : Represents iort w table) (hok : w.Ok iort)
    (hk : IsKey iort w node table.mem next) (hm : ∀ other ∈ w.visible, ¬w.Matches iort node other) :
    findBlock next table = 0 := by
  have hfind : table.blocks.find? (sameBlock table.mem next) = none := by
    rw [h.blocks_eq hok, List.find?_eq_none]
    intro b hb
    have ⟨other, ho, he⟩ := List.mem_map.mp hb
    rw [← he, sameBlock_iff h hk (Walk.mem_placed_of_visible ho)]
    exact hm other ho
  simp only [findBlock, hfind]

end FindBlock

section Found

-- A node that is found leaves the table as it is, and is found again.
def FoundAgain (iort : Iort) (w : Walk) (node : IortNode) : Prop :=
  ∀ table next, Represents iort w table → w.next ≤ next →
    ∃ table' n, (∀ fuel ≥ n, iortAddBlock iort fuel node table next =
      some { offset := 4 * w.position node, table := table', next := next }) ∧
    Represents iort w table' ∧ ∀ x < next, table'.mem x = table.mem x

-- The table in which a node is searched.
def Prepared (iort : Iort) (w : Walk) (node : IortNode) (table table' : IovirtInfoTable) (next : Nat) : Prop :=
  (∃ n, ∀ fuel ≥ n, ∃ table₁, addReference iort (iortAddBlock iort fuel) node next
    { table with mem := populate node next table.mem } = some table₁ ∧
    { table₁ with mem := table₁.mem.write (next + flagsWord) 0 } = table') ∧
  Represents iort w table' ∧ IsKey iort w node table'.mem next ∧ ∀ x < next, table'.mem x = table.mem x

theorem addReference_of_none {add : IortNode → IovirtInfoTable → Nat → Option Added}
    (h : node.reference? = none) : addReference iort add node next table = some table := by
  unfold addReference
  split
  case h_1 hd => simp [IortNode.reference?, hd] at h
  case h_2    => rfl

theorem addReference_of_some {add : IortNode → IovirtInfoTable → Nat → Option Added} {ref : Nat} {added : Added}
    (h : node.reference? = some ref) (ho : iort.nodeAt ref = some owner)
    (ha : add owner table (iovirtNextBlock table.mem next) = some added) :
    addReference iort add node next table =
      some { added.table with mem := added.table.mem.write (next + dataWord + nodeRefWord) added.offset } := by
  cases hd : node.data <;> simp [IortNode.reference?, hd] at h
  simp [addReference, hd, h, ho, ha]

theorem prepared_node (h : Represents iort w table) (hok : w.Ok iort) (hle : w.next ≤ next)
    (hr : node.reference? = none) : ∃ table', Prepared iort w node table table' next := by
  have hbelow : ∀ x < next, (populate node next table.mem).write (next + flagsWord) 0 x = table.mem x := by
    intro x hx
    rw [Memory.write_ne (by omega), populate_below hx]
  refine ⟨{ table with mem := (populate node next table.mem).write (next + flagsWord) 0 },
    ⟨0, fun fuel _ => ⟨_, addReference_of_none hr, rfl⟩⟩,
    h.of_below hok fun x hx => hbelow x (by omega), ?_, hbelow⟩
  intro x hx
  simp only [populate_word hx, Walk.word, Iort.owner, hr, Option.bind_none, Option.getD_none]

theorem word_of_owner {ref : Nat} (hr : node.reference? = some ref) (ho : iort.nodeAt ref = some owner) :
    w.word iort node x = if x = dataWord + nodeRefWord then 4 * w.position owner else node.word ref x := by
  have ht : node.data.type = .pmcg := by
    by_contra hne
    simp [IortNode.reference?_eq_none hne] at hr
  simp only [Walk.word, Iort.owner, hr, ho, Option.bind_some, IortNode.word, ht, and_true]
  split_ifs <;> simp_all [numDataMapWord, dataWord, nodeRefWord]

theorem prepared_pmcg {ref : Nat} (h : Represents iort w table) (hok : w.Ok iort) (hle : w.next ≤ next)
    (hr : node.reference? = some ref) (ho : iort.nodeAt ref = some owner) (hf : FoundAgain iort w owner) :
    ∃ table', Prepared iort w node table table' next := by
  have hnext : iovirtNextBlock (populate node next table.mem) next = next + node.size := by
    simp only [iovirtNextBlock, dataMap, populate_numDataMap, IortNode.size]
    omega
  have hpop : Represents iort w { table with mem := populate node next table.mem } :=
    h.of_below hok fun x hx => populate_below (by omega)
  have ⟨table₁, n, hadd, hrep, hsame⟩ := hf _ (next + node.size) hpop (by omega)
  let mem₂ := (table₁.mem.write (next + dataWord + nodeRefWord) (4 * w.position owner)).write (next + flagsWord) 0
  have hbelow : ∀ x < next, mem₂ x = table.mem x := by
    intro x hx
    simp only [mem₂]
    rw [Memory.write_ne (by omega), Memory.write_ne (by omega), hsame x (by omega)]
    exact populate_below hx
  have hkey : IsKey iort w node mem₂ next := by
    intro x hx
    have hsize := node.cmpSize_le_size
    rw [word_of_owner hr ho]
    by_cases hx5 : x = dataWord + nodeRefWord
    case pos =>
      rw [if_pos hx5, hx5]
      simp [mem₂, Memory.write, dataWord, nodeRefWord, flagsWord, Nat.add_assoc]
    case neg =>
      have hpw : (populate node next table.mem).write (next + flagsWord) 0 (next + x) = node.word ref x := by
        simpa [hr] using populate_word hx
      have hx5' : next + x ≠ next + dataWord + nodeRefWord := by omega
      have hsx : table₁.mem (next + x) = populate node next table.mem (next + x) := hsame _ (by omega)
      rw [if_neg hx5, ← hpw]
      simp only [mem₂, Memory.write, hx5', if_false, hsx]
  refine ⟨{ table₁ with mem := mem₂ },
    ⟨n, fun fuel hn => ⟨_, addReference_of_some hr ho (hnext ▸ hadd fuel hn), rfl⟩⟩, ?_, hkey, hbelow⟩
  refine hrep.of_below hok fun x hx => ?_
  have hlt : x < next := by omega
  rw [hbelow x hlt, hsame x (by omega)]
  exact (populate_below hlt).symm

theorem iortAddBlock_found {table' : IovirtInfoTable} (hp : Prepared iort w node table table' next)
    (hok : w.Ok iort) (hn : node ∈ w.visible)
    (hm : ∀ other ∈ w.visible, w.Matches iort node other ↔ other = node) :
    ∃ n, ∀ fuel ≥ n, iortAddBlock iort fuel node table next =
      some { offset := 4 * w.position node, table := table', next := next } := by
  have ⟨⟨n, hadd⟩, hrep, hkey, _⟩ := hp
  have hfind := findBlock_eq hrep hok hkey hn hm
  have hne := @offsetOf_position_ne_zero w node
  refine ⟨n + 1, ?_⟩
  intro fuel hf
  obtain ⟨fuel, rfl⟩ : ∃ k, fuel = k + 1 := ⟨fuel - 1, by omega⟩
  have ⟨table₁, ha, he⟩ := hadd fuel (by omega)
  simp only [iortAddBlock, ha, Option.bind_eq_bind, Option.bind_some, he, hfind, ne_eq, hne,
    not_false_eq_true, if_true]

theorem Walk.Found.foundAgain (h : w.Found iort node) (hok : w.Ok iort) : FoundAgain iort w node := by
  induction h
  case node node hr hn hm =>
    intro table next hrep hle
    have ⟨table', hp⟩ := prepared_node hrep hok hle hr
    have ⟨n, hadd⟩ := iortAddBlock_found hp hok hn hm
    exact ⟨table', n, hadd, hp.right.left, hp.right.right.right⟩
  case pmcg node ref owner hr ho _ hn hm hi =>
    intro table next hrep hle
    have ⟨table', hp⟩ := prepared_pmcg hrep hok hle hr ho hi
    have ⟨n, hadd⟩ := iortAddBlock_found hp hok hn hm
    exact ⟨table', n, hadd, hp.right.left, hp.right.right.right⟩

-- What a node is to be searched by, where the node that it belongs to is found.
theorem prepared (h : Represents iort w table) (hok : w.Ok iort) (ho : w.OwnerFound iort node) :
    ∃ table', Prepared iort w node table table' w.next := by
  rcases ho with hr | ⟨ref, owner, hr, ho, hf⟩
  case inl => exact prepared_node h hok (Nat.le_refl _) hr
  case inr => exact prepared_pmcg h hok (Nat.le_refl _) hr ho (hf.foundAgain hok)

end Found

section Place

theorem checkCtxInt_of_ne (h : x ≠ block + flagsWord) : checkCtxInt node block mem x = mem x := by
  cases hd : node.data
  case smmu =>
    simp only [checkCtxInt, hd]
    split
    case isTrue  => rfl
    case isFalse => rw [setFlag, Memory.write_ne h]
  all_goals simp only [checkCtxInt, hd]

theorem checkCtxInt_itsGroup (h : node.data.type = .itsGroup) : checkCtxInt node block mem = mem := by
  unfold checkCtxInt
  split
  case h_1 hd => simp [hd, NodeData.type] at h
  case h_2    => rfl

theorem checkCtxInt_word (h : x < node.cmpSize) : checkCtxInt node block mem (block + x) = mem (block + x) := by
  by_cases ht : node.data.type = .itsGroup
  case pos => rw [checkCtxInt_itsGroup ht]
  case neg =>
    rw [IortNode.cmpSize_eq ht] at h
    exact checkCtxInt_of_ne (by omega)

-- Behind the nodes that are placed, another node can be placed without moving them.
theorem place_word (ho : node.reference? = none ∨
    ∃ ref, node.reference? = some ref ∧ ∃ owner ∈ w.placed, iort.nodeAt ref = some owner) :
    (w.place other).word iort node x = w.word iort node x := by
  rcases ho with hr | ⟨ref, hr, owner, ho, ha⟩
  case inl => simp [Walk.word, Iort.owner, hr]
  case inr => simp [Walk.word, Iort.owner, hr, ha, Walk.place_position ho]

theorem place_blockWord (hok : w.Ok iort) (hn : other ∉ w.placed) (hm : node ∈ w.placed) :
    (w.place other).blockWord iort node x = w.blockWord iort node x := by
  have hne : node ≠ other := fun he => hn (he ▸ hm)
  simp only [Walk.blockWord, Walk.place_followed hne, place_word (hok.owners node hm)]

theorem Represents.place {table' : IovirtInfoTable} (hp : Prepared iort w node table table' w.next)
    (hok : w.Ok iort) (hn : node ∉ w.placed) (ho : w.OwnerFound iort node) :
    Represents iort (w.place node) { table' with mem := checkCtxInt node w.next table'.mem } := by
  obtain ⟨_, hrep, hkey, _⟩ := hp
  have hbelow : ∀ x < w.next, checkCtxInt node w.next table'.mem x = table'.mem x :=
    fun x hx => checkCtxInt_of_ne (by omega)
  have hrep := hrep.of_below hok hbelow
  constructor
  case counts => exact hrep.counts.congr
  case words =>
    intro n hm x hx
    rcases List.mem_append.mp hm with hm | hm
    case inl =>
      rw [Walk.place_position hm, place_blockWord hok hn hm]
      exact hrep.words n hm x hx
    case inr =>
      cases List.mem_singleton.mp hm
      have hown : node.reference? = none ∨ ∃ ref, node.reference? = some ref ∧
          ∃ owner ∈ w.placed, iort.nodeAt ref = some owner :=
        ho.imp_right fun ⟨ref, owner, hr, ha, hf⟩ => ⟨ref, hr, owner, hf.placed, ha⟩
      have hfresh : (w.place node).blockWord iort node x = w.word iort node x := by
        have : (w.place node).followed node = 0 := by simp [Walk.place]
        simp only [Walk.blockWord, this, place_word hown]
      rw [Walk.place_position_self hn, hfresh, ← hkey x hx]
      exact checkCtxInt_word hx
  case maps =>
    intro n hm i hi map target hmap ha
    rcases List.mem_append.mp hm with hm | hm
    case inl =>
      have hne : n ≠ node := fun he => hn (he ▸ hm)
      rw [Walk.place_followed hne] at hi
      obtain ⟨t, ht, he⟩ := hok.targets n hm i hi
      have he : target = t := by simpa [Iort.target, hmap, ha] using he
      rw [Walk.place_position hm, Walk.place_position (he ▸ ht)]
      exact hrep.maps n hm i hi map target hmap ha
    case inr =>
      cases List.mem_singleton.mp hm
      simp [Walk.place] at hi

end Place

section Follow

variable {map : IortIdMapping}

-- The words that belong to the mapping that is followed next.
def InMapping (w : Walk) (node : IortNode) (i x : Nat) : Prop :=
  dataMap (w.position node) i ≤ x ∧ x < dataMap (w.position node) i + 4

theorem dataMap_le_position (hi : i < node.maps.length) :
    w.position node + flagsWord < dataMap (w.position node) i ∧
      dataMap (w.position node) i + 4 ≤ w.position node + node.size := by
  have := node.maps_length_le
  simp only [IortNode.size, dataMapSize, dataMap, dataMapWord, flagsWord] at *
  omega

-- The mapping that is followed is not looked at yet.
theorem not_inMapping_word (hn : node ∈ w.placed) (hi : i < node.maps.length) (hm : other ∈ w.placed)
    (hx : x < other.cmpSize) : ¬InMapping w node i (w.position other + x) := by
  have ⟨h₁, h₂⟩ := dataMap_le_position (w := w) hi
  have h₃ := other.cmpSize_le_size
  intro ⟨h₄, h₅⟩
  by_cases he : other = node
  case pos =>
    rw [he, IortNode.cmpSize_eq (IortNode.not_itsGroup_of_maps hi)] at hx
    rw [he] at h₄
    omega
  case neg =>
    have := Walk.position_separate hm hn he
    omega

theorem not_inMapping_map {j k : Nat} (hok : w.Ok iort) (hn : node ∈ w.placed) (hf : w.followed node = i)
    (hi : i < node.maps.length) (hm : other ∈ w.placed) (hj : j < w.followed other) (hk : k < 4) :
    ¬InMapping w node i (dataMap (w.position other) j + k) := by
  have ⟨h₁, h₂⟩ := dataMap_le_position (w := w) hi
  have ⟨h₃, h₄⟩ := dataMap_le_position (w := w) (Nat.lt_of_lt_of_le hj (hok.followed_le other hm))
  intro ⟨h₅, h₆⟩
  by_cases he : other = node
  case pos =>
    rw [he] at hj h₅
    simp only [dataMap, dataMapSize] at h₅
    omega
  case neg =>
    have := Walk.position_separate hm hn he
    omega

theorem Represents.of_inMapping (h : Represents iort w table) (hok : w.Ok iort) (hn : node ∈ w.placed)
    (hf : w.followed node = i) (hi : i < node.maps.length)
    (hs : ∀ x, ¬InMapping w node i x → mem x = table.mem x) : Represents iort w { table with mem := mem } where
  counts := h.counts.congr
  words  := fun n hm x hx => (hs _ (not_inMapping_word hn hi hm hx)).trans (h.words n hm x hx)
  maps   := fun n hm j hj map target hmap ha => (h.maps n hm j hj map target hmap ha).congr
    fun _ hk => hs _ (not_inMapping_map hok hn hf hi hm hj hk)

theorem copyMapping_of_not_inMapping (h : ¬InMapping w node i x) :
    copyMapping map (dataMap (w.position node) i) mem x = mem x := by
  simp only [InMapping] at h
  simp only [copyMapping]
  rw [Memory.write_ne (by omega), Memory.write_ne (by omega), Memory.write_ne (by omega)]

-- The words that tell the base of an SMMU.
def TellsBase (mem : Memory) (target : IortNode) (t : Nat) : Prop :=
  mem t = target.data.type.code ∧ (target.data.type = .smmu ∨ target.data.type = .smmuV3 →
    mem (t + dataWord + smmuBaseWord) = target.data.smmuBase % 2 ^ 32 ∧
    mem (t + dataWord + smmuBaseWord + 1) = target.data.smmuBase / 2 ^ 32)

theorem Represents.tellsBase (h : Represents iort w table) (ht : target ∈ w.placed) :
    TellsBase table.mem target (w.position target) := by
  refine ⟨h.type_eq ht, ?_⟩
  intro htype
  have hp : target.data.type ≠ .pmcg := by
    rcases htype with he | he <;> simp [he]
  have hs := target.flagsWord_le_cmpSize
  have h₄ := h.words target ht (dataWord + smmuBaseWord) (Nat.lt_of_lt_of_le (by decide) hs)
  have h₅ := h.words target ht (dataWord + smmuBaseWord + 1) (Nat.lt_of_lt_of_le (by decide) hs)
  rw [Walk.blockWord_of_ne (by decide) (by decide), Walk.word_eq_word 0 hp] at h₄ h₅
  rw [Nat.add_assoc, Nat.add_assoc, h₄, h₅]
  cases hd : target.data <;> simp [hd, NodeData.type] at htype
  all_goals simp [IortNode.word, hd, NodeData.word, NodeData.smmuBase, NodeData.type, dataWord, smmuBaseWord,
    numDataMapWord, nodeRefWord, flagsWord]

theorem setSmmuBase_eq {b t : Nat} (hsep : b = t ∨ b + dataMapWord ≤ t ∨ t + dataMapWord ≤ b)
    (h : TellsBase mem target t) :
    setSmmuBase node b (4 * t) mem =
      (mem.write (b + dataWord + rcSmmuBaseWord) (baseLeft node target % 2 ^ 32)).write
        (b + dataWord + rcSmmuBaseWord + 1) (baseLeft node target / 2 ^ 32) := by
  simp only [dataWord, rcSmmuBaseWord, smmuBaseWord, dataMapWord, TellsBase] at *
  have hdiv : 4 * t / 4 = t := by omega
  have hread : ∀ k < 6, ((mem.write (b + 2 + 4) 0).write (b + 2 + 4 + 1) 0) (t + k) = mem (t + k) := by
    intro k hk
    rw [Memory.write_ne (by omega), Memory.write_ne (by omega)]
  have h0 := hread 0 (by omega)
  have h4 := hread 4 (by omega)
  have h5 := hread 5 (by omega)
  simp only [Nat.add_zero] at h0
  have ⟨htype, hbase⟩ := h
  simp only [setSmmuBase, hdiv, dataWord, rcSmmuBaseWord, smmuBaseWord, h0, h4, h5, Nat.add_assoc, Nat.reduceAdd] at *
  rw [htype]
  have hcode : (target.data.type.code = NodeType.smmu.code ∨ target.data.type.code = NodeType.smmuV3.code) ↔
      target.data.type = .smmu ∨ target.data.type = .smmuV3 :=
    or_congr ⟨NodeType.code_injective, congrArg _⟩ ⟨NodeType.code_injective, congrArg _⟩
  simp only [hcode]
  split
  case isTrue hc =>
    have ⟨h₁, h₂⟩ := hbase hc.right
    rw [baseLeft, if_pos hc.left, h₁, h₂]
    funext x
    simp only [Memory.write]
    split_ifs <;> rfl
  case isFalse hc =>
    have hzero : baseLeft node target = 0 := by
      unfold baseLeft
      split
      case isTrue hrc =>
        have hno : ¬(target.data.type = .smmu ∨ target.data.type = .smmuV3) := fun ht => hc ⟨hrc, ht⟩
        cases hd : target.data <;> simp [hd, NodeData.type] at hno <;> rfl
      case isFalse => rfl
    rw [hzero, Nat.zero_mod, Nat.zero_div]

theorem setSmmuBase_below {offset : Nat} (h : x < block) : setSmmuBase node block offset mem x = mem x := by
  have h₁ : x ≠ block + dataWord + rcSmmuBaseWord := by omega
  have h₂ : x ≠ block + dataWord + rcSmmuBaseWord + 1 := by omega
  simp only [setSmmuBase]
  split
  · rw [Memory.write_ne h₂, Memory.write_ne h₁, Memory.write_ne h₂, Memory.write_ne h₁]
  · rw [Memory.write_ne h₂, Memory.write_ne h₁]

theorem follow_blockWord_of_ne (h : other ≠ node) :
    (w.follow node i).blockWord iort other x = w.blockWord iort other x := by
  simp only [Walk.blockWord, Walk.follow_followed h]
  rfl

theorem follow_blockWord (hm : node.maps[i]? = some map) (ha : iort.nodeAt map.outputReference = some target) :
    (w.follow node (i + 1)).blockWord iort node x =
      if x = dataWord + rcSmmuBaseWord then baseLeft node target % 2 ^ 32
      else if x = dataWord + rcSmmuBaseWord + 1 then baseLeft node target / 2 ^ 32
      else w.word iort node x := by
  have hf : (w.follow node (i + 1)).followed node = i + 1 := by simp [Walk.follow]
  have ht : iort.target node i = some target := by simp [Iort.target, hm, ha]
  simp only [Walk.blockWord, hf, ht, Option.map_some, Option.getD_some]
  rfl

-- Following a mapping writes the mapping and the base of the SMMU.
theorem Represents.of_linked (h : Represents iort w table) (hok : w.Ok iort) (hn : node ∈ w.placed)
    (hf : w.followed node = i) (hm : node.maps[i]? = some map)
    (ha : iort.nodeAt map.outputReference = some target)
    (hlo : mem (w.position node + (dataWord + rcSmmuBaseWord)) = baseLeft node target % 2 ^ 32)
    (hhi : mem (w.position node + (dataWord + rcSmmuBaseWord + 1)) = baseLeft node target / 2 ^ 32)
    (hmap : MapsTo mem (dataMap (w.position node) i) map (w.position target))
    (hs : ∀ x, x ≠ w.position node + (dataWord + rcSmmuBaseWord) →
      x ≠ w.position node + (dataWord + rcSmmuBaseWord + 1) → ¬InMapping w node i x → mem x = table.mem x) :
    Represents iort (w.follow node (i + 1)) { table with mem := mem } := by
  obtain ⟨hi, _⟩ := List.getElem?_eq_some_iff.mp hm
  have hsize : dataMapWord ≤ node.size := by simp [IortNode.size]
  simp only [dataMapWord] at hsize
  constructor
  case counts => exact h.counts.congr
  case words =>
    intro n hnp x hx
    have hnp : n ∈ w.placed := hnp
    change mem (w.position n + x) = _
    have hni := not_inMapping_word hn hi hnp hx
    by_cases he : n = node
    case pos =>
      cases he
      rw [follow_blockWord hm ha]
      split
      case isTrue h₆ => rw [h₆, hlo]
      case isFalse h₆ =>
        split
        case isTrue h₇ => rw [h₇, hhi]
        case isFalse h₇ =>
          rw [hs _ (by omega) (by omega) hni, h.words _ hn x hx, Walk.blockWord_of_ne h₆ h₇]
    case neg =>
      have := Walk.position_separate hnp hn he
      have := n.cmpSize_le_size
      rw [follow_blockWord_of_ne he, ← h.words n hnp x hx]
      refine hs _ ?_ ?_ hni
      · simp only [dataWord, rcSmmuBaseWord]
        omega
      · simp only [dataWord, rcSmmuBaseWord]
        omega
  case maps =>
    intro n hnp j hj map' target' hm' ha'
    have hnp : n ∈ w.placed := hnp
    change MapsTo mem (dataMap (w.position n) j) map' (w.position target')
    by_cases hnew : n = node ∧ j = i
    case pos =>
      obtain ⟨rfl, rfl⟩ := hnew
      cases hm.symm.trans hm'
      cases ha.symm.trans ha'
      exact hmap
    case neg =>
      have hj : j < w.followed n := by
        by_cases he : n = node
        case pos =>
          have : j < i + 1 := by simpa [he, Walk.follow] using hj
          have : j ≠ i := fun hji => hnew ⟨he, hji⟩
          rw [he]
          omega
        case neg => rwa [Walk.follow_followed he] at hj
      obtain ⟨h₃, h₄⟩ := dataMap_le_position (w := w) (Nat.lt_of_lt_of_le hj (hok.followed_le n hnp))
      have hout : ∀ k < 4, ∀ y < flagsWord, dataMap (w.position n) j + k ≠ w.position node + y := by
        intro k hk y hy
        by_cases he : n = node
        case pos =>
          rw [he] at h₃ ⊢
          omega
        case neg =>
          have := Walk.position_separate hnp hn he
          simp only [flagsWord] at hy h₃
          omega
      refine (h.maps n hnp j hj map' target' hm' ha').congr fun k hk => hs _ ?_ ?_ ?_
      · exact hout k hk _ (by decide)
      · exact hout k hk _ (by decide)
      · exact not_inMapping_map hok hn hf hi hnp hj hk

-- The mapping has been copied before the node that it leads to is met, and now gets the offset.
theorem Represents.follow (h : Represents iort w table) (hok : w.Ok iort) (hn : node ∈ w.placed)
    (hf : w.followed node = i) (hm : node.maps[i]? = some map)
    (ha : iort.nodeAt map.outputReference = some target) (ht : target ∈ w.placed)
    (hc : ∀ k < 3, table.mem (dataMap (w.position node) i + k) =
      copyMapping map (dataMap (w.position node) i) mem (dataMap (w.position node) i + k)) :
    Represents iort (w.follow node (i + 1)) { table with
      mem := setSmmuBase node (w.position node) (4 * w.position target)
        (table.mem.write (dataMap (w.position node) i + 3) (4 * w.position target)) } := by
  obtain ⟨hi, _⟩ := List.getElem?_eq_some_iff.mp hm
  obtain ⟨hd₁, hd₂⟩ := dataMap_le_position (w := w) hi
  have hwrite : ∀ x, ¬InMapping w node i x →
      table.mem.write (dataMap (w.position node) i + 3) (4 * w.position target) x = table.mem x := by
    intro x hx
    simp only [InMapping] at hx
    exact Memory.write_ne (by omega)
  have hsep : w.position node = w.position target ∨ w.position node + dataMapWord ≤ w.position target ∨
      w.position target + dataMapWord ≤ w.position node := by
    by_cases he : node = target
    case pos => exact .inl (by rw [he])
    case neg =>
      have hsize : dataMapWord ≤ node.size := by simp [IortNode.size]
      have hsize' : dataMapWord ≤ target.size := by simp [IortNode.size]
      have := Walk.position_separate hn ht he
      omega
  rw [setSmmuBase_eq hsep ((h.of_inMapping hok hn hf hi hwrite).tellsBase ht)]
  have hmapping : ∀ k < 4, dataMap (w.position node) i + k ≠ w.position node + dataWord + rcSmmuBaseWord ∧
      dataMap (w.position node) i + k ≠ w.position node + dataWord + rcSmmuBaseWord + 1 := by
    intro k hk
    simp only [flagsWord, dataWord, rcSmmuBaseWord] at *
    omega
  have hcopied : ∀ k < 3, (((table.mem.write (dataMap (w.position node) i + 3) (4 * w.position target)).write
      (w.position node + dataWord + rcSmmuBaseWord) (baseLeft node target % 2 ^ 32)).write
      (w.position node + dataWord + rcSmmuBaseWord + 1) (baseLeft node target / 2 ^ 32))
        (dataMap (w.position node) i + k) =
      copyMapping map (dataMap (w.position node) i) mem (dataMap (w.position node) i + k) := by
    intro k hk
    obtain ⟨h₁, h₂⟩ := hmapping k (by omega)
    rw [Memory.write_ne h₂, Memory.write_ne h₁, Memory.write_ne (by omega), hc k hk]
  refine h.of_linked hok hn hf hm ha ?lo ?hi ?map ?same
  case lo =>
    rw [← Nat.add_assoc, Memory.write_ne (by omega), Memory.write_same]
  case hi =>
    rw [← Nat.add_assoc, ← Nat.add_assoc]
    exact Memory.write_same
  case map =>
    constructor
    case inputBase  => exact (hcopied 0 (by omega)).trans (by simp [copyMapping, Memory.write])
    case idCount    => exact (hcopied 1 (by omega)).trans (by simp [copyMapping, Memory.write])
    case outputBase => exact (hcopied 2 (by omega)).trans (by simp [copyMapping, Memory.write])
    case outputRef =>
      obtain ⟨h₁, h₂⟩ := hmapping 3 (by omega)
      rw [outputRef, Memory.write_ne h₂, Memory.write_ne h₁]
      exact Memory.write_same
  case same =>
    intro x h₁ h₂ hx
    rw [Memory.write_ne (by omega), Memory.write_ne (by omega)]
    exact hwrite x hx

end Follow

section Simulation

-- With enough fuel the code does what the walk does.
def Simulated (iort : Iort) (w w' : Walk) : Walk.Task → Prop
  | .meet node => ∀ table, Represents iort w table →
    ∃ added n, (∀ fuel ≥ n, iortAddBlock iort fuel node table w.next = some added) ∧
      added.next = w'.next ∧ Represents iort w' added.table ∧ added.offset = 4 * w'.position node ∧
      ∀ x < w.next, added.table.mem x = table.mem x
  | .follow node i => ∀ table, Represents iort w table →
    ∃ table' n, (∀ fuel ≥ n, addMappings iort (iortAddBlock iort fuel) node (w.position node) (node.maps.drop i)
      (dataMap (w.position node) i) table w.next = some (table', w'.next)) ∧
      Represents iort w' table' ∧ ∀ x < w.position node, table'.mem x = table.mem x

theorem Represents.close (h : Represents iort w table) :
    Represents iort (w.close node) (table.increment node.data.type) where
  counts := by
    have ⟨h₁, h₂, h₃, h₄, h₅, h₆⟩ := h.counts
    cases hd : node.data <;> constructor <;>
      simp [IovirtInfoTable.increment, NodeData.type, Walk.close, hd, h₁, h₂, h₃, h₄, h₅, h₆, isSmmuNode, NodeType.code]
  words := by
    intro n hn x hx
    have := h.words n hn x hx
    cases hd : node.data.type <;> exact this
  maps := by
    intro n hn i hi map target hm ha
    have := h.maps n hn i hi map target hm ha
    cases hd : node.data.type <;> exact this

theorem increment_mem {type : NodeType} : (table.increment type).mem = table.mem := by
  cases type <;> rfl

theorem place_next : (w.place node).next = w.next + node.size :=
  Layout.ending_append

theorem simulated_place {table' : IovirtInfoTable} (hp : Prepared iort w node table table' w.next)
    (hok : w.Ok iort) (hn : node ∉ w.placed) (ho : w.OwnerFound iort node)
    (hm : ∀ other ∈ w.visible, ¬w.Matches iort node other) (hb : 4 * w.next < 2 ^ 32)
    (hf : Simulated iort (w.place node) w' (.follow node 0)) (hg : Walk.Grows (w.place node) w' (· = node)) :
    ∃ added n, (∀ fuel ≥ n, iortAddBlock iort fuel node table w.next = some added) ∧
      added.next = (w'.close node).next ∧ Represents iort (w'.close node) added.table ∧
      added.offset = 4 * (w'.close node).position node ∧ ∀ x < w.next, added.table.mem x = table.mem x := by
  have hplace := Represents.place hp hok hn ho
  obtain ⟨⟨n₁, hadd⟩, hrep, hkey, hsame⟩ := hp
  have hfind := findBlock_eq_zero hrep hok hkey hm
  have hnext : iovirtNextBlock table'.mem w.next = (w.place node).next := by
    have hx : numDataMapWord < node.cmpSize := Nat.lt_of_lt_of_le (by decide) node.flagsWord_le_cmpSize
    rw [iovirtNextBlock, hkey _ hx, Walk.word_numDataMap, place_next, dataMap, IortNode.size]
    omega
  have hself : (w.place node).position node = w.next := Walk.place_position_self hn
  obtain ⟨table₂, n₂, hmaps, hrep₂, hsame₂⟩ := hf _ hplace
  have hpos : (w'.close node).position node = w.next := by
    rw [← hself]
    exact hg.position_eq (by simp [Walk.place])
  rw [hself] at hmaps hsame₂
  refine ⟨{ offset := offsetOf w.next, table := table₂.increment node.data.type, next := w'.next },
    max n₁ n₂ + 1, ?_, rfl, hrep₂.close, ?_, ?_⟩
  · intro fuel hfuel
    obtain ⟨fuel, rfl⟩ : ∃ k, fuel = k + 1 := ⟨fuel - 1, by omega⟩
    obtain ⟨table₁, ha, he⟩ := hadd fuel (by omega)
    have hmaps := hmaps fuel (by omega)
    rw [List.drop_zero, IortNode.maps] at hmaps
    subst he
    simp only [iortAddBlock, ha, Option.bind_eq_bind, Option.bind_some, hfind, ne_eq, not_true_eq_false, if_false]
    dsimp only at hnext hmaps
    rw [hnext, hmaps, Option.bind_some]
  · rw [hpos, offsetOf, Nat.mod_eq_of_lt hb]
  · intro x hx
    rw [increment_mem, hsame₂ x hx, ← hsame x hx]
    exact checkCtxInt_of_ne (by omega)

theorem simulated_follow {w₁ w₂ : Walk} {map : IortIdMapping} (hok : w.Ok iort) (hok₁ : w₁.Ok iort)
    (hn : node ∈ w.placed) (hf : w.followed node = i) (hm : node.maps[i]? = some map)
    (ha : iort.nodeAt map.outputReference = some target) (ht : target ∈ w₁.placed)
    (hg : Walk.Grows w w₁ fun _ => False) (h₁ : Simulated iort w w₁ (.meet target))
    (h₂ : Simulated iort (w₁.follow node (i + 1)) w₂ (.follow node (i + 1))) :
    Simulated iort w w₂ (.follow node i) := by
  intro table hrep
  have ⟨hi, hget⟩ := List.getElem?_eq_some_iff.mp hm
  have ⟨hd₁, hd₂⟩ := dataMap_le_position (w := w) hi
  have hle := Walk.position_add_le hn
  have hpos : w₁.position node = w.position node := hg.position_eq hn
  have hf₁ : w₁.followed node = i := hf ▸ hg.kept node hn id
  have hcopied : Represents iort w { table with mem := copyMapping map (dataMap (w.position node) i) table.mem } :=
    hrep.of_inMapping hok hn hf hi fun x hx => copyMapping_of_not_inMapping hx
  have ⟨added, n₁, hadd, hnext, hrep₁, hoff, hsame₁⟩ := h₁ _ hcopied
  have hkept : ∀ k < 3, added.table.mem (dataMap (w₁.position node) i + k) =
      copyMapping map (dataMap (w₁.position node) i) table.mem (dataMap (w₁.position node) i + k) := by
    intro k hk
    rw [hpos]
    exact hsame₁ _ (by omega)
  have hrep₂ := hrep₁.follow hok₁ (hg.subset hn) hf₁ hm ha ht hkept
  have ⟨table₂, n₂, hmaps, hrep₃, hsame₂⟩ := h₂ _ hrep₂
  have hpos₂ : (w₁.follow node (i + 1)).position node = w.position node := hpos
  rw [hpos₂] at hmaps hsame₂
  refine ⟨table₂, max n₁ n₂, ?_, hrep₃, ?_⟩
  · intro fuel hfuel
    have hdrop : node.maps.drop i = map :: node.maps.drop (i + 1) := by
      rw [← hget, List.drop_eq_getElem_cons hi]
    have hstep : dataMap (w.position node) i + dataMapSize = dataMap (w.position node) (i + 1) := by
      simp only [dataMap, dataMapSize]
      omega
    have hmaps := hmaps fuel (by omega)
    rw [hpos] at hmaps
    simp only [hdrop, addMappings, ha, Option.bind_eq_bind, Option.bind_some, hadd fuel (by omega), hstep, hoff,
      hnext]
    exact hmaps
  · intro x hx
    have hcopy : copyMapping map (dataMap (w.position node) i) table.mem x = table.mem x :=
      copyMapping_of_not_inMapping (by simp only [InMapping]; omega)
    rw [hsame₂ x hx, hpos]
    refine (setSmmuBase_below hx).trans ?_
    rw [Memory.write_ne (by omega), hsame₁ x (by omega)]
    exact hcopy

theorem Walk.Visits.simulated {task : Walk.Task} (h : Walk.Visits iort w task w') (hok : w.Ok iort)
    (hr : task.Ready w) : Simulated iort w w' task := by
  induction h
  case again w node hf =>
    intro table hrep
    obtain ⟨table', n, hadd, hrep', hsame⟩ := hf.foundAgain hok table w.next hrep (Nat.le_refl _)
    exact ⟨_, n, hadd, rfl, hrep', rfl, hsame⟩
  case done w node =>
    intro table hrep
    refine ⟨table, 0, ?_, hrep, fun _ _ => rfl⟩
    intro fuel _
    rw [List.drop_length, addMappings]
  case place w w' node hn ho hm hb hv hi =>
    intro table hrep
    obtain ⟨table', hp⟩ := prepared hrep hok ho
    have hready : (Walk.Task.follow node 0).Ready (w.place node) := ⟨by simp [Walk.place], by simp [Walk.place]⟩
    obtain ⟨_, hg⟩ := hv.spec (hok.place hn ho hb) hready
    exact simulated_place hp hok hn ho hm hb (hi (hok.place hn ho hb) hready) hg
  case follow w w₁ w₂ node target i map hm ha hv₁ hv₂ hi₁ hi₂ =>
    obtain ⟨hn, hf⟩ := hr
    obtain ⟨hok₁, hg₁, ht⟩ := hv₁.spec hok trivial
    have hf₁ : w₁.followed node = i := hf ▸ hg₁.kept node hn id
    have hready : (Walk.Task.follow node (i + 1)).Ready (w₁.follow node (i + 1)) :=
      ⟨hg₁.subset hn, by simp [Walk.follow]⟩
    exact simulated_follow hok hok₁ hn hf hm ha ht hg₁ (hi₁ hok trivial)
      (hi₂ (hok₁.follow hf₁ hm ha ht) hready)

theorem Represents.start : Represents iort Walk.start (emptyTable mem) where
  counts := by constructor <;> rfl
  words  := by simp [Walk.start]
  maps   := by simp [Walk.start]

theorem Walk.VisitsAll.simulated {nodes : List IortNode} (h : Walk.VisitsAll iort w nodes w') (hok : w.Ok iort)
    (hrep : Represents iort w table) :
    ∃ table' n, (∀ fuel ≥ n, addNodes iort fuel nodes table w.next = some table') ∧ Represents iort w' table' := by
  induction h generalizing table
  case nil => exact ⟨table, 0, fun _ _ => rfl, hrep⟩
  case cons w w₁ w₂ node nodes hv _ hi =>
    have ⟨hok₁, _⟩ := hv.spec hok trivial
    have ⟨added, n₁, hadd, hnext, hrep₁, _⟩ := hv.simulated hok trivial table hrep
    have ⟨table₂, n₂, hall, hrep₂⟩ := hi hok₁ hrep₁
    refine ⟨table₂, max n₁ n₂, ?_, hrep₂⟩
    intro fuel hfuel
    simp only [addNodes, hadd fuel (by omega), Option.bind_eq_bind, Option.bind_some, hnext]
    exact hall fuel (by omega)

end Simulation

end Iovirt
