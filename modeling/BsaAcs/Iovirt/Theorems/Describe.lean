import BsaAcs.Iovirt.Theorems.Iort

namespace Iovirt

variable {iort : Iort} {w w' : Walk} {node target owner other : IortNode} {table : IovirtInfoTable}
  {mem mem' mem₁ : Memory} {block next x i n : Nat}

section Overlap

-- Only the flags of the blocks have changed.
def FlagsOnly (blocks : List Nat) (mem mem' : Memory) : Prop :=
  ∀ x, (∀ b ∈ blocks, x ≠ b + flagsWord) → mem' x = mem x

variable {blocks : List Nat} {keyBlock keyMap keyStart keyEnd map start : Nat}

theorem FlagsOnly.refl : FlagsOnly blocks mem mem :=
  fun _ _ => rfl

theorem FlagsOnly.trans (h₁ : FlagsOnly blocks mem mem') (h₂ : FlagsOnly blocks mem' mem₁) :
    FlagsOnly blocks mem mem₁ :=
  fun x hx => (h₂ x hx).trans (h₁ x hx)

theorem FlagsOnly.setFlag {shift : Nat} (h : block ∈ blocks) : FlagsOnly blocks mem (setFlag mem block shift) :=
  fun _ hx => Memory.write_ne (hx block h)

theorem le_of_mem_blocksFrom (h : block ∈ blocksFrom mem n start) : start ≤ block := by
  induction n generalizing start
  case zero => simp [blocksFrom] at h
  case succ n hi =>
    rcases List.mem_cons.mp h with rfl | h
    case inl => exact Nat.le_refl _
    case inr =>
      have := hi h
      simp only [iovirtNextBlock, dataMap] at this
      omega

theorem blocksFrom_spaced {b c : Nat} (hb : b ∈ blocksFrom mem n start) (hc : c ∈ blocksFrom mem n start) :
    b = c ∨ b + dataMapWord ≤ c ∨ c + dataMapWord ≤ b := by
  have hnext : ∀ {d}, d ∈ blocksFrom mem (n - 1) (iovirtNextBlock mem start) → start + dataMapWord ≤ d := by
    intro d hd
    have := le_of_mem_blocksFrom hd
    simp only [iovirtNextBlock, dataMap] at this
    omega
  induction n generalizing start
  case zero => simp [blocksFrom] at hb
  case succ n hi =>
    rcases List.mem_cons.mp hb with rfl | hb
    case inl =>
      rcases List.mem_cons.mp hc with rfl | hc
      case inl => exact .inl rfl
      case inr => exact .inr (.inl (hnext hc))
    case inr =>
      rcases List.mem_cons.mp hc with rfl | hc
      case inl => exact .inr (.inr (hnext hb))
      case inr =>
        refine hi hb hc ?_
        intro d hd
        have := le_of_mem_blocksFrom hd
        simp only [iovirtNextBlock, dataMap] at this ⊢
        omega

-- The flags are apart from the words that lead to the next block.
def Spaced (blocks : List Nat) : Prop :=
  ∀ b ∈ blocks, ∀ c ∈ blocks, b + numDataMapWord ≠ c + flagsWord

theorem spaced_blocks : Spaced (blocksFrom mem n start) := by
  intro b hb c hc
  have := blocksFrom_spaced hb hc
  simp only [dataMapWord, numDataMapWord, flagsWord] at *
  omega

theorem FlagsOnly.nextBlock_eq (h : FlagsOnly blocks mem mem') (hs : Spaced blocks) (hb : block ∈ blocks) :
    iovirtNextBlock mem' block = iovirtNextBlock mem block := by
  rw [iovirtNextBlock, iovirtNextBlock, h _ (hs block hb)]

theorem FlagsOnly.blocksFrom_eq (h : FlagsOnly blocks mem mem') (hs : Spaced blocks)
    (hb : ∀ b ∈ blocksFrom mem n start, b ∈ blocks) : blocksFrom mem' n start = blocksFrom mem n start := by
  induction n generalizing start
  case zero => rfl
  case succ n hi =>
    have hstart : start ∈ blocks := hb start (by simp [blocksFrom])
    simp only [blocksFrom, h.nextBlock_eq hs hstart]
    rw [hi fun b hm => hb b (by simp [blocksFrom, hm])]

theorem compareMaps_flagsOnly (hk : keyBlock ∈ blocks) (hb : block ∈ blocks) :
    FlagsOnly blocks mem (compareMaps keyBlock keyMap keyStart keyEnd block map mem) := by
  unfold compareMaps
  split
  case isTrue => exact .refl
  case isFalse =>
    split
    case isTrue  => exact (FlagsOnly.setFlag hk).trans (.setFlag hb)
    case isFalse => exact .refl

theorem mapLoop_flagsOnly (hk : keyBlock ∈ blocks) (hb : block ∈ blocks) :
    FlagsOnly blocks mem (mapLoop keyBlock keyMap keyStart keyEnd block n map mem) := by
  induction n generalizing map mem
  case zero => exact .refl
  case succ n hi => exact (compareMaps_flagsOnly hk hb).trans hi

theorem blockLoop_flagsOnly (hs : Spaced blocks) (hk : keyBlock ∈ blocks)
    (hb : ∀ b ∈ blocksFrom mem n block, b ∈ blocks) :
    FlagsOnly blocks mem (blockLoop keyBlock keyMap keyStart keyEnd n block mem) := by
  induction n generalizing block mem
  case zero => exact .refl
  case succ n hi =>
    have hblock : block ∈ blocks := hb block (by simp [blocksFrom])
    have hrest : ∀ b ∈ blocksFrom mem n (iovirtNextBlock mem block), b ∈ blocks :=
      fun b hm => hb b (by simp [blocksFrom, hm])
    simp only [blockLoop]
    split
    case isTrue => exact hi hrest
    case isFalse =>
      have hstep : ∀ {mem₁}, FlagsOnly blocks mem mem₁ → FlagsOnly blocks mem
          (blockLoop keyBlock keyMap keyStart keyEnd n (iovirtNextBlock mem₁ block) mem₁) := by
        intro mem₁ h
        rw [h.nextBlock_eq hs hblock]
        exact h.trans (hi (by rwa [h.blocksFrom_eq hs hrest]))
      split
      case isTrue  => exact hstep (mapLoop_flagsOnly hk hblock)
      case isFalse => exact hstep (mapLoop_flagsOnly hk hblock)

theorem keyMapLoop_flagsOnly {nKeyBlocks : Nat} (hs : Spaced blocks) (hk : keyBlock ∈ blocks)
    (hb : ∀ b ∈ blocksFrom mem nKeyBlocks keyBlock, b ∈ blocks) :
    FlagsOnly blocks mem (keyMapLoop keyBlock nKeyBlocks n keyMap mem) := by
  induction n generalizing keyMap mem
  case zero => exact .refl
  case succ n hi =>
    have h : FlagsOnly blocks mem (blockLoop keyBlock keyMap (outputBase mem keyMap) (lastId mem keyMap)
        nKeyBlocks keyBlock mem) := blockLoop_flagsOnly hs hk hb
    exact h.trans (hi (by rwa [h.blocksFrom_eq hs hb]))

theorem keyBlockLoop_flagsOnly (hs : Spaced blocks) (hb : ∀ b ∈ blocksFrom mem n block, b ∈ blocks) :
    FlagsOnly blocks mem (keyBlockLoop n block mem) := by
  induction n generalizing block mem
  case zero => exact .refl
  case succ n hi =>
    have hblock : block ∈ blocks := hb block (by simp [blocksFrom])
    have hrest : ∀ b ∈ blocksFrom mem n (iovirtNextBlock mem block), b ∈ blocks :=
      fun b hm => hb b (by simp [blocksFrom, hm])
    simp only [keyBlockLoop]
    split
    case isTrue => exact hi hrest
    case isFalse =>
      have h : FlagsOnly blocks mem (keyMapLoop block (n + 1) (mem (block + numDataMapWord)) (dataMap block 0) mem) :=
        keyMapLoop_flagsOnly hs hblock hb
      rw [h.nextBlock_eq hs hblock]
      exact h.trans (hi (by rwa [h.blocksFrom_eq hs hrest]))

theorem checkMappingOverlap_flagsOnly : FlagsOnly table.blocks table.mem (checkMappingOverlap table).mem :=
  keyBlockLoop_flagsOnly spaced_blocks fun _ hb => hb

theorem checkMappingOverlap_blocks : (checkMappingOverlap table).blocks = table.blocks :=
  checkMappingOverlap_flagsOnly.blocksFrom_eq spaced_blocks fun _ hb => hb

end Overlap

section Complete

-- The walk is over: every node has been placed and closed, and all its mappings followed.
structure Complete (iort : Iort) (w : Walk) : Prop where
  ok       : w.Ok iort
  perm     : w.placed.Perm iort
  closed   : w.closed.Perm w.placed
  followed : ∀ node ∈ w.placed, w.followed node = node.maps.length

theorem Iort.mem_of_nodeAt {ref : Nat} (h : iort.nodeAt ref = some node) : node ∈ iort :=
  List.mem_of_find?_eq_some h

def Within (iort : Iort) : Walk.Task → Prop
  | .meet node     => node ∈ iort
  | .follow node _ => node ∈ iort

theorem Walk.Visits.placed_mem {task : Walk.Task} (h : Walk.Visits iort w task w') (ht : Within iort task)
    (hp : ∀ node ∈ w.placed, node ∈ iort) : ∀ node ∈ w'.placed, node ∈ iort := by
  induction h
  case again => exact hp
  case done  => exact hp
  case place w w' node _ _ _ _ _ hi =>
    refine hi ht ?_
    intro n hn
    rcases List.mem_append.mp hn with hn | hn
    case inl => exact hp n hn
    case inr => exact List.mem_singleton.mp hn ▸ ht
  case follow ha _ _ hi₁ hi₂ => exact hi₂ ht (hi₁ (Iort.mem_of_nodeAt ha) hp)

theorem Walk.VisitsAll.placed_mem {nodes : List IortNode} (h : Walk.VisitsAll iort w nodes w')
    (ht : ∀ node ∈ nodes, node ∈ iort) (hp : ∀ node ∈ w.placed, node ∈ iort) : ∀ node ∈ w'.placed, node ∈ iort := by
  induction h
  case nil => exact hp
  case cons hv _ hi =>
    exact hi (fun n hn => ht n (List.mem_cons_of_mem _ hn)) (hv.placed_mem (ht _ List.mem_cons_self) hp)

theorem Iort.WellFormed.nodup (h : iort.WellFormed) : iort.Nodup :=
  List.Nodup.of_map _ h.offsets

theorem Walk.VisitsAll.complete (hw : iort.WellFormed) (h : Walk.VisitsAll iort Walk.start iort w) :
    Complete iort w := by
  obtain ⟨hok, hg, hall⟩ := h.spec .start
  have hsub := h.placed_mem (fun _ hn => hn) (by simp [Walk.start])
  obtain ⟨new, hp, hc⟩ := hg.added
  constructor
  case ok       => exact hok
  case perm     => exact (List.perm_ext_iff_of_nodup hok.nodup hw.nodup).mpr fun n => ⟨hsub n, hall n⟩
  case closed   => simpa [Walk.start, hp] using hc
  case followed => exact fun n hn => hg.all n hn (.inl (by simp [Walk.start]))

theorem Complete.visible_eq (h : Complete iort w) : w.visible = w.placed := by
  rw [Walk.visible, h.closed.length_eq, List.take_length]

theorem word_data (h : i < dataSize) (hp : i = nodeRefWord → node.data.type ≠ .pmcg) :
    w.word iort node (dataWord + i) = node.data.word i := by
  have h₀ : dataWord + i ≠ 0 := by simp [dataWord]
  have h₁ : dataWord + i ≠ numDataMapWord := by simp only [dataWord, numDataMapWord]; omega
  have h₂ : ¬(dataWord + i = dataWord + nodeRefWord ∧ node.data.type = .pmcg) :=
    fun hc => hp (Nat.add_left_cancel hc.left) hc.right
  have h₃ : dataWord + i < flagsWord := by simp only [dataWord, flagsWord, dataSize] at *; omega
  have hw : ∀ ref, node.word ref (dataWord + i) = node.data.word i := by
    intro ref
    rw [IortNode.word, if_neg h₀, if_neg h₁, if_neg h₂, if_pos h₃, Nat.add_sub_cancel_left]
  unfold Walk.word
  split <;> exact hw _

theorem word_identifier {ids : List Nat} (hd : node.data = .itsGroup ids) :
    w.word iort node (dataMapWord + i) = ids.getD i 0 := by
  have h₀ : dataMapWord + i ≠ 0 := by simp [dataMapWord]
  have h₁ : dataMapWord + i ≠ numDataMapWord := by simp only [dataMapWord, numDataMapWord]; omega
  have h₂ : ¬dataMapWord + i < flagsWord := by simp only [dataMapWord, flagsWord]; omega
  have h₃ : dataMapWord + i ≠ flagsWord := by simp only [dataMapWord, flagsWord]; omega
  rw [Walk.word_eq_word 0 (by simp [hd, NodeData.type])]
  rw [IortNode.word, if_neg h₀, if_neg h₁, if_neg (by simp [hd, NodeData.type]), if_neg h₂]
  simp [hd, h₃]

-- The overlap check leaves a block as it is, up to its flags.
theorem checkMappingOverlap_mem (hrep : Represents iort w table) (hok : w.Ok iort) (hn : node ∈ w.placed)
    (hx : x < node.size) (hf : x ≠ flagsWord) :
    (checkMappingOverlap table).mem (w.position node + x) = table.mem (w.position node + x) := by
  refine checkMappingOverlap_flagsOnly _ ?_
  intro b hb
  rw [hrep.blocks_eq hok] at hb
  have ⟨m, hm, he⟩ := List.mem_map.mp hb
  have hsize : dataMapWord ≤ m.size := by simp [IortNode.size]
  by_cases hmn : m = node
  case pos =>
    rw [← he, hmn]
    omega
  case neg =>
    have := Walk.position_separate (Walk.mem_placed_of_visible hm) hn hmn
    simp only [dataMapWord, flagsWord] at *
    omega

theorem countP_types (nodes : List IortNode) :
    nodes.length = (nodes.countP fun node => isSmmuNode node.data.type.code) +
      (nodes.countP fun node => node.data.type = .pciRootComplex) +
      (nodes.countP fun node => node.data.type = .namedComponent) +
      (nodes.countP fun node => node.data.type = .itsGroup) +
      (nodes.countP fun node => node.data.type = .pmcg) := by
  induction nodes
  case nil => rfl
  case cons node nodes hi =>
    simp only [List.length_cons, List.countP_cons, hi]
    cases node.data <;> simp [NodeData.type, isSmmuNode, NodeType.code] <;> omega

theorem Complete.countOf_eq (h : Complete iort w) (hrep : Represents iort w table) (p : Nat → Bool) :
    (checkMappingOverlap table).countOf p = w.closed.countP fun node => p node.data.type.code := by
  rw [IovirtInfoTable.countOf, checkMappingOverlap_blocks, hrep.blocks_eq h.ok, h.visible_eq, List.countP_map,
    h.closed.countP_eq]
  refine List.countP_congr fun node hn => ?_
  have hsize : 0 < node.size := by simp [IortNode.size, dataMapWord]
  have := checkMappingOverlap_mem hrep h.ok hn hsize (by decide)
  rw [Nat.add_zero, hrep.type_eq hn] at this
  simp [this]

theorem decide_code_eq {t t' : NodeType} : decide (t.code = t'.code) = decide (t = t') := by
  cases t <;> cases t' <;> rfl

theorem Complete.mapsTo {map : IortIdMapping} (h : Complete iort w) (hrep : Represents iort w table)
    (hn : node ∈ w.placed) (hm : node.maps[i]? = some map) :
    ∃ target, iort.nodeAt map.outputReference = some target ∧
      MapsTo (checkMappingOverlap table).mem (dataMap (w.position node) i) map (w.position target) := by
  obtain ⟨hi, _⟩ := List.getElem?_eq_some_iff.mp hm
  have hf : i < w.followed node := h.followed node hn ▸ hi
  obtain ⟨target, _, ht⟩ := h.ok.targets node hn i hf
  have ht : iort.nodeAt map.outputReference = some target := by simpa [Iort.target, hm] using ht
  refine ⟨target, ht, (hrep.maps node hn i hf map target hm ht).congr ?_⟩
  intro k hk
  obtain ⟨h₁, h₂⟩ := dataMap_le_position (w := w) hi
  obtain ⟨d, hd⟩ : ∃ d, dataMap (w.position node) i + k = w.position node + d :=
    ⟨dataMap (w.position node) i + k - w.position node, by omega⟩
  rw [hd]
  exact checkMappingOverlap_mem hrep h.ok hn (by omega) (by omega)

theorem Complete.isBlockOf (h : Complete iort w) (hrep : Represents iort w table) (hn : node ∈ w.placed) :
    IsBlockOf (checkMappingOverlap table).mem node (w.position node) := by
  have hcmp := node.flagsWord_le_cmpSize
  have hsize := node.cmpSize_le_size
  have hmem : ∀ x, x < node.size → x ≠ flagsWord →
      (checkMappingOverlap table).mem (w.position node + x) = table.mem (w.position node + x) :=
    fun x hx hf => checkMappingOverlap_mem hrep h.ok hn hx hf
  refine ⟨?type, ?num, ?data, ?identifiers, ?maps⟩
  case type =>
    rw [← hrep.type_eq hn]
    exact hmem 0 (Nat.lt_of_lt_of_le (by decide) (hcmp.trans hsize)) (by decide)
  case num =>
    rw [← hrep.numDataMap_eq hn]
    exact hmem _ (Nat.lt_of_lt_of_le (by decide) (hcmp.trans hsize)) (by decide)
  case data =>
    intro i hi h₄ h₅ hp
    have hlt : dataWord + i < flagsWord := by
      simp only [dataWord, flagsWord, dataSize] at *
      omega
    rw [Nat.add_assoc, hmem _ (by omega) (by omega), hrep.words node hn _ (by omega),
      Walk.blockWord_of_ne (by omega) (by omega), word_data hi hp]
  case identifiers =>
    intro i ids hd hi
    have hx : dataMapWord + i < node.cmpSize := by
      simp only [IortNode.cmpSize, hd, dataMapWord, flagsWord]
      omega
    have hdm : dataMap (w.position node) 0 + i = w.position node + (dataMapWord + i) := by
      simp only [dataMap]
      omega
    rw [hdm, hmem _ (by omega) (by simp only [dataMapWord, flagsWord]; omega), hrep.words node hn _ hx,
      Walk.blockWord_of_ne (by simp only [dataMapWord, dataWord, rcSmmuBaseWord]; omega)
        (by simp only [dataMapWord, dataWord, rcSmmuBaseWord]; omega), word_identifier hd]
  case maps =>
    intro i map hm
    obtain ⟨_, _, hto⟩ := h.mapsTo hrep hn hm
    exact ⟨hto.inputBase, hto.idCount, hto.outputBase⟩

theorem Complete.describes (h : Complete iort w) (hrep : Represents iort w table) :
    Describes (checkMappingOverlap table) iort w.position := by
  have hcounts : Counts (checkMappingOverlap table) w.closed := hrep.counts.congr
  have hblocks : (checkMappingOverlap table).blocks = w.placed.map w.position := by
    rw [checkMappingOverlap_blocks, hrep.blocks_eq h.ok, h.visible_eq]
  have hmem : ∀ node ∈ iort, node ∈ w.placed := fun node hn => h.perm.mem_iff.mpr hn
  constructor
  case blocks => exact hblocks ▸ h.perm.map _
  case distinct =>
    rw [hblocks]
    refine h.ok.nodup.map_on ?_
    intro a ha b hb he
    by_contra hne
    have ha' : dataMapWord ≤ a.size := by simp [IortNode.size]
    have hb' : dataMapWord ≤ b.size := by simp [IortNode.size]
    have := Walk.position_separate ha hb hne
    simp only [dataMapWord] at ha' hb'
    omega
  case block => exact fun node hn => h.isBlockOf hrep (hmem node hn)
  case total =>
    rw [hcounts.numBlocks, hcounts.numSmmus, hcounts.numPciRcs, hcounts.numNamedComponents, hcounts.numItsGroups,
      hcounts.numPmcgs]
    exact countP_types w.closed
  case smmus           => rw [h.countOf_eq hrep, hcounts.numSmmus]
  case pciRcs          => simp only [h.countOf_eq hrep, hcounts.numPciRcs, decide_code_eq]
  case namedComponents => simp only [h.countOf_eq hrep, hcounts.numNamedComponents, decide_code_eq]
  case itsGroups       => simp only [h.countOf_eq hrep, hcounts.numItsGroups, decide_code_eq]
  case pmcgs           => simp only [h.countOf_eq hrep, hcounts.numPmcgs, decide_code_eq]
  case outputRefs =>
    intro node hn i map target hm ht
    obtain ⟨target', ht', hto⟩ := h.mapsTo hrep (hmem node hn) hm
    cases ht.symm.trans ht'
    exact hto.outputRef
  case nodeRefs =>
    intro node hn ref owner hr ho
    have hn := hmem node hn
    have hlt : dataWord + nodeRefWord < node.cmpSize := Nat.lt_of_lt_of_le (by decide) node.flagsWord_le_cmpSize
    rw [Nat.add_assoc, checkMappingOverlap_mem hrep h.ok hn (hlt.trans_le node.cmpSize_le_size) (by decide),
      hrep.words node hn _ hlt, Walk.blockWord_of_ne (by decide) (by decide), word_of_owner hr ho, if_pos rfl]

end Complete

section Fuel

variable {add add' : IortNode → IovirtInfoTable → Nat → Option Added} {added : Added}

theorem addReference_mono {table' : IovirtInfoTable}
    (h : ∀ {node table next added}, add node table next = some added → add' node table next = some added)
    (ha : addReference iort add node block table = some table') :
    addReference iort add' node block table = some table' := by
  cases hd : node.data
  case pmcg base gsiv ref =>
    simp only [addReference, hd, Option.bind_eq_bind, Option.bind_eq_some_iff] at ha ⊢
    obtain ⟨target, ht, added, hadd, he⟩ := ha
    exact ⟨target, ht, added, h hadd, he⟩
  all_goals simpa only [addReference, hd] using ha

theorem addMappings_mono {maps : List IortIdMapping} {map : Nat} {r : IovirtInfoTable × Nat}
    (h : ∀ {node table next added}, add node table next = some added → add' node table next = some added)
    (ha : addMappings iort add node block maps map table next = some r) :
    addMappings iort add' node block maps map table next = some r := by
  induction maps generalizing map table next
  case nil => exact ha
  case cons m maps hi =>
    simp only [addMappings, Option.bind_eq_bind, Option.bind_eq_some_iff] at ha ⊢
    obtain ⟨target, ht, added, hadd, hrest⟩ := ha
    exact ⟨target, ht, added, h hadd, hi hrest⟩

-- More fuel does not change a result.
theorem iortAddBlock_mono {fuel : Nat} (h : iortAddBlock iort fuel node table block = some added) :
    iortAddBlock iort (fuel + 1) node table block = some added := by
  induction fuel generalizing node table block added
  case zero => simp [iortAddBlock] at h
  case succ fuel hi =>
    rw [iortAddBlock] at h ⊢
    simp only [Option.bind_eq_bind, Option.bind_eq_some_iff] at h ⊢
    obtain ⟨table₁, href, hrest⟩ := h
    refine ⟨table₁, addReference_mono hi href, ?_⟩
    split at hrest
    case isTrue hf => rwa [if_pos hf]
    case isFalse hf =>
      rw [if_neg hf]
      simp only [Option.bind_eq_some_iff] at hrest ⊢
      obtain ⟨r, hmaps, he⟩ := hrest
      exact ⟨r, addMappings_mono hi hmaps, he⟩

theorem addNodes_mono {fuel : Nat} {nodes : List IortNode} {table' : IovirtInfoTable}
    (h : addNodes iort fuel nodes table next = some table') :
    addNodes iort (fuel + 1) nodes table next = some table' := by
  induction nodes generalizing table next
  case nil => exact h
  case cons node nodes hi =>
    simp only [addNodes, Option.bind_eq_bind, Option.bind_eq_some_iff] at h ⊢
    obtain ⟨added, hadd, hrest⟩ := h
    exact ⟨added, iortAddBlock_mono hadd, hi hrest⟩

theorem palIovirtCreateInfoTable_mono {fuel k : Nat} (h : palIovirtCreateInfoTable iort fuel mem = some table) :
    palIovirtCreateInfoTable iort (fuel + k) mem = some table := by
  induction k
  case zero => exact h
  case succ k hi =>
    simp only [palIovirtCreateInfoTable, Option.bind_eq_bind, Option.bind_eq_some_iff] at hi ⊢
    have ⟨table', hadd, he⟩ := hi
    exact ⟨table', addNodes_mono hadd, he⟩

end Fuel

-- If the walk through the nodes is in order, then the table describes them.
theorem iort_translates (iort : Iort) (hw : iort.WellFormed) (h : iort.Orderly) : Translates iort := by
  intro mem
  have ⟨w, hv⟩ := h
  have hstart : Represents iort Walk.start (emptyTable mem) := .start
  have ⟨table, n, hadd, hrep⟩ := hv.simulated .start hstart
  refine ⟨checkMappingOverlap table, w.position, ⟨n, ?_⟩, (hv.complete hw).describes hrep⟩
  intro fuel hfuel
  have hnext : Walk.start.next = firstBlock := rfl
  simp only [palIovirtCreateInfoTable, ← hnext, hadd fuel hfuel, Option.bind_eq_bind, Option.bind_some]

-- Offsets that fall along the references rule out cycles.
theorem acyclic_of_rank (rank : Nat → Nat)
    (h : ∀ node ∈ iort, ∀ ref ∈ node.references, rank ref < rank node.offset) :
    ∀ node, ¬Relation.TransGen iort.Refers node node := by
  have hstep : ∀ {a b}, iort.Refers a b → rank b.offset < rank a.offset := by
    intro a b ⟨ha, ref, hr, hn⟩
    have : b.offset = ref := by simpa using List.find?_some hn
    exact this ▸ h a ha ref hr
  have hfall : ∀ {a b}, Relation.TransGen iort.Refers a b → rank b.offset < rank a.offset := by
    intro a b h
    induction h
    case single hab     => exact hstep hab
    case tail _ hbc hi  => exact Nat.lt_trans (hstep hbc) hi
  exact fun node hc => Nat.lt_irrefl _ (hfall hc)

instance {w : Walk} {node other : IortNode} : Decidable (w.Matches iort node other) :=
  inferInstanceAs (Decidable (_ ∧ _))

-- An ITS group, the SMMU before it, the root complex behind the SMMU, and the PMCG of the SMMU.
def itsNode : IortNode := ⟨48, .itsGroup [0], []⟩
def smmuNode : IortNode := ⟨72, .smmuV3 0x2B400000, [⟨0, 0xFFFF, 0, 48⟩]⟩
def rcNode : IortNode := ⟨160, .rootComplex 1 0 0, [⟨0, 0xFFFF, 0, 72⟩]⟩
def pmcgNode : IortNode := ⟨212, .pmcg 0x2B420000 100 72, []⟩

def orderlyIort : Iort := [itsNode, smmuNode, rcNode, pmcgNode]

theorem orderlyIort_wellFormed : orderlyIort.WellFormed where
  offsets := by decide
  differ  := by decide
  closed  := by
    have : ∀ node ∈ orderlyIort, ∀ ref ∈ node.references, (orderlyIort.nodeAt ref).isSome := by decide
    exact fun node hn ref hr => Option.isSome_iff_exists.mp (this node hn ref hr)
  acyclic := acyclic_of_rank id (by decide)

theorem orderlyIort_orderly : orderlyIort.Orderly :=
  ⟨_, .cons (.place (by decide) (.inl rfl) (by decide) (by decide) .done) <|
    .cons (.place (by decide) (.inl rfl) (by decide +kernel) (by decide)
      (.follow rfl rfl (.again (.node rfl (by decide) (by decide +kernel))) .done)) <|
    .cons (.place (by decide) (.inl rfl) (by decide +kernel) (by decide)
      (.follow rfl rfl (.again (.node rfl (by decide) (by decide +kernel))) .done)) <|
    .cons (.place (by decide) (.inr ⟨72, smmuNode, rfl, rfl, .node rfl (by decide) (by decide +kernel)⟩)
      (by decide +kernel) (by decide) .done) .nil⟩

theorem orderlyIort_translates : Translates orderlyIort :=
  iort_translates orderlyIort orderlyIort_wellFormed orderlyIort_orderly

-- A root complex with two mappings to an SMMU. While its mappings are followed, the SMMU is behind the
-- blocks that are searched.
def splitRcNode : IortNode := ⟨48, .rootComplex 1 0 0, [⟨0, 0xFF, 0, 108⟩, ⟨0x200, 0xFF, 0x200, 108⟩]⟩
def lastSmmuNode : IortNode := ⟨108, .smmuV3 0x2B400000, []⟩

def splitIort : Iort := [splitRcNode, lastSmmuNode]

theorem splitIort_wellFormed : splitIort.WellFormed where
  offsets := by decide
  differ  := by decide
  closed  := by
    have : ∀ node ∈ splitIort, ∀ ref ∈ node.references, (splitIort.nodeAt ref).isSome := by decide
    exact fun node hn ref hr => Option.isSome_iff_exists.mp (this node hn ref hr)
  acyclic := acyclic_of_rank (200 - ·) (by decide)

theorem smmu_added_twice : ¬∀ iort : Iort, iort.WellFormed → Translates iort := by
  intro h
  have ⟨table, blockOf, ⟨n, hn⟩, hd⟩ := h splitIort splitIort_wellFormed fun _ => 0
  have hthree : ((palIovirtCreateInfoTable splitIort 3 fun _ => 0).map (·.blocks.length)) = some 3 := by
    decide +kernel
  cases hc : palIovirtCreateInfoTable splitIort 3 fun _ => 0
  case none => simp [hc] at hthree
  case some table' =>
    have hsame : table' = table := by
      have := palIovirtCreateInfoTable_mono (k := n) hc
      rw [Nat.add_comm, hn (n + 3) (by omega)] at this
      exact (Option.some.inj this).symm
    have hlen : table.blocks.length = 2 := by simpa [splitIort] using hd.blocks.length_eq
    rw [hc, Option.map_some, hsame, hlen] at hthree
    exact absurd hthree (by decide)

end Iovirt
