import BsaAcs.Dt.Pmu
import BsaAcs.Dt.Theorems.Fdt

namespace Dt

section

variable (fdt : Libfdt)

-- The specifiers of a node. There are none without the property.
def specifierCount (node : Int) : Nat :=
  match fdt.getprop node "interrupts", fdtInterruptCells fdt node with
  | some intr, some interruptCell => intr.len / 4 / interruptCell.toNat
  | _, _                          => 0

def specifierCells (node : Int) : Nat :=
  ((fdtInterruptCells fdt node).getD 0).toNat

-- The interrupt at a cell of a node, and that of its `k`-th specifier.
def gsivAt (node : Int) (cell : Nat) : Nat :=
  match fdt.getprop node "interrupts" with
  | some intr => (pmuSpecifier ((fdtInterruptCells fdt node).getD 0) intr.cells cell).fst
  | none      => 0

def nodeGsiv (node : Int) (k : Nat) : Nat :=
  gsivAt fdt node (k * specifierCells fdt node)

def nodeGsivs (node : Int) : List Nat :=
  (List.range (specifierCount fdt node)).map (nodeGsiv fdt node)

-- The interrupt of a PE: the one for its number, or the only one.
def pmuGsivOf (gsivs : List Nat) (n : Nat) : Option Nat :=
  if gsivs.length = 1 then gsivs[0]? else gsivs[n]?

-- No entry is read or stored that is not there, and every interrupt is that of a specifier of the node.
structure PmuLegal (numOfPe : Nat) (trace : PmuTrace) : Prop where
  table : ∀ i ∈ trace.compatibles, i < pmuDtArr.length
  bound : ∀ write ∈ trace.writes, write.pe < numOfPe
  cells : ∀ write ∈ trace.writes, ∃ k < specifierCount fdt write.node,
    write.cell = k * specifierCells fdt write.node ∧ write.gsiv = nodeGsiv fdt write.node k

structure PmuRight (numOfPe : Nat) (nodes : List Nat) (trace : PmuTrace) : Prop extends
    PmuLegal fdt numOfPe trace where
  visits : ∀ node ∈ nodes, (node : Int) ∈ trace.nodes
  gsivs  : ∀ before, ∀ n < numOfPe, ∀ gsiv ∈ pmuGsivOf (nodes.flatMap fun node : Nat => nodeGsivs fdt node) n,
    trace.pmuGsiv before n = gsiv

-- The nodes of the PMUs, in their order, and which of the strings they are compatible with.
structure PmuTree (nodes : List Nat) (compatible : Nat → Nat → Bool) : Prop where
  sorted     : nodes.Pairwise (· < ·)
  lists      : ∀ i (hi : i < pmuDtArr.length), fdt.Lists pmuDtArr[i] (nodes.filter (compatible i))
  compatible : ∀ node ∈ nodes, ∃ i < pmuDtArr.length, compatible i node
  cells      : ∀ node ∈ nodes, ∃ cells, fdtInterruptCells fdt node = some cells ∧ 1 ≤ cells ∧ cells ≤ 3

end

section

variable (nodes : List Nat) (compatible : Nat → Nat → Bool)

-- The node that is found first with the `k`-th string or one after it.
def pmuFound (k : Nat) : Option Nat :=
  (List.range' k (pmuDtArr.length - k)).findSome? fun i => nodes.find? (compatible i)

-- The node after `node` that is compatible with the `c`-th string, or else the one that is found first with the
-- strings after it.
def pmuNext (node c : Nat) : Option Nat :=
  (nodes.find? fun next => compatible c next && decide ((node : Int) < (next : Nat))).or
    (pmuFound nodes compatible (c + 1))

end

-- There is one node and the variable of the loops stays below its end, or a second one without interrupts comes
-- next.
def PmuCondition (fdt : Libfdt) (numOfPe : Nat) (nodes : List Nat) (compatible : Nat → Nat → Bool) : Prop :=
  ∀ node ∈ pmuFound nodes compatible 0,
    specifierCount fdt node ≤ 1 ∧ nodes = [node] ∨
      2 ≤ specifierCount fdt node ∧ specifierCount fdt node ≤ numOfPe ∧
        specifierCount fdt node < pmuDtArr.length ∧
        match pmuNext nodes compatible node (specifierCount fdt node) with
        | none      => nodes = [node]
        | some next => specifierCount fdt next = 0 ∧ ∀ n ∈ nodes, n = node ∨ n = next

section

variable {fdt : Libfdt} {beyond : Nat → String} {numOfPe : Nat} {nodes : List Nat} {compatible : Nat → Nat → Bool}

theorem PmuTree.nodup (h : PmuTree fdt nodes compatible) : nodes.Nodup :=
  h.sorted.imp fun hlt => hlt.ne

section Search

variable {k : Nat}

-- A node, or the error of a search that finds none.
def offsetOf : Option Nat → Int
  | some node => node
  | none      => -fdtErrNotfound

theorem search_filter {i : Nat} {start : Int} :
    Libfdt.search (nodes.filter (compatible i)) start =
      offsetOf (nodes.find? fun node => compatible i node && decide (start < (node : Nat))) := by
  rw [Libfdt.search, List.find?_filter]
  simp only [Bool.decide_and, Bool.decide_eq_true]
  cases nodes.find? fun node => compatible i node && decide (start < (node : Nat)) <;> rfl

theorem PmuTree.search (h : PmuTree fdt nodes compatible) {i : Nat} {start : Int} (hi : i < pmuDtArr.length)
    (hs : -1 ≤ start) :
    fdt.nodeOffsetByCompatible start (compatibleAt beyond i) =
      offsetOf (nodes.find? fun node => compatible i node && decide (start < (node : Nat))) := by
  have hlists := (h.lists i hi).search start hs
  rw [search_filter] at hlists
  rw [←hlists, compatibleAt, List.getD_eq_getElem?_getD, List.getElem?_eq_getElem hi, Option.getD_some]

theorem find?_neg_one {p : Nat → Bool} :
    (nodes.find? fun node => p node && decide ((-1 : Int) < (node : Nat))) = nodes.find? p := by
  congr 1
  funext node
  have hn : (-1 : Int) < (node : Nat) := by omega
  simp [hn]

theorem pmuFound_succ (hk : k < pmuDtArr.length) :
    pmuFound nodes compatible k = (nodes.find? (compatible k)).or (pmuFound nodes compatible (k + 1)) := by
  have hlen : pmuDtArr.length - k = (pmuDtArr.length - (k + 1)) + 1 := by omega
  rw [pmuFound, hlen, List.range'_succ, List.findSome?_cons, pmuFound]
  cases nodes.find? (compatible k) <;> rfl

theorem pmuFound_end (hk : pmuDtArr.length ≤ k) : pmuFound nodes compatible k = none := by
  rw [pmuFound, Nat.sub_eq_zero_of_le hk]
  rfl

theorem pmuFound_mem {node : Nat} (h : pmuFound nodes compatible k = some node) : node ∈ nodes := by
  have ⟨_, _, hf⟩ := List.exists_of_findSome?_eq_some h
  exact List.mem_of_find?_eq_some hf

theorem pmuNext_mem {node c next : Nat} (h : pmuNext nodes compatible node c = some next) : next ∈ nodes := by
  rcases Option.or_eq_some_iff.mp h with h | ⟨_, h⟩
  · exact List.mem_of_find?_eq_some h
  · exact pmuFound_mem h

-- A node is found if there is one.
theorem PmuTree.found (h : PmuTree fdt nodes compatible) (hn : nodes ≠ []) :
    ∃ node, pmuFound nodes compatible 0 = some node := by
  have ⟨node, hm⟩ := List.exists_mem_of_ne_nil nodes hn
  have ⟨i, hi, hc⟩ := h.compatible node hm
  apply Option.isSome_iff_exists.mp
  rw [pmuFound, List.findSome?_isSome_iff]
  exact ⟨i, by simpa using hi, List.find?_isSome.mpr ⟨node, hm, hc⟩⟩

end Search

section Step

variable {i index ptr : Nat} {cs : List Nat} {ns : List Int} {ws : List PmuWrite} {node : Nat}

theorem PmuTree.cells_eq (h : PmuTree fdt nodes compatible) (hn : node ∈ nodes) :
    fdtInterruptCells fdt node = some (specifierCells fdt node : Int) ∧
      1 ≤ specifierCells fdt node ∧ specifierCells fdt node ≤ 3 := by
  have ⟨cells, hc, hl, hu⟩ := h.cells node hn
  have he : specifierCells fdt node = cells.toNat := by rw [specifierCells, hc, Option.getD_some]
  rw [hc, he]
  refine ⟨?_, by omega, by omega⟩
  rw [Int.toNat_of_nonneg (by omega)]

theorem pmuStep_node :
    pmuStep fdt beyond numOfPe ⟨i, index, ptr, some (node : Int), ⟨cs, ns, ws⟩⟩ =
      pmuNode fdt beyond numOfPe ⟨i, index, ptr, some (node : Int), ⟨cs, ns, ws⟩⟩ node := by
  have hne : (node : Int) ≠ -fdtErrNotfound := by
    rw [fdtErrNotfound]
    omega
  rw [pmuStep]
  exact if_neg hne

-- Each specifier is behind the one before it.
theorem pmuSpecifier_snd {cells : Nat} {intr : Nat → BitVec 32} (hl : 1 ≤ cells) (hu : cells ≤ 3) :
    (pmuSpecifier cells intr index).snd = index + cells := by
  interval_cases cells <;> rfl

theorem store_iterate {cells : Nat} {intr : Nat → BitVec 32} {c : PmuCursor} (hl : 1 ≤ cells) (hu : cells ≤ 3)
    (count : Nat) :
    (·.store (node : Int) cells intr)^[count] c =
      { c with
        index := c.index + count * cells
        ptr := c.ptr + count
        trace.writes := c.trace.writes ++ (List.range count).map fun k =>
          ⟨c.ptr + k, node, c.index + k * cells, (pmuSpecifier cells intr (c.index + k * cells)).fst⟩ } := by
  induction count
  case zero => simp
  case succ count hi =>
    rw [Function.iterate_succ_apply', hi, PmuCursor.store, List.range_succ, List.map_append]
    simp only [pmuSpecifier_snd hl hu, List.append_assoc, List.map_singleton]
    congr 1
    rw [Nat.succ_mul, Nat.add_assoc]

-- A node without a specifier ends the function.
theorem pmuStep_none (h : PmuTree fdt nodes compatible) (hn : node ∈ nodes) (hc : specifierCount fdt node = 0) :
    pmuStep fdt beyond numOfPe ⟨i, index, ptr, some (node : Int), ⟨cs, ns, ws⟩⟩ =
      .inr ⟨i, index, ptr, some (node : Int), ⟨cs, ns ++ [(node : Int)], ws⟩⟩ := by
  have ⟨hcells, hl, hu⟩ := h.cells_eq hn
  rw [pmuStep_node, pmuNode, hcells]
  rw [specifierCount, hcells] at hc
  cases hp : fdt.getprop node "interrupts"
  case none => rfl
  case some intr =>
    rw [hp] at hc
    dsimp only
    rw [if_neg (by omega), if_pos hc]
    rfl

-- So does one with a single specifier, which it gives to as many entries as there are PEs.
theorem pmuStep_single (h : PmuTree fdt nodes compatible) (hn : node ∈ nodes) (hc : specifierCount fdt node = 1) :
    pmuStep fdt beyond numOfPe ⟨i, index, ptr, some (node : Int), ⟨cs, ns, ws⟩⟩ =
      .inr ⟨numOfPe, index, ptr + numOfPe, some (node : Int), ⟨cs, ns ++ [(node : Int)],
        ws ++ (List.range numOfPe).map fun pe => ⟨ptr + pe, node, 0, gsivAt fdt node 0⟩⟩⟩ := by
  have ⟨hcells, hl, hu⟩ := h.cells_eq hn
  rw [pmuStep_node, pmuNode, hcells]
  rw [specifierCount, hcells] at hc
  cases hp : fdt.getprop node "interrupts"
  case none =>
    rw [hp] at hc
    cases hc
  case some intr =>
    rw [hp] at hc
    have hg : gsivAt fdt node 0 = (pmuSpecifier (specifierCells fdt node) intr.cells 0).fst := by
      rw [gsivAt, hp, hcells, Option.getD_some]
    dsimp only at hc ⊢
    rw [if_neg (by omega), if_neg (by omega), if_pos hc, hg]
    rfl

-- The others fill one entry for each specifier, from where the one before left off.
theorem pmuStep_many (h : PmuTree fdt nodes compatible) (hn : node ∈ nodes) (hc : 2 ≤ specifierCount fdt node) :
    pmuStep fdt beyond numOfPe ⟨i, index, ptr, some (node : Int), ⟨cs, ns, ws⟩⟩ =
      .inl ⟨specifierCount fdt node, index + specifierCount fdt node * specifierCells fdt node,
        ptr + specifierCount fdt node,
        some (fdt.nodeOffsetByCompatible node (compatibleAt beyond (specifierCount fdt node))),
        ⟨cs ++ [specifierCount fdt node], ns ++ [(node : Int)],
          ws ++ (List.range (specifierCount fdt node)).map fun k =>
            ⟨ptr + k, node, index + k * specifierCells fdt node,
              gsivAt fdt node (index + k * specifierCells fdt node)⟩⟩⟩ := by
  have ⟨hcells, hl, hu⟩ := h.cells_eq hn
  rw [pmuStep_node, pmuNode, hcells]
  cases hp : fdt.getprop node "interrupts"
  case none =>
    rw [specifierCount, hp] at hc
    exact absurd (show 2 ≤ 0 from hc) (by decide)
  case some intr =>
    have hcount : specifierCount fdt node = intr.len / 4 / specifierCells fdt node := by
      rw [specifierCount, hp, hcells]
      rfl
    have hg (cell : Nat) : gsivAt fdt node cell = (pmuSpecifier (specifierCells fdt node) intr.cells cell).fst := by
      rw [gsivAt, hp, hcells, Option.getD_some]
    simp only [hg]
    rw [if_neg (by omega), Int.toNat_natCast, ←hcount, if_neg (by omega), if_neg (by omega), store_iterate hl hu]
    rfl

theorem pmuStep_found {k : Nat} (hk : k < pmuDtArr.length)
    (ho : fdt.nodeOffsetByCompatible (-1) (compatibleAt beyond k) = (node : Int)) :
    pmuStep fdt beyond numOfPe ⟨k, index, ptr, none, ⟨cs, ns, ws⟩⟩ =
      .inl ⟨k, index, ptr, some (node : Int), ⟨cs ++ [k], ns, ws⟩⟩ := by
  simp only [pmuStep, if_pos hk, PmuCursor.search, ho]
  rw [if_neg (by omega)]

theorem pmuStep_not_found {k : Nat} (hk : k < pmuDtArr.length)
    (ho : fdt.nodeOffsetByCompatible (-1) (compatibleAt beyond k) = -fdtErrNotfound) :
    pmuStep fdt beyond numOfPe ⟨k, index, ptr, none, ⟨cs, ns, ws⟩⟩ =
      .inl ⟨k + 1, index, ptr, none, ⟨cs ++ [k], ns, ws⟩⟩ := by
  simp only [pmuStep, if_pos hk, PmuCursor.search, ho]
  rw [if_pos (by decide)]

end Step

section Searches

variable {i k index ptr : Nat} {cs : List Nat} {ns : List Int} {ws : List PmuWrite} {offset : Option Int}

-- What the searches come to: the node that is found, or the end of the function.
def SearchEnds (fdt : Libfdt) (beyond : Nat → String) (numOfPe : Nat) (c : PmuCursor) (found : Option Nat) : Prop :=
  ∃ i l, (∀ x ∈ l, x < pmuDtArr.length) ∧
    let trace : PmuTrace := ⟨c.trace.compatibles ++ l, c.trace.nodes, c.trace.writes⟩
    match found with
    | some node => Loop.Goes (pmuStep fdt beyond numOfPe) c ⟨i, c.index, c.ptr, some (node : Int), trace⟩
    | none      => ∃ n, Loop.Leaves (pmuStep fdt beyond numOfPe) n c ⟨i, c.index, c.ptr, none, trace⟩

theorem SearchEnds.head {i' : Nat} {offset' : Option Int} {l : List Nat} {found : Option Nat}
    (hl : ∀ x ∈ l, x < pmuDtArr.length)
    (hs : pmuStep fdt beyond numOfPe ⟨i, index, ptr, offset, ⟨cs, ns, ws⟩⟩ =
      .inl ⟨i', index, ptr, offset', ⟨cs ++ l, ns, ws⟩⟩)
    (h : SearchEnds fdt beyond numOfPe ⟨i', index, ptr, offset', ⟨cs ++ l, ns, ws⟩⟩ found) :
    SearchEnds fdt beyond numOfPe ⟨i, index, ptr, offset, ⟨cs, ns, ws⟩⟩ found := by
  have ⟨j, l', hl', h⟩ := h
  refine ⟨j, l ++ l', fun x hx => (List.mem_append.mp hx).elim (hl x) (hl' x), ?_⟩
  rw [List.append_assoc] at h
  cases found
  case some node => exact (Loop.Goes.single hs).trans h
  case none =>
    have ⟨n, h⟩ := h
    exact ⟨n + 1, .next hs h⟩

theorem SearchEnds.found {node : Nat} :
    SearchEnds fdt beyond numOfPe ⟨i, index, ptr, some (node : Int), ⟨cs, ns, ws⟩⟩ (some node) := by
  refine ⟨i, [], fun _ h => absurd h List.not_mem_nil, ?_⟩
  rw [List.append_nil]
  exact Relation.ReflTransGen.refl

-- The strings are searched for from the `k`-th one on.
theorem searchEnds_found (h : PmuTree fdt nodes compatible) (k : Nat) :
    SearchEnds fdt beyond numOfPe ⟨k, index, ptr, none, ⟨cs, ns, ws⟩⟩ (pmuFound nodes compatible k) := by
  induction hm : pmuDtArr.length - k generalizing k cs
  case zero =>
    rw [pmuFound_end (by omega)]
    refine ⟨k, [], fun _ h => absurd h List.not_mem_nil, 1, ?_⟩
    rw [List.append_nil]
    exact .now (if_neg (show ¬k < pmuDtArr.length by omega))
  case succ m hi =>
    have hk : k < pmuDtArr.length := by omega
    have hl : ∀ x ∈ [k], x < pmuDtArr.length := fun x hx => List.mem_singleton.mp hx ▸ hk
    have hsearch : fdt.nodeOffsetByCompatible (-1) (compatibleAt beyond k) = _ := h.search hk (le_refl (-1))
    rw [find?_neg_one] at hsearch
    rw [pmuFound_succ hk]
    cases hfind : nodes.find? (compatible k)
    case none =>
      rw [hfind] at hsearch
      exact .head hl (pmuStep_not_found hk hsearch) (hi (k + 1) (by omega))
    case some node =>
      rw [hfind] at hsearch
      exact .head hl (pmuStep_found hk hsearch) .found

-- Behind a node, the variable of the loops is the number of its specifiers.
theorem searchEnds_next (h : PmuTree fdt nodes compatible) {node count : Nat} (hc : count < pmuDtArr.length) :
    SearchEnds fdt beyond numOfPe
      ⟨count, index, ptr, some (fdt.nodeOffsetByCompatible node (compatibleAt beyond count)), ⟨cs, ns, ws⟩⟩
      (pmuNext nodes compatible node count) := by
  rw [h.search hc (by omega), pmuNext]
  cases nodes.find? fun next => compatible count next && decide ((node : Int) < (next : Nat))
  case some next => exact .found
  case none =>
    have hl : ∀ x ∈ [], x < pmuDtArr.length := fun _ h => absurd h List.not_mem_nil
    apply SearchEnds.head hl
    · rw [List.append_nil]
      rfl
    · rw [List.append_nil]
      exact searchEnds_found h (count + 1)

end Searches

section Legal

variable {trace trace' : PmuTrace} {c c' : PmuCursor}

-- What has been read and stored stays so.
structure PmuTrace.Extends (trace trace' : PmuTrace) : Prop where
  compatibles : trace.compatibles ⊆ trace'.compatibles
  writes      : trace.writes ⊆ trace'.writes

theorem PmuTrace.Extends.refl : trace.Extends trace :=
  ⟨List.Subset.refl _, List.Subset.refl _⟩

theorem PmuTrace.Extends.trans {trace'' : PmuTrace} (h : trace.Extends trace') (h' : trace'.Extends trace'') :
    trace.Extends trace'' :=
  ⟨List.Subset.trans h.compatibles h'.compatibles, List.Subset.trans h.writes h'.writes⟩

theorem PmuLegal.of_extends (h : PmuLegal fdt numOfPe trace') (he : trace.Extends trace') :
    PmuLegal fdt numOfPe trace where
  table := fun i hi => h.table i (he.compatibles hi)
  bound := fun write hw => h.bound write (he.writes hw)
  cells := fun write hw => h.cells write (he.writes hw)

theorem extends_visit {node : Int} : c.trace.Extends (c.visit node).trace :=
  ⟨List.Subset.refl _, List.Subset.refl _⟩

theorem extends_storeAll {node cells : Int} {intr : Nat → BitVec 32} :
    c.trace.Extends (c.storeAll numOfPe node cells intr).trace :=
  ⟨List.Subset.refl _, List.subset_append_left ..⟩

theorem extends_store {node cells : Int} {intr : Nat → BitVec 32} : c.trace.Extends (c.store node cells intr).trace :=
  ⟨List.Subset.refl _, List.subset_append_left ..⟩

theorem extends_stores (node cells : Int) (intr : Nat → BitVec 32) (count : Nat) (c : PmuCursor) :
    c.trace.Extends ((·.store node cells intr)^[count] c).trace := by
  induction count generalizing c
  case zero          => exact .refl
  case succ count hi => exact extends_store.trans (hi _)

theorem extends_search (fdt : Libfdt) (beyond : Nat → String) (c : PmuCursor) (start : Int) :
    c.trace.Extends (c.search fdt beyond start).snd.trace :=
  ⟨List.subset_append_left .., List.Subset.refl _⟩

theorem pmuNode_extends {offset : Int} :
    Sum.elim (fun c' => c.trace.Extends c'.trace) (fun c' => c.trace.Extends c'.trace)
      (pmuNode fdt beyond numOfPe c offset) := by
  rw [pmuNode]
  dsimp only
  split
  case h_1 => exact extends_visit
  case h_2 intr _ =>
    split
    case h_1 => exact .refl
    case h_2 cells _ =>
      split
      case isTrue  => exact extends_visit
      case isFalse =>
        split
        case isTrue  => exact extends_visit
        case isFalse =>
          split
          case isTrue  => exact extends_visit.trans extends_storeAll
          case isFalse =>
            have hstores := extends_stores offset cells intr.cells (intr.len / 4 / cells.toNat) (c.visit offset)
            generalize (·.store offset cells intr.cells)^[intr.len / 4 / cells.toNat] (c.visit offset) = c' at hstores
            have hsearch := extends_search fdt beyond { c' with i := intr.len / 4 / cells.toNat } offset
            exact (extends_visit.trans hstores).trans hsearch

theorem pmuStep_extends :
    Sum.elim (fun c' => c.trace.Extends c'.trace) (fun c' => c.trace.Extends c'.trace)
      (pmuStep fdt beyond numOfPe c) := by
  rw [pmuStep]
  split
  case h_1 =>
    split
    case isTrue =>
      dsimp only
      split
      · exact extends_search fdt beyond c (-1)
      · exact extends_search fdt beyond c (-1)
    case isFalse => exact .refl
  case h_2 =>
    split
    case isTrue  => exact .refl
    case isFalse => exact pmuNode_extends

-- Once the function has read or stored what is not there, it has at its end.
theorem not_legal_of_leaves {n : Nat} (hb : ¬PmuLegal fdt numOfPe c.trace)
    (h : Loop.Leaves (pmuStep fdt beyond numOfPe) n c c') : ¬PmuLegal fdt numOfPe c'.trace := by
  refine h.invariant (I := fun c => ¬PmuLegal fdt numOfPe c.trace)
    (Q := fun c => ¬PmuLegal fdt numOfPe c.trace) ?_ ?_ hb
  · intro p q hp hs hq
    have he : Sum.elim _ _ (pmuStep fdt beyond numOfPe p) := pmuStep_extends
    rw [hs] at he
    exact hp (hq.of_extends he)
  · intro p r hp hs hr
    have he : Sum.elim _ _ (pmuStep fdt beyond numOfPe p) := pmuStep_extends
    rw [hs] at he
    exact hp (hr.of_extends he)

end Legal

section Writes

variable {cs : List Nat} {ns : List Int} {ws : List PmuWrite} {node : Nat} {index ptr : Nat}

-- The first node is read from its first cell, into the first entries.
def firstWrites (fdt : Libfdt) (node : Nat) : List PmuWrite :=
  (List.range (specifierCount fdt node)).map fun k =>
    ⟨0 + k, node, 0 + k * specifierCells fdt node, gsivAt fdt node (0 + k * specifierCells fdt node)⟩

theorem legal_first (hc : ∀ i ∈ cs, i < pmuDtArr.length) (hn : specifierCount fdt node ≤ numOfPe) :
    PmuLegal fdt numOfPe ⟨cs, ns, firstWrites fdt node⟩ where
  table := hc
  bound := by
    intro write hw
    have ⟨k, hk, he⟩ := List.mem_map.mp hw
    have := List.mem_range.mp hk
    subst he
    exact show 0 + k < numOfPe by omega
  cells := by
    intro write hw
    have ⟨k, hk, he⟩ := List.mem_map.mp hw
    subst he
    simp only [Nat.zero_add]
    exact ⟨k, List.mem_range.mp hk, rfl, rfl⟩

theorem fits_of_legal_first (hc : 2 ≤ specifierCount fdt node)
    (h : PmuLegal fdt numOfPe ⟨cs ++ [specifierCount fdt node], ns, firstWrites fdt node⟩) :
    specifierCount fdt node ≤ numOfPe ∧ specifierCount fdt node < pmuDtArr.length := by
  have hlast : specifierCount fdt node - 1 ∈ List.range (specifierCount fdt node) := List.mem_range.mpr (by omega)
  have hb := h.bound _ (List.mem_map_of_mem hlast)
  dsimp only at hb
  exact ⟨by omega, h.table _ (List.mem_append_right _ (List.mem_singleton_self _))⟩

-- A node after it is not: the last of its specifiers is read from behind its end.
theorem not_legal_shifted (hi : 0 < index) (hc : 0 < specifierCount fdt node) :
    ¬PmuLegal fdt numOfPe ⟨cs, ns, ws ++ (List.range (specifierCount fdt node)).map fun k =>
      ⟨ptr + k, node, index + k * specifierCells fdt node,
        gsivAt fdt node (index + k * specifierCells fdt node)⟩⟩ := by
  intro h
  have hlast : specifierCount fdt node - 1 ∈ List.range (specifierCount fdt node) := List.mem_range.mpr (by omega)
  have ⟨k, hk, hcell, _⟩ := h.cells _ (List.mem_append_right _ (List.mem_map_of_mem hlast))
  have hle : k * specifierCells fdt node ≤ (specifierCount fdt node - 1) * specifierCells fdt node :=
    Nat.mul_le_mul_right _ (Nat.le_sub_one_of_lt hk)
  dsimp only at hcell
  omega

-- Nor is there an entry for the last PE, if one interrupt is for all of them.
theorem not_legal_all {gsiv : Nat} (hp : 0 < ptr) (hn : 0 < numOfPe) :
    ¬PmuLegal fdt numOfPe ⟨cs, ns, ws ++ (List.range numOfPe).map fun pe => ⟨ptr + pe, node, 0, gsiv⟩⟩ := by
  intro h
  have hlast : numOfPe - 1 ∈ List.range numOfPe := List.mem_range.mpr (by omega)
  have hb := h.bound _ (List.mem_append_right _ (List.mem_map_of_mem hlast))
  dsimp only at hb
  omega

theorem pmuGsiv_range {write : Nat → PmuWrite} (hpe : ∀ k, (write k).pe = k) {m n : Nat} {before : Nat → Nat}
    (hn : n < m) : (⟨cs, ns, (List.range m).map write⟩ : PmuTrace).pmuGsiv before n = (write n).gsiv := by
  induction m
  case zero => omega
  case succ m hi =>
    rw [PmuTrace.pmuGsiv, List.range_succ, List.map_append, List.foldl_append, List.map_singleton,
      List.foldl_cons, List.foldl_nil, hpe]
    by_cases he : n = m
    case pos =>
      rw [he]
      exact Function.update_self ..
    case neg =>
      rw [Function.update_of_ne he]
      exact hi (by omega)

end Writes

section Right

variable {node next : Nat} {trace : PmuTrace}

theorem flatMap_nodeGsivs (hd : nodes.Nodup) (hm : node ∈ nodes)
    (hz : ∀ n ∈ nodes, n ≠ node → specifierCount fdt n = 0) :
    (nodes.flatMap fun n : Nat => nodeGsivs fdt n) = nodeGsivs fdt node := by
  have hnil (n : Nat) (h : specifierCount fdt n = 0) : nodeGsivs fdt n = [] := by rw [nodeGsivs, h]; rfl
  have ⟨pre, post, he⟩ := List.append_of_mem hm
  subst he
  have ⟨_, hpost, hpre⟩ := List.nodup_append.mp hd
  have hprenil : (pre.flatMap fun n : Nat => nodeGsivs fdt n) = [] := by
    apply List.flatMap_eq_nil_iff.mpr
    intro n hn
    exact hnil n (hz n (List.mem_append_left _ hn) (hpre n hn node List.mem_cons_self))
  have hpostnil : (post.flatMap fun n : Nat => nodeGsivs fdt n) = [] := by
    apply List.flatMap_eq_nil_iff.mpr
    intro n hn
    have hne : n ≠ node := fun he => (List.nodup_cons.mp hpost).left (he ▸ hn)
    exact hnil n (hz n (List.mem_append_right _ (List.mem_cons_of_mem _ hn)) hne)
  rw [List.flatMap_append, List.flatMap_cons, hprenil, hpostnil, List.nil_append, List.append_nil]

theorem eq_of_mem_visited {n : Nat} (h : (n : Int) ∈ [(node : Int)]) : n = node :=
  Int.ofNat.inj (List.mem_singleton.mp h)

theorem eq_singleton_iff (hd : nodes.Nodup) (hm : node ∈ nodes) :
    (∀ n ∈ nodes, (n : Int) ∈ [(node : Int)]) ↔ nodes = [node] := by
  constructor
  case mp =>
    intro h
    have hall : ∀ n ∈ nodes, n = node := fun n hn => eq_of_mem_visited (h n hn)
    have hr := List.eq_replicate_of_mem hall
    rw [hr, List.nodup_replicate] at hd
    have hpos : 0 < nodes.length := List.length_pos_of_mem hm
    rw [hr, show nodes.length = 1 by omega]
    rfl
  case mpr =>
    intro h n hn
    rw [h] at hn
    rw [List.mem_singleton.mp hn]
    exact List.mem_singleton_self _

-- If the entries have the interrupts of one node and no other one has any, only the visits are left.
theorem right_iff (h : PmuTree fdt nodes compatible) (hm : node ∈ nodes) (hl : PmuLegal fdt numOfPe trace)
    (hz : ∀ n : Nat, (n : Int) ∈ trace.nodes → n ≠ node → specifierCount fdt n = 0)
    (hg : ∀ before, ∀ n < numOfPe, ∀ gsiv ∈ pmuGsivOf (nodeGsivs fdt node) n, trace.pmuGsiv before n = gsiv) :
    PmuRight fdt numOfPe nodes trace ↔ ∀ n ∈ nodes, (n : Int) ∈ trace.nodes := by
  constructor
  case mp  => exact PmuRight.visits
  case mpr =>
    intro hv
    refine ⟨hl, hv, ?_⟩
    rw [flatMap_nodeGsivs h.nodup hm fun n hn => hz n (hv n hn)]
    exact hg

theorem pmuGsivOf_of_zero {n : Nat} (hc : specifierCount fdt node = 0) : pmuGsivOf (nodeGsivs fdt node) n = none := by
  rw [nodeGsivs, hc]
  rfl

theorem pmuGsivOf_of_one {n : Nat} (hc : specifierCount fdt node = 1) :
    pmuGsivOf (nodeGsivs fdt node) n = some (gsivAt fdt node 0) := by
  rw [nodeGsivs, hc]
  simp [pmuGsivOf, nodeGsiv]

theorem pmuGsivOf_of_many {n gsiv : Nat} (hc : 2 ≤ specifierCount fdt node)
    (h : gsiv ∈ pmuGsivOf (nodeGsivs fdt node) n) : n < specifierCount fdt node ∧ nodeGsiv fdt node n = gsiv := by
  have hlen : (nodeGsivs fdt node).length = specifierCount fdt node := by
    rw [nodeGsivs, List.length_map, List.length_range]
  rw [pmuGsivOf, if_neg (by omega)] at h
  have ⟨hn, he⟩ := List.getElem?_eq_some_iff.mp h
  rw [hlen] at hn
  refine ⟨hn, ?_⟩
  simpa [nodeGsivs] using he

theorem pmuGsiv_firstWrites {cs : List Nat} {ns : List Int} (hc : 2 ≤ specifierCount fdt node) {before : Nat → Nat}
    {n gsiv : Nat} (h : gsiv ∈ pmuGsivOf (nodeGsivs fdt node) n) :
    (⟨cs, ns, firstWrites fdt node⟩ : PmuTrace).pmuGsiv before n = gsiv := by
  have ⟨hn, he⟩ := pmuGsivOf_of_many hc h
  rw [←he, nodeGsiv, firstWrites, pmuGsiv_range (fun k => Nat.zero_add k) hn]
  simp only [Nat.zero_add]

end Right

section Runs

variable {node next n : Nat} {r : PmuCursor}

-- The function returns, with a trace that is right.
def PmuReturns (fdt : Libfdt) (beyond : Nat → String) (numOfPe : Nat) (nodes : List Nat) : Prop :=
  ∃ fuel trace, palPeInfoTablePmuGsivDt fdt beyond numOfPe fuel = some trace ∧ PmuRight fdt numOfPe nodes trace

theorem pmuReturns_iff_leaves : PmuReturns fdt beyond numOfPe nodes ↔
    ∃ n r, Loop.Leaves (pmuStep fdt beyond numOfPe) n .start r ∧ PmuRight fdt numOfPe nodes r.trace := by
  constructor
  case mp =>
    intro ⟨fuel, trace, hrun, hr⟩
    have ⟨r, hrun, he⟩ := Option.map_eq_some_iff.mp hrun
    have ⟨n, _, hl⟩ := Loop.Leaves.of_run hrun
    exact ⟨n, r, hl, he ▸ hr⟩
  case mpr =>
    intro ⟨n, r, hl, hr⟩
    refine ⟨n, r.trace, ?_, hr⟩
    rw [palPeInfoTablePmuGsivDt, hl.run (le_refl n), Option.map_some]

theorem pmuReturns_iff (hl : Loop.Leaves (pmuStep fdt beyond numOfPe) n .start r) :
    PmuReturns fdt beyond numOfPe nodes ↔ PmuRight fdt numOfPe nodes r.trace := by
  rw [pmuReturns_iff_leaves]
  constructor
  case mp =>
    intro ⟨m, r', hl', hr⟩
    rwa [(hl.deterministic hl').right]
  case mpr => exact fun hr => ⟨n, r, hl, hr⟩

theorem not_pmuReturns (hg : Loop.Goes (pmuStep fdt beyond numOfPe) .start r) (hb : ¬PmuLegal fdt numOfPe r.trace) :
    ¬PmuReturns fdt beyond numOfPe nodes := by
  rw [pmuReturns_iff_leaves]
  intro ⟨_, r', hl, hr⟩
  have ⟨_, hl'⟩ := hg.of_leaves hl
  exact not_legal_of_leaves hb hl' hr.toPmuLegal

-- The function with the node that is found first, by the number of its specifiers.
section First

variable {i : Nat} {cs : List Nat} (h : PmuTree fdt nodes compatible) (hm : node ∈ nodes)
  (hcs : ∀ i ∈ cs, i < pmuDtArr.length)
  (hg : Loop.Goes (pmuStep fdt beyond numOfPe) .start ⟨i, 0, 0, some (node : Int), ⟨cs, [], []⟩⟩)

include h hm hcs hg

theorem pmuReturns_none (hc : specifierCount fdt node = 0) :
    PmuReturns fdt beyond numOfPe nodes ↔ nodes = [node] := by
  have ⟨_, hl⟩ := hg.leaves (.now (pmuStep_none h hm hc))
  rw [pmuReturns_iff hl, ←eq_singleton_iff h.nodup hm]
  apply right_iff h hm
  · exact ⟨hcs, fun _ hw => absurd hw List.not_mem_nil, fun _ hw => absurd hw List.not_mem_nil⟩
  · exact fun _ hn hne => absurd (eq_of_mem_visited hn) hne
  · intro before n _ gsiv hgsiv
    rw [pmuGsivOf_of_zero hc] at hgsiv
    cases hgsiv

theorem pmuReturns_single (hc : specifierCount fdt node = 1) :
    PmuReturns fdt beyond numOfPe nodes ↔ nodes = [node] := by
  have ⟨_, hl⟩ := hg.leaves (.now (pmuStep_single h hm hc))
  rw [pmuReturns_iff hl, ←eq_singleton_iff h.nodup hm]
  apply right_iff h hm
  · refine ⟨hcs, fun write hw => ?_, fun write hw => ?_⟩
    · have ⟨pe, hpe, he⟩ := List.mem_map.mp hw
      have := List.mem_range.mp hpe
      subst he
      exact show 0 + pe < numOfPe by omega
    · have ⟨pe, _, he⟩ := List.mem_map.mp hw
      subst he
      refine ⟨0, hc ▸ Nat.one_pos, (Nat.zero_mul _).symm, ?_⟩
      rw [nodeGsiv, Nat.zero_mul]
  · exact fun _ hn hne => absurd (eq_of_mem_visited hn) hne
  · intro before n hn gsiv hgsiv
    rw [pmuGsivOf_of_one hc] at hgsiv
    rw [←Option.some.inj hgsiv]
    exact pmuGsiv_range (fun k => Nat.zero_add k) hn

end First

-- Behind a first node with several specifiers.
section Next

def afterFirst (fdt : Libfdt) (beyond : Nat → String) (node : Nat) (cs : List Nat) : PmuCursor where
  i      := specifierCount fdt node
  index  := 0 + specifierCount fdt node * specifierCells fdt node
  ptr    := 0 + specifierCount fdt node
  offset := some (fdt.nodeOffsetByCompatible node (compatibleAt beyond (specifierCount fdt node)))
  trace  := ⟨cs ++ [specifierCount fdt node], [] ++ [(node : Int)], firstWrites fdt node⟩

theorem afterFirst_compatibles {cs : List Nat} (hcs : ∀ i ∈ cs, i < pmuDtArr.length)
    (ht : specifierCount fdt node < pmuDtArr.length) :
    ∀ i ∈ (afterFirst fdt beyond node cs).trace.compatibles, i < pmuDtArr.length :=
  List.forall_mem_append.mpr ⟨hcs, List.forall_mem_singleton.mpr ht⟩

variable {cs : List Nat} (h : PmuTree fdt nodes compatible) (hm : node ∈ nodes)
  (hcs : ∀ i ∈ cs, i < pmuDtArr.length)
  (hg : Loop.Goes (pmuStep fdt beyond numOfPe) .start (afterFirst fdt beyond node cs))
  (hc : 2 ≤ specifierCount fdt node)

include h hm hcs hg hc

-- It is the end if there is no other node for the strings from the number of its specifiers on.
theorem pmuReturns_last (hp : specifierCount fdt node ≤ numOfPe) (ht : specifierCount fdt node < pmuDtArr.length)
    (hn : pmuNext nodes compatible node (specifierCount fdt node) = none) :
    PmuReturns fdt beyond numOfPe nodes ↔ nodes = [node] := by
  have hnext : SearchEnds fdt beyond numOfPe (afterFirst fdt beyond node cs) _ := searchEnds_next h ht
  rw [hn] at hnext
  have ⟨_, l, hl, _, hend⟩ := hnext
  have ⟨_, hleaves⟩ := hg.leaves hend
  rw [pmuReturns_iff hleaves, ←eq_singleton_iff h.nodup hm]
  apply right_iff h hm
  · apply legal_first _ hp
    exact List.forall_mem_append.mpr ⟨afterFirst_compatibles hcs ht, hl⟩
  · exact fun _ hn hne => absurd (eq_of_mem_visited hn) hne
  · exact fun _ _ _ _ hgsiv => pmuGsiv_firstWrites hc hgsiv

-- Otherwise that node is read from a wrong cell and into entries that are not there, unless it is empty.
theorem pmuReturns_next (hp : specifierCount fdt node ≤ numOfPe) (ht : specifierCount fdt node < pmuDtArr.length)
    (hn : pmuNext nodes compatible node (specifierCount fdt node) = some next) :
    PmuReturns fdt beyond numOfPe nodes ↔
      specifierCount fdt next = 0 ∧ ∀ n ∈ nodes, n = node ∨ n = next := by
  have hnext : SearchEnds fdt beyond numOfPe (afterFirst fdt beyond node cs) _ := searchEnds_next h ht
  rw [hn] at hnext
  have ⟨_, l, hl, hgoes⟩ := hnext
  have hgoes := hg.trans hgoes
  have hm' := pmuNext_mem hn
  by_cases hz : specifierCount fdt next = 0
  case pos =>
    have ⟨_, hleaves⟩ := hgoes.leaves (.now (pmuStep_none h hm' hz))
    rw [pmuReturns_iff hleaves, and_iff_right hz, right_iff h hm]
    · simp [afterFirst]
    · apply legal_first _ hp
      exact List.forall_mem_append.mpr ⟨afterFirst_compatibles hcs ht, hl⟩
    · intro n hn hne
      have hmem : (n : Int) = node ∨ (n : Int) = next := by simpa [afterFirst] using hn
      exact (Int.ofNat.inj (hmem.resolve_left fun he => hne (Int.ofNat.inj he))) ▸ hz
    · exact fun _ _ _ _ hgsiv => pmuGsiv_firstWrites hc hgsiv
  case neg =>
    refine iff_of_false ?_ fun ⟨hz', _⟩ => hz hz'
    by_cases hone : specifierCount fdt next = 1
    case pos =>
      have ⟨_, hleaves⟩ := hgoes.leaves (.now (pmuStep_single h hm' hone))
      rw [pmuReturns_iff hleaves]
      intro hr
      exact not_legal_all (show 0 < 0 + specifierCount fdt node by omega) (by omega) hr.toPmuLegal
    case neg =>
      have hmany : 2 ≤ specifierCount fdt next := by omega
      apply not_pmuReturns (hgoes.trans (.single (pmuStep_many h hm' hmany)))
      have ⟨_, hcells, _⟩ := h.cells_eq hm
      apply not_legal_shifted
      · exact show 0 < 0 + specifierCount fdt node * specifierCells fdt node by
          rw [Nat.zero_add]
          exact Nat.mul_pos (by omega) hcells
      · omega

end Next

-- The function is right if and only if there is one node, or a second one without interrupts comes next.
theorem pmu_gsiv_iff (fdt : Libfdt) (beyond : Nat → String) (numOfPe : Nat) (nodes : List Nat)
    (compatible : Nat → Nat → Bool) (h : PmuTree fdt nodes compatible) :
    PmuReturns fdt beyond numOfPe nodes ↔ PmuCondition fdt numOfPe nodes compatible := by
  have hfirst : SearchEnds fdt beyond numOfPe .start _ := searchEnds_found h 0
  cases hf : pmuFound nodes compatible 0
  case none =>
    rw [hf] at hfirst
    have ⟨_, l, hl, _, hend⟩ := hfirst
    have hnil : nodes = [] := by
      by_contra hne
      have ⟨_, hs⟩ := h.found hne
      cases hf.symm.trans hs
    subst hnil
    rw [pmuReturns_iff hend]
    refine iff_of_true ⟨⟨?_, ?_, ?_⟩, ?_, ?_⟩ ?_
    · exact fun i hi => hl i hi
    · exact fun _ hw => absurd hw List.not_mem_nil
    · exact fun _ hw => absurd hw List.not_mem_nil
    · exact fun _ hn => absurd hn List.not_mem_nil
    · exact fun _ _ _ _ hgsiv => by cases hgsiv
    · exact fun _ hn => by cases hf.symm.trans hn
  case some node =>
    rw [hf] at hfirst
    have ⟨_, l, hl, hgoes⟩ := hfirst
    have hm := pmuFound_mem hf
    have hcond : PmuCondition fdt numOfPe nodes compatible ↔ _ :=
      ⟨fun hc => hc node hf, fun hc node' hn => Option.some.inj (hf.symm.trans hn) ▸ hc⟩
    rw [hcond]
    rcases Nat.lt_or_ge (specifierCount fdt node) 2 with hlt | hge
    case inl =>
      rw [or_iff_left (by omega), and_iff_right (by omega)]
      by_cases hz : specifierCount fdt node = 0
      case pos => exact pmuReturns_none h hm hl hgoes hz
      case neg => exact pmuReturns_single h hm hl hgoes (by omega)
    case inr =>
      have hafter : Loop.Goes (pmuStep fdt beyond numOfPe) .start (afterFirst fdt beyond node l) :=
        hgoes.trans (.single (pmuStep_many h hm hge))
      rw [or_iff_right (by omega), and_iff_right hge]
      by_cases hfits : specifierCount fdt node ≤ numOfPe ∧ specifierCount fdt node < pmuDtArr.length
      case neg =>
        refine iff_of_false (not_pmuReturns hafter fun hlegal => hfits ?_) fun ⟨hp, ht, _⟩ => hfits ⟨hp, ht⟩
        exact fits_of_legal_first hge hlegal
      case pos =>
        have ⟨hp, ht⟩ := hfits
        rw [and_iff_right hp, and_iff_right ht]
        cases hn : pmuNext nodes compatible node (specifierCount fdt node)
        case none      => exact pmuReturns_last h hm hl hafter hge hp ht hn
        case some next => exact pmuReturns_next h hm hl hafter hge hp ht hn

end Runs

end

-- Nodes with the numbers of their strings and their SPIs.
def pmus (nodes : List Nat) (string : Nat → Nat) (spis : Nat → List (BitVec 32)) : Libfdt where
  totalsize              := 1024
  nodeOffsetByCompatible := fun start compatible =>
    Libfdt.search (nodes.filter fun node => pmuDtArr[string node]? = some compatible) start
  nodeOffsetByPhandle    := fun _ => -fdtErrNotfound
  parentOffset           := fun nodeoffset => if nodeoffset = 0 then -fdtErrNotfound else 0
  subnodeOffset          := fun _ _ => -fdtErrNotfound
  nextSubnode            := fun _ => -fdtErrNotfound
  sizeCells              := fun _ => 2
  addressCells           := fun _ => 2
  getprop                := fun nodeoffset name =>
    if nodeoffset = 0 then
      if name = "#interrupt-cells" then some ⟨4, fun _ => 3⟩ else none
    else if name = "interrupts" then
      let intr := (spis nodeoffset.toNat).flatMap fun spi => [0, spi, 4]
      some ⟨4 * intr.length, fun i => intr.getD i 0⟩
    else none

theorem pmus_tree {nodes : List Nat} {string : Nat → Nat} {spis : Nat → List (BitVec 32)}
    (hs : nodes.Pairwise (· < ·)) (hn : ∀ node ∈ nodes, 0 < node ∧ node < 1024 ∧ string node < pmuDtArr.length) :
    PmuTree (pmus nodes string spis) nodes fun i node => string node = i where
  sorted     := hs
  lists      := by
    intro i hi
    have hsub : (nodes.filter fun node => string node = i) =
        nodes.filter fun node => pmuDtArr[string node]? = some pmuDtArr[i] := by
      apply List.filter_congr
      intro node hm
      have hlt := (hn node hm).right.right
      have hd : pmuDtArr.Nodup := by decide
      simp only [List.getElem?_eq_getElem hlt, Option.some.injEq, hd.getElem_inj_iff]
    refine ⟨hs.filter _, fun node hm => (hn node (List.mem_filter.mp hm).left).right.left, fun _ _ => ?_⟩
    rw [hsub]
    rfl
  compatible := fun node hm => ⟨string node, (hn node hm).right.right, decide_eq_true rfl⟩
  cells      := by
    intro node hm
    have h0 : node ≠ 0 := (hn node hm).left.ne'
    refine ⟨3, ?_, by decide, by decide⟩
    have hfirst : interruptCellsStep (pmus nodes string spis) node = .inl 0 := by
      simp [interruptCellsStep, interruptParent, pmus, h0]
    have hroot : interruptCellsStep (pmus nodes string spis) 0 = .inr 3 := rfl
    exact (Loop.Leaves.next hfirst (.now hroot)).run (show 2 ≤ 1024 by decide)

-- One node with an SPI for each PE.
theorem one_pmu :
    PmuReturns (pmus [64] (fun _ => 0) fun _ => [20, 21, 22, 23]) (fun _ => "") 4 [64] :=
  (pmu_gsiv_iff _ _ _ _ _ (pmus_tree (by decide) (by decide))).mpr fun node hnode => by
    obtain rfl : 64 = node := Option.some.inj hnode
    have hcount : specifierCount (pmus [64] (fun _ => 0) fun _ => [20, 21, 22, 23]) (64 : Nat) = 4 := by decide +kernel
    have hnext : pmuNext [64] (fun i _ => decide (0 = i)) 64 4 = none := by decide +kernel
    rw [hcount, hnext]
    exact .inr ⟨by decide, by decide, by decide, rfl⟩

-- Two nodes, for two and for three PEs: the specifiers of the second one are read from its third one on.
theorem second_pmu_shifted :
    let fdt := pmus [64, 128] (fun node => if node = 64 then 2 else 6)
      fun node => if node = 64 then [68, 69] else [128, 129, 130]
    let writes := ((Loop.advance (pmuStep fdt (fun _ => "") 5))^[10] .start).trace.writes
    PmuTree fdt [64, 128] (fun i node => (if node = 64 then 2 else 6) = i) ∧
    writes = [⟨0, 64, 0, 100⟩, ⟨1, 64, 3, 101⟩, ⟨2, 128, 6, 162⟩, ⟨3, 128, 9, 32⟩, ⟨4, 128, 12, 32⟩] ∧
    nodeGsivs fdt 64 ++ nodeGsivs fdt 128 = [100, 101, 160, 161, 162] ∧
    ¬PmuReturns fdt (fun _ => "") 5 [64, 128] := by
  intro fdt writes
  have hwrites : writes =
      [⟨0, 64, 0, 100⟩, ⟨1, 64, 3, 101⟩, ⟨2, 128, 6, 162⟩, ⟨3, 128, 9, 32⟩, ⟨4, 128, 12, 32⟩] := by decide +kernel
  refine ⟨pmus_tree (by decide) (by decide), hwrites, by decide +kernel, ?_⟩
  apply not_pmuReturns (Loop.Goes.iterate _ 10 _)
  intro hl
  have hmem : (⟨3, 128, 9, 32⟩ : PmuWrite) ∈ writes := by
    rw [hwrites]
    decide
  have ⟨k, (hk : k < specifierCount fdt 128), (hcell : 9 = k * specifierCells fdt 128), _⟩ := hl.cells _ hmem
  rw [show specifierCount fdt 128 = 3 by decide +kernel] at hk
  rw [show specifierCells fdt 128 = 3 by decide +kernel] at hcell
  omega

end Dt
