import BsaAcs.Dt.Watchdog
import BsaAcs.Dt.Theorems.Fdt

namespace Dt

open Wd

-- What the function reads of a node: the cells of its addresses, its interrupt and the flags of it.
structure WdNodeData where
  reg   : Nat → BitVec 32
  gsiv  : Nat
  flags : Nat

namespace WdNodeData

-- The entry of the node, if its addresses are read from the cell `index` on.
def entryAt (data : WdNodeData) (addrCell sizeCell : Int) (index : Nat) : WdInfoBlock :=
  let (ctrlBase, refreshBase) := wdAddresses addrCell sizeCell data.reg index
  ⟨ctrlBase, refreshBase, data.gsiv, data.flags⟩

theorem entryAt_eq_iff {data : WdNodeData} {a b a' b' : Int} {i i' : Nat} :
    data.entryAt a b i = data.entryAt a' b' i' ↔ wdAddresses a b data.reg i = wdAddresses a' b' data.reg i' := by
  simp [entryAt, Prod.ext_iff]

end WdNodeData

section

variable (fdt : Libfdt)

-- Nothing if a property is missing or the flags are none of those that there are.
def wdNodeData (node : Nat) : Option WdNodeData :=
  match fdt.getprop node "reg", fdt.getprop node "interrupts", fdtInterruptCells fdt node with
  | some reg, some intr, some interruptCell =>
    (wdFlags (wdInterrupt interruptCell intr.cells).2.1).map fun flags =>
      ⟨reg.cells, (wdInterrupt interruptCell intr.cells).fst, flags⟩
  | _, _, _ => none

-- The entry that a node describes: with the cells of its own parent, from its first cell on.
def wdEntry (node : Nat) : Option WdInfoBlock :=
  (wdNodeData fdt node).map
    (·.entryAt (fdt.addressCells (fdt.parentOffset node)) (fdt.sizeCells (fdt.parentOffset node)) 0)

-- What the interrupt of a node leaves in `index`.
def wdLeft (node : Nat) : Nat :=
  ((fdtInterruptCells fdt node).getD 1).toNat - 1

-- The cell that the addresses of the `j`-th node are read from.
def wdStart (index : Nat) (nodes : List Nat) : Nat → Nat
  | 0     => index
  | j + 1 => wdLeft fdt (nodes.getD j 0)

end

-- The nodes of the watchdogs, with cells that the function takes.
structure WdTree (fdt : Libfdt) (nodes : List Nat) : Prop where
  lists          : fdt.Lists "arm,sbsa-gwdt" nodes
  addressCells   : ∀ node ∈ nodes,
    1 ≤ fdt.addressCells (fdt.parentOffset node) ∧ fdt.addressCells (fdt.parentOffset node) ≤ 2
  sizeCells      : ∀ node ∈ nodes,
    1 ≤ fdt.sizeCells (fdt.parentOffset node) ∧ fdt.sizeCells (fdt.parentOffset node) ≤ 2
  interruptCells : ∀ node ∈ nodes, ∃ cells, fdtInterruptCells fdt node = some cells ∧ 1 ≤ cells ∧ cells ≤ 3

-- One entry for each node, with what the node describes.
def WdRight (fdt : Libfdt) (nodes : List Nat) (result : Option WdInfoTable) : Prop :=
  ∃ table, result = some table ∧ table.numWd = nodes.length ∧
    ∀ j (hj : j < nodes.length), wdEntry fdt nodes[j] = some (table.wdInfo j)

section

variable {fdt : Libfdt} {node : Nat} {nodes pre : List Nat} {addrCell sizeCell : Int} {data : WdNodeData}
  (c : WdCursor)

theorem wdInterrupt_left {cells : Int} {intr : Nat → BitVec 32} (hl : 1 ≤ cells) (hu : cells ≤ 3) :
    (wdInterrupt cells intr).2.2 = cells.toNat - 1 := by
  rw [wdInterrupt]
  split
  case isTrue h => subst h; rfl
  case isFalse h3 =>
    split
    case isTrue h => subst h; rfl
    case isFalse h2 =>
      obtain rfl : cells = 1 := by omega
      rfl

theorem wdNode_of_data (hc : ∃ cells, fdtInterruptCells fdt node = some cells ∧ 1 ≤ cells ∧ cells ≤ 3)
    (hd : wdNodeData fdt node = some data) :
    wdNode fdt addrCell sizeCell c node =
      .ok ⟨c.fill (data.entryAt addrCell sizeCell c.index), wdLeft fdt node⟩ := by
  have ⟨cells, hcells, hl, hu⟩ := hc
  rw [wdNodeData, hcells] at hd
  split at hd
  case h_2 => cases hd
  case h_1 reg intr _ hreg hintr he =>
    have ⟨flags, hf, hdata⟩ := Option.map_eq_some_iff.mp hd
    obtain rfl := Option.some.inj he
    have hleft : wdLeft fdt node = (wdInterrupt cells intr.cells).2.2 := by
      rw [wdInterrupt_left hl hu, wdLeft, hcells, Option.getD_some]
    rw [hleft, ←hdata]
    simp only [wdNode, hreg, hintr, hcells, hf]
    rw [if_neg (by omega)]
    rfl

-- The loop goes over the nodes in their order.
theorem wdLoop_eq {compatible : String} {fuel : Nat} (h : fdt.Lists compatible (pre ++ nodes))
    (hf : nodes.length < fuel) :
    wdLoop fdt compatible addrCell sizeCell fuel (Libfdt.first nodes) c =
      nodes.foldlM (fun c (node : Nat) => wdNode fdt addrCell sizeCell c node) c := by
  apply h.loop_eq (wdNode fdt addrCell sizeCell) (wdLoop fdt compatible addrCell sizeCell) ?_ hf
  intro fuel offset c
  rw [wdLoop]
  cases wdNode fdt addrCell sizeCell c offset <;> rfl

theorem wdStart_cons {index j : Nat} :
    wdStart fdt index (node :: nodes) (j + 1) = wdStart fdt (wdLeft fdt node) nodes j := by
  cases j <;> rfl

-- Each node fills the next entry, and leaves the ones before it.
theorem foldlM_wdNode (addrCell sizeCell : Int)
    (hc : ∀ node ∈ nodes, ∃ cells, fdtInterruptCells fdt node = some cells ∧ 1 ≤ cells ∧ cells ≤ 3)
    (hd : ∀ node ∈ nodes, (wdNodeData fdt node).isSome) :
    ∃ c', nodes.foldlM (fun c (node : Nat) => wdNode fdt addrCell sizeCell c node) c = .ok c' ∧
      c'.table.numWd = c.table.numWd + nodes.length ∧
      (∀ k < c.table.numWd, c'.table.wdInfo k = c.table.wdInfo k) ∧
      ∀ j (hj : j < nodes.length),
        (wdNodeData fdt nodes[j]).map (·.entryAt addrCell sizeCell (wdStart fdt c.index nodes j)) =
          some (c'.table.wdInfo (c.table.numWd + j)) := by
  induction nodes generalizing c
  case nil => exact ⟨c, rfl, rfl, fun _ _ => rfl, fun _ hj => absurd hj (Nat.not_lt_zero _)⟩
  case cons node nodes hi =>
    have ⟨data, hdata⟩ := Option.isSome_iff_exists.mp (hd node List.mem_cons_self)
    have hn : wdNode fdt addrCell sizeCell c node =
        .ok ⟨c.fill (data.entryAt addrCell sizeCell c.index), wdLeft fdt node⟩ :=
      wdNode_of_data c (hc node List.mem_cons_self) hdata
    have ⟨c', hfold, hnum, hkeep, hentry⟩ :=
      hi ⟨c.fill (data.entryAt addrCell sizeCell c.index), wdLeft fdt node⟩
        (fun n hm => hc n (List.mem_cons_of_mem _ hm)) (fun n hm => hd n (List.mem_cons_of_mem _ hm))
    refine ⟨c', ?_, ?_, ?_, ?_⟩
    · rw [List.foldlM_cons, hn]
      exact hfold
    · rw [hnum, List.length_cons]
      simp only [WdCursor.fill]
      omega
    · intro k hk
      rw [hkeep k (by simp only [WdCursor.fill]; omega)]
      exact Function.update_of_ne hk.ne ..
    · intro j hj
      cases j
      case zero =>
        have h0 := hkeep c.table.numWd (Nat.lt_succ_self _)
        rw [Nat.add_zero, h0, List.getElem_cons_zero, hdata]
        simp [WdCursor.fill, wdStart]
      case succ j =>
        have := hentry j (by simpa using hj)
        rw [wdStart_cons, List.getElem_cons_succ, this]
        simp only [WdCursor.fill]
        congr 2
        omega

end

-- The cells that are used for all the nodes.
def firstAddressCells (fdt : Libfdt) (nodes : List Nat) : Int :=
  fdt.addressCells (fdt.parentOffset (Libfdt.first nodes))

def firstSizeCells (fdt : Libfdt) (nodes : List Nat) : Int :=
  fdt.sizeCells (fdt.parentOffset (Libfdt.first nodes))

-- All nodes can be read, and the cells that the addresses are taken from hold what those that they should be
-- taken from do.
structure WdAligned (fdt : Libfdt) (nodes : List Nat) : Prop where
  complete  : ∀ node ∈ nodes, (wdNodeData fdt node).isSome
  addresses : ∀ j (hj : j < nodes.length), ∀ data ∈ wdNodeData fdt nodes[j],
    wdAddresses (firstAddressCells fdt nodes) (firstSizeCells fdt nodes) data.reg (wdStart fdt 0 nodes j) =
      wdAddresses (fdt.addressCells (fdt.parentOffset nodes[j])) (fdt.sizeCells (fdt.parentOffset nodes[j])) data.reg 0

section

variable {fdt : Libfdt} {nodes : List Nat} {table : WdInfoTable}

theorem palWdCreateInfoTableDt_eq (h : WdTree fdt nodes) :
    palWdCreateInfoTableDt fdt table =
      match nodes.foldlM (fun c (node : Nat) =>
          wdNode fdt (firstAddressCells fdt nodes) (firstSizeCells fdt nodes) c node) ⟨{ table with numWd := 0 }, 0⟩ with
      | .error result => result
      | .ok c         => some c.table := by
  have hone (c : WdCursor) : wdDtArr.foldlM (wdCompatible fdt) c = wdCompatible fdt c "arm,sbsa-gwdt" := by
    rw [wdDtArr, List.foldlM_cons]
    cases wdCompatible fdt c "arm,sbsa-gwdt" <;> rfl
  rw [palWdCreateInfoTableDt, hone, wdCompatible, h.lists.first]
  cases nodes
  case nil => rfl
  case cons node nodes =>
    have ha := h.addressCells node List.mem_cons_self
    have hs := h.sizeCells node List.mem_cons_self
    have hlen := h.lists.length_le
    have hlists : fdt.Lists "arm,sbsa-gwdt" ([] ++ node :: nodes) := h.lists
    dsimp only
    rw [if_neg (by rw [Libfdt.first_cons]; omega), if_neg (by rw [Libfdt.first_cons]; omega),
      if_neg (by rw [Libfdt.first_cons]; omega), wdLoop_eq _ hlists (by omega)]
    rfl

-- If all nodes can be read, then there is an entry for each one, though not from where it should be read.
theorem palWdCreateInfoTableDt_complete (table : WdInfoTable) (h : WdTree fdt nodes)
    (hd : ∀ node ∈ nodes, (wdNodeData fdt node).isSome) :
    ∃ result, palWdCreateInfoTableDt fdt table = some result ∧ result.numWd = nodes.length ∧
      ∀ j (hj : j < nodes.length),
        (wdNodeData fdt nodes[j]).map (·.entryAt (firstAddressCells fdt nodes) (firstSizeCells fdt nodes)
          (wdStart fdt 0 nodes j)) = some (result.wdInfo j) := by
  have ⟨c', hfold, hnum, _, hentry⟩ := foldlM_wdNode ⟨{ table with numWd := 0 }, 0⟩
    (firstAddressCells fdt nodes) (firstSizeCells fdt nodes) h.interruptCells hd
  rw [palWdCreateInfoTableDt_eq h, hfold]
  refine ⟨c'.table, rfl, hnum.trans (Nat.zero_add _), fun j hj => ?_⟩
  rw [hentry j hj, Nat.zero_add]

end

-- The cell that the addresses of a node are read from is what the interrupt of the node before it left, and
-- the number of words is that of the first node.
theorem wd_table_iff (fdt : Libfdt) (nodes : List Nat) (table : WdInfoTable) (h : WdTree fdt nodes) :
    WdRight fdt nodes (palWdCreateInfoTableDt fdt table) ↔ WdAligned fdt nodes := by
  constructor
  case mp =>
    intro ⟨t, ht, _, hright⟩
    have hd : ∀ node ∈ nodes, (wdNodeData fdt node).isSome := by
      intro node hm
      have ⟨j, hj, he⟩ := List.mem_iff_getElem.mp hm
      have hr := hright j hj
      rw [he, wdEntry, Option.map_eq_some_iff] at hr
      have ⟨data, hdata, _⟩ := hr
      rw [hdata, Option.isSome_some]
    have ⟨t', ht', _, hentry⟩ := palWdCreateInfoTableDt_complete table h hd
    obtain rfl := Option.some.inj (ht.symm.trans ht')
    refine ⟨hd, fun j hj data hdata => ?_⟩
    have he := hentry j hj
    have hr := hright j hj
    rw [hdata, Option.map_some] at he
    rw [wdEntry, hdata, Option.map_some, ←he] at hr
    exact (WdNodeData.entryAt_eq_iff.mp (Option.some.inj hr)).symm
  case mpr =>
    intro ha
    have ⟨t, ht, hnum, hentry⟩ := palWdCreateInfoTableDt_complete table h ha.complete
    refine ⟨t, ht, hnum, fun j hj => ?_⟩
    have ⟨data, hdata⟩ := Option.isSome_iff_exists.mp (ha.complete _ (List.getElem_mem hj))
    rw [←hentry j hj, wdEntry, hdata, Option.map_some, Option.map_some,
      WdNodeData.entryAt_eq_iff.mpr (ha.addresses j hj data hdata)]

-- Watchdogs below a node with two words for an address and for a size, and interrupts of `cells` cells, the last
-- of three being the flags.
def watchdogs (cells : Nat) (nodes : List Nat) : Libfdt where
  totalsize              := 1024
  nodeOffsetByCompatible := fun start compatible =>
    if compatible = "arm,sbsa-gwdt" then Libfdt.search nodes start else -fdtErrNotfound
  nodeOffsetByPhandle    := fun _ => -fdtErrNotfound
  parentOffset           := fun nodeoffset => if nodeoffset = 0 then -fdtErrNotfound else 0
  subnodeOffset          := fun _ _ => -fdtErrNotfound
  nextSubnode            := fun _ => -fdtErrNotfound
  sizeCells              := fun _ => 2
  addressCells           := fun _ => 2
  getprop                := fun nodeoffset name =>
    if nodeoffset = 0 then
      if name = "#interrupt-cells" then some ⟨4, fun _ => BitVec.ofNat 32 cells⟩ else none
    else if name = "reg" then
      let base := BitVec.ofInt 32 (nodeoffset * 0x1000)
      some ⟨32, fun i => [0, base, 0, 0x1000, 0, base + 0x10000, 0, 0x1000].getD i 0⟩
    else if name = "interrupts" then
      let irq := BitVec.ofInt 32 nodeoffset
      some ⟨4 * cells, fun i => (if cells = 1 then [irq] else [0, irq, 4]).getD i 0⟩
    else none

theorem watchdogs_tree {cells : Nat} {nodes : List Nat} (hc : cells = 1 ∨ cells = 3) (hs : nodes.Pairwise (· < ·))
    (hn : ∀ node ∈ nodes, 0 < node ∧ node < 1024) : WdTree (watchdogs cells nodes) nodes where
  lists          := ⟨hs, fun node hm => (hn node hm).right, fun _ _ => rfl⟩
  addressCells   := fun _ _ => ⟨show (1 : Int) ≤ 2 by decide, show (2 : Int) ≤ 2 by decide⟩
  sizeCells      := fun _ _ => ⟨show (1 : Int) ≤ 2 by decide, show (2 : Int) ≤ 2 by decide⟩
  interruptCells := by
    intro node hm
    have h0 : node ≠ 0 := (hn node hm).left.ne'
    refine ⟨cells, ?_, by omega, by omega⟩
    have hfirst : interruptCellsStep (watchdogs cells nodes) node = .inl 0 := by
      simp [interruptCellsStep, interruptParent, watchdogs, h0]
    have hroot : interruptCellsStep (watchdogs cells nodes) 0 = .inr cells := by
      rcases hc with rfl | rfl <;> rfl
    exact (Loop.Leaves.next hfirst (.now hroot)).run (show 2 ≤ 1024 by decide)

-- Two watchdogs whose interrupts have one cell.
theorem two_watchdogs : WdRight (watchdogs 1 [64, 128]) [64, 128]
    (palWdCreateInfoTableDt (watchdogs 1 [64, 128]) ⟨0, fun _ => ⟨0, 0, 0, 0⟩⟩) :=
  (wd_table_iff _ _ _ (watchdogs_tree (.inl rfl) (by decide) (by decide))).mpr {
    complete  := by decide +kernel
    addresses := by
      intro j hj data hdata
      have hj : j < 2 := hj
      interval_cases j
      case «0» => rfl
      case «1» => rfl
  }

-- The frames of the second watchdog are read from the third word on.
theorem second_watchdog_shifted :
    let result := palWdCreateInfoTableDt (watchdogs 3 [64, 128]) ⟨0, fun _ => ⟨0, 0, 0, 0⟩⟩
    WdTree (watchdogs 3 [64, 128]) [64, 128] ∧
    result.map (fun table => (table.wdInfo 0, table.wdInfo 1)) =
      some (⟨0x40000, 0x50000, 96, 0⟩, ⟨0x1000, 0x1000, 160, 0⟩) ∧
    wdEntry (watchdogs 3 [64, 128]) 128 = some ⟨0x80000, 0x90000, 160, 0⟩ ∧
    ¬WdRight (watchdogs 3 [64, 128]) [64, 128] result := by
  intro result
  have hres : result.map (fun table => (table.wdInfo 0, table.wdInfo 1)) =
      some (⟨0x40000, 0x50000, 96, 0⟩, ⟨0x1000, 0x1000, 160, 0⟩) := by decide +kernel
  have hent : wdEntry (watchdogs 3 [64, 128]) 128 = some ⟨0x80000, 0x90000, 160, 0⟩ := by decide +kernel
  refine ⟨watchdogs_tree (.inr rfl) (by decide) (by decide), hres, hent, fun ⟨table, ht, _, hright⟩ => ?_⟩
  rw [ht] at hres
  have h := (Option.some.inj (hent.symm.trans (hright 1 (by decide)))).trans
    (Prod.mk.inj (Option.some.inj hres)).right
  exact absurd h (by decide)

end Dt
