import BsaAcs.Dt.Peripheral
import BsaAcs.Dt.Theorems.Fdt

-- The entries that the functions for the peripherals store, node by node.

namespace Dt

open Peripheral (InfoBlock InfoTable InfoHdr)

-- A node that is come to, with the cells that the loop it is come to in has found for the first node.
structure Visit where
  addrCell : Int
  sizeCell : Int
  node     : Nat
deriving DecidableEq, Repr

-- What becomes of it.
inductive Fate
  | skip
  | store
  | stop
deriving DecidableEq, Repr

section

variable (fdt : Libfdt)

def visitsOf (nodes : List Nat) : List Visit :=
  nodes.map fun node => {
    addrCell := fdt.addressCells (fdt.parentOffset (Libfdt.first nodes))
    sizeCell := fdt.sizeCells (fdt.parentOffset (Libfdt.first nodes))
    node }

-- The nodes in the order of the strings, and for each string in the order of the tree.
def peripheralVisits (nodesOf : String → List Nat) (compatibles : List String) : List Visit :=
  compatibles.flatMap fun compatible => visitsOf fdt (nodesOf compatible)

end

def Visit.CellsOk (v : Visit) : Prop :=
  0 ≤ v.sizeCell ∧ 1 ≤ v.addrCell ∧ v.addrCell ≤ 2

instance {v : Visit} : Decidable v.CellsOk :=
  inferInstanceAs (Decidable (_ ∧ _))

def visitNode (node : Int → PeripheralCursor → Int → PeripheralRun) (c : PeripheralCursor) (v : Visit) : PeripheralRun :=
  if v.CellsOk then node v.addrCell c v.node else .error (some c.table)

def peripheralReturn : PeripheralRun → Option InfoTable
  | .error result => result
  | .ok c         => some c.table

-- The nodes whose entries are stored: those up to the first one at which the function returns.
def storedVisits (fate : Visit → Fate) : List Visit → List Visit
  | []      => []
  | v :: vs =>
    match fate v with
    | .skip  => storedVisits fate vs
    | .store => v :: storedVisits fate vs
    | .stop  => []

section

variable {fdt : Libfdt} {nodesOf : String → List Nat} {compatibles : List String} {compatible : String}
  {node : Int → PeripheralCursor → Int → PeripheralRun} {c : PeripheralCursor}

theorem peripheralCompatible_eq {nodes : List Nat} (h : fdt.Lists compatible nodes) :
    peripheralCompatible fdt node c compatible = (visitsOf fdt nodes).foldlM (visitNode node) c := by
  rw [peripheralCompatible, h.first]
  cases nodes
  case nil => rfl
  case cons first nodes =>
    rw [Libfdt.first_cons]
    dsimp only
    rw [if_neg (by omega)]
    by_cases hok : 0 ≤ fdt.sizeCells (fdt.parentOffset first) ∧ 1 ≤ fdt.addressCells (fdt.parentOffset first) ∧
      fdt.addressCells (fdt.parentOffset first) ≤ 2
    case pos =>
      have hlen := h.length_le
      have hloop : peripheralLoop fdt compatible (node (fdt.addressCells (fdt.parentOffset first))) (fdt.totalsize + 1)
          (Libfdt.first (first :: nodes)) c =
          (first :: nodes).foldlM (fun c (n : Nat) => node (fdt.addressCells (fdt.parentOffset first)) c n) c := by
        apply Libfdt.Lists.loop_eq (node (fdt.addressCells (fdt.parentOffset first)))
          (peripheralLoop fdt compatible (node (fdt.addressCells (fdt.parentOffset first)))) ?_ (List.nil_append (first :: nodes) ▸ h)
          (by omega)
        intro fuel offset c
        rw [peripheralLoop]
        cases node (fdt.addressCells (fdt.parentOffset first)) c offset <;> rfl
      rw [Libfdt.first_cons] at hloop
      rw [if_neg (by omega), if_neg (by omega), hloop, visitsOf, List.foldlM_map]
      congr 1
      funext c v
      exact (if_pos hok).symm
    case neg =>
      have hfirst : visitNode node c ⟨fdt.addressCells (fdt.parentOffset first), fdt.sizeCells (fdt.parentOffset first),
          first⟩ = .error (some c.table) :=
        if_neg hok
      rw [visitsOf, List.map_cons, List.foldlM_cons, Libfdt.first_cons, hfirst]
      split
      case isTrue => rfl
      case isFalse => rw [if_pos (by omega)]; rfl

theorem peripheralTable_eq (h : ∀ compatible ∈ compatibles, fdt.Lists compatible (nodesOf compatible)) :
    peripheralTable fdt node compatibles c =
      peripheralReturn ((peripheralVisits fdt nodesOf compatibles).foldlM (visitNode node) c) := by
  have hfold : compatibles.foldlM (peripheralCompatible fdt node) c =
      (peripheralVisits fdt nodesOf compatibles).foldlM (visitNode node) c := by
    induction compatibles generalizing c
    case nil => rfl
    case cons compatible compatibles ih =>
      have ⟨hone, hrest⟩ := List.forall_mem_cons.mp h
      rw [List.foldlM_cons, peripheralCompatible_eq hone, peripheralVisits, List.flatMap_cons, List.foldlM_append]
      congr 1
      funext c
      exact ih hrest
  rw [peripheralTable, hfold]
  cases (peripheralVisits fdt nodesOf compatibles).foldlM (visitNode node) c <;> rfl

end

-- What a body does with the nodes. Where the function returns, it has made a change of the kind `Rest` to the entry
-- that it was about to fill in.
structure Follows (fate : Visit → Fate) (entry : Visit → InfoBlock → InfoBlock) (count : InfoHdr → InfoHdr)
    (Rest : (InfoBlock → InfoBlock) → Prop) (body : PeripheralCursor → Visit → PeripheralRun) : Prop where
  skip  : ∀ c v, fate v = .skip → body c v = .ok c
  store : ∀ c v, fate v = .store → body c v = .ok ((c.modify (entry v)).next count)
  stop  : ∀ c v, fate v = .stop → ∃ r, body c v = .error r ∧ ∀ t, r = some t → ∃ g, Rest g ∧ t = (c.modify g).table

-- A table in which the entries of the nodes have been stored, from the one that the cursor points to on.
structure StoredIn (entry : Visit → InfoBlock → InfoBlock) (count : InfoHdr → InfoHdr)
    (Rest : (InfoBlock → InfoBlock) → Prop) (c : PeripheralCursor) (vs : List Visit) (t : InfoTable) : Prop where
  header : t.header = count^[vs.length] c.table.header
  stored : ∀ j (hj : j < vs.length), t.info (c.perInfo + j) = entry vs[j] (c.table.info (c.perInfo + j))
  before : ∀ k < c.perInfo, t.info k = c.table.info k
  behind : ∀ k, c.perInfo + vs.length ≤ k → ∃ g, Rest g ∧ t.info k = g (c.table.info k)

section

variable {fate : Visit → Fate} {entry : Visit → InfoBlock → InfoBlock} {count : InfoHdr → InfoHdr}
  {Rest : (InfoBlock → InfoBlock) → Prop} {body : PeripheralCursor → Visit → PeripheralRun} {c : PeripheralCursor}
  {visits vs : List Visit} {v : Visit} {t : InfoTable}

theorem PeripheralCursor.modify_info_ne {f : InfoBlock → InfoBlock} {k : Nat} (h : k ≠ c.perInfo) :
    (c.modify f).table.info k = c.table.info k :=
  Function.update_of_ne h ..

theorem PeripheralCursor.modify_info {f : InfoBlock → InfoBlock} :
    (c.modify f).table.info c.perInfo = f (c.table.info c.perInfo) :=
  Function.update_self ..

theorem PeripheralCursor.modify_modify {f g : InfoBlock → InfoBlock} :
    (c.modify f).modify g = c.modify fun block => g (f block) := by
  simp [PeripheralCursor.modify]

theorem StoredIn.cons (h : StoredIn entry count Rest ((c.modify (entry v)).next count) vs t) :
    StoredIn entry count Rest c (v :: vs) t where
  header := by
    rw [List.length_cons, Function.iterate_succ_apply]
    exact h.header
  stored := by
    intro j hj
    cases j
    case zero =>
      rw [Nat.add_zero, h.before c.perInfo (Nat.lt_succ_self _)]
      exact PeripheralCursor.modify_info
    case succ j =>
      have hs := h.stored j (Nat.lt_of_succ_lt_succ hj)
      have hk : ((c.modify (entry v)).next count).perInfo + j = c.perInfo + (j + 1) := Nat.add_right_comm ..
      rw [hk] at hs
      rw [hs, List.getElem_cons_succ]
      congr 1
      exact PeripheralCursor.modify_info_ne (by omega)
  before := by
    intro k hk
    rw [h.before k (Nat.lt_succ_of_lt hk)]
    exact PeripheralCursor.modify_info_ne hk.ne
  behind := by
    intro k hk
    rw [List.length_cons] at hk
    have hk' : ((c.modify (entry v)).next count).perInfo + vs.length ≤ k :=
      le_trans (Nat.add_right_comm c.perInfo 1 vs.length).le hk
    have ⟨g, hg, he⟩ := h.behind k hk'
    refine ⟨g, hg, ?_⟩
    rw [he]
    congr 1
    exact PeripheralCursor.modify_info_ne (by omega)

theorem Follows.storedIn (h : Follows fate entry count Rest body) (hid : Rest id)
    (hr : peripheralReturn (visits.foldlM body c) = some t) :
    StoredIn entry count Rest c (storedVisits fate visits) t := by
  induction visits generalizing c
  case nil =>
    cases hr
    exact ⟨rfl, fun j hj => absurd hj (Nat.not_lt_zero j), fun _ _ => rfl, fun _ _ => ⟨id, hid, rfl⟩⟩
  case cons v visits ih =>
    rw [List.foldlM_cons] at hr
    cases hf : fate v
    case skip =>
      rw [h.skip c v hf] at hr
      rw [storedVisits, hf]
      exact ih hr
    case store =>
      rw [h.store c v hf] at hr
      rw [storedVisits, hf]
      exact (ih hr).cons
    case stop =>
      have ⟨r, hb, ht⟩ := h.stop c v hf
      rw [hb] at hr
      have ⟨g, hg, he⟩ := ht t hr
      cases he
      rw [storedVisits, hf]
      refine ⟨rfl, fun j hj => absurd hj (Nat.not_lt_zero j), fun k hk => PeripheralCursor.modify_info_ne hk.ne, ?_⟩
      intro k _
      by_cases hk : k = c.perInfo
      case pos =>
        cases hk
        exact ⟨g, hg, PeripheralCursor.modify_info⟩
      case neg => exact ⟨id, hid, PeripheralCursor.modify_info_ne hk⟩

end

-- What is read of the nodes.

section

variable (fdt : Libfdt)

def propCells (node : Nat) (name : String) : Nat → BitVec 32 :=
  match fdt.getprop node name with
  | none      => fun _ => 0
  | some prop => prop.cells

def interruptCellsOf (node : Nat) : Int :=
  (fdtInterruptCells fdt node).getD 0

-- The address, with the cells of the loop.
def Visit.base (v : Visit) : Nat :=
  (readCells v.addrCell (propCells fdt v.node "reg") 0).1

def Visit.irq (offset : Nat) (v : Visit) : Nat :=
  peripheralIrq offset (interruptCellsOf fdt v.node) (propCells fdt v.node "interrupts")

-- The function does not return because of the interrupt.
def Visit.InterruptOk (v : Visit) : Prop :=
  (fdt.getprop v.node "interrupts").isSome ∧ 1 ≤ interruptCellsOf fdt v.node ∧ interruptCellsOf fdt v.node ≤ 3

instance {v : Visit} : Decidable (v.InterruptOk fdt) :=
  inferInstanceAs (Decidable (_ ∧ _))

def controllerFate (v : Visit) : Fate :=
  if v.CellsOk ∧ (fdt.getprop v.node "reg").isSome ∧ v.InterruptOk fdt then .store else .stop

def controllerEntry (type : Nat) (setBase : Nat → InfoBlock → InfoBlock) (v : Visit) (block : InfoBlock) : InfoBlock :=
  { setBase (v.base fdt) { block with type } with irq := v.irq fdt 0, bdf := 0, flags := 0 }

def uartFate (v : Visit) : Fate :=
  if ¬v.CellsOk then .stop
  else if isDisabled fdt v.node then .skip
  else if (fdt.getprop v.node "reg").isSome ∧ (parentOffsetAddr fdt 3 (fdt.parentOffset v.node) (v.base fdt)).isSome ∧
    v.InterruptOk fdt then .store
  else .stop

def uartEntry (v : Visit) (block : InfoBlock) : InfoBlock :=
  { block with
    type  := Peripheral.typeUart
    base0 := (v.base fdt + (parentOffsetAddr fdt 3 (fdt.parentOffset v.node) (v.base fdt)).getD 0) % 2 ^ 64
    irq   := v.irq fdt spiOffset
    bdf   := 0
    flags := 0 }

end

section

variable {fdt : Libfdt} {v : Visit}

-- The function returns at an entry.
theorem stops_at {Rest : (InfoBlock → InfoBlock) → Prop} {c : PeripheralCursor} {g : InfoBlock → InfoBlock} (h : Rest g) :
    ∃ r, (.error (some (c.modify g).table) : PeripheralRun) = .error r ∧
      ∀ t, r = some t → ∃ g, Rest g ∧ t = (c.modify g).table := by
  refine ⟨_, rfl, ?_⟩
  intro t ht
  cases ht
  exact ⟨g, h, rfl⟩

theorem stops_unchanged {Rest : (InfoBlock → InfoBlock) → Prop} {c : PeripheralCursor} (h : Rest id) :
    ∃ r, (.error (some c.table) : PeripheralRun) = .error r ∧
      ∀ t, r = some t → ∃ g, Rest g ∧ t = (c.modify g).table := by
  have hid : (c.modify id).table = c.table := by
    simp [PeripheralCursor.modify]
  rw [←hid]
  exact stops_at h

theorem fdtInterruptCells_of_ok (h : v.InterruptOk fdt) : ∃ intr cells, fdt.getprop v.node "interrupts" = some intr ∧
    fdtInterruptCells fdt v.node = some cells ∧ 1 ≤ cells ∧ cells ≤ 3 := by
  have ⟨hi, hl, hu⟩ := h
  have ⟨intr, hintr⟩ := Option.isSome_iff_exists.mp hi
  cases hc : fdtInterruptCells fdt v.node
  case none =>
    rw [interruptCellsOf, hc] at hl
    exact absurd hl (by decide)
  case some cells =>
    rw [interruptCellsOf, hc] at hl hu
    exact ⟨intr, cells, hintr, rfl, hl, hu⟩

theorem invalid_cells {intr : Property} {cells : Int} (hintr : fdt.getprop v.node "interrupts" = some intr)
    (hcells : fdtInterruptCells fdt v.node = some cells) (h : ¬v.InterruptOk fdt) : cells < 1 ∨ cells > 3 := by
  apply Classical.byContradiction
  intro hr
  apply h
  rw [Visit.InterruptOk, interruptCellsOf, hintr, hcells, Option.getD_some]
  exact ⟨rfl, by omega, by omega⟩

-- Until the entry is complete, a function changes nothing but its type.
theorem controller_follows (type : Nat) (setBase : Nat → InfoBlock → InfoBlock) (count : InfoHdr → InfoHdr) :
    Follows (controllerFate fdt) (controllerEntry fdt type setBase) count (fun g => ∀ block, (g block).base0 = block.base0)
      (visitNode (controllerNode fdt type setBase count)) where
  skip := by
    intro c v hf
    rw [controllerFate] at hf
    split at hf <;> cases hf
  store := by
    intro c v hf
    rw [controllerFate] at hf
    split at hf
    case isFalse => cases hf
    case isTrue hok =>
      have ⟨hc, hreg, hint⟩ := hok
      have ⟨reg, hreg⟩ := Option.isSome_iff_exists.mp hreg
      have ⟨intr, cells, hintr, hcells, hl, hu⟩ := fdtInterruptCells_of_ok hint
      have hentry : controllerEntry fdt type setBase v = fun block =>
          { setBase (readCells v.addrCell reg.cells 0).1 { block with type } with
            irq := peripheralIrq 0 cells intr.cells, bdf := 0, flags := 0 } := by
        funext block
        simp only [controllerEntry, Visit.base, Visit.irq, propCells, interruptCellsOf, hreg, hintr, hcells, Option.getD_some]
      have hr : ¬(cells < 1 ∨ cells > 3) := by omega
      rw [visitNode, if_pos hc, hentry, controllerNode]
      simp only [hreg, hintr, hcells, if_neg hr, PeripheralCursor.modify_modify]
  stop := by
    intro c v hf
    rw [controllerFate] at hf
    split at hf
    case isTrue => cases hf
    case isFalse hok =>
      rw [visitNode]
      split
      case isFalse => exact stops_unchanged fun _ => rfl
      case isTrue hc =>
        rw [controllerNode]
        cases hreg : fdt.getprop v.node "reg"
        case none     => exact stops_at fun _ => rfl
        case some reg =>
          dsimp only
          cases hintr : fdt.getprop v.node "interrupts"
          case none      => exact stops_at fun _ => rfl
          case some intr =>
            dsimp only
            cases hcells : fdtInterruptCells fdt v.node
            case none       => exact ⟨none, rfl, fun _ ht => nomatch ht⟩
            case some cells =>
              have hr := invalid_cells hintr hcells fun hint => hok ⟨hc, by rw [hreg]; rfl, hint⟩
              simp only [if_pos hr]
              exact stops_at fun _ => rfl

theorem uartNode_skip (c : PeripheralCursor) (hf : uartFate fdt v = .skip) : visitNode (uartNode fdt) c v = .ok c := by
  rw [uartFate] at hf
  split at hf
  case isTrue => cases hf
  case isFalse hc =>
    split at hf
    case isTrue hd => rw [visitNode, if_pos (not_not.mp hc), uartNode, if_pos hd]
    case isFalse   => split at hf <;> cases hf

theorem uartNode_store (c : PeripheralCursor) (hf : uartFate fdt v = .store) :
    visitNode (uartNode fdt) c v =
      .ok ((c.modify (uartEntry fdt v)).next fun h => { h with numUart := h.numUart + 1 }) := by
  rw [uartFate] at hf
  split at hf
  case isTrue => cases hf
  case isFalse hc =>
    split at hf
    case isTrue => cases hf
    case isFalse hd =>
      split at hf
      case isFalse => cases hf
      case isTrue hok =>
        have ⟨hreg, hadd, hint⟩ := hok
        have ⟨reg, hreg⟩ := Option.isSome_iff_exists.mp hreg
        have ⟨intr, cells, hintr, hcells, hl, hu⟩ := fdtInterruptCells_of_ok hint
        have hbase : v.base fdt = (readCells v.addrCell reg.cells 0).1 := by
          rw [Visit.base, propCells, hreg]
        have ⟨add, hadd⟩ := Option.isSome_iff_exists.mp hadd
        rw [hbase] at hadd
        have hentry : uartEntry fdt v = fun block => { block with
            type  := Peripheral.typeUart
            base0 := ((readCells v.addrCell reg.cells 0).1 + add) % 2 ^ 64
            irq   := peripheralIrq spiOffset cells intr.cells
            bdf   := 0
            flags := 0 } := by
          funext block
          simp only [uartEntry, Visit.irq, propCells, interruptCellsOf, hintr, hcells, hbase, hadd, Option.getD_some]
        have hr : ¬(cells < 1 ∨ cells > 3) := by omega
        rw [visitNode, if_pos (not_not.mp hc), hentry, uartNode, if_neg hd]
        simp only [hreg, hadd, hintr, hcells, if_neg hr, PeripheralCursor.modify_modify]

theorem uartNode_stop (c : PeripheralCursor) (hf : uartFate fdt v = .stop) :
    ∃ r, visitNode (uartNode fdt) c v = .error r ∧ ∀ t, r = some t → ∃ g, True ∧ t = (c.modify g).table := by
  rw [uartFate] at hf
  rw [visitNode]
  split at hf
  case isTrue hc =>
    rw [if_neg hc]
    exact stops_unchanged trivial
  case isFalse hc =>
    rw [if_pos (not_not.mp hc), uartNode]
    split at hf
    case isTrue => cases hf
    case isFalse hd =>
      rw [if_neg hd]
      split at hf
      case isTrue => cases hf
      case isFalse hok =>
        cases hreg : fdt.getprop v.node "reg"
        case none     => exact stops_unchanged trivial
        case some reg =>
          have hbase : v.base fdt = (readCells v.addrCell reg.cells 0).1 := by
            rw [Visit.base, propCells, hreg]
          dsimp only
          cases hadd : parentOffsetAddr fdt 3 (fdt.parentOffset v.node) (readCells v.addrCell reg.cells 0).1
          case none     => exact stops_at trivial
          case some add =>
            dsimp only
            rw [PeripheralCursor.modify_modify]
            cases hintr : fdt.getprop v.node "interrupts"
            case none      => exact stops_at trivial
            case some intr =>
              dsimp only
              cases hcells : fdtInterruptCells fdt v.node
              case none       => exact ⟨none, rfl, fun _ ht => nomatch ht⟩
              case some cells =>
                have hr := invalid_cells hintr hcells fun hint =>
                  hok ⟨by rw [hreg]; rfl, by rw [hbase, hadd]; rfl, hint⟩
                simp only [if_pos hr]
                exact stops_at trivial

theorem uart_follows : Follows (uartFate fdt) (uartEntry fdt) (fun h => { h with numUart := h.numUart + 1 })
    (fun _ => True) (visitNode (uartNode fdt)) where
  skip c _ hf  := uartNode_skip c hf
  store c _ hf := uartNode_store c hf
  stop c _ hf  := uartNode_stop c hf

end

end Dt
