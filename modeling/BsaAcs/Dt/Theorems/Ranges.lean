import BsaAcs.Dt.Theorems.Gic
import BsaAcs.Dt.Theorems.Peripheral

-- The translation of the address of a UART by the `ranges` of the buses that it is below.

namespace Dt

open Peripheral (InfoBlock InfoTable InfoHdr)

-- A tuple of `ranges`.
structure RangeTuple where
  child  : Nat
  parent : Nat
  size   : Nat
deriving DecidableEq, Repr

namespace RangeTuple

variable (t : RangeTuple) (addr : Nat)

def Covers : Prop :=
  t.child ≤ addr ∧ addr < t.child + t.size

def translate : Nat :=
  t.parent + (addr - t.child)

end RangeTuple

-- The rule: from bus to bus an address is translated by a tuple that covers it. The tuples and the address that comes
-- out.
inductive Route : List (List RangeTuple) → Nat → List RangeTuple → Nat → Prop
  | nil {addr} : Route [] addr [] addr
  | cons {bus buses addr t ts cpu} :
    (t ∈ bus) → (t.Covers addr) → Route buses (t.translate addr) ts cpu → Route (bus :: buses) addr (t :: ts) cpu

def childSum (ts : List RangeTuple) : Nat :=
  (ts.map (·.child)).sum

def parentSum (ts : List RangeTuple) : Nat :=
  (ts.map (·.parent)).sum

-- The tuple that starts at the address with which the first bus with several tuples is searched: that is the parent
-- address of the single tuple before it, or else `addr`.
def startingTuple : List (List RangeTuple) → Nat → Option RangeTuple
  | [], _               => none
  | [t] :: buses, _     => startingTuple buses t.parent
  | bus :: _, addr      => bus.find? fun t => decide (t.child = addr)

-- What is added to the address because of it.
def startingParent (buses : List (List RangeTuple)) (addr : Nat) : Nat :=
  ((startingTuple buses addr).map (·.parent)).getD 0

section

variable {buses : List (List RangeTuple)} {ts : List RangeTuple} {addr cpu : Nat}

theorem startingTuple_several {bus : List RangeTuple} (h : bus.length ≠ 1) :
    startingTuple (bus :: buses) addr = bus.find? fun t => decide (t.child = addr) := by
  cases bus
  case nil => rfl
  case cons t bus =>
    cases bus
    case nil  => exact absurd rfl h
    case cons => rfl

theorem Route.add_childSum (h : Route buses addr ts cpu) : cpu + childSum ts = addr + parentSum ts := by
  induction h
  case nil => rfl
  case cons bus buses addr t ts cpu _ hc _ ih =>
    have hle := hc.left
    rw [RangeTuple.translate] at ih
    simp only [childSum, parentSum, List.map_cons, List.sum_cons] at ih ⊢
    omega

end

-- The property `ranges` of a bus: a number of tuples, with addresses of one or two cells.
structure Ranges (fdt : Libfdt) (bus : Int) where
  prop       : Property
  childCell  : Nat
  parentCell : Nat
  sizeCell   : Nat
  count      : Nat
  getprop    : fdt.getprop bus "ranges" = some prop
  child      : fdt.addressCells bus = childCell
  parent     : fdt.addressCells (fdt.parentOffset bus) = parentCell
  size       : fdt.sizeCells bus = sizeCell
  childOk    : childCell = 1 ∨ childCell = 2
  parentOk   : parentCell = 1 ∨ parentCell = 2
  countPos   : 0 < count
  len        : prop.len = 4 * (count * (childCell + parentCell + sizeCell))

namespace Ranges

variable {fdt : Libfdt} {bus : Int} (r : Ranges fdt bus)

def width : Nat :=
  r.childCell + r.parentCell + r.sizeCell

def tuple (i : Nat) : RangeTuple :=
  let index := i * r.width
  { child  := cellNumber r.prop.cells r.childCell index
    parent := cellNumber r.prop.cells r.parentCell (index + r.childCell)
    size   := cellNumber r.prop.cells r.sizeCell (index + r.childCell + r.parentCell) }

def tuples : List RangeTuple :=
  (List.range r.count).map r.tuple

end Ranges

-- The buses from `bus` on: those up to the first one without `ranges`, of which there are no more than `left`. The
-- tuples are those of the `ranges` that are not empty.
inductive Above (fdt : Libfdt) : Nat → Int → List (List RangeTuple) → Prop
  | none {left bus} :
    (fdt.getprop bus "ranges" = none) → Above fdt left bus []
  | empty {left bus prop buses} :
    (fdt.getprop bus "ranges" = some prop) → (prop.len = 0) → Above fdt left (fdt.parentOffset bus) buses →
    Above fdt (left + 1) bus buses
  | tuples {left bus buses} (r : Ranges fdt bus) :
    Above fdt left (fdt.parentOffset bus) buses → Above fdt (left + 1) bus (r.tuples :: buses)

namespace Ranges

variable {fdt : Libfdt} {bus : Int} (r : Ranges fdt bus)

theorem width_pos : 0 < r.width := by
  have := r.childOk
  rw [width]
  omega

theorem len_div : r.prop.len / 4 = r.count * r.width := by
  rw [r.len, Nat.mul_div_cancel_left _ (by decide), width]

theorem count_le_len_div : r.count ≤ r.prop.len / 4 := by
  rw [r.len_div]
  exact Nat.le_mul_of_pos_right _ r.width_pos

theorem len_eq_iff : (r.prop.len : Int) = 4 * (r.childCell + r.parentCell + r.sizeCell) ↔ r.count = 1 := by
  have hw : (r.childCell + r.parentCell + r.sizeCell : Int) = (r.width : Nat) := by
    rw [width]
    push_cast
    rfl
  have hl : r.prop.len = 4 * (r.count * r.width) := r.len
  rw [hw, hl]
  constructor
  case mp =>
    intro h
    apply Nat.eq_of_mul_eq_mul_right r.width_pos
    omega
  case mpr =>
    intro h
    rw [h]
    omega

-- The loop over the tuples finds the first one that starts at the address.
theorem searchRanges_eq (addr : Nat) {fuel i : Nat} (hi : i ≤ r.count) (hf : r.count < i + fuel) :
    searchRanges r.childCell r.parentCell r.sizeCell r.prop addr fuel (i * r.width) =
      ((((List.range' i (r.count - i)).map r.tuple).find? fun t => decide (t.child = addr)).map (·.parent)) := by
  induction fuel generalizing i
  case zero => omega
  case succ fuel ih =>
    have hw : i * r.width < r.count * r.width ↔ i < r.count := Nat.mul_lt_mul_right r.width_pos
    rw [searchRanges, r.len_div]
    by_cases hlt : i < r.count
    case neg =>
      rw [if_neg (mt hw.mp hlt), Nat.sub_eq_zero_of_le (Nat.le_of_not_lt hlt)]
      rfl
    case pos =>
      have hr : r.count - i = (r.count - (i + 1)) + 1 := by omega
      rw [if_pos (hw.mpr hlt), hr, List.range'_succ, List.map_cons, List.find?_cons]
      have hchild : (readCells r.childCell r.prop.cells (i * r.width)).1 = (r.tuple i).child :=
        (cellNumber_eq r.childOk).symm
      have hparent : (readCells r.parentCell r.prop.cells (i * r.width + r.childCell)).1 = (r.tuple i).parent :=
        (cellNumber_eq r.parentOk).symm
      have hnext : i * r.width + r.childCell + r.parentCell + r.sizeCell = (i + 1) * r.width := by
        rw [Nat.succ_mul, width]
        omega
      simp only [readCells_index, cellWidth_eq r.childOk, hchild, hparent, Int.toNat_natCast, hnext]
      by_cases hc : (r.tuple i).child = addr
      case pos => simp [hc]
      case neg =>
        simp only [hc, if_false, decide_false]
        exact ih hlt (by omega)

end Ranges

theorem parentOffsetAddr_eq {fdt : Libfdt} {left : Nat} {bus : Int} {buses : List (List RangeTuple)} (h : Above fdt left bus buses)
    (addr : Nat) : parentOffsetAddr fdt left bus addr = some (startingParent buses addr) := by
  induction h generalizing addr
  case none left bus hn =>
    cases left
    case zero => rfl
    case succ => rw [parentOffsetAddr, hn]; rfl
  case empty left bus prop buses hr hl _ ih =>
    rw [parentOffsetAddr, hr]
    simp only [hl, if_true, ih]
  case tuples left bus buses r _ ih =>
    have hlen : r.prop.len ≠ 0 := by
      have := r.count_le_len_div
      have := r.countPos
      omega
    have hcells : ¬((r.childCell : Int) < 1 ∨ (r.childCell : Int) > 2 ∨ (r.parentCell : Int) < 1 ∨
        (r.parentCell : Int) > 2 ∨ (r.sizeCell : Int) < 0) := by
      have := r.childOk
      have := r.parentOk
      omega
    rw [parentOffsetAddr, r.getprop]
    simp only [if_neg hlen, r.child, r.parent, r.size, if_neg hcells, r.len_eq_iff]
    by_cases hone : r.count = 1
    case pos =>
      have htuples : r.tuples = [r.tuple 0] := by
        rw [Ranges.tuples, hone]
        rfl
      have hparent : (readCells r.parentCell r.prop.cells r.childCell).1 = (r.tuple 0).parent := by
        rw [Ranges.tuple, Nat.zero_mul, Nat.zero_add]
        exact (cellNumber_eq r.parentOk).symm
      rw [if_pos hone, Int.toNat_natCast, hparent, ih, htuples]
      rfl
    case neg =>
      have hfuel : r.count < 0 + (r.prop.len / 4 + 1) := by
        have := r.count_le_len_div
        omega
      have hsearch := r.searchRanges_eq addr (Nat.zero_le r.count) hfuel
      rw [Nat.zero_mul, Nat.sub_zero, ←List.range_eq_range'] at hsearch
      have hseveral : r.tuples.length ≠ 1 := by
        rwa [Ranges.tuples, List.length_map, List.length_range]
      rw [if_neg hone, hsearch, startingParent, startingTuple_several hseveral]
      rfl

section

variable (fdt : Libfdt)

-- The address of the node, with the cells of its own bus.
def Visit.address (v : Visit) : Nat :=
  cellNumber (propCells fdt v.node "reg") (fdt.addressCells (fdt.parentOffset v.node)).toNat 0

-- The nodes whose entries are stored.
def storedUarts (nodesOf : String → List Nat) : List Visit :=
  storedVisits (uartFate fdt) (peripheralVisits fdt nodesOf uartDtCompatible)

end

-- The offsets of the tuples that cover the address cancel out, or they are made up for by the parent address of a tuple
-- that starts at the address with which a bus is searched. The translated address is one of 64 bits.
def OffsetsMeet (base addr : Nat) (buses : List (List RangeTuple)) (ts : List RangeTuple) : Prop :=
  addr + parentSum ts < childSum ts + 2 ^ 64 ∧
  match startingTuple buses base with
  | none   => base + childSum ts ≡ addr + parentSum ts [MOD 2 ^ 64]
  | some t => base + t.parent + childSum ts ≡ addr + parentSum ts [MOD 2 ^ 64]

section

variable {fdt : Libfdt} {nodesOf : String → List Nat} {table t : InfoTable} {v : Visit} {k base addr cpu : Nat}
  {buses : List (List RangeTuple)} {ts : List RangeTuple}

theorem uart_storedIn (hl : ∀ compatible ∈ uartDtCompatible, fdt.Lists compatible (nodesOf compatible))
    (hr : palPeripheralUartCreateInfoTableDt fdt table = some t) :
    StoredIn (uartEntry fdt) (fun h => { h with numUart := h.numUart + 1 }) (fun _ => True)
      { table := { table with header := { table.header with numUart := 0 } }
        perInfo := table.header.numUsb + table.header.numSata } (storedUarts fdt nodesOf) t := by
  rw [palPeripheralUartCreateInfoTableDt, peripheralTable_eq hl] at hr
  exact uart_follows.storedIn trivial hr

-- The entry of a node.
theorem uart_stored (hl : ∀ compatible ∈ uartDtCompatible, fdt.Lists compatible (nodesOf compatible))
    (hr : palPeripheralUartCreateInfoTableDt fdt table = some t) (hv : (storedUarts fdt nodesOf)[k]? = some v) :
    t.info (table.header.numUsb + table.header.numSata + k) =
      uartEntry fdt v (table.info (table.header.numUsb + table.header.numSata + k)) := by
  have ⟨hk, hv⟩ := List.getElem?_eq_some_iff.mp hv
  rw [←hv]
  exact (uart_storedIn hl hr).stored k hk

theorem offsetsMeet_iff : OffsetsMeet base addr buses ts ↔ addr + parentSum ts < childSum ts + 2 ^ 64 ∧
    base + startingParent buses base + childSum ts ≡ addr + parentSum ts [MOD 2 ^ 64] := by
  rw [OffsetsMeet, startingParent]
  cases startingTuple buses base <;> rfl

instance : Decidable (OffsetsMeet base addr buses ts) :=
  decidable_of_iff _ offsetsMeet_iff.symm

theorem Route.eq_iff_offsetsMeet (h : Route buses addr ts cpu) :
    (base + startingParent buses base) % 2 ^ 64 = cpu ↔ OffsetsMeet base addr buses ts := by
  have hsum := h.add_childSum
  rw [offsetsMeet_iff, ←hsum]
  constructor
  case mp =>
    intro he
    have hlt : cpu < 2 ^ 64 := he ▸ Nat.mod_lt _ (by decide)
    refine ⟨by omega, ?_⟩
    apply Nat.ModEq.add_right
    rw [←he]
    exact (Nat.mod_modEq _ _).symm
  case mpr =>
    intro ⟨hlt, hm⟩
    have hm := Nat.ModEq.add_right_cancel' _ hm
    have hlt : cpu < 2 ^ 64 := by omega
    rwa [Nat.ModEq, Nat.mod_eq_of_lt hlt] at hm

theorem uart_base_iff (hl : ∀ compatible ∈ uartDtCompatible, fdt.Lists compatible (nodesOf compatible))
    (hr : palPeripheralUartCreateInfoTableDt fdt table = some t) (hv : (storedUarts fdt nodesOf)[k]? = some v)
    (ha : Above fdt 3 (fdt.parentOffset v.node) buses) (h : Route buses (v.address fdt) ts cpu) :
    (t.info (table.header.numUsb + table.header.numSata + k)).base0 = cpu ↔
      OffsetsMeet (v.base fdt) (v.address fdt) buses ts := by
  rw [uart_stored hl hr hv, uartEntry, parentOffsetAddr_eq ha, Option.getD_some]
  exact h.eq_iff_offsetsMeet

end

-- A UART on a bus, the `ranges` of which are one tuple.
def uartTree (child parent reg : BitVec 32) : Libfdt where
  totalsize              := 1024
  nodeOffsetByCompatible := fun start name => if name = "arm,pl011" then Libfdt.search [64] start else -fdtErrNotfound
  nodeOffsetByPhandle    := fun _ => -fdtErrNotfound
  parentOffset           := fun nodeoffset => if nodeoffset = 64 then 32 else if nodeoffset = 32 then 0 else -fdtErrNotfound
  subnodeOffset          := fun _ _ => -fdtErrNotfound
  nextSubnode            := fun _ => -fdtErrNotfound
  sizeCells              := fun _ => 1
  addressCells           := fun _ => 1
  getprop                := fun nodeoffset name =>
    if nodeoffset = 64 ∧ name = "reg" then some ⟨8, fun i => [reg, 0x1000].getD i 0⟩
    else if nodeoffset = 64 ∧ name = "interrupts" then some ⟨12, fun i => [0, 1, 4].getD i 0⟩
    else if nodeoffset = 32 ∧ name = "ranges" then some ⟨12, fun i => [child, parent, 0x10000].getD i 0⟩
    else none

def uartsOf (compatible : String) : List Nat :=
  if compatible = "arm,pl011" then [64] else []

def uartRanges (child parent reg : BitVec 32) : Ranges (uartTree child parent reg) 32 where
  prop       := ⟨12, fun i => [child, parent, 0x10000].getD i 0⟩
  childCell  := 1
  parentCell := 1
  sizeCell   := 1
  count      := 1
  getprop    := rfl
  child      := rfl
  parent     := rfl
  size       := rfl
  childOk    := .inl rfl
  parentOk   := .inl rfl
  countPos   := Nat.one_pos
  len        := rfl

section

variable {child parent reg : BitVec 32}

theorem uartTree_lists : ∀ compatible ∈ uartDtCompatible, (uartTree child parent reg).Lists compatible (uartsOf compatible) := by
  intro compatible _
  constructor
  case sorted => rw [uartsOf]; split <;> simp
  case inside => rw [uartsOf]; split <;> simp [uartTree]
  case search =>
    intro start _
    by_cases h : compatible = "arm,pl011"
    case pos => simp [uartsOf, uartTree, h]
    case neg => simp [uartsOf, uartTree, h, Libfdt.search]

theorem uartTree_above : Above (uartTree child parent reg) 3 32 [[⟨child.toNat, parent.toNat, 0x10000⟩]] := by
  have hnone : Above (uartTree child parent reg) 2 0 [] := .none rfl
  have htuples : (uartRanges child parent reg).tuples = [⟨child.toNat, parent.toNat, 0x10000⟩] := by
    simp [Ranges.tuples, Ranges.tuple, Ranges.width, uartRanges, cellNumber]
  exact htuples ▸ .tuples (uartRanges child parent reg) hnone

end

def zeroTable : InfoTable where
  header := ⟨0, 0, 0, 0⟩
  info   := fun _ => ⟨0, 0, 0, 0, 0, 0, 0⟩

-- A bus that maps its addresses to themselves.
theorem uart_base_identity : ∃ t, palPeripheralUartCreateInfoTableDt (uartTree 0x9000000 0x9000000 0x9001000) zeroTable = some t ∧
    (t.info 0).base0 = 0x9001000 := by
  have ⟨t, ht⟩ : ∃ t, palPeripheralUartCreateInfoTableDt (uartTree 0x9000000 0x9000000 0x9001000) zeroTable = some t :=
    ⟨_, rfl⟩
  refine ⟨t, ht, ?_⟩
  have hv : (storedUarts (uartTree 0x9000000 0x9000000 0x9001000) uartsOf)[0]? = some ⟨1, 1, 64⟩ := by decide +kernel
  have haddr : Visit.address (uartTree 0x9000000 0x9000000 0x9001000) ⟨1, 1, 64⟩ = 0x9001000 := by decide +kernel
  have hroute : Route [[⟨0x9000000, 0x9000000, 0x10000⟩]] 0x9001000 [⟨0x9000000, 0x9000000, 0x10000⟩] 0x9001000 :=
    .cons List.mem_cons_self ⟨by decide, by decide⟩ .nil
  exact (uart_base_iff uartTree_lists ht hv uartTree_above (haddr ▸ hroute)).mpr
    (by decide +kernel)

-- A bus whose addresses begin at 0 elsewhere: the address stays as it is.
theorem uart_base_untranslated : ∃ t, palPeripheralUartCreateInfoTableDt (uartTree 0 0x9000000 0x1000) zeroTable = some t ∧
    (storedUarts (uartTree 0 0x9000000 0x1000) uartsOf)[0]? = some ⟨1, 1, 64⟩ ∧
    Above (uartTree 0 0x9000000 0x1000) 3 32 [[⟨0, 0x9000000, 0x10000⟩]] ∧
    Route [[⟨0, 0x9000000, 0x10000⟩]] (Visit.address (uartTree 0 0x9000000 0x1000) ⟨1, 1, 64⟩)
      [⟨0, 0x9000000, 0x10000⟩] 0x9001000 ∧
    (t.info 0).base0 = 0x1000 := by
  have hv : (storedUarts (uartTree 0 0x9000000 0x1000) uartsOf)[0]? = some ⟨1, 1, 64⟩ := by decide +kernel
  have haddr : Visit.address (uartTree 0 0x9000000 0x1000) ⟨1, 1, 64⟩ = 0x1000 := by decide +kernel
  have hroute : Route [[⟨0, 0x9000000, 0x10000⟩]] 0x1000 [⟨0, 0x9000000, 0x10000⟩] 0x9001000 :=
    .cons List.mem_cons_self ⟨by decide, by decide⟩ .nil
  exact ⟨_, rfl, hv, uartTree_above, haddr ▸ hroute, by decide +kernel⟩

end Dt
