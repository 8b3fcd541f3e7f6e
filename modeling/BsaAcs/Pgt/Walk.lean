import BsaAcs.Lib.Bits
import BsaAcs.Pgt.Basic

namespace Pgt

-- The translation table walk of the architecture. `h` counts the levels below the current one, so
-- it stands at level `3 - h`. An entry at height `h` describes `blockBytes p h` bytes, where `p` is
-- the logarithm of the granule.

def blockBytes (p h : Nat) : Nat :=
  2 ^ (p + h * (p - 3))

def slotIndex (p h nbits va : Nat) : Nat :=
  va / blockBytes p h % 2 ^ nbits

-- Block descriptors exist at levels 1 and 2 of the 4 KB granule and at level 2 of the others.
def blockAllowed (p h : Nat) : Bool :=
  h == 1 || (h == 2 && p == 12)

inductive WalkResult
  | invalid (desc : Nat)
  | mapped (address attributes : Nat)
deriving DecidableEq, Repr

def walk (mem : Memory) (p : Nat) : Nat → Nat → Nat → Nat → WalkResult
  | h, base, nbits, va =>
    let desc := mem (base + 8 * slotIndex p h nbits va)
    if !desc.testBit 0 then .invalid desc
    else match h with
      | 0 =>
        if desc.testBit 1
        then .mapped (Bits.slice 47 p desc + va % 2 ^ p) (pgtDescAttributes desc)
        else .invalid desc
      | h + 1 =>
        if desc.testBit 1 then
          walk mem p h (Bits.slice 47 p desc) (p - 3) va
        else if blockAllowed p (h + 1) then
          .mapped (Bits.slice 47 (p + (h + 1) * (p - 3)) desc + va % blockBytes p (h + 1))
            (pgtDescAttributes desc)
        else
          .invalid desc

-- The number of levels below the root of a table for `ias` input address bits.
def rootHeight (p ias : Nat) : Nat :=
  (ias - p + (p - 3) - 1) / (p - 3) - 1

-- The number of index bits of that root.
def rootBits (p ias : Nat) : Nat :=
  ias - (p + rootHeight p ias * (p - 3))

-- The walk of the table that a page table descriptor describes.
def translate (desc : PgtDescriptor) (mem : Memory) (p va : Nat) : WalkResult :=
  walk mem p (rootHeight p desc.ias) desc.pgtBase (rootBits p desc.ias) va

-- A table as a tree. A slot is empty, or it holds the word of a block or page descriptor, or the
-- word of a table descriptor together with the slots of the table it points to.
inductive Tree
  | empty
  | leaf  (word : Nat)
  | table (word : Nat) (slots : Nat → Tree)

-- The tree that the memory holds below a table page, with `h` levels below it.
def readTree (mem : Memory) (p : Nat) : Nat → Nat → Nat → Tree
  | h, base, i =>
    if 2 ^ (p - 3) ≤ i ∨ mem (base + 8 * i) = 0 then .empty
    else match h with
      | 0 => .leaf (mem (base + 8 * i))
      | h + 1 =>
        let word := mem (base + 8 * i)
        if word.testBit 1 then .table word (readTree mem p h (Bits.slice 47 p word)) else .leaf word

namespace Tree

-- The walk on a tree, from a slot of a table that has `h` levels below it.
def walk (p : Nat) : Nat → Tree → Nat → WalkResult
  | _, .empty, _ => .invalid 0
  | h, .leaf word, va =>
    if !word.testBit 0 then .invalid word
    else match h with
      | 0 =>
        if word.testBit 1
        then .mapped (Bits.slice 47 p word + va % 2 ^ p) (pgtDescAttributes word)
        else .invalid word
      | h + 1 =>
        if blockAllowed p (h + 1)
        then .mapped (Bits.slice 47 (p + (h + 1) * (p - 3)) word + va % blockBytes p (h + 1))
          (pgtDescAttributes word)
        else .invalid word
  | 0, .table word _, _ => .invalid word
  | h + 1, .table word slots, va =>
    if !word.testBit 0 then .invalid word
    else walk p h (slots (slotIndex p h (p - 3) va)) va

-- The table pages below a slot, each after the pages of its own subtree.
def pages (p : Nat) : Nat → Tree → List Nat
  | h + 1, .table word slots =>
    (List.range (2 ^ (p - 3))).flatMap (fun i => pages p h (slots i)) ++ [Bits.slice 47 p word]
  | _, _ => []

end Tree

-- The table pages below the slots of a table that has `h` levels below it.
def tablePages (p h : Nat) (slots : Nat → Tree) : List Nat :=
  (List.range (2 ^ (p - 3))).flatMap (fun i => (slots i).pages p h)

theorem slotIndex_lt : slotIndex p h nbits va < 2 ^ nbits :=
  Nat.mod_lt _ (Nat.two_pow_pos _)

theorem walk_eq_tree_walk (hn : nbits ≤ p - 3) :
    walk mem p h base nbits va = (readTree mem p h base (slotIndex p h nbits va)).walk p h va := by
  have hi : ¬(2 ^ (p - 3) ≤ slotIndex p h nbits va) :=
    not_le_of_gt <| lt_of_lt_of_le slotIndex_lt <| Nat.pow_le_pow_right (by omega) hn
  induction h generalizing base nbits
  case zero =>
    rw [walk, readTree]
    by_cases hz : mem (base + 8 * slotIndex p 0 nbits va) = 0 <;> simp [hz, hi, Tree.walk]
  case succ h ih =>
    rw [walk, readTree]
    by_cases hz : mem (base + 8 * slotIndex p (h + 1) nbits va) = 0
    case pos => simp [hz, Tree.walk]
    case neg =>
      by_cases ht : (mem (base + 8 * slotIndex p (h + 1) nbits va)).testBit 1 <;>
        simp only [hz, hi, ht, Tree.walk, or_self, if_false, if_true]
      case pos =>
        rw [ih le_rfl (not_le_of_gt slotIndex_lt)]
      case neg => rfl

end Pgt
