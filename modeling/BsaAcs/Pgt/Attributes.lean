import BsaAcs.Pgt.Walk

namespace Pgt

-- `val_pgt_get_attributes`

def isPgtEntryPage (val : Nat) : Bool :=
  val &&& 0x2 != 0

-- The mask for the address in a table descriptor is made from the input size.
def attributesMask (ias pageSizeLog2 : Nat) : Nat :=
  ((0x1 <<< (ias - pageSizeLog2)) - 1) <<< pageSizeLog2

-- The loop over the levels, with the status and the value of `*attributes` as its result. `turns`
-- bounds its length: it is the number of levels, and level 3 is the last of them.
def attributesFrom (mem : Memory) (bitsPerLevel mask virtualAddress attributes : Nat) :
    Nat → Nat → Nat → Nat → Nat → Option (Nat × Nat)
  | 0, _, _, _, _ => none
  | turns + 1, ttBase, thisLevel, bitsRemaining, bitsAtThisLevel =>
    let index := (virtualAddress >>> bitsRemaining) &&& ((0x1 <<< bitsAtThisLevel) - 1)
    let val64 := mem (ttBase + 8 * index)
    if thisLevel = 3 then
      if !isPgtEntryPage val64 then some (acsStatusErr, attributes)
      else some (0, pgtDescAttributes val64)
    else if isPgtEntryBlock val64 then
      some (0, pgtDescAttributes val64)
    else
      attributesFrom mem bitsPerLevel mask virtualAddress attributes turns (val64 &&& mask)
        ((thisLevel + 1) % 2 ^ 32) (sub32 bitsRemaining bitsAtThisLevel) bitsPerLevel

-- Where the walk ends: the height of the table and the word in its slot.
def Tree.ending : Nat → Nat → Tree → Nat → Nat × Nat
  | _, h, .empty, _ => (h, 0)
  | _, h, .leaf word, _ => (h, word)
  | _, 0, .table word _, _ => (0, word)
  | p, h + 1, .table _ slots, va => ending p h (slots (slotIndex p h (p - 3) va)) va

-- The table pages that the walk goes through after the first.
def walkTables (mem : Memory) (p : Nat) : Nat → Nat → Nat → Nat → List Nat
  | 0, _, _, _ => []
  | h + 1, base, nbits, va =>
    let desc := mem (base + 8 * slotIndex p (h + 1) nbits va)
    if desc.testBit 0 && desc.testBit 1 then
      Bits.slice 47 p desc :: walkTables mem p h (Bits.slice 47 p desc) (p - 3) va
    else
      []

-- Each turn after the first shifts by the index width of the table before it, and not by its own. If
-- the root is narrower than the other tables, the indices below the root are those of another address.
def lookupAddress (p ias va : Nat) : Nat :=
  let rootBytes := blockBytes p (rootHeight p ias)
  va / rootBytes * rootBytes + (va >>> (p - 3 - rootBits p ias)) % rootBytes

end Pgt
