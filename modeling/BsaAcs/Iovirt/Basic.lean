import BsaAcs.Lib.Memory

namespace Iovirt

-- `pal_interface.h`. The table is kept as 32-bit words: six counters, then the blocks one behind the
-- other. A word is named by its index in the table, an offset counts bytes.
inductive NodeType
  | itsGroup
  | namedComponent
  | pciRootComplex
  | smmu
  | smmuV3
  | pmcg
deriving DecidableEq, Repr

def NodeType.code : NodeType → Nat
  | itsGroup       => 0x00
  | namedComponent => 0x01
  | pciRootComplex => 0x02
  | smmu           => 0x03
  | smmuV3         => 0x04
  | pmcg           => 0x05

def firstBlock : Nat := 6

-- The words of a block: the type, the number of data maps, 64 words of node data, the flags, and then
-- four words for each data map.
def numDataMapWord : Nat := 1
def dataWord : Nat := 2
def flagsWord : Nat := 66
def dataMapWord : Nat := 67
def dataMapSize : Nat := 4

def dataMap (block i : Nat) : Nat :=
  block + dataMapWord + dataMapSize * i

def iovirtNextBlock (mem : Memory) (block : Nat) : Nat :=
  dataMap block (mem (block + numDataMapWord))

-- The words of an ID mapping.
def inputBase (mem : Memory) (map : Nat) : Nat := mem map
def idCount (mem : Memory) (map : Nat) : Nat := mem (map + 1)
def outputBase (mem : Memory) (map : Nat) : Nat := mem (map + 2)
def outputRef (mem : Memory) (map : Nat) : Nat := mem (map + 3)

def devidOverlapShift : Nat := 0
def stridOverlapShift : Nat := 1
def smmuCtxIntShift : Nat := 2

structure IovirtInfoTable where
  mem                : Memory
  numBlocks          : Nat
  numSmmus           : Nat
  numPciRcs          : Nat
  numNamedComponents : Nat
  numItsGroups       : Nat
  numPmcgs           : Nat

-- The blocks that a loop over the first `n` blocks visits, starting from `block`.
def blocksFrom (mem : Memory) : Nat → Nat → List Nat
  | 0, _         => []
  | n + 1, block => block :: blocksFrom mem n (iovirtNextBlock mem block)

def IovirtInfoTable.blocks (table : IovirtInfoTable) : List Nat :=
  blocksFrom table.mem table.numBlocks firstBlock

def dataMaps (mem : Memory) (block : Nat) : List Nat :=
  (List.range (mem (block + numDataMapWord))).map (dataMap block)

end Iovirt
