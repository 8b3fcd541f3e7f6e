import BsaAcs.Iovirt.Mapping

namespace Iovirt

-- `pal_iovirt.h`. Of the node data only the fields are kept that the translation reads. A name is the
-- list of its characters up to the terminator.
inductive NodeData
  | itsGroup (identifiers : List Nat)
  | namedComponent (deviceName : List Nat)
  | rootComplex (memoryProperties atsAttribute pciSegmentNumber : Nat)
  | smmu (baseAddress : Nat) (contextInterrupts : List Nat)
  | smmuV3 (baseAddress : Nat)
  | pmcg (baseAddress overflowInterruptGsiv nodeReference : Nat)
deriving DecidableEq, Repr

def NodeData.type : NodeData → NodeType
  | itsGroup ..       => .itsGroup
  | namedComponent .. => .namedComponent
  | rootComplex ..    => .pciRootComplex
  | smmu ..           => .smmu
  | smmuV3 ..         => .smmuV3
  | pmcg ..           => .pmcg

structure IortIdMapping where
  inputBase       : Nat
  idCount         : Nat
  outputBase      : Nat
  outputReference : Nat
deriving DecidableEq, Repr

-- A node with the offset that references name it by.
structure IortNode where
  offset   : Nat
  data     : NodeData
  mappings : List IortIdMapping
deriving DecidableEq, Repr

-- The nodes in table order.
abbrev Iort := List IortNode

def Iort.nodeAt (iort : Iort) (reference : Nat) : Option IortNode :=
  iort.find? fun node => node.offset = reference

-- `AsciiStrnCpyS` copies all but the last character that fits.
def nameByte (deviceName : List Nat) (i : Nat) : Nat :=
  (deviceName.take 255).getD i 0

def nameWord (deviceName : List Nat) (w : Nat) : Nat :=
  nameByte deviceName (4 * w) + 2 ^ 8 * nameByte deviceName (4 * w + 1) +
    2 ^ 16 * nameByte deviceName (4 * w + 2) + 2 ^ 24 * nameByte deviceName (4 * w + 3)

def smmuBaseWord : Nat := 2
def nodeRefWord : Nat := 3
def rcSmmuBaseWord : Nat := 4

-- The words of the node data that the switch of `iort_add_block` fills in.
def NodeData.word : NodeData → Nat → Nat
  | itsGroup identifiers, 0                => identifiers.length
  | namedComponent deviceName, w           => nameWord deviceName w
  | rootComplex _ _ segment, 0             => segment
  | rootComplex _ atsAttribute _, 1        => atsAttribute
  | rootComplex memoryProperties _ _, 2    => memoryProperties % 2 ^ 32
  | smmu .., 0                             => 2
  | smmu base _, 2                         => base % 2 ^ 32
  | smmu base _, 3                         => base / 2 ^ 32
  | smmuV3 _, 0                            => 3
  | smmuV3 base, 2                         => base % 2 ^ 32
  | smmuV3 base, 3                         => base / 2 ^ 32
  | pmcg base _ _, 0                       => base % 2 ^ 32
  | pmcg base _ _, 1                       => base / 2 ^ 32
  | pmcg _ gsiv _, 2                       => gsiv
  | pmcg _ _ nodeReference, 3              => nodeReference
  | _, _                                   => 0

-- `SetMem` and `CopyMem`, in words.
def fill (mem : Memory) (a n : Nat) (words : Nat → Nat) : Memory :=
  fun x => if a ≤ x ∧ x < a + n then words (x - a) else mem x

def dataSize : Nat := 64

def populate (node : IortNode) (block : Nat) (mem : Memory) : Memory :=
  let mem := fill mem (block + dataWord) dataSize node.data.word
  let mem := mem.write block node.data.type.code
  let mem := mem.write (block + numDataMapWord) node.mappings.length
  match node.data with
  | .itsGroup identifiers =>
    let mem := fill mem (dataMap block 0) identifiers.length fun i => identifiers.getD i 0
    mem.write (block + numDataMapWord) ((identifiers.length + 3) / 4)
  | _ => mem

-- Offsets have 32 bits.
def offsetOf (block : Nat) : Nat := (4 * block) % 2 ^ 32

-- An ITS group is compared with its flags and identifiers, any other block up to the flags.
def cmpSize (mem : Memory) (block : Nat) : Nat :=
  if mem block = NodeType.itsGroup.code then flagsWord + (mem (block + dataWord) + 1) else flagsWord

def sameBlock (mem : Memory) (key block : Nat) : Bool :=
  decide (mem key = mem block) && decide (∀ w < cmpSize mem block, mem (key + w) = mem (block + w))

-- 0 if the block is not found.
def findBlock (key : Nat) (table : IovirtInfoTable) : Nat :=
  match table.blocks.find? (sameBlock table.mem key) with
  | some block => offsetOf block
  | none       => 0

def smmuCtxIntDistinct : List Nat → Bool
  | []                 => true
  | ctxInt :: ctxInts => ctxInts.all (fun c => decide (c % 2 ^ 32 ≠ ctxInt % 2 ^ 32)) && smmuCtxIntDistinct ctxInts

def checkCtxInt (node : IortNode) (block : Nat) (mem : Memory) : Memory :=
  match node.data with
  | .smmu _ contextInterrupts =>
    if smmuCtxIntDistinct contextInterrupts then mem else setFlag mem block smmuCtxIntShift
  | _ => mem

def IovirtInfoTable.increment (table : IovirtInfoTable) (type : NodeType) : IovirtInfoTable :=
  let table := { table with numBlocks := table.numBlocks + 1 }
  match type with
  | .itsGroup       => { table with numItsGroups := table.numItsGroups + 1 }
  | .namedComponent => { table with numNamedComponents := table.numNamedComponents + 1 }
  | .pciRootComplex => { table with numPciRcs := table.numPciRcs + 1 }
  | .smmu           => { table with numSmmus := table.numSmmus + 1 }
  | .smmuV3         => { table with numSmmus := table.numSmmus + 1 }
  | .pmcg           => { table with numPmcgs := table.numPmcgs + 1 }

-- What `iort_add_block` returns, and where it leaves the pointer to the next block.
structure Added where
  offset : Nat
  table  : IovirtInfoTable
  next   : Nat

-- The root complex takes over the base of the SMMU that its mapping leads to. The field is cleared in
-- blocks of all types.
def setSmmuBase (node : IortNode) (block offset : Nat) (mem : Memory) : Memory :=
  let field := block + dataWord + rcSmmuBaseWord
  let mem := (mem.write field 0).write (field + 1) 0
  let target := offset / 4
  if node.data.type = .pciRootComplex ∧
      (mem target = NodeType.smmu.code ∨ mem target = NodeType.smmuV3.code) then
    (mem.write field (mem (target + dataWord + smmuBaseWord))).write (field + 1)
      (mem (target + dataWord + smmuBaseWord + 1))
  else mem

def copyMapping (map : IortIdMapping) (dataMap : Nat) (mem : Memory) : Memory :=
  ((mem.write dataMap map.inputBase).write (dataMap + 1) map.idCount).write (dataMap + 2) map.outputBase

-- The loop over the ID mappings, with the recursive call as `add`.
def addMappings (iort : Iort) (add : IortNode → IovirtInfoTable → Nat → Option Added) (node : IortNode)
    (block : Nat) : List IortIdMapping → Nat → IovirtInfoTable → Nat → Option (IovirtInfoTable × Nat)
  | [], _, table, next => some (table, next)
  | map :: maps, dataMap, table, next => do
    let target ← iort.nodeAt map.outputReference
    let added ← add target { table with mem := copyMapping map dataMap table.mem } next
    let mem := added.table.mem.write (dataMap + 3) added.offset
    let mem := setSmmuBase node block added.offset mem
    addMappings iort add node block maps (dataMap + dataMapSize) { added.table with mem := mem } added.next

-- The node that a PMCG belongs to is added behind the block of the PMCG.
def addReference (iort : Iort) (add : IortNode → IovirtInfoTable → Nat → Option Added) (node : IortNode)
    (block : Nat) (table : IovirtInfoTable) : Option IovirtInfoTable :=
  match node.data with
  | .pmcg _ _ nodeReference => do
    let target ← iort.nodeAt nodeReference
    let added ← add target table (iovirtNextBlock table.mem block)
    let mem := added.table.mem.write (block + dataWord + nodeRefWord) added.offset
    some { added.table with mem := mem }
  | _ => some table

-- `fuel` bounds the depth of the recursion.
def iortAddBlock (iort : Iort) : Nat → IortNode → IovirtInfoTable → Nat → Option Added
  | 0, _, _, _ => none
  | fuel + 1, node, table, block => do
    let table := { table with mem := populate node block table.mem }
    let table ← addReference iort (iortAddBlock iort fuel) node block table
    let table := { table with mem := table.mem.write (block + flagsWord) 0 }
    let offset := findBlock block table
    if offset ≠ 0 then some { offset := offset, table := table, next := block }
    else do
      let next := iovirtNextBlock table.mem block
      let table := { table with mem := checkCtxInt node block table.mem }
      let maps := if node.data.type = .itsGroup then [] else node.mappings
      let (table, next) ← addMappings iort (iortAddBlock iort fuel) node block maps (dataMap block 0) table next
      some { offset := offsetOf block, table := table.increment node.data.type, next := next }

def addNodes (iort : Iort) (fuel : Nat) : List IortNode → IovirtInfoTable → Nat → Option IovirtInfoTable
  | [], table, _ => some table
  | node :: nodes, table, next => do
    let added ← iortAddBlock iort fuel node table next
    addNodes iort fuel nodes added.table added.next

def emptyTable (mem : Memory) : IovirtInfoTable where
  mem                := mem
  numBlocks          := 0
  numSmmus           := 0
  numPciRcs          := 0
  numNamedComponents := 0
  numItsGroups       := 0
  numPmcgs           := 0

-- `mem` is what the destination buffer held before.
def palIovirtCreateInfoTable (iort : Iort) (fuel : Nat) (mem : Memory) : Option IovirtInfoTable := do
  let table ← addNodes iort fuel iort (emptyTable mem) firstBlock
  some (checkMappingOverlap table)

end Iovirt
