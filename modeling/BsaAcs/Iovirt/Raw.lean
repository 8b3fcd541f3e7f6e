import BsaAcs.Iovirt.Walk

namespace Iovirt

-- The IORT as the firmware left it, byte by byte from its start. Behind its end lies whatever the memory
-- holds, since `pal_iovirt_create_info_table` checks no bounds.
abbrev Bytes := Nat → UInt8

namespace Bytes

variable (bytes : Bytes)

def byte (a : Nat) : Nat :=
  (bytes a).toNat

def uint16 (a : Nat) : Nat :=
  bytes.byte a + 2 ^ 8 * bytes.byte (a + 1)

def uint32 (a : Nat) : Nat :=
  bytes.uint16 a + 2 ^ 16 * bytes.uint16 (a + 2)

def uint64 (a : Nat) : Nat :=
  bytes.uint32 a + 2 ^ 32 * bytes.uint32 (a + 4)

-- `IORT_TABLE`
def tableLength : Nat := bytes.uint32 4
def nodeCount : Nat := bytes.uint32 36
def nodeOffset : Nat := bytes.uint32 40

-- `IORT_NODE`
def nodeLength (node : Nat) : Nat := bytes.uint16 (node + 1)
def mappingCount (node : Nat) : Nat := bytes.uint32 (node + 8)
def mappingOffset (node : Nat) : Nat := bytes.uint32 (node + 12)
def nodeData (node : Nat) : Nat := node + 16

def idMapping (map : Nat) : IortIdMapping where
  inputBase       := bytes.uint32 map
  idCount         := bytes.uint32 (map + 4)
  outputBase      := bytes.uint32 (map + 8)
  outputReference := bytes.uint32 (map + 12)

def idMappingSize : Nat := 20

def mappings (node : Nat) : List IortIdMapping :=
  (List.range (bytes.mappingCount node)).map fun i =>
    bytes.idMapping (node + bytes.mappingOffset node + idMappingSize * i)

def identifiers (data : Nat) : List Nat :=
  (List.range (bytes.uint32 data)).map fun i => bytes.uint32 (data + 4 + 4 * i)

-- No more than 255 characters are copied.
def deviceName (data : Nat) : List Nat :=
  ((List.range 255).map fun i => bytes.byte (data + 13 + i)).takeWhile (· ≠ 0)

def contextInterrupts (node data : Nat) : List Nat :=
  (List.range (bytes.uint32 (data + 28))).map fun i => bytes.uint64 (node + bytes.uint32 (data + 32) + 8 * i)

-- Nothing for a type that the switch of `iort_add_block` does not know.
def data (node : Nat) : Option NodeData :=
  let data := nodeData node
  match bytes.byte node with
  | 0x00 => some (.itsGroup (bytes.identifiers data))
  | 0x01 => some (.namedComponent (bytes.deviceName data))
  | 0x02 => some (.rootComplex (bytes.uint64 data) (bytes.uint32 (data + 8)) (bytes.uint32 (data + 12)))
  | 0x03 => some (.smmu (bytes.uint64 data) (bytes.contextInterrupts node data))
  | 0x04 => some (.smmuV3 (bytes.uint64 data))
  | 0x05 => some (.pmcg (bytes.uint64 data) (bytes.uint32 (data + 8)) (bytes.uint32 (data + 12)))
  | _    => none

def node (offset : Nat) : Option IortNode :=
  (bytes.data offset).map fun data => { offset := offset, data := data, mappings := bytes.mappings offset }

end Bytes

-- `(UINT32) -1`
def noOffset : Nat := 2 ^ 32 - 1

-- `stray` says that `noOffset` has been followed as if it were the offset of a block.
structure RawAdded extends Added where
  stray : Bool

-- The type of the block behind a mapping is only looked up for a root complex.
def followsNoOffset (node : IortNode) (offset : Nat) : Bool :=
  decide (node.data.type = .pciRootComplex) && decide (offset = noOffset)

-- What is written for a type that is not known.
def populateUnknown (bytes : Bytes) (offset block : Nat) (mem : Memory) : Memory :=
  let mem := fill mem (block + dataWord) dataSize fun _ => 0
  let mem := mem.write block (bytes.byte offset)
  mem.write (block + numDataMapWord) (bytes.mappingCount offset)

section Add

variable (add : Nat → IovirtInfoTable → Nat → Option RawAdded)

def addMappingsRaw (node : IortNode) (block : Nat) :
    List IortIdMapping → Nat → IovirtInfoTable → Nat → Bool → Option (IovirtInfoTable × Nat × Bool)
  | [], _, table, next, stray => some (table, next, stray)
  | map :: maps, dataMap, table, next, stray => do
    let added ← add map.outputReference { table with mem := copyMapping map dataMap table.mem } next
    let mem := added.table.mem.write (dataMap + 3) added.offset
    let mem := setSmmuBase node block added.offset mem
    addMappingsRaw node block maps (dataMap + dataMapSize) { added.table with mem := mem } added.next
      (stray || added.stray || followsNoOffset node added.offset)

def addReferenceRaw (node : IortNode) (block : Nat) (table : IovirtInfoTable) :
    Option (IovirtInfoTable × Bool) :=
  match node.data with
  | .pmcg _ _ nodeReference => do
    let added ← add nodeReference table (iovirtNextBlock table.mem block)
    let mem := added.table.mem.write (block + dataWord + nodeRefWord) added.offset
    some ({ added.table with mem := mem }, added.stray)
  | _ => some (table, false)

end Add

-- `iort_add_block` for the node at `offset`. `fuel` bounds the depth of the recursion.
def iortAddBlockRaw (bytes : Bytes) : Nat → Nat → IovirtInfoTable → Nat → Option RawAdded
  | 0, _, _, _ => none
  | fuel + 1, offset, table, block =>
    match bytes.node offset with
    | none =>
      some {
        offset := noOffset
        table  := { table with mem := populateUnknown bytes offset block table.mem }
        next   := block
        stray  := false }
    | some node => do
      let table := { table with mem := populate node block table.mem }
      let (table, stray) ← addReferenceRaw (iortAddBlockRaw bytes fuel) node block table
      let table := { table with mem := table.mem.write (block + flagsWord) 0 }
      let offset := findBlock block table
      if offset ≠ 0 then some { offset := offset, table := table, next := block, stray := stray }
      else do
        let next := iovirtNextBlock table.mem block
        let table := { table with mem := checkCtxInt node block table.mem }
        let (table, next, stray) ←
          addMappingsRaw (iortAddBlockRaw bytes fuel) node block node.maps (dataMap block 0) table next stray
        some { offset := offsetOf block, table := table.increment node.data.type, next := next, stray := stray }

-- Whether `check_mapping_overlap` follows `noOffset`. The type of the block is looked up for two mappings
-- with the same reference that overlap.
section Overlap

def compareStray (keyMap keyStart keyEnd map : Nat) (mem : Memory) : Bool :=
  decide (outputRef mem map = outputRef mem keyMap) &&
    decide (rangesOverlap keyStart keyEnd (outputBase mem map) (lastId mem map)) &&
    decide (outputRef mem map = noOffset)

def mapLoopStray (keyBlock keyMap keyStart keyEnd block : Nat) : Nat → Nat → Memory → Bool
  | 0, _, _ => false
  | nMaps + 1, map, mem =>
    compareStray keyMap keyStart keyEnd map mem ||
      mapLoopStray keyBlock keyMap keyStart keyEnd block nMaps (map + dataMapSize)
        (compareMaps keyBlock keyMap keyStart keyEnd block map mem)

def blockLoopStray (keyBlock keyMap keyStart keyEnd : Nat) : Nat → Nat → Memory → Bool
  | 0, _, _ => false
  | nBlocks + 1, block, mem =>
    let nMaps := mem (block + numDataMapWord)
    let (stray, mem) :=
      if mem block = NodeType.itsGroup.code then (false, mem)
      else if block = keyBlock then
        (mapLoopStray keyBlock keyMap keyStart keyEnd block (nMaps - 1) (keyMap + dataMapSize) mem,
          mapLoop keyBlock keyMap keyStart keyEnd block (nMaps - 1) (keyMap + dataMapSize) mem)
      else
        (mapLoopStray keyBlock keyMap keyStart keyEnd block nMaps (dataMap block 0) mem,
          mapLoop keyBlock keyMap keyStart keyEnd block nMaps (dataMap block 0) mem)
    stray || blockLoopStray keyBlock keyMap keyStart keyEnd nBlocks (iovirtNextBlock mem block) mem

def keyMapLoopStray (keyBlock nKeyBlocks : Nat) : Nat → Nat → Memory → Bool
  | 0, _, _ => false
  | nKeyMaps + 1, keyMap, mem =>
    blockLoopStray keyBlock keyMap (outputBase mem keyMap) (lastId mem keyMap) nKeyBlocks keyBlock mem ||
      keyMapLoopStray keyBlock nKeyBlocks nKeyMaps (keyMap + dataMapSize)
        (blockLoop keyBlock keyMap (outputBase mem keyMap) (lastId mem keyMap) nKeyBlocks keyBlock mem)

def keyBlockLoopStray : Nat → Nat → Memory → Bool
  | 0, _, _ => false
  | nKeyBlocks + 1, keyBlock, mem =>
    let nKeyMaps := mem (keyBlock + numDataMapWord)
    let (stray, mem) :=
      if mem keyBlock = NodeType.itsGroup.code then (false, mem)
      else
        (keyMapLoopStray keyBlock (nKeyBlocks + 1) nKeyMaps (dataMap keyBlock 0) mem,
          keyMapLoop keyBlock (nKeyBlocks + 1) nKeyMaps (dataMap keyBlock 0) mem)
    stray || keyBlockLoopStray nKeyBlocks (iovirtNextBlock mem keyBlock) mem

def overlapStray (table : IovirtInfoTable) : Bool :=
  keyBlockLoopStray table.numBlocks firstBlock table.mem

end Overlap

-- The loop over the nodes, and the check of their mappings. It gives up where a node starts behind the end of
-- the table.
def addNodesRaw (bytes : Bytes) (fuel : Nat) :
    Nat → Nat → IovirtInfoTable → Nat → Bool → Option (IovirtInfoTable × Bool)
  | 0, _, table, _, stray => some (checkMappingOverlap table, stray || overlapStray table)
  | count + 1, offset, table, next, stray =>
    if offset ≥ bytes.tableLength then some (table, stray)
    else do
      let added ← iortAddBlockRaw bytes fuel offset table next
      addNodesRaw bytes fuel count (offset + bytes.nodeLength offset) added.table added.next (stray || added.stray)

-- `pal_iovirt_create_info_table`, where `mem` is what the destination buffer held before.
def palIovirtCreateInfoTableRaw (bytes : Bytes) (fuel : Nat) (mem : Memory) : Option (IovirtInfoTable × Bool) :=
  addNodesRaw bytes fuel bytes.nodeCount bytes.nodeOffset (emptyTable mem) firstBlock false

end Iovirt
