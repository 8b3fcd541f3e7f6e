import BsaAcs.Iovirt.Basic

namespace Iovirt

-- `check_mapping_overlap` of `pal_iovirt.c`.

-- The last output id of a mapping, in 32 bits.
def lastId (mem : Memory) (map : Nat) : Nat :=
  (outputBase mem map + idCount mem map + (2 ^ 32 - 1)) % 2 ^ 32

def rangesOverlap (keyStart keyEnd start end' : Nat) : Prop :=
  (keyStart ≥ start ∧ keyStart ≤ end') ∨ (keyEnd ≥ start ∧ keyEnd ≤ end') ∨
    (keyStart < start ∧ keyEnd > end')

instance {keyStart keyEnd start end' : Nat} : Decidable (rangesOverlap keyStart keyEnd start end') :=
  inferInstanceAs (Decidable (_ ∨ _ ∨ _))

def setFlag (mem : Memory) (block shift : Nat) : Memory :=
  mem.write (block + flagsWord) (mem (block + flagsWord) ||| (1 <<< shift))

-- The body of the innermost loop.
def compareMaps (keyBlock keyMap keyStart keyEnd block map : Nat) (mem : Memory) : Memory :=
  if outputRef mem map ≠ outputRef mem keyMap then mem
  else if rangesOverlap keyStart keyEnd (outputBase mem map) (lastId mem map) then
    let shift :=
      if mem (outputRef mem map / 4) = NodeType.itsGroup.code then devidOverlapShift
      else stridOverlapShift
    setFlag (setFlag mem keyBlock shift) block shift
  else mem

def mapLoop (keyBlock keyMap keyStart keyEnd block : Nat) : Nat → Nat → Memory → Memory
  | 0, _, mem         => mem
  | nMaps + 1, map, mem =>
    mapLoop keyBlock keyMap keyStart keyEnd block nMaps (map + dataMapSize)
      (compareMaps keyBlock keyMap keyStart keyEnd block map mem)

-- In the block of the key the loop starts behind the key, but is only one round shorter than for other
-- blocks, wherever the key is.
def blockLoop (keyBlock keyMap keyStart keyEnd : Nat) : Nat → Nat → Memory → Memory
  | 0, _, mem => mem
  | nBlocks + 1, block, mem =>
    let nMaps := mem (block + numDataMapWord)
    let mem :=
      if mem block = NodeType.itsGroup.code then mem
      else if block = keyBlock then
        mapLoop keyBlock keyMap keyStart keyEnd block (nMaps - 1) (keyMap + dataMapSize) mem
      else mapLoop keyBlock keyMap keyStart keyEnd block nMaps (dataMap block 0) mem
    blockLoop keyBlock keyMap keyStart keyEnd nBlocks (iovirtNextBlock mem block) mem

def keyMapLoop (keyBlock nKeyBlocks : Nat) : Nat → Nat → Memory → Memory
  | 0, _, mem => mem
  | nKeyMaps + 1, keyMap, mem =>
    keyMapLoop keyBlock nKeyBlocks nKeyMaps (keyMap + dataMapSize)
      (blockLoop keyBlock keyMap (outputBase mem keyMap) (lastId mem keyMap) nKeyBlocks keyBlock mem)

def keyBlockLoop : Nat → Nat → Memory → Memory
  | 0, _, mem => mem
  | nKeyBlocks + 1, keyBlock, mem =>
    let mem :=
      if mem keyBlock = NodeType.itsGroup.code then mem
      else keyMapLoop keyBlock (nKeyBlocks + 1) (mem (keyBlock + numDataMapWord)) (dataMap keyBlock 0) mem
    keyBlockLoop nKeyBlocks (iovirtNextBlock mem keyBlock) mem

def checkMappingOverlap (table : IovirtInfoTable) : IovirtInfoTable :=
  { table with mem := keyBlockLoop table.numBlocks firstBlock table.mem }

-- `val_iovirt_get_device_info` of `acs_iovirt.c`.

-- Whether a mapping takes an id, and the id it makes of it.
def takes (mem : Memory) (id map : Nat) : Bool :=
  decide (id ≥ inputBase mem map) && decide (id ≤ (inputBase mem map + idCount mem map) % 2 ^ 32)

def translate (mem : Memory) (id map : Nat) : Nat :=
  (id - inputBase mem map + outputBase mem map) % 2 ^ 32

-- The first root complex of the segment is searched to its last mapping that takes the requester id.
def rcMapping (table : IovirtInfoTable) (rid segment : Nat) : Option Nat :=
  match table.blocks.find? fun block =>
    decide (table.mem block = NodeType.pciRootComplex.code) &&
      decide (table.mem (block + dataWord) = segment) with
  | none => none
  | some block => (dataMaps table.mem block).findRev? (takes table.mem rid)

structure DeviceInfo where
  deviceId : Nat
  streamId : Nat
  itsId    : Nat
deriving DecidableEq, Repr

def itsIdOf (mem : Memory) (block : Nat) : Nat :=
  if mem block = NodeType.itsGroup.code then mem (dataMap block 0) else 0

-- Nothing where the function returns `ACS_STATUS_ERR`.
def valIovirtGetDeviceInfo (table : IovirtInfoTable) (rid segment : Nat) : Option DeviceInfo :=
  let mem := table.mem
  match rcMapping table rid segment with
  | none => none
  | some map =>
    let id := translate mem rid map
    let block := outputRef mem map / 4
    if mem block = NodeType.itsGroup.code then
      some { deviceId := id, streamId := 2 ^ 32 - 1, itsId := itsIdOf mem block }
    else if mem block = NodeType.smmu.code ∨ mem block = NodeType.smmuV3.code then
      match (dataMaps mem block).find? (takes mem id) with
      | none => none
      | some map =>
        some { deviceId := translate mem id map, streamId := id, itsId := itsIdOf mem (outputRef mem map / 4) }
    else none

end Iovirt
