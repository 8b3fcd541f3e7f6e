import BsaAcs.Interface
import BsaAcs.Lib.Memory

namespace Pgt

-- Subtraction of the 32-bit unsigned type.
def sub32 (a b : Nat) : Nat :=
  (a + 2 ^ 32 - b) % 2 ^ 32

def pgtEntryTableMask : Nat := 0x1 <<< 1
def pgtEntryValidMask : Nat := 0x1
def pgtEntryPageMask  : Nat := 0x1 <<< 1
def pgtEntryBlockMask : Nat := 0x0 <<< 1

def isPgtEntryBlock (val : Nat) : Bool :=
  val &&& 0x2 == 0

def pgtDescAttrUpperMask : Nat := ((0x1 <<< 12) - 1) <<< 52
def pgtDescAttrLowerMask : Nat := ((0x1 <<< 10) - 1) <<< 2
def pgtDescAttributesMask : Nat := pgtDescAttrUpperMask ||| pgtDescAttrLowerMask

def pgtDescAttributes (val : Nat) : Nat :=
  val &&& pgtDescAttributesMask

-- What the platform layer provides: the page size and the answers of its page allocator, by the
-- number of the call. The answer 0 is the NULL of a failed allocation. Virtual and physical
-- addresses are the same (`pal_mem_virt_to_phys`, `pal_mem_phys_to_virt`).
structure Platform where
  pageSize : Nat
  page     : Nat → Nat

structure State where
  mem    : Memory
  allocs : Nat
  freed  : List Nat

-- The file's static variables `page_size`, `bits_per_level` and `pgt_addr_mask`.
structure Globals where
  pageSize     : Nat
  bitsPerLevel : Nat
  pgtAddrMask  : Nat

structure TtDescriptor where
  ttBase     : Nat
  inputBase  : Nat
  inputTop   : Nat
  outputBase : Nat
  level      : Nat
  sizeLog2   : Nat
  nbits      : Nat

namespace TtDescriptor

def blockSize (tt : TtDescriptor) : Nat :=
  0x1 <<< tt.sizeLog2

def tableIndex (tt : TtDescriptor) (inputAddress : Nat) : Nat :=
  (inputAddress >>> tt.sizeLog2) &&& ((0x1 <<< tt.nbits) - 1)

def tableDesc (tt : TtDescriptor) (inputAddress : Nat) : Nat :=
  tt.ttBase + 8 * tt.tableIndex inputAddress

def blockEligible (tt : TtDescriptor) (inputAddress outputAddress : Nat) : Bool :=
  inputAddress &&& (tt.blockSize - 1) == 0 &&
  outputAddress &&& (tt.blockSize - 1) == 0 &&
  tt.inputTop ≥ (inputAddress + tt.blockSize - 1) % 2 ^ 64

def nextLevel (g : Globals) (tt : TtDescriptor) (ttBaseNextLevel inputAddress outputAddress : Nat) :
    TtDescriptor where
  ttBase     := ttBaseNextLevel
  inputBase  := inputAddress
  inputTop   := min tt.inputTop ((inputAddress + tt.blockSize - 1) % 2 ^ 64)
  outputBase := outputAddress
  level      := (tt.level + 1) % 2 ^ 32
  sizeLog2   := sub32 tt.sizeLog2 g.bitsPerLevel
  nbits      := g.bitsPerLevel

end TtDescriptor

-- `~(page_size - 1)` is a 32-bit value, so the conjunction drops the upper half of the address.
def pageDescriptor (g : Globals) (outputAddress attributes : Nat) : Nat :=
  (pgtEntryPageMask ||| pgtEntryValidMask) ||| (outputAddress &&& (2 ^ 32 - g.pageSize)) ||| attributes

-- `~(block_size - 1)` is a 64-bit value.
def blockDescriptor (tt : TtDescriptor) (outputAddress attributes : Nat) : Nat :=
  (pgtEntryBlockMask ||| pgtEntryValidMask) ||| (outputAddress &&& (2 ^ 64 - tt.blockSize)) |||
    attributes

def tableDescriptor (g : Globals) (ttBaseNextLevel : Nat) : Nat :=
  (pgtEntryTableMask ||| pgtEntryValidMask) ||| (ttBaseNextLevel &&& (2 ^ 32 - g.pageSize))

namespace State

def write (s : State) (a v : Nat) : State :=
  { s with mem := s.mem.write a v }

def valMemoryFreePages (s : State) (page : Nat) : State :=
  { s with freed := s.freed ++ [page] }

def valMemoryAllocPages (pf : Platform) (s : State) : Nat × State :=
  (pf.page s.allocs, { s with allocs := s.allocs + 1 })

-- The table of the next level: a new zeroed page if the entry is empty or holds a block, else the
-- page the entry points to. `none` is the failed allocation.
def nextTable (pf : Platform) (g : Globals) (s : State) (desc : Nat) : Option Nat × State :=
  if desc = 0 ∨ isPgtEntryBlock desc then
    let (page, s) := s.valMemoryAllocPages pf
    if page = 0 then (none, s) else (some page, { s with mem := s.mem.set page g.pageSize 0 })
  else
    (some (desc &&& g.pgtAddrMask), s)

end State

-- The body of `fill_translation_table` from the loop head with the given addresses. One unit of
-- fuel is spent on each turn of the loop and on each nested call; `none` means it did not suffice.
def fillFrom (pf : Platform) (g : Globals) (memDesc : MemoryRegionDescriptor) :
    Nat → TtDescriptor → Nat → Nat → State → Option (Nat × State)
  | 0, _, _, _, _ => none
  | fuel + 1, tt, inputAddress, outputAddress, s =>
    if inputAddress < tt.inputTop then
      let desc := tt.tableDesc inputAddress
      let next := fillFrom pf g memDesc fuel tt
        ((inputAddress + tt.blockSize) % 2 ^ 64) ((outputAddress + tt.blockSize) % 2 ^ 64)
      if tt.level = 3 then
        next (s.write desc (pageDescriptor g outputAddress memDesc.attributes))
      else if tt.blockEligible inputAddress outputAddress then
        next (s.write desc (blockDescriptor tt outputAddress memDesc.attributes))
      else
        match s.nextTable pf g (s.mem desc) with
        | (none, s) => some (acsStatusErr, s)
        | (some base, s) =>
          let ttNext := tt.nextLevel g base inputAddress outputAddress
          match fillFrom pf g memDesc fuel ttNext ttNext.inputBase ttNext.outputBase s with
          | none => none
          | some (status, s) =>
            if status ≠ 0 then
              some (acsStatusErr, s.valMemoryFreePages base)
            else
              next (s.write desc (tableDescriptor g base))
    else
      some (0, s)

def fillTranslationTable (pf : Platform) (g : Globals) (fuel : Nat) (tt : TtDescriptor)
    (memDesc : MemoryRegionDescriptor) (s : State) : Option (Nat × State) :=
  fillFrom pf g memDesc fuel tt tt.inputBase tt.outputBase s

-- The position of the lowest set bit. A 64-bit value is exhausted after 64 shifts.
def log2PageSize (size : Nat) : Nat :=
  go 64 size 0
where
  go : Nat → Nat → Nat → Nat
    | 0, _, _ => 0
    | fuel + 1, size, bit =>
      if size = 0 then 0
      else if size &&& 1 ≠ 0 then bit
      else go fuel (size >>> 1) (bit + 1)

def numPgtLevels (ias pageSizeLog2 bitsPerLevel : Nat) : Nat :=
  sub32 (sub32 ias pageSizeLog2 + bitsPerLevel) 1 / bitsPerLevel

-- The level, entry size and index width of the root table.
def rootSizeLog2 (numLevels pageSizeLog2 bitsPerLevel : Nat) : Nat :=
  (sub32 numLevels 1 * bitsPerLevel + pageSizeLog2) % 2 ^ 32

def rootLevel (numLevels : Nat) : Nat :=
  sub32 4 numLevels

def createGlobals (pf : Platform) : Globals :=
  let pageSizeLog2 := log2PageSize pf.pageSize
  { pageSize := pf.pageSize
    bitsPerLevel := sub32 pageSizeLog2 3
    pgtAddrMask := ((0x1 <<< (48 - pageSizeLog2)) - 1) <<< pageSizeLog2 }

def rootTtDescriptor (g : Globals) (pageSizeLog2 ttBase : Nat) (desc : PgtDescriptor)
    (memDesc : MemoryRegionDescriptor) : TtDescriptor :=
  let numLevels := numPgtLevels desc.ias pageSizeLog2 g.bitsPerLevel
  let inputBase := memDesc.virtualAddress &&& ((0x1 <<< desc.ias) - 1)
  let sizeLog2 := rootSizeLog2 numLevels pageSizeLog2 g.bitsPerLevel
  { ttBase     := ttBase
    inputBase  := inputBase
    inputTop   := (inputBase + memDesc.length + 2 ^ 64 - 1) % 2 ^ 64
    outputBase := memDesc.physicalAddress &&& ((0x1 <<< desc.oas) - 1)
    level      := rootLevel numLevels
    sizeLog2   := sizeLog2
    nbits      := sub32 desc.ias sizeLog2 }

-- The checks that `val_pgt_create` makes on the descriptor.
def misaligned (pageSize : Nat) (memDesc : MemoryRegionDescriptor) : Bool :=
  memDesc.virtualAddress &&& (pageSize - 1) != 0 || memDesc.physicalAddress &&& (pageSize - 1) != 0

def outOfRange (oas : Nat) (memDesc : MemoryRegionDescriptor) : Bool :=
  memDesc.physicalAddress ≥ 0x1 <<< oas

-- An input address that is too large is cut to the input size, in the caller's descriptor.
def truncateInput (ias : Nat) (memDesc : MemoryRegionDescriptor) : MemoryRegionDescriptor :=
  if memDesc.virtualAddress ≥ 0x1 <<< ias then
    { memDesc with virtualAddress := memDesc.virtualAddress &&& ((0x1 <<< ias) - 1) }
  else
    memDesc

structure CreateResult where
  status  : Nat
  memDesc : MemoryRegionDescriptor
  pgtDesc : PgtDescriptor
  state   : State

-- The loop of `val_pgt_create`. `iter` is what `mem_desc_iter` still has to visit; every other
-- access of the loop goes through `mem_desc`, the head of the array.
def createFrom (pf : Platform) (g : Globals) (fuel pageSizeLog2 ttBase : Nat) (desc : PgtDescriptor) :
    List MemoryRegionDescriptor → MemoryRegionDescriptor → State → Option CreateResult
  | [], memDesc, s => some ⟨0, memDesc, { desc with pgtBase := ttBase }, s⟩
  | it :: iter, memDesc, s =>
    if it.length = 0 then
      some ⟨0, memDesc, { desc with pgtBase := ttBase }, s⟩
    else if misaligned g.pageSize memDesc then
      some ⟨acsStatusErr, memDesc, desc, s⟩
    else if outOfRange desc.oas memDesc then
      some ⟨acsStatusErr, memDesc, desc, s⟩
    else
      let memDesc := truncateInput desc.ias memDesc
      if desc.tcr.tgSizeLog2.toNat ≠ pageSizeLog2 then
        some ⟨acsStatusErr, memDesc, desc, s⟩
      else
        let tt := rootTtDescriptor g pageSizeLog2 ttBase desc memDesc
        match fillTranslationTable pf g fuel tt memDesc s with
        | none => none
        | some (status, s) =>
          if status ≠ 0 then
            some ⟨acsStatusErr, memDesc, desc, s.valMemoryFreePages ttBase⟩
          else
            createFrom pf g fuel pageSizeLog2 ttBase desc iter memDesc s

-- The array is the list followed by a terminator of length 0, which is also `mem_desc` when the
-- list is empty.
def terminator : MemoryRegionDescriptor := ⟨0, 0, 0, 0⟩

def valPgtCreate (pf : Platform) (fuel : Nat) (memDesc : List MemoryRegionDescriptor)
    (desc : PgtDescriptor) (s : State) : Option CreateResult :=
  let g := createGlobals pf
  let (ttBase, s) := s.valMemoryAllocPages pf
  if ttBase = 0 then
    some ⟨acsStatusErr, memDesc.headD terminator, desc, s⟩
  else
    createFrom pf g fuel (log2PageSize pf.pageSize) ttBase desc memDesc (memDesc.headD terminator)
      { s with mem := s.mem.set ttBase g.pageSize 0 }

-- `depth` bounds the nesting: it is the number of levels, and level 3 is the last of them.
def freeTranslationTable (g : Globals) :
    Nat → Nat → Nat → Nat → State → State
  | 0, _, _, _, s => s
  | depth + 1, ttBase, bitsAtThisLevel, thisLevel, s =>
    if thisLevel = 3 then s
    else (List.range (0x1 <<< bitsAtThisLevel)).foldl (fun s index =>
      let desc := s.mem (ttBase + 8 * index)
      if desc = 0 then s
      else if isPgtEntryBlock desc then s
      else
        let next := desc &&& g.pgtAddrMask
        if next = 0 then s
        else
          (freeTranslationTable g depth next g.bitsPerLevel ((thisLevel + 1) % 2 ^ 32) s)
            |>.valMemoryFreePages next) s

def destroyGlobals (pf : Platform) (ias : Nat) : Globals :=
  let pageSizeLog2 := log2PageSize pf.pageSize
  { pageSize := pf.pageSize
    bitsPerLevel := sub32 pageSizeLog2 3
    pgtAddrMask := ((0x1 <<< (ias - pageSizeLog2)) - 1) <<< pageSizeLog2 }

def valPgtDestroy (pf : Platform) (desc : PgtDescriptor) (s : State) : State :=
  if desc.pgtBase = 0 then s
  else
    let g := destroyGlobals pf desc.ias
    let pageSizeLog2 := log2PageSize pf.pageSize
    let numLevels := numPgtLevels desc.ias pageSizeLog2 g.bitsPerLevel
    let bits := sub32 desc.ias (rootSizeLog2 numLevels pageSizeLog2 g.bitsPerLevel)
    (freeTranslationTable g numLevels desc.pgtBase bits (rootLevel numLevels) s)
      |>.valMemoryFreePages desc.pgtBase

end Pgt
