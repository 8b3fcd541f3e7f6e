import BsaAcs.Lib.Scan

namespace MemInfo

-- `MEM_INFO_TYPE_e`. The type that is asked for is given by `MEMORY_INFO_e`, with the same names and values.
inductive MemInfoType
  | device
  | normal
  | reserved
  | notPopulated
  | lastEntry
deriving DecidableEq, Repr

structure MemInfoBlock where
  type     : MemInfoType
  phyAddr  : Nat
  virtAddr : Nat
  size     : Nat
  flags    : Nat
deriving DecidableEq, Repr

-- The end of a region, as an address of 64 bits.
def MemInfoBlock.stop (block : MemInfoBlock) : Nat :=
  (block.phyAddr + block.size) % 2 ^ 64

-- The entries before the one that ends the table.
structure MemoryInfoTable where
  info    : List MemInfoBlock
  noneEnd : ∀ block ∈ info, block.type ≠ .lastEntry

-- The loops count the entries in a `uint32_t`.
def indexSize : Nat := 2 ^ 32

section

variable (table : MemoryInfoTable)

-- What a caller of `val_memory_get_entry_index` takes for an entry that is not there.
def notFound : Nat := 0xFF

def entryBody (type : MemInfoType) (i : Nat) (block : MemInfoBlock) (inst : Nat) : Nat ⊕ Nat :=
  if block.type = type then
    if inst = 0 then .inr i else .inl (inst - 1)
  else .inl inst

-- There is no result if the loop has not ended after `fuel` rounds.
def valMemoryGetEntryIndex (fuel : Nat) (type : MemInfoType) (inst : Nat) : Option Nat :=
  loop (Scan.step indexSize (entryBody type) (fun _ => notFound) table.info) fuel (0, inst)

-- The address that is returned, and what `attr` points to in the end.
def valMemoryGetAddr (fuel : Nat) (memType : MemInfoType) (inst attr : Nat) : Option (Nat × Nat) :=
  let i :=
    match memType with
    | .device => valMemoryGetEntryIndex table fuel .device inst
    | .normal => valMemoryGetEntryIndex table fuel .normal inst
    | _       => some notFound
  i.map fun i =>
    if i ≠ notFound then
      match table.info[i]? with
      | some block => (block.phyAddr, block.flags)
      | none       => (0, attr)
    else (0, attr)

def maxBody (_ : Nat) (block : MemInfoBlock) (addr : Nat) : Nat ⊕ Nat :=
  if block.phyAddr > addr then .inl block.stop else .inl addr

def valGetMaxMemory (fuel : Nat) : Option Nat :=
  loop (Scan.step indexSize maxBody id table.info) fuel (0, 0)

end

end MemInfo
