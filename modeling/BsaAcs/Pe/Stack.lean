import BsaAcs.Info.Madt

-- The stacks of the secondary PEs: `PalAllocateSecondaryStack` and `ModuleEntryPoint`.

namespace Pe

def sizeStackSecondaryPe : Nat := 0x100

-- An affinity field of an MPIDR, at its place in the register.
def affinityField (shift mpidr : Nat) : Nat :=
  (mpidr &&& 0xFF <<< shift) >>> shift

def aff0 : Nat → Nat := affinityField 0
def aff1 : Nat → Nat := affinityField 8
def aff2 : Nat → Nat := affinityField 16
def aff3 : Nat → Nat := affinityField 32

def numPe (mpidr : Nat) : Nat :=
  (aff3 mpidr + 1) * (aff2 mpidr + 1) * (aff1 mpidr + 1) * (aff0 mpidr + 1)

-- The bytes that are asked for, in 32 bits, if there is no stack yet.
def palAllocateSecondaryStack (gSecondaryPeStack mpidr : Nat) : Option Nat :=
  if gSecondaryPeStack = 0 then some (numPe mpidr % 2 ^ 32 * sizeStackSecondaryPe % 2 ^ 32) else none

-- `x0` after the last `madd`.
def corePos (mpidr mpidrMax : Nat) : Nat :=
  let x5 := aff0 mpidrMax + 1
  let x0 := aff1 mpidr * x5 + aff0 mpidr
  let x5 := x5 * (aff1 mpidrMax + 1)
  let x0 := aff2 mpidr * x5 + x0
  let x5 := x5 * (aff2 mpidrMax + 1)
  aff3 mpidr * x5 + x0

-- The stack pointer with which `val_test_entry` is entered. The calls are taken to leave the other registers alone.
def moduleEntryPoint (mpidr mpidrMax stackBase : Nat) : Nat :=
  (stackBase + sizeStackSecondaryPe * corePos mpidr mpidrMax) % 2 ^ 64

-- The memory that is the stack of a PE, which grows downwards.
def stack (mpidr mpidrMax stackBase : Nat) : Set Nat :=
  Set.Ico (moduleEntryPoint mpidr mpidrMax stackBase - sizeStackSecondaryPe) (moduleEntryPoint mpidr mpidrMax stackBase)

end Pe
