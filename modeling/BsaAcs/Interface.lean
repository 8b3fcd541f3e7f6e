import Mathlib.Tactic

-- The records of `pal_interface.h` that the page table and the SMMU code exchange with the tests.
-- Bit fields keep their width; the other members are 32-bit or 64-bit words.

structure PeTcrBf where
  ps         : BitVec 3
  tg         : BitVec 2
  sh         : BitVec 2
  orgn       : BitVec 2
  irgn       : BitVec 2
  tsz        : BitVec 6
  sl         : BitVec 2
  tgSizeLog2 : BitVec 5
deriving DecidableEq, Repr

structure PgtDescriptor where
  pgtBase : Nat
  ias     : Nat
  oas     : Nat
  mair    : Nat
  stage   : Nat
  tcr     : PeTcrBf
deriving DecidableEq, Repr

structure MemoryRegionDescriptor where
  physicalAddress : Nat
  virtualAddress  : Nat
  length          : Nat
  attributes      : Nat
deriving DecidableEq, Repr

structure SmmuMasterAttributes where
  smmuIndex   : Nat
  streamid    : Nat
  substreamid : Nat
  ssidBits    : Nat
  stage2      : Nat
deriving DecidableEq, Repr

-- `val_interface.h`
def acsStatusErr : Nat := 0xEDCB1234
def acsStatusFail : Nat := 0x90000000
def acsStatusSkip : Nat := 0x10000000
def acsStatusPass : Nat := 0x0
