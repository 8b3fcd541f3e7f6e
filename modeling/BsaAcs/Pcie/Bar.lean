import BsaAcs.Pcie.Basic

namespace Pcie

-- `bsa_acs_pcie_spec.h` and `bsa_acs_pcie.h`
def type01Bar : Nat := 0x10
def barMitShift : Nat := 0
def barMdtShift : Nat := 1
def barBaseShift : Nat := 4
def barMitMask : BitVec 32 := 0x1
def barMdtMask : BitVec 32 := 0x3
def barBaseMask : BitVec 32 := 0xfffffff
def mmio : BitVec 32 := 0
def bits32 : BitVec 32 := 0
def bits64 : BitVec 32 := 2
def type0MaxBars : Nat := 6
def type1MaxBars : Nat := 2

-- A slot is read for the base address register that starts there, or for the upper half of a 64-bit one.
inductive BarRead
  | low (index : Nat)
  | high (index : Nat)
deriving DecidableEq, Repr

-- The locals that a read leaves unset.
structure BarUnset where
  low    : BitVec 32
  high   : BitVec 32
  header : BitVec 32

-- The two words that `base` points to.
abbrev BarBase := BitVec 32 × BitVec 32

section

variable {S : Type} (hw : Mmio S) (table : PcieInfoTable) (s : S) (unset : BarUnset) (bdf : Nat) (base : BarBase)

-- The loop from `index` on, for as many rounds as there are slots left. A memory BAR that is neither for
-- 32 nor for 64 bits leaves the upper word as it was.
def getMmioBarFrom : Nat → Nat → BarBase × List BarRead
  | 0, _ => ((0, 0), [])
  | fuel + 1, index =>
    let barLow32bits := (valPcieReadCfg hw table s bdf (type01Bar + index * 4)).getD unset.low
    if (barLow32bits >>> barMitShift) &&& barMitMask = mmio then
      let low := ((barLow32bits >>> barBaseShift) &&& barBaseMask) <<< barBaseShift
      if (barLow32bits >>> barMdtShift) &&& barMdtMask = bits64 then
        let barHigh32bits := (valPcieReadCfg hw table s bdf (type01Bar + (index + 1) * 4)).getD unset.high
        ((low, barHigh32bits), [.low index, .high (index + 1)])
      else if (barLow32bits >>> barMdtShift) &&& barMdtMask = bits32 then ((low, 0), [.low index])
      else ((low, base.2), [.low index])
    else if valPcieFunctionHeaderType hw table s unset.header bdf = type1Header ∧ index + 1 = type1MaxBars then
      ((0, 0), [.low index])
    else
      let (base, reads) := getMmioBarFrom fuel (index + 1)
      (base, .low index :: reads)

-- What is written to `base`, and the slots that are read.
def valPcieGetMmioBar : BarBase × List BarRead :=
  getMmioBarFrom hw table s unset bdf base type0MaxBars 0

end

end Pcie
