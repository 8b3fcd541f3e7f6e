import BsaAcs.Pcie.Bitfield
import BsaAcs.Pcie.Control
import BsaAcs.Pcie.DeviceTable

namespace Pcie

-- `val_interface.h`
def acsStatusSkip : Nat := 0x10000000

-- An entry of a table of bit-fields, with the types of functions that it is for.
structure BitfieldTableEntry extends PcieCfgregBitfieldEntry where
  devPortBitmask : Nat
deriving DecidableEq, Repr

-- What is done to the functions, each with the state of the hardware before it.
inductive BitfieldStep (S : Type)
  | disableEru (s : S) (bdf : Nat)
  | check (s : S) (bdf : Nat) (bfEntry : PcieCfgregBitfieldEntry)

structure BitfieldRun (S : Type) where
  s        : S
  numPass  : Nat
  numFails : Nat
  steps    : List (BitfieldStep S)

section

variable {S : Type} (hw : Mmio S) (table : PcieInfoTable) (unset : Unset) (bitfieldUnset : BitfieldUnset)

-- The loop over the entries for one function.
def entryLoop (bdf dpType : Nat) : List BitfieldTableEntry → BitfieldRun S → Option (BitfieldRun S)
  | [], run => some run
  | bfEntry :: rest, run =>
    if dpType &&& bfEntry.devPortBitmask = 0 then entryLoop bdf dpType rest run
    else
      match valPcieBitfieldCheck hw table run.s bitfieldUnset bdf bfEntry.toPcieCfgregBitfieldEntry with
      | none => none
      | some (status, s) =>
        let steps := run.steps ++ [.check run.s bdf bfEntry.toPcieCfgregBitfieldEntry]
        if status ≠ 0 then entryLoop bdf dpType rest { run with s, steps, numFails := (run.numFails + 1) % 2 ^ 32 }
        else entryLoop bdf dpType rest { run with s, steps, numPass := (run.numPass + 1) % 2 ^ 32 }

-- The loop over the functions. The type of a function is kept in 16 bits.
def deviceLoop (entries : List BitfieldTableEntry) : List PcieDeviceAttr → BitfieldRun S → Option (BitfieldRun S)
  | [], run => some run
  | device :: rest, run =>
    match valPcieDisableEru hw table run.s (unset.pciecsBase device.bdf) device.bdf with
    | none => none
    | some s =>
      match valPcieDevicePortType hw table s unset device.bdf with
      | none => none
      | some dpType =>
        match entryLoop hw table bitfieldUnset device.bdf (dpType % 2 ^ 16) entries
          { run with s, steps := run.steps ++ [.disableEru run.s device.bdf] } with
        | none => none
        | some run => deviceLoop entries rest run

-- The status, and the run it comes from. There is no result if the search for a capability has none.
def valPcieRegisterBitfieldsCheck (devices : List PcieDeviceAttr) (entries : List BitfieldTableEntry) (s : S) :
    Option (Nat × BitfieldRun S) :=
  (deviceLoop hw table unset bitfieldUnset entries devices { s, numPass := 0, numFails := 0, steps := [] }).map
    fun run => (if run.numPass > 0 ∨ run.numFails > 0 then run.numFails else acsStatusSkip, run)

end

end Pcie
