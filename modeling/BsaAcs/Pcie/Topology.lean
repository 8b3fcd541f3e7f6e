import BsaAcs.Pcie.Enumeration
import BsaAcs.Pcie.Theorems.Capability
import BsaAcs.Pcie.DeviceTable

namespace Pcie

section

variable {S : Type} (hw : Mmio S) (table : PcieInfoTable)

-- `pal_pcie_enumerate` does nothing.
def valPcieEnumerate (palBsaPcieEnumerate : Bool) (vendorId headerValue : BitVec 32) (fuel : Nat) (s : S) : Option S :=
  if palBsaPcieEnumerate then (valBsaPcieEnumerate hw table vendorId headerValue fuel s).map Prod.fst else some s

-- From the table of windows on, which the PAL has filled in. The status of the table of devices is only printed.
def valPcieCreateInfoTable (palBsaPcieEnumerate : Bool) (vendorId headerValue : BitVec 32) (unset : Unset) (fuel : Nat)
    (s : S) (bdfTable : Option (List PcieDeviceAttr)) : Option (S × Option (List PcieDeviceAttr)) :=
  if table.length = 0 then some (s, bdfTable)
  else
    match valPcieEnumerate hw table palBsaPcieEnumerate vendorId headerValue fuel s with
    | none => none
    | some s => (valPcieCreateDeviceBdfTable hw table s unset bdfTable).map fun (_, devices) => (s, some devices)

end

-- A function of a topology: the indices of the bridges above it, from the root bus on, its own index, and what its
-- config space holds.
structure Node where
  above      : List Nat
  index      : Nat
  bus        : Nat
  headerType : Nat
  word       : Nat → BitVec 32

-- The functions of a bus with the number `n` from the index `i` on, and those behind its bridges.
def Bus.nodes (n : Nat) (above : List Nat) (i : Nat) : Bus → List Node
  | nil                            => []
  | absent rest                    => rest.nodes n above (i + 1)
  | type0 words rest               => ⟨above, i, n, type0Header, words.word⟩ :: rest.nodes n above (i + 1)
  | type1 words busNum behind rest =>
    ⟨above, i, n, type1Header, fun offset => if offset = busNumRegOffset then busNum else words.word offset⟩ ::
      (behind.nodes (secondaryBus busNum) (above ++ [i]) 0 ++ rest.nodes n above (i + 1))

namespace Node

variable (f e : Node)

def bdf : Nat :=
  pcieCreateBdf 0 f.bus (f.index / 8) (f.index % 8)

-- `pal_mmio_read` drops the last two bits of the address.
def config (offset : Nat) : BitVec 32 :=
  f.word (offset - offset % 4)

def HostBridge : Prop :=
  (f.config type01Ridr >>> 24 &&& 0xFF).toNat = hbBaseClass ∧ (f.config type01Ridr >>> 16 &&& 0xFF).toNat = hbSubClass

def Capabilities (l : List Nat) : Prop :=
  CapList f.config (f.config type01Cpr &&& 0xFF).toNat l

-- Where the PCI Express capability is.
def Pciecs (offset : Nat) : Prop :=
  ∃ l, f.Capabilities l ∧ l.find? (isCap f.config cidPciecs) = some offset

-- The device/port type that this capability shows.
def PortType (t : Nat) : Prop :=
  ∃ offset, f.Pciecs offset ∧ t = 1 <<< (f.config offset >>> 20 &&& 0xF).toNat

-- The bridge `e` is above the function.
def Below : Prop :=
  e.headerType = type1Header ∧ e.above ++ [e.index] <+: f.above

-- A function that has a PCI Express capability, on a device that has a function 0.
def Listed (fs : List Node) : Prop :=
  ¬f.HostBridge ∧ (∃ offset, f.Pciecs offset) ∧ ∃ g ∈ fs, g.bus = f.bus ∧ g.index = f.index / 8 * 8

-- What passes for the root port of the function: a bridge above it, or a function that is no bridge and has the bus
-- in the bytes where a bridge has its bus numbers.
def Leads : Prop :=
  f.Below e ∨ e.headerType = type0Header ∧ Bus.claims (e.word type1Pbn) f.bus

-- Neither a root port nor integrated into the root complex.
def Plain : Prop :=
  ¬f.PortType rp ∧ ¬f.PortType rciep ∧ ¬f.PortType rcec

end Node

-- The table lists the functions in the order of their numbers, and each one with what has been taken for its root port:
-- the first function of the table that passes for one. This is the bridge of the root bus above the function, unless
-- some function that is no bridge looks like one.
structure Tabled (fs : List Node) (devices : List PcieDeviceAttr) : Prop where
  sorted     : (devices.map (·.bdf)).Pairwise (· < ·)
  listed     : ∀ bdf, bdf ∈ devices.map (·.bdf) ↔ ∃ f ∈ fs, f.Listed fs ∧ f.bdf = bdf
  rootPort   : ∀ f ∈ fs, f.Listed fs → f.PortType rp → ⟨f.bdf, some f.bdf⟩ ∈ devices
  integrated : ∀ f ∈ fs, f.Listed fs → f.PortType rciep ∨ f.PortType rcec → ⟨f.bdf, some 0xFFFFFFFF⟩ ∈ devices
  plain      : ∀ f ∈ fs, f.Listed fs → f.Plain → ∃ e ∈ fs, e.Listed fs ∧ f.Leads e ∧ ⟨f.bdf, some e.bdf⟩ ∈ devices ∧
    ∀ e' ∈ fs, e'.Listed fs → f.Leads e' → e.bdf ≤ e'.bdf
  topmost    : ∀ f ∈ fs, f.Listed fs → f.Plain → ∀ e ∈ fs, e.Listed fs → e.above = [] → f.Below e →
    (∀ g ∈ fs, g.Listed fs → g.headerType = type0Header → ¬Bus.claims (g.word type1Pbn) f.bus) →
    ⟨f.bdf, some e.bdf⟩ ∈ devices

-- Every function has something that passes for its root port, as far as it needs one.
def Rooted (fs : List Node) : Prop :=
  ∀ f ∈ fs, f.Listed fs → f.Plain → ∃ e ∈ fs, e.Listed fs ∧ f.Leads e

-- The functions of a topology, by their words other than the bus numbers.
def Bus.All (P : (Nat → BitVec 32) → Prop) : Bus → Prop
  | nil                       => True
  | absent rest               => rest.All P
  | type0 words rest          => P words.word ∧ rest.All P
  | type1 words _ behind rest => P words.word ∧ behind.All P ∧ rest.All P

-- A capability list that ends, in the part of config space that is for capabilities.
def ListEnds (word : Nat → BitVec 32) : Prop :=
  word type01Cpr ≠ pcieUnknownResponse ∧
    ∃ l, CapList (fun offset => word (offset - offset % 4)) (word type01Cpr &&& 0xFF).toNat l ∧ ∀ offset ∈ l, 0x40 ≤ offset

end Pcie
