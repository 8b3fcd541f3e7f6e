import BsaAcs.Gic.Driver

-- The GIC as the hardware behind the registers: the interrupts of one PE.

namespace Gic

structure GicState where
  enabled        : Nat → Bool
  priority       : Nat → Nat
  router         : Nat → Nat
  targets        : Nat → Nat
  ctlr           : Nat
  cpuif          : Nat → Nat
  processorSleep : Bool
  -- How many reads of GICR_WAKER show the children asleep after the redistributor has been woken.
  asleep         : Nat

-- Where the registers are.
structure GicMap where
  gicd  : Nat
  rd    : Nat
  cpuif : Nat
  v3    : Bool

def frameBytes : Nat := 0x10000

namespace GicState

-- A register of 32 interrupts from `first` on, of which the ones that are written take effect.
def setEnabled (s : GicState) (first value : Nat) (enable : Bool) : GicState :=
  { s with enabled := fun id => if first ≤ id ∧ id < first + 32 ∧ value.testBit (id - first) = true then enable
      else s.enabled id }

def byteOf (value k : Nat) : Nat := value / 2 ^ (8 * k) % 2 ^ 8

-- The bytes of a register, and the register that is read back.
def setBytes (bytes : Nat → Nat) (first value : Nat) (id : Nat) : Nat :=
  if first ≤ id ∧ id < first + 4 then byteOf value (id - first) else bytes id

def getBytes (bytes : Nat → Nat) (first : Nat) : Nat :=
  bytes first + 2 ^ 8 * bytes (first + 1) + 2 ^ 16 * bytes (first + 2) + 2 ^ 24 * bytes (first + 3)

-- The registers that a distributor and the second frame of a redistributor have in the same places. With affinity
-- routing, those of the interrupts below 32 are in the redistributor.
def writeBank (s : GicState) (lo hi offset value : Nat) : GicState :=
  if gicdIsenabler ≤ offset ∧ offset < gicdIsenabler + 0x80 ∧
      lo ≤ 8 * (offset - gicdIsenabler) ∧ 8 * (offset - gicdIsenabler) < hi then
    s.setEnabled (8 * (offset - gicdIsenabler)) value true
  else if gicdIcenabler ≤ offset ∧ offset < gicdIcenabler + 0x80 ∧
      lo ≤ 8 * (offset - gicdIcenabler) ∧ 8 * (offset - gicdIcenabler) < hi then
    s.setEnabled (8 * (offset - gicdIcenabler)) value false
  else if gicdIpriorityr + lo ≤ offset ∧ offset < gicdIpriorityr + hi then
    { s with priority := setBytes s.priority (offset - gicdIpriorityr) value }
  else s

def write (map : GicMap) (s : GicState) (addr value : Nat) : GicState :=
  if map.gicd ≤ addr ∧ addr < map.gicd + frameBytes then
    let offset := addr - map.gicd
    if offset = gicdCtlr then { s with ctlr := value }
    else if map.v3 = false ∧ gicIcdiptr + 32 ≤ offset ∧ offset < gicIcdiptr + 1024 then
      { s with targets := setBytes s.targets (offset - gicIcdiptr) value }
    else if map.v3 then s.writeBank 32 1020 offset value else s.writeBank 0 1024 offset value
  else if map.v3 ∧ addr = map.rd + gicrWaker then { s with processorSleep := (value >>> 1).testBit 0 }
  else if map.v3 ∧ map.rd + frameBytes ≤ addr ∧ addr < map.rd + 2 * frameBytes then
    s.writeBank 0 32 (addr - (map.rd + frameBytes)) value
  else if map.v3 = false ∧ map.cpuif ≤ addr ∧ addr < map.cpuif + 0x2000 then
    { s with cpuif := Function.update s.cpuif (addr - map.cpuif) value }
  else s

def read (map : GicMap) (s : GicState) (addr : Nat) : Nat × GicState :=
  if map.gicd ≤ addr ∧ addr < map.gicd + frameBytes then
    let offset := addr - map.gicd
    if offset = gicdCtlr then (s.ctlr, s)
    else if map.v3 = false ∧ gicIcdiptr ≤ offset ∧ offset < gicIcdiptr + 1024 then
      (getBytes s.targets (offset - gicIcdiptr), s)
    else if gicdIpriorityr ≤ offset ∧ offset < gicdIpriorityr + 1024 ∧ (map.v3 = true → 32 ≤ offset - gicdIpriorityr) then
      (getBytes s.priority (offset - gicdIpriorityr), s)
    else (0, s)
  else if map.v3 ∧ addr = map.rd + gicrWaker then
    (s.processorSleep.toNat * 2 + (s.processorSleep || decide (0 < s.asleep)).toNat * 4,
      if s.processorSleep then s else { s with asleep := s.asleep - 1 })
  else (0, s)

-- An interrupt that is shared is routed by a register of 64 bits.
def write64 (map : GicMap) (s : GicState) (addr value : Nat) : GicState :=
  if map.v3 ∧ map.gicd + gicdIrouter + 8 * 32 ≤ addr ∧ addr < map.gicd + gicdIrouter + 8 * 1020 then
    { s with router := Function.update s.router ((addr - (map.gicd + gicdIrouter)) / 8) value }
  else s

end GicState

def gicBus (map : GicMap) : Bus GicState where
  read    := GicState.read map
  write   := GicState.write map
  write64 := GicState.write64 map

end Gic
