import BsaAcs.Pcie.Basic

namespace Pcie

-- `pcie.h`
def headerOffset : Nat := 0xC
def busNumRegOffset : Nat := 0x18
def priBus : Nat := 0
def secBus : Nat := 1

def pcieHeaderType (headerValue : BitVec 32) : Nat :=
  (headerValue >>> 16 &&& 0x3).toNat

def busNumRegCfg (subBus secBus priBus : Nat) : BitVec 32 :=
  .ofNat 32 ((subBus <<< 16 ||| secBus <<< 8) ||| priBus)

-- Bus numbers are counted in 32 bits.
def succ32 (n : Nat) : Nat := (n + 1) % 2 ^ 32
def pred32 (n : Nat) : Nat := (n + (2 ^ 32 - 1)) % 2 ^ 32

section

variable {S : Type} (hw : Mmio S) (table : PcieInfoTable)

-- The locals of the loop over the functions of a bus. A read that fails leaves the word as it was.
structure Locals where
  vendorId    : BitVec 32
  headerValue : BitVec 32
  secBus      : Nat
  subBus      : Nat

-- The loop over the functions of a bus. `enumerate` is the call for the bus behind a bridge.
def functionLoop (enumerate : S → Nat → Nat → Option (S × Nat)) (bus : Nat) :
    List (Nat × Nat) → S → Locals → Option (S × Nat)
  | [], s, v => some (s, v.subBus)
  | (dev, func) :: rest, s, v =>
    let bdf := pcieCreateBdf 0 bus dev func
    let vendorId := (valPcieReadCfg hw table s bdf 0).getD v.vendorId
    if vendorId = 0x0 ∨ vendorId = 0xFFFFFFFF then
      functionLoop enumerate bus rest s { v with vendorId }
    else
      let headerValue := (valPcieReadCfg hw table s bdf headerOffset).getD v.headerValue
      if pcieHeaderType headerValue = type1Header then
        let s := valPcieWriteCfg hw table s bdf busNumRegOffset (busNumRegCfg 0xFF v.secBus bus)
        match enumerate s v.secBus (succ32 v.secBus) with
        | none => none
        | some (s, subBus) =>
          let s := valPcieWriteCfg hw table s bdf busNumRegOffset (busNumRegCfg subBus v.secBus bus)
          functionLoop enumerate bus rest s
            { vendorId, headerValue, secBus := succ32 subBus, subBus }
      else if pcieHeaderType headerValue = type0Header then
        functionLoop enumerate bus rest s
          { vendorId, headerValue, secBus := v.secBus, subBus := pred32 v.secBus }
      else functionLoop enumerate bus rest s { v with vendorId, headerValue }

def functionsOfBus : List (Nat × Nat) :=
  (List.range pcieMaxDev).flatMap fun dev => (List.range pcieMaxFunc).map fun func => (dev, func)

-- Calls nest no deeper than `fuel`. The two words are what the locals of a call hold at first.
def pcieEnumerateDevice (vendorId headerValue : BitVec 32) : Nat → S → Nat → Nat → Option (S × Nat)
  | 0, _, _, _ => none
  | fuel + 1, s, bus, secBus =>
    if bus = pcieMaxBus - 1 then some (s, bus)
    else
      functionLoop hw table (pcieEnumerateDevice vendorId headerValue fuel) bus functionsOfBus s
        { vendorId, headerValue, secBus, subBus := bus }

def valBsaPcieEnumerate (vendorId headerValue : BitVec 32) (fuel : Nat) (s : S) : Option (S × Nat) :=
  pcieEnumerateDevice hw table vendorId headerValue fuel s priBus secBus

end

-- The words of a function other than its bus numbers. The function answers with a vendor, and the
-- header type is that of an endpoint or of a bridge.
structure Words (headerType : Nat) where
  word   : Nat → BitVec 32
  vendor : word 0 ≠ 0x0 ∧ word 0 ≠ 0xFFFFFFFF
  header : pcieHeaderType (word headerOffset) = headerType

-- The functions of a bus in the order of device and function number, and the buses behind its bridges.
-- A bridge has the bus number register.
inductive Bus
  | nil
  | absent (rest : Bus)
  | type0 (words : Words type0Header) (rest : Bus)
  | type1 (words : Words type1Header) (busNum : BitVec 32) (behind rest : Bus)

def primaryBus (busNum : BitVec 32) : Nat := (busNum &&& 0xFF).toNat

namespace Bus

-- An access to the function at an index of the bus itself.
def readHere (offset : Nat) : Bus → Nat → BitVec 32
  | nil, _                      => 0xFFFFFFFF
  | absent _, 0                 => 0xFFFFFFFF
  | type0 words _, 0            => words.word offset
  | type1 words busNum _ _, 0   => if offset = busNumRegOffset then busNum else words.word offset
  | absent rest, index + 1      => rest.readHere offset index
  | type0 _ rest, index + 1     => rest.readHere offset index
  | type1 _ _ _ rest, index + 1 => rest.readHere offset index

-- Only the bus numbers are ever written.
def writeHere (offset : Nat) (data : BitVec 32) : Bus → Nat → Bus
  | nil, _                                     => nil
  | absent rest, 0                             => absent rest
  | type0 words rest, 0                        => type0 words rest
  | type1 words busNum behind rest, 0          =>
    type1 words (if offset = busNumRegOffset then data else busNum) behind rest
  | absent rest, index + 1                     => absent (rest.writeHere offset data index)
  | type0 words rest, index + 1                => type0 words (rest.writeHere offset data index)
  | type1 words busNum behind rest, index + 1  =>
    type1 words busNum behind (rest.writeHere offset data index)

-- Whether a bridge claims an access to the bus `b`, by the bus numbers that it has been given so far.
def claims (busNum : BitVec 32) (b : Nat) : Prop :=
  secondaryBus busNum ≤ b ∧ b ≤ subordinateBus busNum

instance {busNum : BitVec 32} {b : Nat} : Decidable (claims busNum b) :=
  inferInstanceAs (Decidable (_ ∧ _))

-- An access that a bridge of the bus passes on: to its secondary bus, or to a bridge behind it.
def readBehind (b index offset : Nat) : Bus → BitVec 32
  | nil             => 0xFFFFFFFF
  | absent rest     => rest.readBehind b index offset
  | type0 _ rest    => rest.readBehind b index offset
  | type1 _ busNum behind rest =>
    if claims busNum b then
      if b = secondaryBus busNum then behind.readHere offset index else behind.readBehind b index offset
    else rest.readBehind b index offset

def writeBehind (b index offset : Nat) (data : BitVec 32) : Bus → Bus
  | nil              => nil
  | absent rest      => absent (rest.writeBehind b index offset data)
  | type0 words rest => type0 words (rest.writeBehind b index offset data)
  | type1 words busNum behind rest =>
    if claims busNum b then
      type1 words busNum
        (if b = secondaryBus busNum then behind.writeHere offset data index
          else behind.writeBehind b index offset data) rest
    else type1 words busNum behind (rest.writeBehind b index offset data)

-- An access to bus `b` that arrives at a bus with the number `n`.
def read (n b index offset : Nat) (bus : Bus) : BitVec 32 :=
  if b = n then bus.readHere offset index else bus.readBehind b index offset

def write (n b index offset : Nat) (data : BitVec 32) (bus : Bus) : Bus :=
  if b = n then bus.writeHere offset data index else bus.writeBehind b index offset data

end Bus

-- The window over all buses of segment 0.
structure Ecam where
  base     : Nat
  nonzero  : base ≠ 0
  aligned  : base % 4 = 0
  fits     : base + 2 ^ 28 ≤ 2 ^ 64

namespace Ecam

def table (ecam : Ecam) : PcieInfoTable :=
  [{ ecamBase := ecam.base, segmentNum := 0, startBusNum := 0, endBusNum := 255 }]

-- The window leads to the root bus.
def mmio (ecam : Ecam) : Mmio Bus where
  read root addr :=
    let a := addr - ecam.base
    root.read priBus (a / 2 ^ 20) (a / 2 ^ 12 % 2 ^ 8) (a % 2 ^ 12)
  write root addr data :=
    let a := addr - ecam.base
    root.write priBus (a / 2 ^ 20) (a / 2 ^ 12 % 2 ^ 8) (a % 2 ^ 12) data

end Ecam
end Pcie
