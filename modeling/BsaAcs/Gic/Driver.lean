import BsaAcs.Gic.Isr
import BsaAcs.Lib.Sweep

namespace Gic

-- `gic.h` of the VAL, `bsa_acs_gic.h`
def gicdCtlr : Nat := 0x0000
def gicdIpriorityr : Nat := 0x0400
def gicdIrouter : Nat := 0x6000
def gicdIroutern : Nat := 0x6100
def gicrIpriorityr : Nat := 0x0400
def gicrWaker : Nat := 0x0014
def gicAreEnable : Nat := 1 <<< 4
def gicDefaultPriority : Nat := 0x80
def gicIcdiptr : Nat := 0x800
def gicIccicr : Nat := 0x00
def gicIccpmr : Nat := 0x04
def gicIccbpr : Nat := 0x08

-- The registers of the GIC as the driver reaches them. A read may change what is behind them.
structure Bus (S : Type) where
  read    : S → Nat → Nat × S
  write   : S → Nat → Nat → S
  write64 : S → Nat → Nat → S

section

variable {S : Type} (bus : Bus S) (m : Machine) (table : List GicInfoEntry)

def writeAll (writes : List (Nat × Nat)) (s : S) : S :=
  writes.foldl (fun s (addr, value) => bus.write s addr value) s

def setBitsOf (addr bits : Nat) (s : S) : S :=
  let (value, s) := bus.read s addr
  bus.write s addr (value ||| bits)

-- The byte of an interrupt in a bank of registers with one byte for each interrupt.
def setByte (bank intId priority : Nat) (s : S) : S :=
  let addr := bank + 4 * (intId / 4)
  let regShift := intId % 4 * 8
  let (value, s) := bus.read s addr
  bus.write s addr ((value &&& (2 ^ 32 - 1 - 0xFF <<< regShift)) ||| priority <<< regShift)

-- `gic_v3.c`

def v3DisableSource (intId : Nat) (s : S) : S :=
  writeAll bus (v3DisableInterruptSource m table intId) s

-- The bank of the redistributor is looked for in its first frame.
def v3SetInterruptPriority (priority intId : Nat) (s : S) : S :=
  if isSpi intId then setByte bus (valGetGicdBase table + gicdIpriorityr) intId priority s
  else
    let cpuRdBase := (valRdBase m table).1
    if cpuRdBase = 0 then s
    else setByte bus (cpuRdBase + gicrIpriorityr) intId priority s

-- The loop that waits for the redistributor, as far as `fuel` reads go.
def wakeLoop (addr : Nat) : Nat → S → Option S
  | 0, _ => none
  | fuel + 1, s =>
    let (value, s) := bus.read s addr
    if value >>> 2 &&& 0x01 = 0 then some s else wakeLoop addr fuel s

def wakeUpRD (fuel : Nat) (s : S) : Option S :=
  let cpuRdBase := (valRdBase m table).1
  if cpuRdBase = 0 then some s
  else
    let (tmp, s) := bus.read s (cpuRdBase + gicrWaker)
    let s :=
      if tmp >>> 1 &&& 0x01 ≠ 0 then bus.write s (cpuRdBase + gicrWaker) (tmp &&& (2 ^ 32 - 1 - 0x02)) else s
    wakeLoop bus (cpuRdBase + gicrWaker) fuel s

def cpuTarget (m : Machine) : Nat :=
  m.mpidr &&& (peAff0 ||| peAff1 ||| peAff2 ||| peAff3)

-- What is done to the GIC. The vector table and the system registers are those of the PE.
def v3Init (fuel : Nat) (s : S) : Option S :=
  let gicdBase := valGetGicdBase table
  let maxNumInterrupts := valGetMaxIntid m table
  let s := sweep (v3DisableSource bus m table) maxNumInterrupts s
  let s := sweep (v3SetInterruptPriority bus m table gicDefaultPriority) maxNumInterrupts s
  let s := setBitsOf bus (gicdBase + gicdCtlr) gicAreEnable s
  let s := setBitsOf bus (gicdBase + gicdCtlr) 0x2 s
  (wakeUpRD bus m table fuel s).map fun s =>
    let s := sweep (v3SetInterruptPriority bus m table gicDefaultPriority) maxNumInterrupts s
    sweep (fun index s => bus.write64 s (gicdBase + gicdIroutern + index * 8) (cpuTarget m)) (maxNumInterrupts - 32) s

-- `gic_v2.c`

def v2InterruptSource (bank intId : Nat) (s : S) : S :=
  bus.write s (valGetGicdBase table + bank + 4 * (intId / 32)) (1 <<< (intId % 32))

def v2DisableInterruptSource : Nat → S → S :=
  v2InterruptSource bus table gicdIcenabler

-- The base of the CPU interface is kept in 32 bits here.
def v2Init (cpuif : Nat) (s : S) : S :=
  let gicdBase := valGetGicdBase table
  let cpuifBase := cpuif % 2 ^ 32
  let maxNumInterrupts := valGetMaxIntid m table
  let s := sweep (v2DisableInterruptSource bus table) maxNumInterrupts s
  let s := sweep (fun index => setByte bus (gicdBase + gicdIpriorityr) index gicDefaultPriority) maxNumInterrupts s
  let (cpuTarget, s) := bus.read s (gicdBase + gicIcdiptr)
  let s :=
    if cpuTarget ≠ 0 then
      sweep (fun k s => bus.write s (gicdBase + gicIcdiptr + (8 + k) * 4) cpuTarget) (maxNumInterrupts / 4 - 8) s
    else s
  let s := bus.write s (cpuifBase + gicIccbpr) 0x7
  let s := bus.write s (cpuifBase + gicIccpmr) 0xFF
  let s := bus.write s (cpuifBase + gicIccicr) 0x1
  bus.write s (gicdBase + gicdCtlr) 0x1

end

end Gic
