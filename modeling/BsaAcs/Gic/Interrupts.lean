import BsaAcs.Gic.Distributor

-- The PE that installs handlers while interrupts are taken.

namespace Gic

-- An interrupt that has been taken: the value of the acknowledge register, what was called for it, what was written to
-- end it, and how many of the installations had returned.
structure Taken (H : Type) where
  iarAckVal : Nat
  called    : Option H
  eoi       : Nat
  returned  : Nat

structure Pe (H : Type) where
  gic          : GicState
  gIntrHandler : Nat → Option H
  -- The installations that have been called, of which `effects` is what is left of the last one.
  calls        : List (Nat × H)
  effects      : List IsrEffect
  todo         : List (Nat × H)
  taken        : List (Taken H)

inductive PeEvent
  | driver
  | irq (intId : Nat)

namespace Pe

variable {H : Type}

def doEffect (map : GicMap) (p : Pe H) (isr : H) : IsrEffect → Pe H
  | .disable addr value => { p with gic := (gicBus map).write p.gic addr value }
  | .handler index => { p with gIntrHandler := Function.update p.gIntrHandler index (some isr) }
  | .enable addr value => { p with gic := (gicBus map).write p.gic addr value }

-- The installations that have returned.
def returned (p : Pe H) : List (Nat × H) :=
  if p.effects = [] then p.calls else p.calls.dropLast

-- `default_irq_handler`
def defaultIrq (p : Pe H) (iarAckVal : Nat) : Pe H :=
  let ackInterrupt := defaultIrqHandler iarAckVal
  { p with taken := p.taken ++ [⟨iarAckVal, p.gIntrHandler ackInterrupt, ackInterrupt, p.returned.length⟩] }

def driver (map : GicMap) (m : Machine) (table : List GicInfoEntry) (maxLpiId : Nat) (p : Pe H) : Option (Pe H) :=
  match p.effects, p.calls.getLast?, p.todo with
  | effect :: effects, some (_, isr), _ => some (doEffect map { p with effects := effects } isr effect)
  | _ :: _, none, _ => none
  | [], _, (intId, isr) :: todo =>
    some { p with calls := p.calls ++ [(intId, isr)], effects := (valGicInstallIsr m table maxLpiId intId).2, todo := todo }
  | [], _, [] => none

-- An interrupt is taken between any two steps of the driver if it is enabled.
def step (map : GicMap) (m : Machine) (table : List GicInfoEntry) (maxLpiId : Nat) (p : Pe H) : PeEvent → Option (Pe H)
  | .driver => p.driver map m table maxLpiId
  | .irq intId => if p.gic.enabled intId = true then some (p.defaultIrq intId) else none

-- What `v3_Init` leaves, and the installations that are to come.
def start (gic : GicState) (installs : List (Nat × H)) : Pe H where
  gic          := gic
  gIntrHandler := fun _ => none
  calls        := []
  effects      := []
  todo         := installs
  taken        := []

inductive Reach (map : GicMap) (m : Machine) (table : List GicInfoEntry) (maxLpiId : Nat) (p : Pe H) : Pe H → Prop
  | refl : Reach map m table maxLpiId p p
  | step {p₁ p₂ : Pe H} {event : PeEvent} : Reach map m table maxLpiId p p₁ →
      p₁.step map m table maxLpiId event = some p₂ → Reach map m table maxLpiId p p₂

end Pe

-- The handler of the last of the installations that are not refused.
def lastIsr {H : Type} (m : Machine) (table : List GicInfoEntry) (maxLpiId : Nat) (calls : List (Nat × H)) (intId : Nat) :
    Option H :=
  calls.foldl (fun last (id, isr) => if id = intId ∧ isrAccepts m table maxLpiId id = true then some isr else last) none

end Gic
