import BsaAcs.Gic.Theorems.Commands
import BsaAcs.Lib.Feed

-- What the commands of an ITS are for: the ITS as the hardware that takes them from its queue, and the routes of
-- the interrupts as those see them that ask for one.

namespace Its

-- DISCARD besides the other commands.
inductive GitsCommand
  | map (command : ItsCommand)
  | discard (deviceId eventId : Nat)
deriving DecidableEq, Repr

abbrev CommandWords := Nat × Nat × Nat

def GitsCommand.decode : CommandWords → Option GitsCommand
  | (w₀, w₁, w₂) =>
    match field 7 0 w₀ with
    | 0xF => some (discard (field 63 32 w₀) (field 31 0 w₁))
    | _   => (ItsCommand.decode w₀ w₁ w₂).map map

-- The device table leads from a device to its interrupt translation table and to the number of event bits less
-- one. The tables themselves are in memory, whatever device leads there: an event is mapped to an interrupt and
-- a collection, and a collection to a redistributor.
structure GitsTables where
  devices     : Nat → Option (Nat × Nat)
  itt         : Nat → Nat → Option (Nat × Nat)
  collections : Nat → Option Nat

def GitsTables.empty : GitsTables :=
  ⟨fun _ => none, fun _ _ => none, fun _ => none⟩

namespace GitsTables

def setEvent (t : GitsTables) (deviceId eventId : Nat) (entry : Option (Nat × Nat)) : GitsTables :=
  match t.devices deviceId with
  | some (ittAddr, size) =>
    if eventId < 2 ^ (size + 1) then
      { t with itt := Function.update t.itt ittAddr (Function.update (t.itt ittAddr) eventId entry) }
    else t
  | none => t

-- A command that names a device that is not mapped, an event that the device does not have or an interrupt that
-- is none of the LPIs is an error and has no effect.
def exec (t : GitsTables) : GitsCommand → GitsTables
  | .map (.mapd deviceId ittAddr size valid) =>
    { t with devices := Function.update t.devices deviceId (if valid then some (ittAddr, size) else none) }
  | .map (.mapc icid rdBase valid) =>
    { t with collections := Function.update t.collections icid (if valid then some rdBase else none) }
  | .map (.mapi deviceId eventId icid) =>
    if armLpiMinid ≤ eventId then t.setEvent deviceId eventId (some (eventId, icid)) else t
  | .discard deviceId eventId => t.setEvent deviceId eventId none
  | .map (.inv ..) | .map (.sync ..) => t

def execWords (t : GitsTables) (words : CommandWords) : GitsTables :=
  match GitsCommand.decode words with
  | some command => t.exec command
  | none         => t

-- Where an event of a device ends up: the LPI and the redistributor.
def translate (t : GitsTables) (deviceId eventId : Nat) : Option (Nat × Nat) := do
  let (ittAddr, size) ← t.devices deviceId
  guard (eventId < 2 ^ (size + 1))
  let (intId, icid) ← t.itt ittAddr eventId
  let rdBase ← t.collections icid
  return (intId, rdBase)

end GitsTables

-- What has been written to an address last.
def peek (writes : List Write) (addr : Nat) : Nat :=
  ((writes.find? (·.addr = addr)).map (·.value)).getD 0

-- The command at an entry of the queue, as the ITS finds it in memory.
def fetchCommand (base : Nat) (writes : List Write) (n : Nat) : CommandWords :=
  let word k := peek writes (base + 32 * n + 8 * k)
  (word 0, word 1, word 2)

-- How many entries GITS_CWRITER hands over, by its bits 19 to 5.
def handedOver (env : Env) (its : Nat) (writes : List Write) : Nat :=
  field 19 5 (peek writes (env.itsBase its + armGitsCwriter))

-- The commands in the words that have been written, without one that is incomplete.
def wholeCommands : List Nat → List CommandWords
  | w₀ :: w₁ :: w₂ :: _ :: rest => (w₀, w₁, w₂) :: wholeCommands rest
  | _                           => []

-- The code up to a run's last write, and the ITS.
def gitsFeed (env : Env) (s : State) (its : Nat) (all : List Write) : Feed (List Write) CommandWords where
  step writes writes' := ∃ w, writes' = w :: writes ∧ writes' <:+ all
  log writes          := wholeCommands (commandWords its writes)
  published           := handedOver env its
  fetch writes n      := some (fetchCommand (s.commandQBase its) writes n)

-- The ITS has executed `n` commands and holds `tables` when the code has made these writes of a run.
def GitsReach (env : Env) (s : State) (its : Nat) (all : List Write) : List Write → Nat → GitsTables → Prop :=
  (gitsFeed env s its all).Reach GitsTables.execWords s.writes GitsTables.empty

-- An LPI is enabled by its byte of the configuration table.
def lpiEnabled (s : State) (writes : List Write) (intId : Nat) : Bool :=
  (peek writes (configAddr intId s)).testBit 0

def GitsTables.deliver (t : GitsTables) (s : State) (writes : List Write) (deviceId eventId : Nat) :
    Option (Nat × Nat) := do
  let (intId, rdBase) ← t.translate deviceId eventId
  guard (lpiEnabled s writes intId)
  return (intId, rdBase)

-- The routes that an ITS has been asked for. Every device of an ITS has the same table: what is mapped for one
-- of them is mapped for all of them.
structure Routes where
  devices : Nat → Bool
  mapped  : Nat → Bool
  enabled : Nat → Bool

def Routes.none : Routes :=
  ⟨fun _ => false, fun _ => false, fun _ => false⟩

def Op.intId : Op → Nat
  | create _ _ intID _ | clear _ _ intID => intID

def Op.devId : Op → Nat
  | create _ devID .. | clear _ devID .. => devID

def Op.creates : Op → Bool
  | create .. => true
  | clear ..  => false

namespace Routes

def onIts (bits : Nat) (r : Routes) : Op → Routes
  | .create _ devID intID _ =>
    { r with
      devices := Function.update r.devices devID true
      mapped  := if armLpiMinid ≤ intID ∧ intID < 2 ^ (bits + 1) then Function.update r.mapped intID true else r.mapped }
  | .clear _ devID intID =>
    { r with mapped := if r.devices devID then Function.update r.mapped intID false else r.mapped }

-- The configuration table is that of all ITSs.
def apply (its bits : Nat) (r : Routes) (op : Op) : Routes :=
  let r := { r with enabled := Function.update r.enabled op.intId op.creates }
  if op.its = its then r.onIts bits op else r

def deliver (r : Routes) (deviceId eventId : Nat) : Bool :=
  r.devices deviceId && r.mapped eventId && r.enabled eventId

end Routes

def routes (its bits : Nat) (ops : List Op) : Routes :=
  ops.foldl (Routes.apply its bits) Routes.none

-- The commands name the redistributor and the collection in one word.
def collectionOf (rdBase : Nat) : Nat := rdBase % 2 ^ 16 ||| 1
def redistributorOf (rdBase : Nat) : Nat := rdBase % 2 ^ 32 / 2 ^ 16

-- A register of the GIC other than a GITS_CWRITER.
inductive OtherRegister (env : Env) : Nat → Prop
  | rd {offset}  : (offset < 2 ^ 16) → OtherRegister env (env.gicRdBase + offset)
  | its {k offset} : (k < env.gicNumIts) → (offset < 2 ^ 16) → (offset ≠ armGitsCwriter) →
      OtherRegister env (env.itsBase k + offset)

-- The frames of the GIC, the queues and the bytes of the LPIs that are used lie apart from each other.
structure Apart (env : Env) (s : State) (ops : List Op) : Prop where
  registers : OtherRegister env addr → its < env.gicNumIts → addr ≠ env.itsBase its + armGitsCwriter
  cwriters  : its < env.gicNumIts → k < env.gicNumIts → its ≠ k → env.itsBase its ≠ env.itsBase k
  queue     : (OtherRegister env addr ∨ ∃ k < env.gicNumIts, addr = env.itsBase k + armGitsCwriter) →
    its < env.gicNumIts → ¬(s.commandQBase its ≤ addr ∧ addr < s.commandQBase its + queueSize)
  queues    : its < env.gicNumIts → k < env.gicNumIts → its ≠ k →
    s.commandQBase its + queueSize ≤ s.commandQBase k ∨ s.commandQBase k + queueSize ≤ s.commandQBase its
  config    : op ∈ ops → its < env.gicNumIts →
    ¬(s.commandQBase its ≤ configAddr op.intId s ∧ configAddr op.intId s < s.commandQBase its + queueSize)
  bytes     : op ∈ ops → ¬OtherRegister env (configAddr op.intId s) ∧
    ∀ its < env.gicNumIts, configAddr op.intId s ≠ env.itsBase its + armGitsCwriter

-- What the callers pass.
structure Op.Valid (env : Env) (op : Op) : Prop where
  its   : op.its < env.gicNumIts
  devId : op.devId < 2 ^ 32
  intId : op.intId < 2 ^ 32

end Its
