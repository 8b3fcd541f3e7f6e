import BsaAcs.Lib.Ring
import BsaAcs.Smmu.Queue

namespace Smmu

-- The two ends of the command queue. Every access of the driver to a register or to the memory is a step
-- of its own, and between any two of them the SMMU may take commands out of the queue.

namespace CommandQueue

abbrev Command := Nat × Nat

-- Where a call of `smmu_cmdq_write_cmd` is: in the wait for a free slot, at the read of PROD, at the two
-- stores, or at the write of PROD.
inductive Point
  | idle
  | waiting (cmd : Command) (timeout : Nat)
  | reading (cmd : Command)
  | first (cmd : Command) (prod : Nat)
  | second (cmd : Command) (prod : Nat)
  | advancing (cmd : Command) (prod : Nat)
deriving DecidableEq, Repr

-- The value of PROD that the slot of a store belongs to.
def Point.target : Point → Option Nat
  | .first _ prod | .second _ prod => some prod
  | _ => none

-- The registers SMMU_CMDQ_PROD and SMMU_CMDQ_CONS, and the memory that the driver and the SMMU share.
structure State where
  prod     : Nat
  cons     : Nat
  mem      : Memory
  point    : Point
  -- The commands whose call has returned 0, and those that the SMMU has taken.
  accepted : List Command
  consumed : List Command

-- `smmu_reset` has written 0 to both registers.
def State.start (mem : Memory) : State :=
  { prod := 0, cons := 0, mem := mem, point := .idle, accepted := [], consumed := [] }

section

variable (cmdq : CmdQueue)

-- The queue as the registers show it, other than the copy in the driver.
def State.queue (s : State) : Queue :=
  ⟨s.prod, s.cons, cmdq.queue.log2nent⟩

def State.entry (s : State) (i : Nat) : Command :=
  (s.mem (slot cmdq i), s.mem (slot cmdq i + 8))

def State.held (s : State) : Nat :=
  Ring.held (2 ^ cmdq.queue.log2nent) s.prod s.cons

-- The commands that the SMMU finds if it takes all of them now.
def State.pending (s : State) : List Command :=
  (List.range (s.held cmdq)).map fun k => s.entry cmdq (s.cons + k)

def call (cmd : Command) (s : State) : State :=
  { s with point := .waiting cmd smmuCmdqPollTimeout }

-- The next step of `smmu_cmdq_write_cmd`. The wait looks at the copy of the queue in the driver.
def driver (s : State) : State :=
  match s.point with
  | .idle => s
  | .waiting cmd timeout =>
    if cmdq.queue.full ∧ timeout ≠ 0 then { s with point := .waiting cmd (timeout - 1) }
    else if timeout = 0 then { s with point := .idle }
    else { s with point := .reading cmd }
  | .reading cmd => { s with point := .first cmd (s.prod % 2 ^ 32) }
  | .first cmd prod => { s with mem := s.mem.write (slot cmdq prod) cmd.1, point := .second cmd prod }
  | .second cmd prod => { s with mem := s.mem.write (slot cmdq prod + 8) cmd.2, point := .advancing cmd prod }
  | .advancing cmd prod =>
    { s with prod := { cmdq.queue with prod := prod }.incProd, point := .idle, accepted := s.accepted ++ [cmd] }

-- The SMMU takes the command at CONS.
def consume (s : State) : State :=
  { s with
    cons     := { cmdq.queue with prod := s.cons }.incProd
    consumed := s.consumed ++ [s.entry cmdq s.cons] }

inductive Event
  | call (cmd : Command)
  | driver
  | consume

inductive Step (s : State) : Event → State → Prop
  | call {cmd} : (s.point = .idle) → Step s (.call cmd) (call cmd s)
  | driver     : (s.point ≠ .idle) → Step s .driver (driver cmdq s)
  | consume    : ((s.queue cmdq).empty = false) → Step s .consume (consume cmdq s)

-- A run in which every step meets the condition `K`.
inductive Run (K : State → Event → Prop) (s₀ : State) : State → Prop
  | nil : Run K s₀ s₀
  | cons {s e s'} : (Run K s₀ s) → (K s e) → (Step cmdq s e s') → Run K s₀ s'

end

end CommandQueue
end Smmu
