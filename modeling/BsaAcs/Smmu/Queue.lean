import BsaAcs.Lib.Heap
import BsaAcs.Smmu.Basic

namespace Smmu

-- What the driver runs on: the answers of register reads, by the number of the read, and the
-- allocator. Registers are 32 bits wide, and so are the sizes that `val_memory_alloc` and
-- `val_memory_set` take. Virtual and physical addresses are the same.
structure Platform where
  mmio  : Nat → Nat
  alloc : Heap.Allocator

inductive Access
  | read (address value : Nat)
  | write (address value : Nat)
deriving DecidableEq, Repr

-- The heap, the number of register reads, the register accesses, the last one first, and how often
-- a null pointer was followed.
structure World where
  heap   : Heap
  reads  : Nat
  trace  : List Access
  faults : Nat

namespace World

def start : World :=
  { heap := { mem := fun _ => 0, requests := [], live := [], wild := [] }, reads := 0, trace := [], faults := 0 }

def valMmioRead (pf : Platform) (address : Nat) (w : World) : Nat × World :=
  let value := pf.mmio w.reads % 2 ^ 32
  (value, { w with reads := w.reads + 1, trace := .read address value :: w.trace })

def valMmioWrite (address value : Nat) (w : World) : World :=
  { w with trace := .write address value :: w.trace }

def valMemoryAlloc (pf : Platform) (size : Nat) (w : World) : Nat × World :=
  let (ptr, heap) := w.heap.alloc pf.alloc (size % 2 ^ 32)
  (ptr, { w with heap := heap })

def valMemoryFree (ptr : Nat) (w : World) : World :=
  { w with heap := w.heap.free ptr }

def valMemorySet (a size v : Nat) (w : World) : World :=
  { w with heap := w.heap.set a (size % 2 ^ 32) v }

def store (a v : Nat) (w : World) : World :=
  { w with heap := w.heap.write a v }

def fault (w : World) : World :=
  { w with faults := w.faults + 1 }

end World

-- `smmu_queue_t` and the functions on it.
structure Queue where
  prod     : Nat
  cons     : Nat
  log2nent : Nat
deriving DecidableEq, Repr

namespace Queue

def indexMask (q : Queue) : Nat := (0x1 <<< q.log2nent) - 1
def wrapMask (q : Queue) : Nat := 0x1 <<< q.log2nent

def incProd (q : Queue) : Nat :=
  (q.prod + 1) &&& ((0x1 <<< (q.log2nent + 1)) - 1)

def full (q : Queue) : Bool :=
  (q.prod &&& q.indexMask) == (q.cons &&& q.indexMask) && (q.prod &&& q.wrapMask) != (q.cons &&& q.wrapMask)

def empty (q : Queue) : Bool :=
  (q.prod &&& q.indexMask) == (q.cons &&& q.indexMask) && (q.prod &&& q.wrapMask) == (q.cons &&& q.wrapMask)

end Queue

-- The driver's own copy of the queue is cleared when the queue is set up, and nothing writes its
-- `prod` and `cons` after that.
structure CmdQueue where
  queue     : Queue
  basePtr   : Nat
  base      : Nat
  basePhys  : Nat
  queueBase : Nat
  cleared   : queue.prod = 0 ∧ queue.cons = 0

-- The two words of a command, or nothing if the opcode is not supported.
def smmuCmdqBuildCmd (opcode : Nat) : Option (Nat × Nat) :=
  if opcode = cmdqOpTlbiEl2All ∨ opcode = cmdqOpTlbiNsnhAll ∨ opcode = cmdqOpCmdSync then
    some (cmdq0Op.set opcode, 0)
  else if opcode = cmdqOpCfgiAll then
    some (cmdq0Op.set opcode, cmdqCfgi1Range.set cmdqCfgi1AllStes)
  else none

-- The wait for a free slot. It looks at the copy of the queue in the driver, which nothing changes
-- during the wait.
def waitNotFull (q : Queue) : Nat → Nat
  | 0 => 0
  | timeout + 1 => if q.full then waitNotFull q timeout else timeout + 1

section

variable (pf : Platform) (smmuBase : Nat) (cmdq : CmdQueue)

def slot (prod : Nat) : Nat :=
  cmdq.base + (prod &&& cmdq.queue.indexMask) * (cmdqDwordsPerEnt <<< 3)

-- `false` is the return value -1.
def smmuCmdqWriteCmd (cmd : Nat × Nat) (w : World) : Bool × World :=
  if waitNotFull cmdq.queue smmuCmdqPollTimeout = 0 then (false, w)
  else
    let (prod, w) := w.valMmioRead pf (smmuBase + cmdqProdOffset)
    let w := (w.store (slot cmdq prod) cmd.1).store (slot cmdq prod + 8) cmd.2
    (true, w.valMmioWrite (smmuBase + cmdqProdOffset) { cmdq.queue with prod := prod }.incProd)

def smmuCmdqIssueCmd (opcode : Nat) (w : World) : Bool × World :=
  match smmuCmdqBuildCmd opcode with
  | none => (false, w)
  | some cmd => smmuCmdqWriteCmd pf smmuBase cmdq cmd w

-- The loop of `smmu_cmdq_poll_until_consumed`, which returns its `timeout`. As the loop does not
-- count `timeout` down, it has no bound of its own: `none` means that the fuel did not suffice.
def pollLoop (timeout : Nat) : Nat → Queue → World → Option (Nat × World)
  | 0, _, _ => none
  | fuel + 1, queue, w =>
    if timeout > 0 then
      if queue.empty then some (timeout, w)
      else
        let (cons, w) := w.valMmioRead pf (smmuBase + cmdqConsOffset)
        pollLoop timeout fuel { queue with cons := cons } w
    else some (timeout, w)

-- Returns whether a timeout was reported.
def smmuCmdqPollUntilConsumed (fuel : Nat) (w : World) : Option (Bool × World) :=
  let (prod, w) := w.valMmioRead pf (smmuBase + cmdqProdOffset)
  let (cons, w) := w.valMmioRead pf (smmuBase + cmdqConsOffset)
  match pollLoop pf smmuBase smmuCmdqPollTimeout fuel ⟨prod, cons, cmdq.queue.log2nent⟩ w with
  | none => none
  | some (timeout, w) =>
    if timeout = 0 then
      let (_, w) := w.valMmioRead pf (smmuBase + cmdqProdOffset)
      let (_, w) := w.valMmioRead pf (smmuBase + cmdqConsOffset)
      let (_, w) := w.valMmioRead pf (smmuBase + gerrorOffset)
      some (true, w)
    else some (false, w)

-- The commands that invalidate what the SMMU may have cached.
def invalidation (hyp : Bool) : List Nat :=
  [cmdqOpCfgiAll] ++ (if hyp then [cmdqOpTlbiEl2All] else []) ++ [cmdqOpTlbiNsnhAll, cmdqOpCmdSync]

def smmuTlbiCfgi (hyp : Bool) (fuel : Nat) (w : World) : Option (Bool × World) :=
  let w := (invalidation hyp).foldl (fun w opcode => (smmuCmdqIssueCmd pf smmuBase cmdq opcode w).2) w
  smmuCmdqPollUntilConsumed pf smmuBase cmdq fuel w

end

end Smmu
