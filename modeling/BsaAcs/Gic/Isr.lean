import BsaAcs.Gic.Redistributor

namespace Gic

-- `bsa_exception.h`, `bsa_acs_gic.h` and `bsa_acs_gic_support.h`
def numArmMaxInterrupt : Nat := 16384
def gicdTyper : Nat := 0x0004
def lpiMinId : Nat := 8192
def acsStatusErr : Nat := 0xEDCB1234

-- What the installation of an interrupt handler does: the register writes of its first and last step, and
-- the write to an entry of `g_intr_handler`.
inductive IsrEffect
  | disable (addr value : Nat)
  | handler (index : Nat)
  | enable (addr value : Nat)
deriving DecidableEq, Repr

def valGetMaxIntid (m : Machine) (table : List GicInfoEntry) : Nat :=
  32 * ((mmioRead32 m (valGetGicdBase table + gicdTyper) &&& 0x1F) + 1)

-- `maxLpiId` is what the PAL has for the largest LPI.
def valGicIsValidLpi (maxLpiId intId : Nat) : Bool :=
  !(decide (intId < lpiMinId) || decide (intId > maxLpiId))

def valGicBsaInstallIsr (m : Machine) (table : List GicInfoEntry) (interruptId : Nat) : List IsrEffect :=
  (v3DisableInterruptSource m table interruptId).map (fun (addr, value) => .disable addr value) ++
    [.handler interruptId] ++
    (v3EnableInterruptSource m table interruptId).map fun (addr, value) => .enable addr value

-- The interrupt ids that are not refused.
def isrAccepts (m : Machine) (table : List GicInfoEntry) (maxLpiId intId : Nat) : Bool :=
  !((decide (intId > valGetMaxIntid m table) && !valGicIsValidLpi maxLpiId intId) || decide (intId = 0))

-- The status and the effects, on a platform that uses the GIC driver of the VAL, with a GICv3.
def valGicInstallIsr (m : Machine) (table : List GicInfoEntry) (maxLpiId intId : Nat) : Nat × List IsrEffect :=
  if isrAccepts m table maxLpiId intId then (0, valGicBsaInstallIsr m table intId) else (acsStatusErr, [])

-- The entry of `g_intr_handler` that is looked up for the value of the acknowledge register.
def defaultIrqHandler (iarAckVal : Nat) : Nat :=
  iarAckVal &&& 0xFFFFFF

end Gic
