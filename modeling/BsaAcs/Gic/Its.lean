import Mathlib.Tactic

namespace Its

-- `bsa_gic_its.h`
def armLpiMinid : Nat := 8192
def armLpiMinIdbits : Nat := 14
def armLpiMaxIdbits : Nat := 31
def waitItsCommandDone : Nat := 10000
def armGicdTyper : Nat := 0x0004
def armGicrCtlr : Nat := 0x0000
def armGicrPropbaser : Nat := 0x0070
def armGicrPendbaser : Nat := 0x0078
def armGicrCtlrEnableLpis : Nat := 1 <<< 0
def armGicrTyperPnMask : Nat := 0xFFFF00
def armGicrPropbaserPaMask : Nat := (1 <<< 40 - 1) <<< 12
def armGicrPendbaserPaMask : Nat := (1 <<< 36 - 1) <<< 16
def armGitsCtlr : Nat := 0x0000
def armGitsTyper : Nat := 0x0008
def armGitsCbaser : Nat := 0x0080
def armGitsCwriter : Nat := 0x0088
def armGitsCreadr : Nat := 0x0090
def armGitsBaser (n : Nat) : Nat := 0x0100 + 8 * n
def armGitsCtlrEnable : Nat := 1 <<< 0
def armNumGitsBaser : Nat := 8
def armGitsBaserPaMask : Nat := (1 <<< 36 - 1) <<< 12
def armGitsBaserValid : Nat := 1 <<< 63
def armGitsTblTypeDevice : Nat := 0x1
def armGitsTblTypeClcn : Nat := 0x4
def armGitsTyperPta : Nat := 1 <<< 19
def armGitsCreadrStall : Nat := 1 <<< 0
def armGitsCwriterRetry : Nat := 1 <<< 0
def armGitsCbaserValid : Nat := 1 <<< 63
def armGitsCbaserPaMask : Nat := (1 <<< 40 - 1) <<< 12
def ittParMask : Nat := (1 <<< 44 - 1) <<< 8
def lpiPriorityMask : Nat := 0xFC
def lpiEnable : Nat := 1 <<< 0
def lpiDisable : Nat := 0x0
def armItsCmdMapd : Nat := 0x8
def armItsCmdMapc : Nat := 0x9
def armItsCmdMapi : Nat := 0xB
def armItsCmdInv : Nat := 0xC
def armItsCmdDiscard : Nat := 0xF
def armItsCmdSync : Nat := 0x5
def numPages8 : Nat := 8
def size4KB : Nat := 0x1000
def itsCmdShiftDevid : Nat := 32
def itsCmdShiftValid : Nat := 63
def itsNextCmdPtr : Nat := 4
def numBytesInDw : Nat := 8

-- From the headers of EDK2: `GICR_TYPER` where the architecture has it, and pages of 4 KB.
def armGicrTyper : Nat := 0x0008
def efiSizeToPages (size : Nat) : Nat := size >>> 12 + (if size &&& 0xFFF = 0 then 0 else 1)
def efiPagesToSize (pages : Nat) : Nat := pages <<< 12

-- The complement of a 64-bit mask.
def clear64 (value mask : Nat) : Nat :=
  value &&& (2 ^ 64 - 1 - mask)

-- What a register write is for: a word of a command of an ITS, the GITS_CWRITER of an ITS, or
-- anything else.
inductive Purpose
  | command (its : Nat)
  | cwriter (its : Nat)
  | other
deriving DecidableEq, Repr

structure Write where
  purpose : Purpose
  addr    : Nat
  value   : Nat
deriving DecidableEq, Repr

-- The hardware and the firmware: the answers to the `k`-th read, which may depend on the writes before
-- it, and to the `k`-th allocation (0 is a failure), and the tables of the GIC that
-- `pal_gic_its_configure` has collected.
structure Env where
  gicDBase  : Nat
  gicRdBase : Nat
  gicNumIts : Nat
  itsBase   : Nat → Nat
  read      : Nat → List Write → Nat → Nat
  alloc     : Nat → Nat

-- `writes` holds the register writes and `requests` the sizes of the allocations, the last one first.
structure State where
  gCwriterPtr   : Nat → Nat
  gItsSetupDone : Bool
  commandQBase  : Nat → Nat
  idBits        : Nat → Nat
  ittBase       : Nat → Nat
  configBase    : Nat
  reads         : Nat
  allocs        : Nat
  requests      : List Nat
  writes        : List Write

inductive Status
  | success
  | outOfResources
  | unsupported
deriving DecidableEq, Repr

def mmioRead (env : Env) (addr : Nat) (s : State) : Nat × State :=
  (env.read s.reads s.writes addr, { s with reads := s.reads + 1 })

def mmioWrite (purpose : Purpose) (addr value : Nat) (s : State) : State :=
  { s with writes := ⟨purpose, addr, value⟩ :: s.writes }

def allocate (env : Env) (size : Nat) (s : State) : Nat × State :=
  (env.alloc s.allocs, { s with allocs := s.allocs + 1, requests := size :: s.requests })

-- One command of four words at the write pointer, which counts words and has 32 bits.
def writeCmdQ (its cmdqBase w₀ w₁ w₂ w₃ : Nat) (s : State) : State :=
  let addr k := cmdqBase + 8 * (s.gCwriterPtr its + k)
  let s := mmioWrite (.command its) (addr 0) w₀ s
  let s := mmioWrite (.command its) (addr 1) w₁ s
  let s := mmioWrite (.command its) (addr 2) w₂ s
  let s := mmioWrite (.command its) (addr 3) w₃ s
  { s with gCwriterPtr :=
      Function.update s.gCwriterPtr its ((s.gCwriterPtr its + itsNextCmdPtr) % 2 ^ 32) }

def writeCmdQMAPD (its cmdqBase devID ittBase size valid : Nat) : State → State :=
  writeCmdQ its cmdqBase (devID <<< itsCmdShiftDevid ||| armItsCmdMapd) size
    (valid <<< itsCmdShiftValid ||| (ittBase &&& ittParMask)) 0x0

def writeCmdQMAPC (its cmdqBase clctnID rdBase valid : Nat) : State → State :=
  writeCmdQ its cmdqBase armItsCmdMapc 0x0
    (valid <<< itsCmdShiftValid ||| rdBase % 2 ^ 32 ||| clctnID) 0x0

def writeCmdQMAPI (its cmdqBase devID intID clctnID : Nat) : State → State :=
  writeCmdQ its cmdqBase (devID <<< itsCmdShiftDevid ||| armItsCmdMapi) intID clctnID 0x0

def writeCmdQINV (its cmdqBase devID intID : Nat) : State → State :=
  writeCmdQ its cmdqBase (devID <<< itsCmdShiftDevid ||| armItsCmdInv) intID 0x0 0x0

def writeCmdQDISCARD (its cmdqBase devID intID : Nat) : State → State :=
  writeCmdQ its cmdqBase (devID <<< itsCmdShiftDevid ||| armItsCmdDiscard) intID 0x0 0x0

def writeCmdQSYNC (its cmdqBase rdBase : Nat) : State → State :=
  writeCmdQ its cmdqBase armItsCmdSync 0x0 (rdBase % 2 ^ 32) 0x0

-- The loop that waits for GITS_CREADR to reach GITS_CWRITER, with `n` more reads allowed.
def pollLoop (env : Env) (its cwriterValue : Nat) : Nat → Nat → State → State
  | n, creadrValue, s =>
    if creadrValue = cwriterValue then s
    else
      let s :=
        if creadrValue &&& armGitsCreadrStall ≠ 0 then
          mmioWrite (.cwriter its) (env.itsBase its + armGitsCwriter)
            (cwriterValue ||| armGitsCwriterRetry) s
        else s
      match n with
      | 0 => s
      | n + 1 =>
        let (creadrValue, s) := mmioRead env (env.itsBase its + armGitsCreadr) s
        pollLoop env its cwriterValue n creadrValue s

def pollTillCommandQueueDone (env : Env) (its : Nat) (s : State) : State :=
  let (cwriterValue, s) := mmioRead env (env.itsBase its + armGitsCwriter) s
  let (creadrValue, s) := mmioRead env (env.itsBase its + armGitsCreadr) s
  pollLoop env its cwriterValue waitItsCommandDone creadrValue s

def getRDBaseFormat (env : Env) (its : Nat) (s : State) : Nat × State :=
  let (value, s) := mmioRead env (env.itsBase its + armGitsTyper) s
  if value % 2 ^ 32 &&& armGitsTyperPta ≠ 0 then (env.gicRdBase, s)
  else
    let (value, s) := mmioRead env (env.gicRdBase + armGicrTyper) s
    (value % 2 ^ 32 &&& armGicrTyperPnMask, s)

-- `bsa_gic_redistributor.c`: the byte of the configuration table that belongs to an LPI.
def configAddr (intID : Nat) (s : State) : Nat :=
  s.configBase + (intID + 2 ^ 32 - armLpiMinid) % 2 ^ 32

def clearConfigTable (intID : Nat) (s : State) : State :=
  mmioWrite .other (configAddr intID s) lpiDisable s

def setConfigTable (intID priority : Nat) (s : State) : State :=
  mmioWrite .other (configAddr intID s) (((priority &&& lpiPriorityMask) ||| lpiEnable) % 2 ^ 8) s

-- A read-modify-write that sets bits of a register.
def setBits (env : Env) (addr bits : Nat) (s : State) : State :=
  let (value, s) := mmioRead env addr s
  mmioWrite .other addr (value ||| bits) s

def enableLPIsRD (env : Env) : State → State :=
  setBits env (env.gicRdBase + armGicrCtlr) armGicrCtlrEnableLpis

def enableITS (env : Env) (its : Nat) : State → State :=
  setBits env (env.itsBase its + armGitsCtlr) armGitsCtlrEnable

-- The end of both operations: the commands are handed to the ITS.
def updateCwriter (env : Env) (its : Nat) (s : State) : State :=
  let value := s.gCwriterPtr its * numBytesInDw % 2 ^ 32
  let s := mmioWrite (.cwriter its) (env.itsBase its + armGitsCwriter) value s
  pollTillCommandQueueDone env its s

def armGicItsClearLpiMappings (env : Env) (its devID intID : Nat) (s : State) : State :=
  if s.gItsSetupDone = false then s
  else
    let itsCommandBase := s.commandQBase its
    let s := clearConfigTable intID s
    let (rdBase, s) := getRDBaseFormat env its s
    let s := writeCmdQDISCARD its itsCommandBase devID intID s
    let s := writeCmdQSYNC its itsCommandBase rdBase s
    updateCwriter env its s

def armGicItsCreateLpiMap (env : Env) (its devID intID priority : Nat) (s : State) : State :=
  if s.gItsSetupDone = false then s
  else
    let itsCommandBase := s.commandQBase its
    let s := setConfigTable intID priority s
    let s := enableLPIsRD env s
    let s := enableITS env its s
    let (rdBase, s) := getRDBaseFormat env its s
    let s := writeCmdQMAPD its itsCommandBase devID (s.ittBase its) (s.idBits its) 0x1 s
    let s := writeCmdQMAPC its itsCommandBase 0x1 rdBase 0x1 s
    let s := writeCmdQMAPI its itsCommandBase devID intID 0x1 s
    let s := writeCmdQINV its itsCommandBase devID intID s
    let s := writeCmdQSYNC its itsCommandBase rdBase s
    updateCwriter env its s

-- `ArmGicItsConfiguration` and what it calls.

def armGicdTyperIDbits (value : Nat) : Nat := value >>> 19 &&& 0x1F
def armGitsTyperIDbits (value : Nat) : Nat := value >>> 8 &&& 0x1F
def armGitsTyperDevBits (value : Nat) : Nat := value >>> 13 &&& 0x1F
def armGitsTyperCIDBits (value : Nat) : Nat := value >>> 32 &&& 0xF
def armGitsBaserGetType (value : Nat) : Nat := value >>> 56 &&& 0x7
def armGitsBaserGetEntrySize (value : Nat) : Nat := value >>> 48 &&& 0x1F
def armGicrPropbaserIDbits (value : Nat) : Nat := value &&& 0x1F

-- `1 << n` in 32 bits. A shift by a register takes the amount modulo the width on AArch64. For amounts from
-- 32 on, the C standard leaves it undefined.
def shl1 (n : Nat) : Nat := 1 <<< (n % 32)

-- A word of 32 bits as a signed number, and a signed number as a word.
def toSigned32 (w : Nat) : Int := if w < 2 ^ 31 then w else w - 2 ^ 32
def ofSigned32 (i : Int) : Nat := (i % 2 ^ 32).toNat

def setInitialConfiguration (env : Env) (its : Nat) (s : State) : Status × State :=
  let (gicdTyper, s) := mmioRead env (env.gicDBase + armGicdTyper) s
  let (gitsTyper, s) := mmioRead env (env.itsBase its + armGitsTyper) s
  let bits := min (armGicdTyperIDbits gicdTyper) (armGitsTyperIDbits gitsTyper)
  if bits < armLpiMinIdbits then (.unsupported, s)
  else
    let (propbaser, s) := mmioRead env (env.gicRdBase + armGicrPropbaser) s
    let s := { s with idBits := Function.update s.idBits its bits }
    (.success, mmioWrite .other (env.gicRdBase + armGicrPropbaser) (propbaser ||| bits) s)

-- The base of a table of the redistributor, once its memory has been allocated.
def setTableBase (env : Env) (reg mask address : Nat) (s : State) : State :=
  let (value, s) := mmioRead env (env.gicRdBase + reg) s
  mmioWrite .other (env.gicRdBase + reg) (clear64 value mask ||| (address &&& mask)) s

def configTableSize (gicrPropbaserIdbits : Nat) : Nat :=
  (shl1 (gicrPropbaserIdbits + 1) + 2 ^ 32 - armLpiMinid) % 2 ^ 32

-- The division is that of signed numbers.
def pendingTableSize (gicrPropbaserIdbits : Nat) : Nat :=
  ofSigned32 ((toSigned32 (shl1 (gicrPropbaserIdbits + 1))).tdiv 8)

def armGicSetItsConfigTableBase (env : Env) (s : State) : Status × State :=
  let (propbaser, s) := mmioRead env (env.gicRdBase + armGicrPropbaser) s
  let pages := efiSizeToPages (configTableSize (armGicrPropbaserIDbits propbaser)) + 1
  let (address, s) := allocate env (efiPagesToSize pages) s
  if address = 0 then (.outOfResources, s)
  else
    let s := setTableBase env armGicrPropbaser armGicrPropbaserPaMask address s
    (.success, { s with configBase := address })

def armGicSetItsPendingTableBase (env : Env) (s : State) : Status × State :=
  let (propbaser, s) := mmioRead env (env.gicRdBase + armGicrPropbaser) s
  let pages := efiSizeToPages (pendingTableSize (armGicrPropbaserIDbits propbaser)) + 1
  let (address, s) := allocate env (efiPagesToSize pages) s
  if address = 0 then (.outOfResources, s)
  else (.success, setTableBase env armGicrPendbaser armGicrPendbaserPaMask address s)

def armGicSetItsCommandQueueBase (env : Env) (its : Nat) (s : State) : Status × State :=
  let (address, s) := allocate env (numPages8 * size4KB) s
  if address = 0 then (.outOfResources, s)
  else
    let s := { s with commandQBase := Function.update s.commandQBase its address }
    let (value, s) := mmioRead env (env.itsBase its + armGitsCbaser) s
    let value := clear64 value armGitsCbaserPaMask ||| (address &&& armGitsCbaserPaMask)
    (.success, mmioWrite .other (env.itsBase its + armGitsCbaser) (value ||| armGitsCbaserValid) s)

-- The size of a device or collection table, of a single level.
def tableSize (tableType typer entrySize : Nat) : Nat :=
  let bits :=
    if tableType = armGitsTblTypeDevice then armGitsTyperDevBits typer
    else armGitsTyperCIDBits typer
  shl1 (bits + 1) * (entrySize + 1) % 2 ^ 32

-- The value for GITS_BASER. The page count has 32 bits.
def baserValue (value address pages : Nat) : Nat :=
  clear64 value armGitsBaserPaMask ||| (address &&& armGitsBaserPaMask) ||| armGitsBaserValid |||
    (pages + 2 ^ 32 - 1) % 2 ^ 32

-- The GITS_BASER registers from `it` on, `n` of them.
def setItsTablesLoop (env : Env) (its : Nat) : Nat → Nat → State → Status × State
  | 0, _, s => (.success, s)
  | n + 1, it, s =>
    let baserAddr := env.itsBase its + armGitsBaser it
    let (baser, s) := mmioRead env baserAddr s
    let (typer, s) := mmioRead env (env.itsBase its + armGitsTyper) s
    let tableType := armGitsBaserGetType baser
    let entrySize := armGitsBaserGetEntrySize baser
    if tableType = armGitsTblTypeDevice ∨ tableType = armGitsTblTypeClcn then
      let pages := efiSizeToPages (tableSize tableType typer entrySize)
      let (address, s) := allocate env (efiPagesToSize pages) s
      if address = 0 then (.outOfResources, s)
      else
        let (value, s) := mmioRead env baserAddr s
        setItsTablesLoop env its n (it + 1) (mmioWrite .other baserAddr (baserValue value address pages) s)
    else setItsTablesLoop env its n (it + 1) s

def armGicSetItsTables (env : Env) (its : Nat) (s : State) : Status × State :=
  match setItsTablesLoop env its armNumGitsBaser 0 s with
  | (.success, s) =>
    let (address, s) := allocate env (numPages8 * size4KB) s
    if address = 0 then (.outOfResources, s)
    else (.success, { s with ittBase := Function.update s.ittBase its address })
  | failure => failure

-- A step that may fail for each of the ITSs from `its` on, `n` of them.
def forEachIts (step : Nat → State → Status × State) : Nat → Nat → State → Status × State
  | 0, _, s => (.success, s)
  | n + 1, its, s =>
    match step its s with
    | (.success, s) => forEachIts step n (its + 1) s
    | failure => failure

def setQueueAndTables (env : Env) (its : Nat) (s : State) : Status × State :=
  match armGicSetItsCommandQueueBase env its s with
  | (.success, s) => armGicSetItsTables env its s
  | failure => failure

def armGicRedistributorConfigurationForLPI (env : Env) (s : State) : Status × State :=
  match armGicSetItsConfigTableBase env s with
  | (.success, s) => armGicSetItsPendingTableBase env s
  | failure => failure

def armGicItsConfiguration (env : Env) (s : State) : Status × State :=
  let (pointers, s) := allocate env (4 * env.gicNumIts) s
  if pointers = 0 then (.outOfResources, s)
  else
    let s := { s with gCwriterPtr := fun its =>
      if its < env.gicNumIts then 0 else s.gCwriterPtr its }
    match forEachIts (setInitialConfiguration env) env.gicNumIts 0 s with
    | (.success, s) =>
      match armGicRedistributorConfigurationForLPI env s with
      | (.success, s) =>
        match forEachIts (setQueueAndTables env) env.gicNumIts 0 s with
        | (.success, s) => (.success, { s with gItsSetupDone := true })
        | failure => failure
      | failure => failure
    | failure => failure

-- The largest LPI, once the ITSs have been set up.
def armGicItsGetMaxLpiID (env : Env) (s : State) : Nat :=
  if env.gicNumIts = 0 then 0
  else if s.gItsSetupDone = false then 0
  else
    let minIdbits := (List.range env.gicNumIts).foldl
      (fun minIdbits index => if minIdbits < s.idBits index then minIdbits else s.idBits index) armLpiMaxIdbits
    (shl1 (minIdbits + 1) + 2 ^ 32 - 1) % 2 ^ 32

-- The operations that the tests use after the configuration.
inductive Op
  | create (its devID intID priority : Nat)
  | clear (its devID intID : Nat)

def Op.its : Op → Nat
  | create its .. | clear its .. => its

def Op.apply (env : Env) : Op → State → State
  | create its devID intID priority => armGicItsCreateLpiMap env its devID intID priority
  | clear its devID intID => armGicItsClearLpiMappings env its devID intID

def run (env : Env) (ops : List Op) (s : State) : State :=
  ops.foldl (fun s op => op.apply env s) s

end Its
