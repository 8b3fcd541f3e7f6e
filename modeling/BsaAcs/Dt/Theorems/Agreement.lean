import BsaAcs.Dt.Theorems.Ranges
import BsaAcs.Info.Theorems.Peripheral

-- How the entries of USB and SATA controllers and of UARTs represent what the tree says of the nodes.

namespace Dt

open Peripheral (InfoBlock InfoTable InfoHdr Returns)

inductive Kind
  | usb
  | sata
  | uart
deriving DecidableEq, Repr

namespace Kind

def type : Kind → Nat
  | usb  => Peripheral.typeUsb
  | sata => Peripheral.typeSata
  | uart => Peripheral.typeUart

-- What `val_peripheral_get_info` is asked for.
def baseInfo : Kind → Peripheral.Info
  | usb  => .usbBase0
  | sata => .sataBase0
  | uart => .uartBase0

def gsivInfo : Kind → Peripheral.Info
  | usb  => .usbGsiv
  | sata => .sataGsiv
  | uart => .uartGsiv

def compatibles : Kind → List String
  | usb  => usbDtCompatible
  | sata => sataDtCompatible
  | uart => uartDtCompatible

-- What is added to the number of an interrupt.
def offset : Kind → Nat
  | usb  => 0
  | sata => 0
  | uart => spiOffset

end Kind

section

variable (fdt : Libfdt) (nodesOf : String → List Nat)

def Kind.fate : Kind → Visit → Fate
  | .usb  => controllerFate fdt
  | .sata => controllerFate fdt
  | .uart => uartFate fdt

-- The nodes whose entries are stored.
def stored (kind : Kind) : List Visit :=
  storedVisits (kind.fate fdt) (peripheralVisits fdt nodesOf kind.compatibles)

-- The index of the first entry of a kind.
def firstEntry : Kind → Nat
  | .usb  => 0
  | .sata => (stored fdt nodesOf .usb).length
  | .uart => (stored fdt nodesOf .usb).length + (stored fdt nodesOf .sata).length

def Kind.entry : Kind → Visit → InfoBlock → InfoBlock
  | .usb  => controllerEntry fdt Peripheral.typeUsb fun base block => { block with base0 := base }
  | .sata => controllerEntry fdt Peripheral.typeSata fun base block => { block with base1 := base }
  | .uart => uartEntry fdt

-- The base that is in the entry of the node, when there was the base `before`.
def Kind.base (before : Nat) (v : Visit) : Kind → Nat
  | .usb  => v.base fdt
  | .sata => before
  | .uart => v.base fdt

-- The words of the interrupt specifier of a node.
def specifier (node : Nat) : Nat → BitVec 32 :=
  propCells fdt node "interrupts"

-- Nodes with the same address and the same interrupt, outside of buses with `ranges`.
structure SameNode (node node' : Nat) : Prop where
  addressCells   : fdt.addressCells (fdt.parentOffset node) = fdt.addressCells (fdt.parentOffset node')
  reg            : ∀ i < (fdt.addressCells (fdt.parentOffset node)).toNat,
    propCells fdt node "reg" i = propCells fdt node' "reg" i
  interruptCells : interruptCellsOf fdt node = interruptCellsOf fdt node'
  interrupts     : ∀ i < (interruptCellsOf fdt node).toNat, specifier fdt node i = specifier fdt node' i
  noRanges       : fdt.getprop (fdt.parentOffset node) "ranges" = none
  noRanges'      : fdt.getprop (fdt.parentOffset node') "ranges" = none

-- The specifier of a shared peripheral interrupt, of three cells.
def IsSpi (node : Nat) : Prop :=
  interruptCellsOf fdt node = 3 ∧ specifier fdt node 0 = gicSpi

instance {node : Nat} : Decidable (IsSpi fdt node) :=
  inferInstanceAs (Decidable (_ ∧ _))

end

-- The `i`-th node of one kind and the `i'`-th node of another one have the same base and the same interrupt, which is
-- that of the SPI where there is one.
def Agree (fdt : Libfdt) (t : InfoTable) (kind kind' : Kind) (i i' node : Nat) : Prop :=
  ∃ base irq, Returns t kind.baseInfo i base ∧ Returns t kind'.baseInfo i' base ∧
    Returns t kind.gsivInfo i irq ∧ Returns t kind'.gsivInfo i' irq ∧
    (IsSpi fdt node → irq = addOffset (specifier fdt node 1) spiOffset)

-- Both are UARTs, or the specifier has three cells and is not that of an SPI, or no UART is among them and it does not
-- have three cells.
def InterruptsMeet (fdt : Libfdt) (kind kind' : Kind) (node : Nat) : Prop :=
  (kind = .uart ∧ kind' = .uart) ∨ (interruptCellsOf fdt node = 3 ∧ ¬IsSpi fdt node) ∨
  (kind ≠ .uart ∧ kind' ≠ .uart ∧ interruptCellsOf fdt node ≠ 3)

section

variable {fdt : Libfdt} {nodesOf : String → List Nat} {table t : InfoTable} {kind kind' : Kind} {i i' node node' : Nat}
  {v v' : Visit}

theorem peripheralIrq_same (h : SameNode fdt node node') {offset : Nat} (hc : 1 ≤ interruptCellsOf fdt node) :
    peripheralIrq offset (interruptCellsOf fdt node') (specifier fdt node') =
      peripheralIrq offset (interruptCellsOf fdt node) (specifier fdt node) := by
  have hzero := h.interrupts 0 (by omega)
  rw [peripheralIrq, peripheralIrq, ←h.interruptCells, hzero]
  by_cases h3 : interruptCellsOf fdt node = 3
  case pos => rw [h.interrupts 1 (by omega)]
  case neg => rw [if_neg h3, if_neg h3]

theorem addOffset_ne {n : BitVec 32} : addOffset n 0 ≠ addOffset n spiOffset := by
  rw [addOffset, addOffset, spiOffset]
  omega

-- The interrupts of the entries are those of one specifier.
theorem interruptsMeet_iff :
    (peripheralIrq kind.offset (interruptCellsOf fdt node) (specifier fdt node) =
        peripheralIrq kind'.offset (interruptCellsOf fdt node) (specifier fdt node) ∧
      (IsSpi fdt node → peripheralIrq kind.offset (interruptCellsOf fdt node) (specifier fdt node) =
        addOffset (specifier fdt node 1) spiOffset)) ↔ InterruptsMeet fdt kind kind' node := by
  rw [InterruptsMeet, IsSpi, peripheralIrq, peripheralIrq]
  by_cases h3 : interruptCellsOf fdt node = 3
  case neg =>
    simp only [h3, if_false, false_and, false_implies, and_true, false_or]
    cases kind <;> cases kind' <;> simp [Kind.offset, addOffset_ne, addOffset_ne.symm, h3]
  case pos =>
    simp only [h3, if_true, true_and]
    by_cases hs : specifier fdt node 0 = gicSpi
    case neg => simp [hs]
    case pos =>
      simp only [hs, if_true, forall_const]
      cases kind <;> cases kind' <;> simp [Kind.offset, addOffset_ne, addOffset_ne.symm]

end

-- The strings by which the nodes of the three kinds are found.
def FindsPeripherals (fdt : Libfdt) (nodesOf : String → List Nat) : Prop :=
  ∀ kind : Kind, ∀ compatible ∈ kind.compatibles, fdt.Lists compatible (nodesOf compatible)

-- The table of a run over the memory `table`.
structure Created (fdt : Libfdt) (nodesOf : String → List Nat) (table t : InfoTable) : Prop where
  numUsb  : t.header.numUsb = (stored fdt nodesOf .usb).length
  numSata : t.header.numSata = (stored fdt nodesOf .sata).length
  numUart : t.header.numUart = (stored fdt nodesOf .uart).length
  entry   : ∀ (kind : Kind) (i : Nat) (hi : i < (stored fdt nodesOf kind).length), ∃ block : InfoBlock,
    block.base0 = (table.info (firstEntry fdt nodesOf kind + i)).base0 ∧
    t.info (firstEntry fdt nodesOf kind + i) = kind.entry fdt (stored fdt nodesOf kind)[i] block

section

variable {fdt : Libfdt} {nodesOf : String → List Nat} {table t : InfoTable} {i n : Nat}

-- A field of the header that each entry increases by `d`.
theorem StoredIn.field {entry : Visit → InfoBlock → InfoBlock} {count : InfoHdr → InfoHdr} {Rest : (InfoBlock → InfoBlock) → Prop}
    {c : PeripheralCursor} {vs : List Visit} (h : StoredIn entry count Rest c vs t) {f : InfoHdr → Nat} {d : Nat}
    (hf : ∀ hdr, f (count hdr) = f hdr + d) : f t.header = f c.table.header + vs.length * d := by
  have hn (n : Nat) (hdr : InfoHdr) : f (count^[n] hdr) = f hdr + n * d := by
    induction n generalizing hdr
    case zero      => rw [Nat.zero_mul, Nat.add_zero]; rfl
    case succ n ih =>
      rw [Function.iterate_succ_apply, ih, hf, Nat.succ_mul]
      omega
  rw [h.header]
  exact hn ..

theorem usb_storedIn (hl : ∀ compatible ∈ usbDtCompatible, fdt.Lists compatible (nodesOf compatible))
    (hr : palPeripheralUsbCreateInfoTableDt fdt table = some t) :
    StoredIn (Kind.usb.entry fdt) (fun h => { h with numUsb := h.numUsb + 1 }) (fun g => ∀ block, (g block).base0 = block.base0)
      { table := { table with header := { table.header with numUsb := 0 } }, perInfo := 0 } (stored fdt nodesOf .usb) t := by
  rw [palPeripheralUsbCreateInfoTableDt, peripheralTable_eq hl] at hr
  exact (controller_follows ..).storedIn (fun _ => rfl) hr

theorem sata_storedIn (hl : ∀ compatible ∈ sataDtCompatible, fdt.Lists compatible (nodesOf compatible))
    (hr : palPeripheralSataCreateInfoTableDt fdt table = some t) :
    StoredIn (Kind.sata.entry fdt) (fun h => { h with numSata := h.numSata + 1 }) (fun g => ∀ block, (g block).base0 = block.base0)
      { table := { table with header := { table.header with numSata := 0 } }, perInfo := table.header.numUsb }
      (stored fdt nodesOf .sata) t := by
  rw [palPeripheralSataCreateInfoTableDt, peripheralTable_eq hl] at hr
  exact (controller_follows ..).storedIn (fun _ => rfl) hr

-- What is behind the entries of one kind keeps its base.
theorem StoredIn.base0 {entry : Visit → InfoBlock → InfoBlock} {count : InfoHdr → InfoHdr} {c : PeripheralCursor}
    {vs : List Visit} (h : StoredIn entry count (fun g => ∀ block, (g block).base0 = block.base0) c vs t) {k : Nat}
    (hk : c.perInfo + vs.length ≤ k) : (t.info k).base0 = (c.table.info k).base0 := by
  have ⟨g, hg, hi⟩ := h.behind k hk
  rw [hi]
  exact hg _

theorem created (hl : FindsPeripherals fdt nodesOf) (hr : palPeripheralCreateInfoTable fdt table = some t) :
    Created fdt nodesOf table t := by
  simp only [palPeripheralCreateInfoTable, Option.bind_eq_bind, Option.bind_eq_some_iff] at hr
  have ⟨usb, husb, sata, hsata, uart, huart, ht⟩ := hr
  cases ht
  have husb := usb_storedIn (hl .usb) husb
  have hsata := sata_storedIn (hl .sata) hsata
  have huart : StoredIn (Kind.uart.entry fdt) _ _ _ (stored fdt nodesOf .uart) uart := uart_storedIn (hl .uart) huart
  -- The counts are kept by the functions behind the one that sets them.
  have husbs : usb.header.numUsb = (stored fdt nodesOf .usb).length := by
    simpa using husb.field (f := (·.numUsb)) (d := 1) fun _ => rfl
  have husbs' : sata.header.numUsb = (stored fdt nodesOf .usb).length :=
    husbs ▸ hsata.field (f := (·.numUsb)) (d := 0) fun _ => rfl
  have hsatas : sata.header.numSata = (stored fdt nodesOf .sata).length := by
    simpa using hsata.field (f := (·.numSata)) (d := 1) fun _ => rfl
  have husbs'' : uart.header.numUsb = (stored fdt nodesOf .usb).length :=
    husbs' ▸ huart.field (f := (·.numUsb)) (d := 0) fun _ => rfl
  have hsatas' : uart.header.numSata = (stored fdt nodesOf .sata).length :=
    hsatas ▸ huart.field (f := (·.numSata)) (d := 0) fun _ => rfl
  have huarts : uart.header.numUart = (stored fdt nodesOf .uart).length := by
    simpa using huart.field (f := (·.numUart)) (d := 1) fun _ => rfl
  refine ⟨husbs'', hsatas', huarts, ?_⟩
  intro kind i hi
  -- The end is behind the entries.
  have hend : firstEntry fdt nodesOf kind + i ≠ uart.header.numUsb + uart.header.numSata + uart.header.numUart := by
    rw [husbs'', hsatas', huarts]
    cases kind <;> simp only [firstEntry] <;> omega
  have hinfo : ∀ f, (PeripheralCursor.modify ⟨uart, uart.header.numUsb + uart.header.numSata + uart.header.numUart⟩
      f).table.info (firstEntry fdt nodesOf kind + i) = uart.info (firstEntry fdt nodesOf kind + i) :=
    fun _ => PeripheralCursor.modify_info_ne hend
  have hbase (k : Nat) (hk : (stored fdt nodesOf .usb).length ≤ k) : (usb.info k).base0 = (table.info k).base0 :=
    husb.base0 (le_trans (Nat.zero_add _).le hk)
  rw [hinfo]
  cases kind
  case usb =>
    have hu := huart.before i (by simp only [husbs', hsatas]; omega)
    have hs := hsata.before i (by simp only [husbs]; omega)
    refine ⟨table.info (0 + i), rfl, ?_⟩
    rw [firstEntry, ←husb.stored i hi, Nat.zero_add, hu]
    exact hs
  case sata =>
    have hu := huart.before ((stored fdt nodesOf .usb).length + i) (by simp only [husbs', hsatas]; omega)
    have hs := hsata.stored i hi
    simp only [husbs] at hs
    refine ⟨usb.info ((stored fdt nodesOf .usb).length + i), hbase _ (by omega), ?_⟩
    rw [firstEntry, hu]
    exact hs
  case uart =>
    have hs := huart.stored i hi
    simp only [husbs', hsatas] at hs
    refine ⟨sata.info ((stored fdt nodesOf .usb).length + (stored fdt nodesOf .sata).length + i), ?_, hs⟩
    rw [firstEntry, hsata.base0 (by simp only [husbs]; omega)]
    exact hbase _ (by omega)

end

section

variable {fdt : Libfdt} {nodesOf : String → List Nat} {table t : InfoTable} {kind kind' : Kind} {i i' : Nat} {v v' : Visit}
  {block : InfoBlock}

theorem Kind.entry_type : (kind.entry fdt v block).type = kind.type := by
  cases kind <;> rfl

theorem Kind.entry_irq : (kind.entry fdt v block).irq = v.irq fdt kind.offset := by
  cases kind <;> rfl

theorem readCells_lt {count : Int} {reg : Nat → BitVec 32} {index : Nat} : (readCells count reg index).1 < 2 ^ 64 := by
  rw [readCells]
  split
  case isTrue  => exact BitVec.isLt _
  case isFalse => exact (BitVec.isLt _).trans (by decide)

-- Outside of a bus with `ranges` nothing is added.
theorem Kind.entry_base0 (hn : fdt.getprop (fdt.parentOffset v.node) "ranges" = none) :
    (kind.entry fdt v block).base0 = kind.base fdt block.base0 v := by
  cases kind
  case usb  => rfl
  case sata => rfl
  case uart =>
    have hadd := parentOffsetAddr_eq (.none hn : Above fdt 3 (fdt.parentOffset v.node) []) (v.base fdt)
    rw [Kind.entry, uartEntry, hadd]
    exact Nat.mod_eq_of_lt readCells_lt

theorem Created.entries (h : Created fdt nodesOf table t) (kind : Kind) :
    Peripheral.Block t kind.type (firstEntry fdt nodesOf kind) (stored fdt nodesOf kind).length := by
  have htype (kind : Kind) (i : Nat) (hi : i < (stored fdt nodesOf kind).length) :
      (t.info (firstEntry fdt nodesOf kind + i)).type = kind.type := by
    have ⟨_, _, he⟩ := h.entry kind i hi
    rw [he, Kind.entry_type]
  refine ⟨?_, htype kind⟩
  intro i hi
  cases kind
  case usb => exact absurd hi (Nat.not_lt_zero i)
  case sata =>
    have ht := htype .usb i hi
    rw [firstEntry, Nat.zero_add] at ht
    rw [ht]
    exact ⟨by decide, by decide⟩
  case uart =>
    by_cases hu : i < (stored fdt nodesOf .usb).length
    case pos =>
      have ht := htype .usb i hu
      rw [firstEntry, Nat.zero_add] at ht
      rw [ht]
      exact ⟨by decide, by decide⟩
    case neg =>
      rw [firstEntry] at hi
      have ht := htype .sata (i - (stored fdt nodesOf .usb).length) (by omega)
      rw [firstEntry, Nat.add_sub_cancel' (Nat.le_of_not_lt hu)] at ht
      rw [ht]
      exact ⟨by decide, by decide⟩

theorem Kind.getInfo_base {inst fuel : Nat} : Peripheral.valPeripheralGetInfo t kind.baseInfo inst fuel =
    (Peripheral.valPeripheralGetEntryIndex t kind.type inst fuel).map fun i =>
      if i ≠ Peripheral.noEntry then (t.info i).base0 else 0 := by
  cases kind <;> rfl

theorem Kind.getInfo_gsiv {inst fuel : Nat} : Peripheral.valPeripheralGetInfo t kind.gsivInfo inst fuel =
    (Peripheral.valPeripheralGetEntryIndex t kind.type inst fuel).map fun i =>
      if i ≠ Peripheral.noEntry then (t.info i).irq else 0 := by
  cases kind <;> rfl

theorem Created.index_lt (h : Created fdt nodesOf table t)
    (hn : t.header.numUsb + t.header.numSata + t.header.numUart < Peripheral.noEntry)
    (hi : i < (stored fdt nodesOf kind).length) : firstEntry fdt nodesOf kind + i < Peripheral.noEntry := by
  rw [h.numUsb, h.numSata, h.numUart] at hn
  cases kind <;> simp only [firstEntry] <;> omega

-- What is read of the entry of a node.
theorem Created.returns (h : Created fdt nodesOf table t)
    (hn : t.header.numUsb + t.header.numSata + t.header.numUart < Peripheral.noEntry)
    (hv : (stored fdt nodesOf kind)[i]? = some v) (hr : fdt.getprop (fdt.parentOffset v.node) "ranges" = none) :
    Returns t kind.baseInfo i (kind.base fdt (table.info (firstEntry fdt nodesOf kind + i)).base0 v) ∧
      Returns t kind.gsivInfo i (v.irq fdt kind.offset) := by
  have ⟨hi, hv⟩ := List.getElem?_eq_some_iff.mp hv
  have hlt := h.index_lt hn hi
  have ⟨block, hb, he⟩ := h.entry kind i hi
  have ⟨fuel, hindex⟩ := (h.entries kind).entryIndex (by cases kind <;> decide) (by cases kind <;> decide) hi
    (hlt.trans (by decide))
  have hbase : (t.info (firstEntry fdt nodesOf kind + i)).base0 =
      kind.base fdt (table.info (firstEntry fdt nodesOf kind + i)).base0 v := by
    rw [he, hv, Kind.entry_base0 hr, hb]
  have hirq : (t.info (firstEntry fdt nodesOf kind + i)).irq = v.irq fdt kind.offset := by
    rw [he, hv, Kind.entry_irq]
  refine ⟨⟨fuel, ?_⟩, fuel, ?_⟩
  · rw [Kind.getInfo_base, hindex, Option.map_some, if_pos hlt.ne, hbase]
  · rw [Kind.getInfo_gsiv, hindex, Option.map_some, if_pos hlt.ne, hirq]

theorem storedVisits_fate {fate : Visit → Fate} {visits : List Visit} (h : v ∈ storedVisits fate visits) : fate v = .store := by
  induction visits
  case nil => cases h
  case cons w visits ih =>
    rw [storedVisits] at h
    cases hf : fate w
    case skip =>
      rw [hf] at h
      exact ih h
    case store =>
      rw [hf] at h
      cases List.mem_cons.mp h
      case inl he => rwa [he]
      case inr h  => exact ih h
    case stop =>
      rw [hf] at h
      cases h

theorem interruptOk_of_fate (h : kind.fate fdt v = .store) : v.InterruptOk fdt := by
  have hcontroller (h : controllerFate fdt v = .store) : v.InterruptOk fdt := by
    rw [controllerFate] at h
    split at h
    case isTrue hok => exact hok.right.right
    case isFalse    => cases h
  cases kind
  case usb  => exact hcontroller h
  case sata => exact hcontroller h
  case uart =>
    rw [Kind.fate, uartFate] at h
    split at h
    case isTrue  => cases h
    case isFalse =>
      split at h
      case isTrue  => cases h
      case isFalse =>
        split at h
        case isTrue hok => exact hok.right.right
        case isFalse    => cases h

theorem peripherals_agree_iff (hl : FindsPeripherals fdt nodesOf) (hr : palPeripheralCreateInfoTable fdt table = some t)
    (hn : t.header.numUsb + t.header.numSata + t.header.numUart < Peripheral.noEntry)
    (hv : (stored fdt nodesOf kind)[i]? = some v) (hv' : (stored fdt nodesOf kind')[i']? = some v')
    (h : SameNode fdt v.node v'.node) :
    Agree fdt t kind kind' i i' v.node ↔
      kind.base fdt (table.info (firstEntry fdt nodesOf kind + i)).base0 v =
        kind'.base fdt (table.info (firstEntry fdt nodesOf kind' + i')).base0 v' ∧
      InterruptsMeet fdt kind kind' v.node := by
  have hc := created hl hr
  have ⟨hbase, hgsiv⟩ := hc.returns hn hv h.noRanges
  have ⟨hbase', hgsiv'⟩ := hc.returns hn hv' h.noRanges'
  have hok := (interruptOk_of_fate (storedVisits_fate (List.mem_of_getElem? hv))).right.left
  have hsame : v'.irq fdt kind'.offset =
      peripheralIrq kind'.offset (interruptCellsOf fdt v.node) (specifier fdt v.node) :=
    peripheralIrq_same h hok
  rw [hsame] at hgsiv'
  rw [←interruptsMeet_iff]
  constructor
  case mp =>
    intro ⟨base, irq, hb, hb', hi, hi', hspi⟩
    have he := Peripheral.returns_unique hi hgsiv
    refine ⟨?_, ?_, ?_⟩
    · exact (Peripheral.returns_unique hbase hb).trans (Peripheral.returns_unique hb' hbase')
    · exact he.symm.trans (Peripheral.returns_unique hi' hgsiv')
    · intro hs
      exact he.symm.trans (hspi hs)
  case mpr =>
    intro ⟨hb, hi, hspi⟩
    rw [←hb] at hbase'
    rw [←hi] at hgsiv'
    exact ⟨_, _, hbase, hbase', hgsiv, hgsiv', hspi⟩

end

def peripheralsOf (compatible : String) : List Nat :=
  if compatible = "generic-ohci" then [64]
  else if compatible = "generic-ahci" then [96]
  else if compatible = "arm,pl011" then [128]
  else []

-- A controller of each kind and a UART, with the same address and the interrupt 5 of a type.
def peripheralTree (type : BitVec 32) : Libfdt where
  totalsize              := 1024
  nodeOffsetByCompatible := fun start name => Libfdt.search (peripheralsOf name) start
  nodeOffsetByPhandle    := fun _ => -fdtErrNotfound
  parentOffset           := fun nodeoffset => if nodeoffset = 0 then -fdtErrNotfound else 0
  subnodeOffset          := fun _ _ => -fdtErrNotfound
  nextSubnode            := fun _ => -fdtErrNotfound
  sizeCells              := fun _ => 1
  addressCells           := fun _ => 1
  getprop                := fun nodeoffset name =>
    if nodeoffset ≠ 0 ∧ name = "reg" then some ⟨8, fun i => [0x1000, 0x1000].getD i 0⟩
    else if nodeoffset ≠ 0 ∧ name = "interrupts" then some ⟨12, fun i => [type, 5, 4].getD i 0⟩
    else none

section

variable {type : BitVec 32}

theorem peripheralTree_finds : FindsPeripherals (peripheralTree type) peripheralsOf := by
  intro kind compatible _
  constructor
  case sorted => rw [peripheralsOf]; split_ifs <;> simp
  case inside => rw [peripheralsOf]; split_ifs <;> simp [peripheralTree]
  case search => exact fun _ _ => rfl

theorem peripheralTree_cells {node : Int} (h : node = 64 ∨ node = 96 ∨ node = 128) :
    fdtInterruptCells (peripheralTree type) node = some 3 := by
  rcases h with rfl | rfl | rfl <;> rfl

theorem peripheralTree_same {node node' : Nat} (h : node = 64 ∨ node = 96 ∨ node = 128)
    (h' : node' = 64 ∨ node' = 96 ∨ node' = 128) : SameNode (peripheralTree type) node node' := by
  have hn : node ≠ 0 := by omega
  have hn' : node' ≠ 0 := by omega
  constructor
  case addressCells   => rfl
  case reg            => simp [propCells, peripheralTree, hn, hn']
  case interruptCells =>
    rw [interruptCellsOf, interruptCellsOf, peripheralTree_cells (by omega), peripheralTree_cells (by omega)]
  case interrupts     => simp [specifier, propCells, peripheralTree, hn, hn']
  case noRanges       => simp [peripheralTree]
  case noRanges'      => simp [peripheralTree]

end

-- With the specifier of a private interrupt there is no interrupt in either entry.
theorem peripherals_agree_ppi : ∃ t, palPeripheralCreateInfoTable (peripheralTree gicPpi) zeroTable = some t ∧
    Agree (peripheralTree gicPpi) t .usb .uart 0 0 64 := by
  have ⟨t, ht⟩ : ∃ t, palPeripheralCreateInfoTable (peripheralTree gicPpi) zeroTable = some t := ⟨_, rfl⟩
  refine ⟨t, ht, ?_⟩
  have hn : t.header.numUsb + t.header.numSata + t.header.numUart < Peripheral.noEntry := by
    cases ht
    decide +kernel
  have husb : (stored (peripheralTree gicPpi) peripheralsOf .usb)[0]? = some ⟨1, 1, 64⟩ := by decide +kernel
  have huart : (stored (peripheralTree gicPpi) peripheralsOf .uart)[0]? = some ⟨1, 1, 128⟩ := by decide +kernel
  apply (peripherals_agree_iff peripheralTree_finds ht hn husb huart (peripheralTree_same (by decide) (by decide))).mpr
  exact ⟨by decide +kernel, .inr (.inl ⟨by decide +kernel, by decide +kernel⟩)⟩

-- SPI 5 is 37 in the entry of the UART only, and the base of the SATA controller is where nobody reads it.
theorem peripherals_disagree : ∃ t, palPeripheralCreateInfoTable (peripheralTree gicSpi) zeroTable = some t ∧
    SameNode (peripheralTree gicSpi) 64 128 ∧ ¬Agree (peripheralTree gicSpi) t .usb .uart 0 0 64 ∧
    SameNode (peripheralTree gicSpi) 64 96 ∧ ¬Agree (peripheralTree gicSpi) t .usb .sata 0 0 64 := by
  refine ⟨_, rfl, peripheralTree_same (by decide) (by decide), ?_, peripheralTree_same (by decide) (by decide), ?_⟩
  · intro ⟨_, irq, _, _, husb, huart, _⟩
    have husb : irq = 5 := Peripheral.returns_unique husb ⟨4, by decide +kernel⟩
    have huart : irq = 37 := Peripheral.returns_unique huart ⟨4, by decide +kernel⟩
    omega
  · intro ⟨base, _, husb, hsata, _⟩
    have husb : base = 0x1000 := Peripheral.returns_unique husb ⟨4, by decide +kernel⟩
    have hsata : base = 0 := Peripheral.returns_unique hsata ⟨4, by decide +kernel⟩
    omega

end Dt
