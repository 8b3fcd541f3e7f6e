import BsaAcs.Pcie.Theorems.Topology
import BsaAcs.Pcie.Theorems.DeviceTable
import BsaAcs.Pcie.Theorems.Rootport

namespace Pcie

theorem CapList.lt {read : Nat → BitVec 32} {p q : Nat} {l : List Nat} (h : CapList read p l) (hp : p < 256)
    (hq : q ∈ l) : q < 256 := by
  induction h
  case nil => cases hq
  case cons hi =>
    cases List.mem_cons.mp hq
    case inl he => exact he ▸ hp
    case inr hm => exact hi (and_0xff_lt _) hm

section Populate

variable {S : Type} {hw : Mmio S} {table : PcieInfoTable} {s : S} {unset : Unset}
  {devices all : List PcieDeviceAttr} {bdf : Nat}

-- What `val_pcie_get_rootport` returns for a function, in a table with these entries.
def rootOf (hw : Mmio S) (table : PcieInfoTable) (s : S) (entries : List Nat) (bdf : Nat) : Nat × Nat :=
  if portType hw table s bdf = rp then (0, bdf)
  else if portType hw table s bdf = rciep ∨ portType hw table s bdf = rcec then (1, 0xFFFFFFFF)
  else (entries.find? (Carries hw table s · (pcieExtractBdfBus bdf))).elim (1, 0) (0, ·)

theorem getRootport_eq (h : ∀ bdf ∈ devices.map (·.bdf), Express hw table s bdf) (hb : Express hw table s bdf) :
    valPcieGetRootport hw table s unset devices bdf = some (rootOf hw table s (devices.map (·.bdf)) bdf) := by
  simp only [valPcieGetRootport, hb.devicePortType, rootportLoop_eq h, rootOf]
  split
  case isTrue  => rfl
  case isFalse =>
    split
    case isTrue  => rfl
    case isFalse => rfl

variable {root : Nat → Nat × Nat}

-- The root ports are entered as long as each function has one.
theorem populateLoop_some (h : ∀ d ∈ devices, valPcieGetRootport hw table s unset all d.bdf = some (root d.bdf))
    (hr : ∀ d ∈ devices, ¬((root d.bdf).1 ≠ 0 ∧ (root d.bdf).2 = 0)) :
    populateLoop hw table s unset all devices =
      some (0, devices.map fun d => { d with rpBdf := some (root d.bdf).2 }) := by
  induction devices
  case nil => rfl
  case cons d rest hi =>
    obtain ⟨hd, hrest⟩ := List.forall_mem_cons.mp h
    obtain ⟨hrd, hrr⟩ := List.forall_mem_cons.mp hr
    simp only [populateLoop, hd, if_neg hrd, hi hrest hrr, Option.map_some, List.map_cons]

theorem populateLoop_fails (h : ∀ d ∈ devices, valPcieGetRootport hw table s unset all d.bdf = some (root d.bdf))
    (hr : ∃ d ∈ devices, (root d.bdf).1 ≠ 0 ∧ (root d.bdf).2 = 0) :
    ∃ devices', populateLoop hw table s unset all devices = some (1, devices') := by
  induction devices
  case nil =>
    obtain ⟨_, hd, _⟩ := hr
    cases hd
  case cons d rest hi =>
    obtain ⟨hd, hrest⟩ := List.forall_mem_cons.mp h
    by_cases hrd : (root d.bdf).1 ≠ 0 ∧ (root d.bdf).2 = 0
    case pos =>
      refine ⟨d :: rest, ?_⟩
      simp only [populateLoop, hd, if_pos hrd]
    case neg =>
      obtain ⟨d', hd', hr'⟩ := hr
      have hm : d' ∈ rest := (List.mem_cons.mp hd').resolve_left fun he => hrd (he ▸ hr')
      obtain ⟨devices', hp⟩ := hi hrest ⟨d', hm, hr'⟩
      refine ⟨{ d with rpBdf := some (root d.bdf).2 } :: devices', ?_⟩
      simp only [populateLoop, hd, if_neg hrd, hp, Option.map_some]

end Populate

-- The entry of the MCFG for the window.
def Ecam.mcfg (ecam : Ecam) : List McfgEntry :=
  [{ baseAddress := .ofNat 64 ecam.base, pciSegmentGroupNumber := 0, startBusNumber := 0, endBusNumber := 255 }]

def Ecam.block (ecam : Ecam) : PcieInfoBlock :=
  { ecamBase := ecam.base, segmentNum := 0, startBusNum := 0, endBusNum := 255 }

theorem Ecam.table_eq (ecam : Ecam) : palPcieCreateInfoTable ecam.mcfg = ecam.table := by
  have := ecam.fits
  have hbase : (BitVec.ofNat 64 ecam.base).toNat = ecam.base := by
    rw [BitVec.toNat_ofNat]
    omega
  simp [palPcieCreateInfoTable, mcfg, table, hbase]

-- A read that need not be aligned.
theorem Ecam.read_word (ecam : Ecam) {root : Bus} {bus index offset : Nat} (hb : bus < 256) (hi : index < 256)
    (ho : offset < 4096) :
    valPcieReadCfg ecam.mmio ecam.table root (pcieCreateBdf 0 bus (index / 8) (index % 8)) offset =
      some (root.read priBus bus index (offset - offset % 4)) := by
  obtain ⟨h₁, h₂, h₃⟩ := @decode bus index (offset - offset % 4) hi (by omega)
  have hm : ecam.base + (bus * 2 ^ 20 + index * 2 ^ 12 + offset) -
      (ecam.base + (bus * 2 ^ 20 + index * 2 ^ 12 + offset)) % 4 - ecam.base =
      bus * 2 ^ 20 + index * 2 ^ 12 + (offset - offset % 4) := by
    have := ecam.aligned
    omega
  simp only [valPcieReadCfg, ecam.configAddr_eq hb hi ho, Option.map_some, palMmioRead, mmio, hm, h₁, h₂, h₃]

-- The place of a function in the window.
def Node.position (ecam : Ecam) (f : Node) : Position :=
  { ecam := 0, block := ecam.block, bus := f.bus, dev := f.index / 8, func := f.index % 8 }

namespace Routes

variable {ecam : Ecam} {root : Bus} {fs : List Node} {f g : Node} {p : Position} {offset bus index : Nat}
variable {unset : Unset}

open Position

theorem in_table : p.In ecam.table ↔ p.ecam = 0 ∧ p.block = ecam.block ∧ p.bus < 256 ∧ p.dev < 32 ∧ p.func < 8 := by
  constructor
  · intro h
    have hz : p.ecam < 1 := (List.getElem?_eq_some_iff.mp h.window).1
    have hw := h.window
    rw [show p.ecam = 0 by omega] at hw
    have hb : p.block = ecam.block := (Option.some.inj hw).symm
    have hlast := h.last
    rw [hb] at hlast
    exact ⟨by omega, hb, Nat.lt_succ_of_le hlast, h.dev, h.func⟩
  · rintro ⟨hz, hb, hbus, hdev, hfunc⟩
    refine ⟨?_, ?_, ?_, hdev, hfunc⟩
    · rw [hz, hb]
      rfl
    · rw [hb]
      exact Nat.zero_le _
    · rw [hb]
      exact Nat.le_of_lt_succ hbus

theorem position_bdf : (f.position ecam).bdf = f.bdf := rfl

variable (ecam) (h : Routes root fs)
include h

theorem position_in (hf : f ∈ fs) : (f.position ecam).In ecam.table := by
  have := h.index f hf
  exact in_table.mpr ⟨rfl, rfl, h.bus f hf, by simp only [Node.position]; omega, by simp only [Node.position]; omega⟩

theorem read_cfg (hf : f ∈ fs) (ho : offset < 4096) :
    valPcieReadCfg ecam.mmio ecam.table root f.bdf offset = some (f.config offset) := by
  rw [Node.bdf, ecam.read_word (h.bus f hf) (h.index f hf) ho, h.read, h.distinct.answer_eq hf, Node.config]

omit h in
theorem table_disjoint (ecam : Ecam) : DisjointBuses (palPcieCreateInfoTable ecam.mcfg) :=
  List.pairwise_singleton ..

omit h in
theorem table_nonzero (ecam : Ecam) : ∀ block ∈ palPcieCreateInfoTable ecam.mcfg, block.ecamBase ≠ 0 := by
  rw [ecam.table_eq]
  intro block hblock
  rw [List.mem_singleton.mp hblock]
  exact ecam.nonzero

-- The word at a position is the one of the function there.
theorem word_eq (hp : p.In ecam.table) (ho : offset < 4096) :
    p.word ecam.mmio root offset = answer fs p.bus (p.dev * 8 + p.func) (offset - offset % 4) := by
  obtain ⟨_, hb, hbus, hdev, hfunc⟩ := in_table.mp hp
  have hread : valPcieReadCfg ecam.mmio ecam.table root _ offset = some (root.read priBus _ _ _) :=
    ecam.read_word hbus (show p.dev * 8 + p.func < 256 by omega) ho
  rw [show (p.dev * 8 + p.func) / 8 = p.dev by omega, show (p.dev * 8 + p.func) % 8 = p.func by omega] at hread
  have hp' : p.In (palPcieCreateInfoTable ecam.mcfg) := ecam.table_eq ▸ hp
  have hword : valPcieReadCfg ecam.mmio (palPcieCreateInfoTable ecam.mcfg) root p.bdf offset =
      some (p.word ecam.mmio root offset) :=
    (reaches_self (by simp [hb, Ecam.block])).read_eq (table_disjoint ecam) (table_nonzero ecam) hp' hp' offset
  rw [ecam.table_eq, bdf, hb] at hword
  rw [← h.read]
  exact Option.some.inj (hword.symm.trans hread)

theorem position_word (hf : f ∈ fs) (ho : offset < 4096) :
    (f.position ecam).word ecam.mmio root offset = f.config offset := by
  rw [h.word_eq ecam (h.position_in ecam hf) ho]
  simp only [Node.position]
  rw [show f.index / 8 * 8 + f.index % 8 = f.index by omega, h.distinct.answer_eq hf, Node.config]

theorem answers_iff (hp : p.In ecam.table) : p.Answers ecam.mmio root ↔ ∃ f ∈ fs, p = f.position ecam := by
  constructor
  · intro ha
    by_contra hn
    refine ha ((h.word_eq ecam hp (by decide)).trans (answer_none ?_))
    intro f hf ⟨hbus, hindex⟩
    obtain ⟨hz, hb, _, _, hfunc⟩ := in_table.mp hp
    refine hn ⟨f, hf, ?_⟩
    rw [Position.mk.injEq]
    refine ⟨hz, hb, hbus.symm, ?_, ?_⟩ <;> simp only [Node.position] <;> omega
  · rintro ⟨f, hf, he⟩
    rw [he, Answers, h.position_word ecam hf (by decide)]
    exact h.vendor f hf

theorem func0_answers_iff (hf : f ∈ fs) :
    (f.position ecam).func0.Answers ecam.mmio root ↔ ∃ g ∈ fs, g.bus = f.bus ∧ g.index = f.index / 8 * 8 := by
  rw [h.answers_iff ecam (h.position_in ecam hf).func0]
  refine exists_congr fun g => and_congr_right fun _ => ?_
  rw [Position.mk.injEq]
  simp only [Node.position, func0, true_and]
  omega

theorem capabilities_iff (hf : f ∈ fs) {l : List Nat} :
    (f.position ecam).Capabilities ecam.mmio root l ↔ f.Capabilities l := by
  rw [Capabilities, Node.Capabilities, h.position_word ecam hf (by decide)]
  constructor
  · intro hl
    exact hl.congr fun q hq => (h.position_word ecam hf ((hl.lt (and_0xff_lt _) hq).trans (by decide))).symm
  · intro hl
    exact hl.congr fun q hq => h.position_word ecam hf ((hl.lt (and_0xff_lt _) hq).trans (by decide))

theorem find_pciecs (hf : f ∈ fs) {l : List Nat} (hl : f.Capabilities l) :
    l.find? (isCap ((f.position ecam).word ecam.mmio root) cidPciecs) = l.find? (isCap f.config cidPciecs) := by
  refine List.find?_congr fun q hq => ?_
  rw [isCap, isCap, h.position_word ecam hf ((hl.lt (and_0xff_lt _) hq).trans (by decide))]

omit h in
theorem pciecs_iff {l : List Nat} (hl : f.Capabilities l) :
    f.Pciecs offset ↔ l.find? (isCap f.config cidPciecs) = some offset := by
  constructor
  · rintro ⟨l', hl', ho⟩
    exact hl.unique hl' ▸ ho
  · intro ho
    exact ⟨l, hl, ho⟩

theorem listable_iff (hf : f ∈ fs) :
    (f.position ecam).Listable ecam.mmio root ↔ ¬f.HostBridge ∧ ∃ offset, f.Pciecs offset := by
  obtain ⟨l, hl⟩ := h.ends f hf
  have hp := hasPciecs_iff ((h.capabilities_iff ecam hf).mpr hl)
  rw [h.find_pciecs ecam hf hl] at hp
  simp only [Listable, hp, ← pciecs_iff hl, HostBridge, h.position_word ecam hf (show type01Ridr < 4096 by decide),
    h.position_word ecam hf (show type01Cpr < 4096 by decide), h.pointer f hf, false_or]
  exact and_iff_right ((h.answers_iff ecam (h.position_in ecam hf)).mpr ⟨f, hf, rfl⟩)

theorem capabilities_end : ∀ p : Position, p.In (palPcieCreateInfoTable ecam.mcfg) → p.Answers ecam.mmio root →
    ∃ l, p.Capabilities ecam.mmio root l := by
  intro p hp ha
  obtain ⟨f, hf, he⟩ := (h.answers_iff ecam (ecam.table_eq ▸ hp)).mp ha
  obtain ⟨l, hl⟩ := h.ends f hf
  exact ⟨l, he ▸ (h.capabilities_iff ecam hf).mpr hl⟩

-- The scan takes the positions of the functions that are to be listed.
theorem taken_iff_listed (hp : p.In ecam.table) :
    taken ecam.mmio root ecam.table unset p = true ↔ ∃ f ∈ fs, p = f.position ecam ∧ f.Listed fs := by
  have hp' : p.In (palPcieCreateInfoTable ecam.mcfg) := ecam.table_eq ▸ hp
  have hb := (in_table.mp hp).2.1
  have htaken := taken_iff (table_disjoint ecam) (table_nonzero ecam) (h.capabilities_end ecam) unset hp' hp'
    (reaches_self (by simp [hb, Ecam.block]))
  rw [ecam.table_eq] at htaken
  rw [htaken]
  constructor
  · rintro ⟨h₀, hl⟩
    obtain ⟨f, hf, he⟩ := (h.answers_iff ecam hp).mp hl.1
    rw [he] at h₀ hl
    obtain ⟨hb, hc⟩ := (h.listable_iff ecam hf).mp hl
    exact ⟨f, hf, he, hb, hc, (h.func0_answers_iff ecam hf).mp h₀⟩
  · rintro ⟨f, hf, he, hb, hc, h₀⟩
    rw [he]
    exact ⟨(h.func0_answers_iff ecam hf).mpr h₀, (h.listable_iff ecam hf).mpr ⟨hb, hc⟩⟩

-- The entries of the table of devices.
def entries (ecam : Ecam) (root : Bus) (unset : Unset) : List Nat :=
  ((positions ecam.table).filter (taken ecam.mmio root ecam.table unset)).map bdf

theorem scan_eq_entries :
    scan (ecamLoop ecam.mmio ecam.table root unset) ecam.table [] = some (true, entries ecam root unset) := by
  have hm : ∀ p : Position, p.In (palPcieCreateInfoTable ecam.mcfg) →
      ∃ q : Position, q.In (palPcieCreateInfoTable ecam.mcfg) ∧ p.Reaches q := by
    intro p hp
    have hb := (in_table.mp (ecam.table_eq ▸ hp)).2.1
    exact ⟨p, hp, reaches_self (by simp [hb, Ecam.block])⟩
  have := scan_positions_eq (table_disjoint ecam) (table_nonzero ecam) (h.capabilities_end ecam) unset hm
  rwa [ecam.table_eq] at this

theorem mem_entries {x : Nat} : x ∈ entries ecam root unset ↔ ∃ f ∈ fs, f.Listed fs ∧ f.bdf = x := by
  simp only [entries, List.mem_map, List.mem_filter, mem_positions]
  constructor
  · rintro ⟨p, ⟨hp, ht⟩, he⟩
    obtain ⟨f, hf, hpf, hl⟩ := (h.taken_iff_listed ecam hp).mp ht
    exact ⟨f, hf, hl, by rw [← he, hpf, position_bdf]⟩
  · rintro ⟨f, hf, hl, he⟩
    have hp := h.position_in ecam hf
    exact ⟨f.position ecam, ⟨hp, (h.taken_iff_listed ecam hp).mpr ⟨f, hf, rfl, hl⟩⟩, he⟩

omit h in
theorem entries_sorted (ecam : Ecam) (root : Bus) (unset : Unset) : (entries ecam root unset).Pairwise (· < ·) := by
  refine List.pairwise_map.mpr (((positions_sorted ecam.table).filter _).imp_of_mem ?_)
  intro p q hp hq hlt
  obtain ⟨hz, hb, hbus, hdev, hfunc⟩ := in_table.mp (mem_positions.mp (List.mem_filter.mp hp).1)
  obtain ⟨hz', hb', hbus', hdev', hfunc'⟩ := in_table.mp (mem_positions.mp (List.mem_filter.mp hq).1)
  rw [bdf, bdf, pcieCreateBdf_eq hbus hdev hfunc, pcieCreateBdf_eq hbus' hdev' hfunc', hb, hb']
  simp only [Lt] at hlt
  omega

-- The searches of a function that has the capability.

theorem findCapability_pciecs (hf : f ∈ fs) (hp : f.Pciecs offset) :
    valPcieFindCapability ecam.mmio ecam.table root f.bdf .pcieCap cidPciecs = some (pcieSuccess, some offset) := by
  obtain ⟨l, hl, ho⟩ := hp
  have hin : (f.position ecam).In (palPcieCreateInfoTable ecam.mcfg) := ecam.table_eq ▸ h.position_in ecam hf
  have hread (offset : Nat) : valPcieReadCfg ecam.mmio (palPcieCreateInfoTable ecam.mcfg) root f.bdf offset =
      some ((f.position ecam).word ecam.mmio root offset) :=
    (reaches_self (by simp [Node.position, Ecam.block])).read_eq (table_disjoint ecam) (table_nonzero ecam) hin hin offset
  rw [ecam.table_eq] at hread
  have hfind := findCapability_eq hread ((h.capabilities_iff ecam hf).mpr hl)
  rw [h.find_pciecs ecam hf hl, ho, h.position_word ecam hf (by decide), if_neg (h.pointer f hf)] at hfind
  exact hfind

theorem configWord_eq (hf : f ∈ fs) (ho : offset < 4096) :
    configWord ecam.mmio ecam.table root f.bdf offset = f.config offset := by
  rw [configWord, h.read_cfg ecam hf ho, Option.getD_some]

omit h in
theorem pciecs_lt (hp : f.Pciecs offset) : offset < 256 := by
  obtain ⟨l, hl, ho⟩ := hp
  exact hl.lt (and_0xff_lt _) (List.mem_of_find?_eq_some ho)

theorem portType_iff (hf : f ∈ fs) (hp : ∃ offset, f.Pciecs offset) (t : Nat) :
    portType ecam.mmio ecam.table root f.bdf = t ↔ f.PortType t := by
  obtain ⟨offset, hp⟩ := hp
  have hlt := pciecs_lt hp
  simp only [portType, h.findCapability_pciecs ecam hf hp, h.configWord_eq ecam hf (show offset < 4096 by omega)]
  constructor
  · intro he
    exact ⟨offset, hp, he.symm⟩
  · rintro ⟨offset', hp', he⟩
    obtain ⟨l, hl⟩ := h.ends f hf
    have hsame := Option.some.inj (((pciecs_iff hl).mp hp).symm.trans ((pciecs_iff hl).mp hp'))
    rw [he, hsame]

omit h in
theorem extract_bus (hf : f.bus < 256) (hi : f.index < 256) : pcieExtractBdfBus f.bdf = f.bus :=
  (extract_pcieCreateBdf hf (by omega) (by omega)).2.1

theorem carries_iff (hf : f ∈ fs) {e : Node} (he : e ∈ fs) :
    Carries ecam.mmio ecam.table root e.bdf f.bus ↔ f.Leads e := by
  have hword : busNumbers ecam.mmio ecam.table root e.bdf = e.word type1Pbn := h.configWord_eq ecam he (by decide)
  have hclaims : Carries ecam.mmio ecam.table root e.bdf f.bus ↔ Bus.claims (e.word type1Pbn) f.bus := by
    rw [Carries, hword, Bus.claims]
  rw [hclaims, Node.Leads, Node.Below]
  cases h.header e he
  case inl ht => simp [ht, type0Header, type1Header]
  case inr ht =>
    rw [show type1Pbn = busNumRegOffset by decide, h.claims e he f hf ht]
    simp [ht, type0Header, type1Header]

theorem express_entries (unset : Unset) : ∀ x ∈ entries ecam root unset, Express ecam.mmio ecam.table root x := by
  intro x hx
  obtain ⟨f, hf, ⟨_, ⟨offset, hp⟩, _⟩, he⟩ := (h.mem_entries ecam).mp hx
  exact ⟨offset, he ▸ h.findCapability_pciecs ecam hf hp⟩

-- The root port that is entered for each kind of function.

theorem rootOf_rootPort (hf : f ∈ fs) (hl : f.Listed fs) (ht : f.PortType rp) (l : List Nat) :
    rootOf ecam.mmio ecam.table root l f.bdf = (0, f.bdf) := by
  rw [rootOf, if_pos ((h.portType_iff ecam hf hl.2.1 rp).mpr ht)]

theorem rootOf_integrated (hf : f ∈ fs) (hl : f.Listed fs) (ht : f.PortType rciep ∨ f.PortType rcec) (l : List Nat) :
    rootOf ecam.mmio ecam.table root l f.bdf = (1, 0xFFFFFFFF) := by
  have ht := ht.imp (h.portType_iff ecam hf hl.2.1 rciep).mpr (h.portType_iff ecam hf hl.2.1 rcec).mpr
  have hne : portType ecam.mmio ecam.table root f.bdf ≠ rp := by
    cases ht
    case inl ht => simp [ht, rciep, rp]
    case inr ht => simp [ht, rcec, rp]
  rw [rootOf, if_neg hne, if_pos ht]

theorem rootOf_plain (hf : f ∈ fs) (hl : f.Listed fs) (ht : f.Plain) (l : List Nat) :
    rootOf ecam.mmio ecam.table root l f.bdf =
      (l.find? (Carries ecam.mmio ecam.table root · f.bus)).elim (1, 0) (0, ·) := by
  have hne (t : Nat) (hn : ¬f.PortType t) : portType ecam.mmio ecam.table root f.bdf ≠ t :=
    mt (h.portType_iff ecam hf hl.2.1 t).mp hn
  rw [rootOf, if_neg (hne rp ht.1), if_neg (not_or.mpr ⟨hne rciep ht.2.1, hne rcec ht.2.2⟩),
    extract_bus (h.bus f hf) (h.index f hf)]

-- The search for the root port finds the first function in the table that passes for it.
theorem find_leads (unset : Unset) (hf : f ∈ fs) :
    (∃ e ∈ fs, e.Listed fs ∧ f.Leads e ∧
      (entries ecam root unset).find? (Carries ecam.mmio ecam.table root · f.bus) = some e.bdf ∧
      ∀ e' ∈ fs, e'.Listed fs → f.Leads e' → e.bdf ≤ e'.bdf) ∨
    (entries ecam root unset).find? (Carries ecam.mmio ecam.table root · f.bus) = none ∧
      ¬∃ e ∈ fs, e.Listed fs ∧ f.Leads e := by
  cases hx : (entries ecam root unset).find? (Carries ecam.mmio ecam.table root · f.bus)
  case none =>
    refine .inr ⟨rfl, ?_⟩
    rintro ⟨e, he, hl, hleads⟩
    have := List.find?_eq_none.mp hx e.bdf ((h.mem_entries ecam).mpr ⟨e, he, hl, rfl⟩)
    exact this (decide_eq_true ((h.carries_iff ecam hf he).mpr hleads))
  case some x =>
    obtain ⟨hc, before, after, hl, hbefore⟩ := List.find?_eq_some_iff_append.mp hx
    obtain ⟨e, he, hle, hbdf⟩ := (h.mem_entries ecam).mp (List.mem_of_find?_eq_some hx)
    subst hbdf
    refine .inl ⟨e, he, hle, (h.carries_iff ecam hf he).mp (of_decide_eq_true hc), rfl, ?_⟩
    intro e' he' hle' hleads'
    have hm : e'.bdf ∈ entries ecam root unset := (h.mem_entries ecam).mpr ⟨e', he', hle', rfl⟩
    have hc' := (h.carries_iff ecam hf he').mpr hleads'
    have hs := entries_sorted ecam root unset
    rw [hl] at hm hs
    rcases List.mem_append.mp hm with hm | hm
    case inl =>
      have := hbefore _ hm
      simp [hc'] at this
    case inr =>
      cases List.mem_cons.mp hm
      case inl he => exact he ▸ le_rfl
      case inr hm => exact Nat.le_of_lt ((List.pairwise_cons.mp (List.pairwise_append.mp hs).2.1).1 _ hm)

-- What the calls for the root ports return while the table is filled in.
theorem getRootport_entries (unset : Unset) :
    ∀ d ∈ (entries ecam root unset).map ({ bdf := ·, rpBdf := none }), valPcieGetRootport ecam.mmio ecam.table root unset
      ((entries ecam root unset).map ({ bdf := ·, rpBdf := none })) (PcieDeviceAttr.bdf d) =
        some (rootOf ecam.mmio ecam.table root (entries ecam root unset) (PcieDeviceAttr.bdf d)) := by
  have hbdf : ((entries ecam root unset).map fun bdf => ({ bdf, rpBdf := none } : PcieDeviceAttr)).map (·.bdf) =
      entries ecam root unset := by
    rw [List.map_map]
    exact List.map_id _
  have hexp := h.express_entries ecam unset
  intro d hd
  have hd' := hbdf ▸ List.mem_map_of_mem (f := PcieDeviceAttr.bdf) hd
  rw [getRootport_eq (by rwa [hbdf]) (hexp _ hd'), hbdf]

-- The one that is none at all is that of a function without any.
theorem rootOf_missing_iff (unset : Unset) (hf : f ∈ fs) (hl : f.Listed fs) :
    ((rootOf ecam.mmio ecam.table root (entries ecam root unset) f.bdf).1 ≠ 0 ∧
      (rootOf ecam.mmio ecam.table root (entries ecam root unset) f.bdf).2 = 0) ↔
        f.Plain ∧ ¬∃ e ∈ fs, e.Listed fs ∧ f.Leads e := by
  by_cases hrp : f.PortType rp
  case pos =>
    rw [h.rootOf_rootPort ecam hf hl hrp]
    exact iff_of_false (fun hz => hz.1 rfl) fun hp => hp.1.1 hrp
  by_cases hint : f.PortType rciep ∨ f.PortType rcec
  case pos =>
    rw [h.rootOf_integrated ecam hf hl hint]
    exact iff_of_false (by decide) fun hp => hint.elim hp.1.2.1 hp.1.2.2
  have hplain : f.Plain := ⟨hrp, not_or.mp hint⟩
  rw [h.rootOf_plain ecam hf hl hplain]
  cases h.find_leads ecam unset hf
  case inl hx =>
    obtain ⟨e, he, hle, hleads, hfind, _⟩ := hx
    rw [hfind]
    exact iff_of_false (fun hz => hz.1 rfl) fun hp => hp.2 ⟨e, he, hle, hleads⟩
  case inr hx =>
    rw [hx.1]
    exact iff_of_true (by decide) ⟨hplain, hx.2⟩

omit h in
theorem bdf_eq (hb : f.bus < 256) (hi : f.index < 256) :
    f.bdf = f.bus * 2 ^ 16 + f.index / 8 * 2 ^ 8 + f.index % 8 := by
  rw [Node.bdf, pcieCreateBdf_eq hb (by omega) (by omega)]
  omega

-- No bridge that is above a function comes before the one on the root bus.
theorem topmost_eq {e e' : Node} (he : e ∈ fs) (he' : e' ∈ fs) (htop : e.above = []) (hb : f.Below e) (hb' : f.Below e')
    (hle : e'.bdf ≤ e.bdf) : e = e' := by
  have hbus := (h.root e he).mp htop
  rw [bdf_eq (h.bus e he) (h.index e he), bdf_eq (h.bus e' he') (h.index e' he'), hbus, priBus] at hle
  have hindex := h.index e he
  have hbus' : e'.bus = priBus := by
    simp only [priBus]
    omega
  have htop' := (h.root e' he').mpr hbus'
  have hp := hb.2
  have hp' := hb'.2
  rw [htop] at hp
  rw [htop'] at hp'
  have hsame := (List.prefix_of_prefix_length_le hp hp' le_rfl).eq_of_length rfl
  exact h.distinct.eq he he' (hbus.trans hbus'.symm) (by simpa using hsame)

-- The table with the root ports that have been found.
def filled (ecam : Ecam) (root : Bus) (unset : Unset) : List PcieDeviceAttr :=
  (entries ecam root unset).map fun bdf =>
    { bdf, rpBdf := some (rootOf ecam.mmio ecam.table root (entries ecam root unset) bdf).2 }

omit h in
theorem filled_bdf (ecam : Ecam) (root : Bus) (unset : Unset) :
    (filled ecam root unset).map (·.bdf) = entries ecam root unset := by
  rw [filled, List.map_map]
  exact List.map_id _

theorem mem_filled (unset : Unset) (hf : f ∈ fs) (hl : f.Listed fs) {r : Nat × Nat}
    (hroot : rootOf ecam.mmio ecam.table root (entries ecam root unset) f.bdf = r) :
    ⟨f.bdf, some r.2⟩ ∈ filled ecam root unset := by
  rw [← hroot]
  exact List.mem_map_of_mem (f := fun bdf => PcieDeviceAttr.mk bdf
    (some (rootOf ecam.mmio ecam.table root (entries ecam root unset) bdf).2)) ((h.mem_entries ecam).mpr ⟨f, hf, hl, rfl⟩)

-- The table that is built, if every function has a root port as far as it needs one.
theorem table_rooted (unset : Unset) (hr : Rooted fs) :
    ∃ devices, valPcieCreateDeviceBdfTable ecam.mmio ecam.table root unset none = some (0, devices) ∧
      Tabled fs devices := by
  have hpop := populateLoop_some (h.getRootport_entries ecam unset) fun d hd hz => by
    obtain ⟨x, hx, he⟩ := List.mem_map.mp hd
    obtain ⟨f, hf, hl, hb⟩ := (h.mem_entries ecam).mp hx
    rw [← he, ← hb, h.rootOf_missing_iff ecam unset hf hl] at hz
    exact hz.2 (hr f hf hl hz.1)
  rw [List.map_map] at hpop
  refine ⟨filled ecam root unset, ?_, ?_⟩
  · simp only [valPcieCreateDeviceBdfTable, valPciePopulateDeviceRootport, h.scan_eq_entries ecam, hpop]
    rfl
  · have hplain : ∀ f ∈ fs, f.Listed fs → f.Plain → ∃ e ∈ fs, e.Listed fs ∧ f.Leads e ∧
        ⟨f.bdf, some e.bdf⟩ ∈ filled ecam root unset ∧ ∀ e' ∈ fs, e'.Listed fs → f.Leads e' → e.bdf ≤ e'.bdf := by
      intro f hf hl ht
      have hroot := h.rootOf_plain ecam hf hl ht (entries ecam root unset)
      cases h.find_leads ecam unset hf
      case inl hx =>
        obtain ⟨e, he, hle, hleads, hfind, hmin⟩ := hx
        rw [hfind] at hroot
        exact ⟨e, he, hle, hleads, h.mem_filled ecam unset hf hl hroot, hmin⟩
      case inr hx => exact absurd (hr f hf hl ht) hx.2
    constructor
    case sorted     => exact (filled_bdf ecam root unset).symm ▸ entries_sorted ecam root unset
    case listed     => exact (filled_bdf ecam root unset).symm ▸ fun bdf => h.mem_entries ecam
    case rootPort   => exact fun f hf hl ht => h.mem_filled ecam unset hf hl (h.rootOf_rootPort ecam hf hl ht _)
    case integrated => exact fun f hf hl ht => h.mem_filled ecam unset hf hl (h.rootOf_integrated ecam hf hl ht _)
    case plain      => exact hplain
    case topmost =>
      intro f hf hl ht e he hle htop hbelow hno
      obtain ⟨e', he', hle', hleads, hm, hmin⟩ := hplain f hf hl ht
      have hle := hmin e he hle (.inl hbelow)
      rwa [h.topmost_eq he he' htop hbelow (hleads.resolve_right fun hz => hno e' he' hle' hz.1 hz.2) hle]

-- The table is given up as soon as a function has none.
theorem table_discarded (unset : Unset) (hr : ¬Rooted fs) :
    valPcieCreateDeviceBdfTable ecam.mmio ecam.table root unset none = some (1, []) := by
  simp only [Rooted, not_forall] at hr
  obtain ⟨f, hf, hl, ht, hn⟩ := hr
  have hz := (h.rootOf_missing_iff ecam unset hf hl).mpr ⟨ht, hn⟩
  have hd : { bdf := f.bdf, rpBdf := none } ∈
      (entries ecam root unset).map fun bdf => ({ bdf, rpBdf := none } : PcieDeviceAttr) :=
    List.mem_map_of_mem ((h.mem_entries ecam).mpr ⟨f, hf, hl, rfl⟩)
  obtain ⟨devices', hpop⟩ := populateLoop_fails (h.getRootport_entries ecam unset) ⟨_, hd, hz⟩
  simp only [valPcieCreateDeviceBdfTable, valPciePopulateDeviceRootport, h.scan_eq_entries ecam, hpop]
  rfl

end Routes

-- The enumeration numbers the buses in the order of the walk.
theorem valBsaPcieEnumerate_eq (ecam : Ecam) (vendorId headerValue : BitVec 32) {root : Bus} {fuel : Nat}
    (hl : root.length ≤ 256) (hb : root.Bounded) (hn : root.bridges < 255) (hfuel : root.bridges < fuel) :
    valBsaPcieEnumerate ecam.mmio ecam.table vendorId headerValue fuel root =
      some (root.number priBus secBus, root.bridges) := by
  obtain ⟨fuel', hf⟩ := Nat.exists_eq_add_of_lt hfuel
  rw [valBsaPcieEnumerate, hf, pcieEnumerateDevice, if_neg (by decide), functionsOfBus_eq]
  refine (functionLoop_eq ecam vendorId headerValue (v := ⟨vendorId, headerValue, secBus, priBus⟩)
    (C := id) (P := id) .root .start (show priBus < secBus by decide) (by omega) hb
    (by simp only [secBus]; omega) (by omega) rfl).trans ?_
  simp [secBus]

-- Nothing answers at a number that no function has.
theorem Routes.read_none {ecam : Ecam} {root : Bus} {fs : List Node} (h : Routes root fs) {bus dev func offset : Nat}
    (hbus : bus < 256) (hdev : dev < 32) (hfunc : func < 8) (hno : ∀ f ∈ fs, f.bdf ≠ pcieCreateBdf 0 bus dev func)
    (ho : offset < 4096) :
    valPcieReadCfg ecam.mmio ecam.table root (pcieCreateBdf 0 bus dev func) offset = some 0xFFFFFFFF := by
  have hdiv : (dev * 8 + func) / 8 = dev ∧ (dev * 8 + func) % 8 = func := by omega
  have hword : valPcieReadCfg ecam.mmio ecam.table root _ offset = _ :=
    ecam.read_word hbus (show dev * 8 + func < 256 by omega) ho
  rw [hdiv.1, hdiv.2, h.read, answer_none] at hword
  · exact hword
  · intro f hf ⟨hb, hi⟩
    refine hno f hf ?_
    rw [Node.bdf, hb, hi, hdiv.1, hdiv.2]

-- What is there after the windows have been found, for every topology: the buses are numbered so that every function
-- answers at its own number and nothing else answers, and the table lists the functions of the topology. A function has
-- the root port above it there, or a function before it whose bytes look like the bus numbers of a bridge.
theorem info_table_topology (ecam : Ecam) (vendorId headerValue : BitVec 32) (unset : Unset) (root : Bus)
    (hl : root.length ≤ 256) (hb : root.Bounded) (hn : root.bridges < 255) (hw : root.All ListEnds) :
    ∃ result devices, result.erase = root.erase ∧
      (∀ fuel, root.bridges < fuel →
        valPcieCreateInfoTable ecam.mmio ecam.table true vendorId headerValue unset fuel root none =
          some (result, some devices)) ∧
      let fs := result.nodes priBus [] 0
      (∀ f ∈ fs, ∀ offset < 4096, valPcieReadCfg ecam.mmio ecam.table result f.bdf offset = some (f.config offset)) ∧
      (∀ bus dev func, bus < 256 → dev < 32 → func < 8 → (∀ f ∈ fs, f.bdf ≠ pcieCreateBdf 0 bus dev func) →
        ∀ offset < 4096, valPcieReadCfg ecam.mmio ecam.table result (pcieCreateBdf 0 bus dev func) offset =
          some 0xFFFFFFFF) ∧
      (Rooted fs → Tabled fs devices) ∧ (¬Rooted fs → devices = []) := by
  have h := Routes.number hl hb hn hw
  have hinfo {status : Nat} {devices : List PcieDeviceAttr}
      (ht : valPcieCreateDeviceBdfTable ecam.mmio ecam.table (root.number priBus secBus) unset none =
        some (status, devices)) (fuel : Nat) (hfuel : root.bridges < fuel) :
      valPcieCreateInfoTable ecam.mmio ecam.table true vendorId headerValue unset fuel root none =
        some (root.number priBus secBus, some devices) := by
    rw [valPcieCreateInfoTable, if_neg (by simp [Ecam.table]), valPcieEnumerate, if_pos rfl,
      valBsaPcieEnumerate_eq ecam vendorId headerValue hl hb hn hfuel, Option.map_some]
    simp only [ht, Option.map_some]
  obtain ⟨status, devices, ht, hrooted, hmissing⟩ : ∃ status devices,
      valPcieCreateDeviceBdfTable ecam.mmio ecam.table (root.number priBus secBus) unset none = some (status, devices) ∧
      (Rooted ((root.number priBus secBus).nodes priBus [] 0) →
        Tabled ((root.number priBus secBus).nodes priBus [] 0) devices) ∧
      (¬Rooted ((root.number priBus secBus).nodes priBus [] 0) → devices = []) := by
    by_cases hr : Rooted ((root.number priBus secBus).nodes priBus [] 0)
    case pos =>
      obtain ⟨devices, ht, htabled⟩ := h.table_rooted ecam unset hr
      exact ⟨0, devices, ht, fun _ => htabled, fun hn => absurd hr hn⟩
    case neg => exact ⟨1, [], h.table_discarded ecam unset hr, fun hr' => absurd hr' hr, fun _ => rfl⟩
  refine ⟨root.number priBus secBus, devices, Bus.erase_number, hinfo ht, ?_, ?_, hrooted, hmissing⟩
  · exact fun f hf offset ho => h.read_cfg ecam hf ho
  · exact fun bus dev func hbus hdev hfunc hno offset ho => h.read_none hbus hdev hfunc hno ho

-- An endpoint behind a root port.

def expressEndpoint : Words type0Header where
  word offset :=
    if offset = 0 then 0x10411AF4 else if offset = type01Cpr then 0x40 else if offset = 0x40 then 0x00000010 else 0
  vendor      := by decide
  header      := by decide

def expressPort : Words type1Header where
  word offset :=
    if offset = 0 then 0x000C1B36 else if offset = headerOffset then 0x00010000
    else if offset = type01Cpr then 0x40 else if offset = 0x40 then 0x00400010 else 0
  vendor      := by decide
  header      := by decide

theorem expressWords_listEnds : ListEnds expressEndpoint.word ∧ ListEnds expressPort.word := by
  refine ⟨⟨by decide, [0x40], .cons (by decide) .nil, ?_⟩, ⟨by decide, [0x40], .cons (by decide) .nil, ?_⟩⟩
  · simp
  · simp

def portTopology : Bus :=
  .type1 expressPort 0 (.type0 expressEndpoint .nil) .nil

-- The root port has bus 1 behind it.
def portNode : Node where
  above      := []
  index      := 0
  bus        := 0
  headerType := type1Header
  word       := fun offset => if offset = busNumRegOffset then 0x00010100 else expressPort.word offset

def endpointNode : Node where
  above      := [0]
  index      := 0
  bus        := 1
  headerType := type0Header
  word       := expressEndpoint.word

theorem portTopology_nodes : (portTopology.number priBus secBus).nodes priBus [] 0 = [portNode, endpointNode] := rfl

theorem express_pciecs : portNode.Pciecs 0x40 ∧ endpointNode.Pciecs 0x40 :=
  ⟨⟨[0x40], .cons (by decide) .nil, by decide⟩, ⟨[0x40], .cons (by decide) .nil, by decide⟩⟩

theorem express_listed : portNode.Listed [portNode, endpointNode] ∧ endpointNode.Listed [portNode, endpointNode] := by
  refine ⟨⟨?_, ⟨0x40, express_pciecs.left⟩, portNode, by simp, rfl, rfl⟩,
    ⟨?_, ⟨0x40, express_pciecs.right⟩, endpointNode, by simp, rfl, rfl⟩⟩
  · exact fun h => absurd h.left (by decide)
  · exact fun h => absurd h.left (by decide)

theorem endpointNode_plain : endpointNode.Plain := by
  have htype {t : Nat} (h : endpointNode.PortType t) : t = 1 := by
    obtain ⟨offset, ⟨l, hl, hfind⟩, ht⟩ := h
    obtain ⟨l', hl', hfind'⟩ := express_pciecs.right
    rw [CapList.unique hl hl', hfind'] at hfind
    rw [ht, ← Option.some.inj hfind]
    decide
  exact ⟨fun h => absurd (htype h) (by decide), fun h => absurd (htype h) (by decide),
    fun h => absurd (htype h) (by decide)⟩

theorem endpointNode_leads : endpointNode.Leads portNode :=
  .inl ⟨rfl, List.prefix_rfl⟩

theorem express_rooted : Rooted [portNode, endpointNode] := by
  intro f hf _ hp
  rcases List.mem_pair.mp hf with rfl | rfl
  case inl => exact absurd ⟨0x40, express_pciecs.left, by decide⟩ hp.left
  case inr => exact ⟨portNode, by simp, express_listed.left, endpointNode_leads⟩

theorem portTopology_enumerated {result : Bus} {devices : List PcieDeviceAttr}
    (h : valPcieCreateInfoTable lowEcam.mmio lowEcam.table true 0 0 noUnset 2 portTopology none =
      some (result, some devices)) : result = portTopology.number priBus secBus := by
  rw [valPcieCreateInfoTable, if_neg (by simp [Ecam.table]), valPcieEnumerate, if_pos rfl,
    valBsaPcieEnumerate_eq lowEcam 0 0 (by decide) (by simp [portTopology, Bus.Bounded, Bus.length]) (by decide)
      (by decide), Option.map_some] at h
  obtain ⟨_, _, he⟩ := Option.map_eq_some_iff.mp h
  exact (congrArg Prod.fst he).symm

-- The table of the topology follows from what `Tabled` says.
theorem express_devices {devices : List PcieDeviceAttr} (h : Tabled [portNode, endpointNode] devices) :
    devices = [⟨0, some 0⟩, ⟨0x10000, some 0⟩] := by
  have hmem (bdf : Nat) : bdf ∈ devices.map (·.bdf) ↔ bdf ∈ [0, 0x10000] := by
    rw [h.listed, List.mem_pair]
    constructor
    case mp =>
      rintro ⟨f, hf, _, rfl⟩
      rcases List.mem_pair.mp hf with rfl | rfl
      case inl => exact .inl rfl
      case inr => exact .inr rfl
    case mpr =>
      rintro (rfl | rfl)
      case inl => exact ⟨portNode, by simp, express_listed.left, rfl⟩
      case inr => exact ⟨endpointNode, by simp, express_listed.right, rfl⟩
  have hbdf : devices.map (·.bdf) = [0, 0x10000] := by
    have hperm := (List.perm_ext_iff_of_nodup (h.sorted.imp Nat.ne_of_lt) (by decide)).mpr hmem
    exact hperm.eq_of_pairwise' (h.sorted.imp Nat.le_of_lt) (by decide)
  obtain ⟨d₀, l, rfl, h₀, hl⟩ := List.map_eq_cons_iff.mp hbdf
  obtain ⟨d₁, l', rfl, h₁, hl'⟩ := List.map_eq_cons_iff.mp hl
  obtain rfl := List.map_eq_nil_iff.mp hl'
  have hport : (⟨0, some 0⟩ : PcieDeviceAttr) ∈ [d₀, d₁] :=
    h.rootPort portNode (by simp) express_listed.left ⟨0x40, express_pciecs.left, by decide⟩
  obtain ⟨e, he, _, hleads, hend, _⟩ := h.plain endpointNode (by simp) express_listed.right endpointNode_plain
  have he : e = portNode := by
    rcases List.mem_pair.mp he with rfl | rfl
    case inl => rfl
    case inr =>
      cases hleads
      case inl hb => exact absurd hb.left (by decide)
      case inr hc => exact absurd hc.right (by decide)
  rw [he] at hend
  have hfirst : d₀ = ⟨0, some 0⟩ := by
    cases List.mem_pair.mp hport
    case inl hd => exact hd.symm
    case inr hd => exact absurd (congrArg PcieDeviceAttr.bdf hd ▸ h₁) (by decide)
  have hsecond : d₁ = ⟨0x10000, some 0⟩ := by
    cases List.mem_pair.mp hend
    case inl hd => exact absurd (congrArg PcieDeviceAttr.bdf hd ▸ h₀) (by decide)
    case inr hd => exact hd.symm
  rw [hfirst, hsecond]

theorem endpoint_tabled :
    ∃ result,
      valPcieCreateInfoTable lowEcam.mmio lowEcam.table true 0 0 noUnset 2 portTopology none =
        some (result, some [⟨0, some 0⟩, ⟨0x10000, some 0⟩]) ∧
      Rooted (result.nodes priBus [] 0) ∧
      Tabled (result.nodes priBus [] 0) [⟨0, some 0⟩, ⟨0x10000, some 0⟩] := by
  obtain ⟨hep, hrp⟩ := expressWords_listEnds
  obtain ⟨result, devices, _, hrun, _, _, ht, _⟩ := info_table_topology lowEcam 0 0 noUnset portTopology (by decide)
    (by simp [portTopology, Bus.Bounded, Bus.length]) (by decide) ⟨hrp, ⟨hep, trivial⟩, trivial⟩
  obtain rfl := portTopology_enumerated (hrun 2 (by decide))
  rw [portTopology_nodes] at ht
  obtain rfl := express_devices (ht express_rooted)
  refine ⟨_, hrun 2 (by decide), ?_, ?_⟩
  · rw [portTopology_nodes]
    exact express_rooted
  · rw [portTopology_nodes]
    exact ht express_rooted

end Pcie
