import BsaAcs.Pcie.Theorems.Positions

namespace Pcie

section Scan

variable {ι : Type} {body : ι → List Nat → Option (Bool × List Nat)} {l : List ι} {found found' : List Nat}

theorem scan_total (h : ∀ i ∈ l, ∀ found, ∃ r, body i found = some r) :
    ∃ r, scan body l found = some r := by
  induction l generalizing found
  case nil => exact ⟨_, rfl⟩
  case cons i rest hi =>
    have ⟨(goOn, found'), hb⟩ := h i (by simp) found
    cases goOn
    case false => exact ⟨(false, found'), by simp [scan, hb]⟩
    case true =>
      simpa [scan, hb] using hi fun j hj => h j (by simp [hj])

-- A scan that was not given up went on at every index.
theorem scan_true (h : scan body l found = some (true, found')) :
    ∀ i ∈ l, ∃ f f', body i f = some (true, f') := by
  induction l generalizing found
  case nil => simp
  case cons i rest hi =>
    simp only [scan] at h
    split at h
    case h_1 => cases h
    case h_2 => simp at h
    case h_3 found'' hb =>
      intro j hj
      cases List.mem_cons.mp hj
      case inl he => exact he ▸ ⟨found, found'', hb⟩
      case inr hj => exact hi h j hj

theorem scan_eq {g : ι → List Nat} (h : ∀ i ∈ l, ∀ found, body i found = some (true, found ++ g i)) :
    scan body l found = some (true, found ++ l.flatMap g) := by
  induction l generalizing found
  case nil => simp [scan]
  case cons i rest hi =>
    simp only [scan, h i (by simp) found]
    rw [hi fun j hj => h j (by simp [hj])]
    simp

end Scan

section Functions

variable {S : Type} {hw : Mmio S} {table : PcieInfoTable} {s : S} {unset : Unset}
  {bdf : Nat → Nat} {fs found : List Nat}

theorem funcLoop_total (h : ∀ f ∈ fs, ∃ r, probe hw table s unset (bdf f) = some r) :
    ∃ r, funcLoop hw table s unset bdf fs found = some r := by
  induction fs generalizing found
  case nil => exact ⟨_, rfl⟩
  case cons f rest hi =>
    have hr := fun g hg => h g (List.mem_cons_of_mem f hg)
    have ⟨r, hp⟩ := h f (by simp)
    cases r
    case noMapping => exact ⟨_, by simp [funcLoop, hp]; rfl⟩
    case absent =>
      by_cases hf : f = 0
      case pos => exact ⟨_, by simp only [funcLoop, hp, if_pos hf]; rfl⟩
      case neg => simpa [funcLoop, hp, hf] using hi hr
    case skipped => simpa [funcLoop, hp] using hi hr
    case listed => simpa [funcLoop, hp] using hi hr

-- Past function 0 an absent function is passed over.
theorem funcLoop_eq
    (h : ∀ f ∈ fs, f ≠ 0 ∧ ∃ r, probe hw table s unset (bdf f) = some r ∧ r ≠ .noMapping) :
    funcLoop hw table s unset bdf fs found = some (true, found ++
      (fs.filter fun f => decide (probe hw table s unset (bdf f) = some .listed)).map bdf) := by
  induction fs generalizing found
  case nil => simp [funcLoop]
  case cons f rest hi =>
    have hr := fun g hg => h g (List.mem_cons_of_mem f hg)
    have ⟨h0, r, hp, hm⟩ := h f (by simp)
    cases r
    case noMapping => exact absurd rfl hm
    case absent    => simpa [funcLoop, hp, h0] using hi hr
    case skipped   => simpa [funcLoop, hp] using hi hr
    case listed    => simp [funcLoop, hp, hi hr]

variable {segNum bus dev : Nat}

theorem devLoop_total
    (h : ∀ f < pcieMaxFunc, ∃ r, probe hw table s unset (pcieCreateBdf segNum bus dev f) = some r) :
    ∃ r, devLoop hw table s unset segNum bus dev found = some r :=
  funcLoop_total fun f hf => h f (List.mem_range.mp hf)

theorem devLoop_true {found' : List Nat} (h : devLoop hw table s unset segNum bus dev found = some (true, found')) :
    probe hw table s unset (pcieCreateBdf segNum bus dev 0) ≠ some .noMapping := by
  intro hp
  simp [devLoop, show List.range pcieMaxFunc = 0 :: List.range' 1 7 from rfl, funcLoop, hp] at h

-- The functions of a device that the scan takes: those that are fit for it, if function 0 answers.
def deviceEntries (hw : Mmio S) (table : PcieInfoTable) (s : S) (unset : Unset) (segNum bus dev : Nat) :
    List Nat :=
  ((List.range pcieMaxFunc).filter fun f =>
    decide (probe hw table s unset (pcieCreateBdf segNum bus dev 0) ≠ some .absent) &&
    decide (probe hw table s unset (pcieCreateBdf segNum bus dev f) = some .listed)).map
      (pcieCreateBdf segNum bus dev)

theorem devLoop_eq
    (h : ∀ f < pcieMaxFunc,
      ∃ r, probe hw table s unset (pcieCreateBdf segNum bus dev f) = some r ∧ r ≠ .noMapping) :
    devLoop hw table s unset segNum bus dev found =
      some (true, found ++ deviceEntries hw table s unset segNum bus dev) := by
  have ht : ∀ f ∈ List.range' 1 7, f ≠ 0 ∧
      ∃ r, probe hw table s unset (pcieCreateBdf segNum bus dev f) = some r ∧ r ≠ .noMapping := by
    intro f hf
    simp only [List.mem_range'_1] at hf
    exact ⟨by omega, h f (by simp only [pcieMaxFunc]; omega)⟩
  have ⟨r, hp, hm⟩ := h 0 (by decide)
  simp only [devLoop, deviceEntries, show List.range pcieMaxFunc = 0 :: List.range' 1 7 from rfl]
  cases r
  case noMapping => exact absurd rfl hm
  case absent    => simp [funcLoop, hp]
  case skipped   => simp [funcLoop, hp, funcLoop_eq ht]
  case listed    => simp [funcLoop, hp, funcLoop_eq ht]

end Functions
section Probe

variable {S : Type} {hw : Mmio S} {table : PcieInfoTable} {s : S} {unset : Unset} {bdf : Nat}
  {q : Position} {l : List Nat}

open Position

-- The search as the capability list shows it.
theorem findCapability_eq (hr : ∀ offset, valPcieReadCfg hw table s bdf offset = some (q.word hw s offset))
    (hl : q.Capabilities hw s l) :
    valPcieFindCapability hw table s bdf .pcieCap cidPciecs =
      if q.word hw s type01Cpr = pcieUnknownResponse then some (pcieSuccess, none)
      else match l.find? (isCap (q.word hw s) cidPciecs) with
        | none => some (pcieCapNotFound, none)
        | some offset => some (pcieSuccess, some offset) := by
  simp only [valPcieFindCapability, hr, Option.getD_some, CapList.search_eq hl (and_0xff_lt _)]
  split
  case isTrue  => rfl
  case isFalse => cases l.find? (isCap (q.word hw s) cidPciecs) <;> rfl

theorem hasPciecs_iff (hl : q.Capabilities hw s l) :
    q.HasPciecs hw s ↔ ∃ offset, l.find? (isCap (q.word hw s) cidPciecs) = some offset := by
  constructor
  · intro ⟨l', hl', o, ho, hc⟩
    rw [CapList.unique hl hl']
    exact Option.isSome_iff_exists.mp (List.find?_isSome.mpr ⟨o, ho, hc⟩)
  · intro ⟨o, ho⟩
    exact ⟨l, hl, o, List.mem_of_find?_eq_some ho, List.find?_some ho⟩

theorem isHostBridge_iff (hr : ∀ offset, valPcieReadCfg hw table s bdf offset = some (q.word hw s offset)) :
    valPcieIsHostBridge hw table s unset bdf = true ↔ q.HostBridge hw s := by
  simp only [valPcieIsHostBridge, hr, Option.getD_some, Bool.and_eq_true, decide_eq_true_eq, HostBridge,
    hbBaseClass, hbSubClass, @eq_comm Nat (BitVec.toNat _)]

theorem probe_spec (hr : ∀ offset, valPcieReadCfg hw table s bdf offset = some (q.word hw s offset))
    (hf : q.Answers hw s → ∃ l, q.Capabilities hw s l) :
    ∃ r, probe hw table s unset bdf = some r ∧ r ≠ .noMapping ∧
      (r = .absent ↔ ¬q.Answers hw s) ∧ (r = .listed ↔ q.Listable hw s) := by
  by_cases ha : q.Answers hw s
  case neg =>
    refine ⟨.absent, ?_, by simp, by simp [ha], by simp [Listable, ha]⟩
    simp only [probe, hr, not_not.mp ha, ne_eq, not_true_eq_false, if_false]
  case pos =>
    have ⟨l, hl⟩ := hf ha
    have hv : q.word hw s type01Vidr ≠ pcieUnknownResponse := ha
    by_cases hb : q.HostBridge hw s
    case pos =>
      refine ⟨.skipped, ?_, by simp, by simp [ha], by simp [Listable, hb]⟩
      simp only [probe, hr, hv, ne_eq, not_false_eq_true, if_true, (isHostBridge_iff hr).mpr hb]
    case neg =>
      have hh : valPcieIsHostBridge hw table s unset bdf = false :=
        Bool.eq_false_iff.mpr fun h => hb ((isHostBridge_iff hr).mp h)
      simp only [probe, hr, hv, ne_eq, not_false_eq_true, if_true, hh, Bool.false_eq_true, if_false,
        findCapability_eq hr hl]
      by_cases hc : q.word hw s type01Cpr = pcieUnknownResponse
      case pos => exact ⟨.listed, by simp [hc], by simp, by simp [ha], by simp [Listable, ha, hb, hc]⟩
      case neg =>
        cases ho : l.find? (isCap (q.word hw s) cidPciecs)
        case none =>
          have : ¬q.HasPciecs hw s := by simp [hasPciecs_iff hl, ho]
          exact ⟨.skipped, by simp [hc, pcieCapNotFound, pcieSuccess], by simp, by simp [ha],
            by simp [Listable, hc, this]⟩
        case some offset =>
          have : q.HasPciecs hw s := (hasPciecs_iff hl).mpr ⟨offset, ho⟩
          exact ⟨.listed, by simp [hc], by simp, by simp [ha], by simp [Listable, ha, hb, this]⟩

end Probe

section Populate

variable {S : Type} {hw : Mmio S} {table : PcieInfoTable} {s : S} {unset : Unset}
  {devices all : List PcieDeviceAttr}

theorem rootportLoop_total {bus : Nat}
    (h : ∀ d ∈ devices, ∃ t, valPcieDevicePortType hw table s unset d.bdf = some t) :
    ∃ r, rootportLoop hw table s unset bus devices = some r := by
  induction devices
  case nil => exact ⟨_, rfl⟩
  case cons d rest hi =>
    have ⟨t, ht⟩ := h d (by simp)
    have ⟨r, hr⟩ := hi fun e he => h e (by simp [he])
    simp only [rootportLoop, ht]
    split
    case isTrue  => exact ⟨_, rfl⟩
    case isFalse => exact ⟨r, hr⟩

theorem getRootport_total {bdf : Nat} (hb : ∃ t, valPcieDevicePortType hw table s unset bdf = some t)
    (h : ∀ d ∈ devices, ∃ t, valPcieDevicePortType hw table s unset d.bdf = some t) :
    ∃ r, valPcieGetRootport hw table s unset devices bdf = some r := by
  have ⟨t, ht⟩ := hb
  simp only [valPcieGetRootport, ht]
  split
  case isTrue => exact ⟨_, rfl⟩
  case isFalse =>
    split
    case isTrue  => exact ⟨_, rfl⟩
    case isFalse => exact rootportLoop_total h

theorem populateLoop_total
    (ha : ∀ d ∈ all, ∃ t, valPcieDevicePortType hw table s unset d.bdf = some t)
    (hd : ∀ d ∈ devices, ∃ t, valPcieDevicePortType hw table s unset d.bdf = some t) :
    ∃ r, populateLoop hw table s unset all devices = some r := by
  induction devices
  case nil => exact ⟨_, rfl⟩
  case cons d rest hi =>
    have ⟨(status, rpBdf), hr⟩ := getRootport_total (hd d (by simp)) ha
    have ⟨r, hp⟩ := hi fun e he => hd e (by simp [he])
    simp only [populateLoop, hr, hp]
    split
    case isTrue  => exact ⟨_, rfl⟩
    case isFalse => exact ⟨_, rfl⟩

-- The function numbers stay as they are.
theorem populateLoop_bdf {status : Nat} {devices' : List PcieDeviceAttr}
    (h : populateLoop hw table s unset all devices = some (status, devices')) :
    devices'.map (·.bdf) = devices.map (·.bdf) := by
  induction devices generalizing devices'
  case nil =>
    simp only [populateLoop, Option.some.injEq, Prod.mk.injEq] at h
    simp [←h.right]
  case cons d rest hi =>
    simp only [populateLoop] at h
    split at h
    case h_1 => cases h
    case h_2 =>
      split at h
      case isTrue =>
        simp only [Option.some.injEq, Prod.mk.injEq] at h
        simp [←h.right]
      case isFalse =>
        have ⟨(status', rest'), hp, he⟩ := Option.map_eq_some_iff.mp h
        simp only [Prod.mk.injEq] at he
        simp [←he.right, hi (he.left ▸ hp)]

end Populate
open Position

-- The entries of the table are the expected functions, each one once and in order.
def ExactEntries {S : Type} (hw : Mmio S) (s : S) (table : PcieInfoTable) (entries : List Nat) : Prop :=
  ∃ l : List Position, l.Pairwise Lt ∧ (∀ p, p ∈ l ↔ p.In table ∧ p.Expected hw s) ∧
    entries = l.map bdf ∧ entries.Nodup

-- A function to be listed has a capabilities pointer that does not read as all ones, unless it has the
-- capability there, and no function to be listed is in a segment that does not fit into a function
-- number, nor at the place where such a function number leads to.
structure Fit {S : Type} (hw : Mmio S) (s : S) (table : PcieInfoTable) : Prop where
  pointer : ∀ p : Position, p.In table → p.block.segmentNum < 256 → p.Answers hw s →
    p.func0.Answers hw s → ¬p.HostBridge hw s → p.word hw s type01Cpr = pcieUnknownResponse →
    p.HasPciecs hw s
  segment : ∀ p : Position, p.In table → 256 ≤ p.block.segmentNum →
    ¬p.Expected hw s ∧ ∀ q : Position, q.In table → p.Reaches q → ¬q.Expected hw s

section Exact

variable {S : Type} {hw : Mmio S} {s : S} {mcfg : List McfgEntry} {p q : Position}

-- A function number leads to a position of some window or to none.
theorem reaches_or_none (hw : Mmio S) (s : S) (hp : p.In (palPcieCreateInfoTable mcfg)) :
    (∃ q : Position, q.In (palPcieCreateInfoTable mcfg) ∧ p.Reaches q) ∨
    ∀ offset, valPcieReadCfg hw (palPcieCreateInfoTable mcfg) s p.bdf offset = none := by
  have ⟨h₁, h₂, h₃, h₄⟩ := hp.extract_bdf
  cases hf : (palPcieCreateInfoTable mcfg).find? (·.covers (p.block.segmentNum % 256) p.bus)
  case some block =>
    have hc := PcieInfoBlock.covers_iff.mp (List.find?_some hf)
    have ⟨i, hi⟩ := List.mem_iff_getElem?.mp (List.mem_of_find?_eq_some hf)
    refine .inl ⟨{ p with ecam := i, block := block }, ⟨hi, hc.left, hc.right.left, hp.dev, hp.func⟩, ?_⟩
    exact ⟨hc.right.right.symm, rfl, rfl, rfl⟩
  case none =>
    refine .inr fun offset => ?_
    simp [valPcieReadCfg, configAddr, ecamBase, h₁, h₂, hf]

-- A position below segment 256 is the one its function number leads to.
theorem reaches_self (h : p.block.segmentNum < 256) : p.Reaches p :=
  ⟨(Nat.mod_eq_of_lt h).symm, rfl, rfl, rfl⟩

-- The windows of a segment do not share a bus, so the position that a function number leads to is
-- determined.
theorem position_unique (hd : DisjointBuses (palPcieCreateInfoTable mcfg))
    (hp : p.In (palPcieCreateInfoTable mcfg)) (hq : q.In (palPcieCreateInfoTable mcfg))
    (hs : p.block.segmentNum = q.block.segmentNum) (hb : p.bus = q.bus) (hv : p.dev = q.dev)
    (hf : p.func = q.func) : p = q := by
  have hi : p.ecam = q.ecam := by
    have ⟨hpl, hpg⟩ := List.getElem?_eq_some_iff.mp hp.window
    have ⟨hql, hqg⟩ := List.getElem?_eq_some_iff.mp hq.window
    have h₁ := hp.start
    have h₂ := hp.last
    have h₃ := hq.start
    have h₄ := hq.last
    by_contra hne
    cases Nat.lt_or_gt_of_ne hne
    case inl hlt =>
      have := List.pairwise_iff_getElem.mp hd _ _ hpl hql hlt
      simp only [hpg, hqg] at this
      have := this hs
      omega
    case inr hgt =>
      have := List.pairwise_iff_getElem.mp hd _ _ hql hpl hgt
      simp only [hpg, hqg] at this
      have := this hs.symm
      omega
  have hw : p.block = q.block := by
    have := hp.window
    rw [hi, hq.window] at this
    exact (Option.some.inj this).symm
  cases p; cases q
  simp_all

variable (hd : DisjointBuses (palPcieCreateInfoTable mcfg))
  (hz : ∀ block ∈ palPcieCreateInfoTable mcfg, block.ecamBase ≠ 0)
  (hf : ∀ p : Position, p.In (palPcieCreateInfoTable mcfg) → p.Answers hw s →
    ∃ l, p.Capabilities hw s l)

include hd hz hf

theorem probe_reaches (unset : Unset) (hp : p.In (palPcieCreateInfoTable mcfg))
    (hq : q.In (palPcieCreateInfoTable mcfg)) (hr : p.Reaches q) :
    ∃ r, probe hw (palPcieCreateInfoTable mcfg) s unset p.bdf = some r ∧ r ≠ .noMapping ∧
      (r = .absent ↔ ¬q.Answers hw s) ∧ (r = .listed ↔ q.Listable hw s) :=
  probe_spec (hr.read_eq hd hz hp hq) (hf q hq)

theorem probe_total (unset : Unset) (hp : p.In (palPcieCreateInfoTable mcfg)) :
    ∃ r, probe hw (palPcieCreateInfoTable mcfg) s unset p.bdf = some r := by
  cases reaches_or_none hw s hp
  case inl h =>
    have ⟨q, hq, hr⟩ := h
    have ⟨r, h, _⟩ := probe_reaches hd hz hf unset hp hq hr
    exact ⟨r, h⟩
  case inr h => exact ⟨.noMapping, by simp [probe, h]⟩

theorem scan_positions_total (unset : Unset) :
    ∃ r, scan (ecamLoop hw (palPcieCreateInfoTable mcfg) s unset) (palPcieCreateInfoTable mcfg) [] =
      some r := by
  refine scan_total fun block hb _ => scan_total fun bus hbus _ => scan_total fun dev hdev _ =>
    devLoop_total fun func hfunc => ?_
  have ⟨i, hi⟩ := List.mem_iff_getElem?.mp hb
  have ⟨h₁, h₂⟩ := mem_buses.mp hbus
  exact probe_total hd hz hf unset (p := ⟨i, block, bus, dev, func⟩)
    ⟨hi, h₁, h₂, List.mem_range.mp hdev, hfunc⟩

omit hd hz hf in
-- If the scan was not given up, then every function number leads somewhere.
theorem reaches_of_scan {unset : Unset} {found : List Nat}
    (h : scan (ecamLoop hw (palPcieCreateInfoTable mcfg) s unset) (palPcieCreateInfoTable mcfg) [] =
      some (true, found)) (hp : p.In (palPcieCreateInfoTable mcfg)) :
    ∃ q : Position, q.In (palPcieCreateInfoTable mcfg) ∧ p.Reaches q := by
  have ⟨_, _, h₁⟩ := scan_true h p.block hp.mem
  have ⟨_, _, h₂⟩ := scan_true h₁ p.bus (mem_buses.mpr ⟨hp.start, hp.last⟩)
  have ⟨_, _, h₃⟩ := scan_true h₂ p.dev (List.mem_range.mpr hp.dev)
  cases reaches_or_none hw s hp.func0
  case inl h =>
    have ⟨q, hq, hr⟩ := h
    exact ⟨{ q with func := p.func }, ⟨hq.window, hq.start, hq.last, hq.dev, hp.func⟩,
      ⟨hr.segment, hr.bus, hr.dev, rfl⟩⟩
  case inr h =>
    have hn : probe hw (palPcieCreateInfoTable mcfg) s unset p.func0.bdf = some .noMapping := by
      simp [probe, h]
    exact absurd hn (devLoop_true h₃)

-- Whether the scan takes the function number of a position.
def taken (hw : Mmio S) (s : S) (table : PcieInfoTable) (unset : Unset) (p : Position) : Bool :=
  decide (probe hw table s unset p.func0.bdf ≠ some .absent) &&
    decide (probe hw table s unset p.bdf = some .listed)

omit hd hz hf in
-- The entries window by window are those of all positions.
theorem entries_eq (table : PcieInfoTable) (unset : Unset) :
    ((positions table).filter (taken hw s table unset)).map bdf =
      table.flatMap fun block => block.buses.flatMap fun bus => (List.range pcieMaxDev).flatMap
        (deviceEntries hw table s unset block.segmentNum bus) := by
  simp only [positions, List.filter_flatMap, List.map_flatMap, List.filter_map, List.map_map]
  have hz {g : PcieInfoBlock → List Nat} : table.zipIdx.flatMap (fun x => g x.1) = table.flatMap g := by
    conv_rhs => rw [←List.zipIdx_map_fst 0 table, List.flatMap_map]
  rw [←hz]
  rfl

theorem scan_positions_eq (unset : Unset)
    (hm : ∀ p : Position, p.In (palPcieCreateInfoTable mcfg) →
      ∃ q : Position, q.In (palPcieCreateInfoTable mcfg) ∧ p.Reaches q) :
    scan (ecamLoop hw (palPcieCreateInfoTable mcfg) s unset) (palPcieCreateInfoTable mcfg) [] =
      some (true, ((positions (palPcieCreateInfoTable mcfg)).filter
        (taken hw s (palPcieCreateInfoTable mcfg) unset)).map bdf) := by
  have hp (block : PcieInfoBlock) (hb : block ∈ palPcieCreateInfoTable mcfg) (bus : Nat)
      (hbus : bus ∈ block.buses) (dev : Nat) (hdev : dev ∈ List.range pcieMaxDev) :
      ∀ func < pcieMaxFunc, ∃ r, probe hw (palPcieCreateInfoTable mcfg) s unset
        (pcieCreateBdf block.segmentNum bus dev func) = some r ∧ r ≠ .noMapping := by
    intro func hfunc
    have ⟨i, hi⟩ := List.mem_iff_getElem?.mp hb
    have ⟨h₁, h₂⟩ := mem_buses.mp hbus
    have hp : Position.In (palPcieCreateInfoTable mcfg) ⟨i, block, bus, dev, func⟩ :=
      ⟨hi, h₁, h₂, List.mem_range.mp hdev, hfunc⟩
    have ⟨q, hq, hr⟩ := hm _ hp
    have ⟨r, h, hn, _⟩ := probe_reaches hd hz hf unset hp hq hr
    exact ⟨r, h, hn⟩
  have hbus (block : PcieInfoBlock) (hb : block ∈ palPcieCreateInfoTable mcfg) (bus : Nat)
      (hbus : bus ∈ block.buses) (found : List Nat) :
      busLoop hw (palPcieCreateInfoTable mcfg) s unset block.segmentNum bus found =
        some (true, found ++ (List.range pcieMaxDev).flatMap
          (deviceEntries hw (palPcieCreateInfoTable mcfg) s unset block.segmentNum bus)) :=
    scan_eq fun dev hdev found => devLoop_eq (hp block hb bus hbus dev hdev)
  have hecam (block : PcieInfoBlock) (hb : block ∈ palPcieCreateInfoTable mcfg) (found : List Nat) :
      ecamLoop hw (palPcieCreateInfoTable mcfg) s unset block found =
        some (true, found ++ block.buses.flatMap fun bus => (List.range pcieMaxDev).flatMap
          (deviceEntries hw (palPcieCreateInfoTable mcfg) s unset block.segmentNum bus)) :=
    scan_eq fun bus hb' found => hbus block hb bus hb' found
  rw [scan_eq hecam, List.nil_append, entries_eq]

-- What the scan takes at a position is what the position that the function number leads to shows.
theorem taken_iff (unset : Unset) (hp : p.In (palPcieCreateInfoTable mcfg))
    (hq : q.In (palPcieCreateInfoTable mcfg)) (hr : p.Reaches q) :
    taken hw s (palPcieCreateInfoTable mcfg) unset p = true ↔
      q.func0.Answers hw s ∧ q.Listable hw s := by
  have ⟨r, h, _, _, hl⟩ := probe_reaches hd hz hf unset hp hq hr
  have ⟨r₀, h₀, _, ha, _⟩ := probe_reaches hd hz hf unset hp.func0 hq.func0 hr.func0
  simp only [taken, h, h₀, ne_eq, Option.some.injEq, ha, hl, not_not, Bool.and_eq_true, decide_eq_true_eq]

omit hd hz hf in
theorem bdf_eq_iff (hp : p.In (palPcieCreateInfoTable mcfg)) (hq : q.In (palPcieCreateInfoTable mcfg)) :
    p.bdf = q.bdf ↔ p.block.segmentNum % 256 = q.block.segmentNum % 256 ∧ p.bus = q.bus ∧
      p.dev = q.dev ∧ p.func = q.func := by
  constructor
  · intro he
    have ⟨h₁, h₂, h₃, h₄⟩ := hp.extract_bdf
    have ⟨h₅, h₆, h₇, h₈⟩ := hq.extract_bdf
    rw [he] at h₁ h₂ h₃ h₄
    exact ⟨by omega, by omega, by omega, by omega⟩
  · intro ⟨h₁, h₂, h₃, h₄⟩
    rw [bdf, bdf, pcieCreateBdf_eq hp.bus_lt hp.dev hp.func, pcieCreateBdf_eq hq.bus_lt hq.dev hq.func,
      h₁, h₂, h₃, h₄]

omit hd hz hf in
theorem expected_iff : q.Expected hw s ↔
    (q.func0.Answers hw s ∧ q.Listable hw s) ∧ q.HasPciecs hw s := by
  constructor
  · intro ⟨h₁, h₂, h₃, h₄⟩
    exact ⟨⟨h₂, h₁, h₃, .inr h₄⟩, h₄⟩
  · intro ⟨⟨h₂, h₁, h₃, _⟩, h₄⟩
    exact ⟨h₁, h₂, h₃, h₄⟩

omit hd hz hf in
-- The scan sees nothing of a position but its function number.
theorem taken_congr {unset : Unset} (hp : p.In (palPcieCreateInfoTable mcfg))
    (hq : q.In (palPcieCreateInfoTable mcfg)) (he : p.bdf = q.bdf) :
    taken hw s (palPcieCreateInfoTable mcfg) unset p = taken hw s (palPcieCreateInfoTable mcfg) unset q := by
  have ⟨h₁, h₂, h₃, _⟩ := (bdf_eq_iff hp hq).mp he
  have h₀ : p.func0.bdf = q.func0.bdf := (bdf_eq_iff hp.func0 hq.func0).mpr ⟨h₁, h₂, h₃, rfl⟩
  simp only [taken, he, h₀]

omit hd hz hf in
theorem Position.Reaches.bdf_eq (hr : p.Reaches q) (hp : p.In (palPcieCreateInfoTable mcfg))
    (hq : q.In (palPcieCreateInfoTable mcfg)) : p.bdf = q.bdf :=
  (bdf_eq_iff hp hq).mpr ⟨by have := hr.segment; omega, hr.bus.symm, hr.dev.symm, hr.func.symm⟩

omit hd hz hf in
-- In an exact table the scan takes what is expected, and it takes no function number twice.
theorem taken_iff_expected_of_exact {unset : Unset}
    (h : ExactEntries hw s (palPcieCreateInfoTable mcfg) (((positions (palPcieCreateInfoTable mcfg)).filter
      (taken hw s (palPcieCreateInfoTable mcfg) unset)).map bdf)) :
    (∀ p : Position, p.In (palPcieCreateInfoTable mcfg) →
      (taken hw s (palPcieCreateInfoTable mcfg) unset p = true ↔ p.Expected hw s)) ∧
    ∀ p q : Position, p.In (palPcieCreateInfoTable mcfg) → q.In (palPcieCreateInfoTable mcfg) →
      taken hw s (palPcieCreateInfoTable mcfg) unset p = true → p.bdf = q.bdf → p = q := by
  have ⟨l, _, hl, he, hn⟩ := h
  have hinj (p q : Position) (hp : p.In (palPcieCreateInfoTable mcfg))
      (hq : q.In (palPcieCreateInfoTable mcfg))
      (ht : taken hw s (palPcieCreateInfoTable mcfg) unset p = true) (hb : p.bdf = q.bdf) : p = q := by
    have ht' := taken_congr hp hq hb ▸ ht
    exact List.inj_on_of_nodup_map hn (List.mem_filter.mpr ⟨mem_positions.mpr hp, ht⟩)
      (List.mem_filter.mpr ⟨mem_positions.mpr hq, ht'⟩) hb
  refine ⟨fun p hp => ⟨fun ht => ?_, fun hx => ?_⟩, hinj⟩
  · have hm : p.bdf ∈ l.map bdf :=
      he ▸ List.mem_map_of_mem (List.mem_filter.mpr ⟨mem_positions.mpr hp, ht⟩)
    have ⟨q, hq, hb⟩ := List.mem_map.mp hm
    have ⟨hq, hx⟩ := (hl q).mp hq
    exact hinj p q hp hq ht hb.symm ▸ hx
  · have hm := List.mem_map_of_mem (f := bdf) ((hl p).mpr ⟨hp, hx⟩)
    rw [←he] at hm
    have ⟨q, hq, hb⟩ := List.mem_map.mp hm
    have ⟨hq, ht⟩ := List.mem_filter.mp hq
    exact taken_congr (mem_positions.mp hq) hp hb ▸ ht

theorem fit_of_exact {unset : Unset}
    (hm : ∀ p : Position, p.In (palPcieCreateInfoTable mcfg) →
      ∃ q : Position, q.In (palPcieCreateInfoTable mcfg) ∧ p.Reaches q)
    (h : ExactEntries hw s (palPcieCreateInfoTable mcfg) (((positions (palPcieCreateInfoTable mcfg)).filter
      (taken hw s (palPcieCreateInfoTable mcfg) unset)).map bdf)) :
    Fit hw s (palPcieCreateInfoTable mcfg) := by
  have ⟨ht, hinj⟩ := taken_iff_expected_of_exact h
  constructor
  case pointer =>
    intro p hp hs ha ha₀ hb hc
    have := (taken_iff hd hz hf unset hp hp (reaches_self hs)).mpr ⟨ha₀, ha, hb, .inl hc⟩
    exact (expected_iff.mp ((ht p hp).mp this)).right
  case segment =>
    intro p hp hs
    have hnot : taken hw s (palPcieCreateInfoTable mcfg) unset p ≠ true := by
      intro h
      have ⟨q, hq, hr⟩ := hm p hp
      have he := hinj p q hp hq h (hr.bdf_eq hp hq)
      have := hr.segment
      rw [←he] at this
      omega
    refine ⟨fun hx => hnot ((ht p hp).mpr hx), fun q hq hr hx => hnot ?_⟩
    rw [taken_congr hp hq (hr.bdf_eq hp hq)]
    exact (ht q hq).mpr hx

theorem exact_of_fit {unset : Unset}
    (hm : ∀ p : Position, p.In (palPcieCreateInfoTable mcfg) →
      ∃ q : Position, q.In (palPcieCreateInfoTable mcfg) ∧ p.Reaches q)
    (h : Fit hw s (palPcieCreateInfoTable mcfg)) :
    ExactEntries hw s (palPcieCreateInfoTable mcfg) (((positions (palPcieCreateInfoTable mcfg)).filter
      (taken hw s (palPcieCreateInfoTable mcfg) unset)).map bdf) := by
  have hlow (p : Position) (hp : p.In (palPcieCreateInfoTable mcfg)) (hs : p.block.segmentNum < 256) :
      taken hw s (palPcieCreateInfoTable mcfg) unset p = true ↔ p.Expected hw s := by
    rw [taken_iff hd hz hf unset hp hp (reaches_self hs), expected_iff]
    refine ⟨fun ht => ⟨ht, ?_⟩, And.left⟩
    obtain ⟨ha₀, ha, hb, hc⟩ := ht
    exact hc.elim (h.pointer p hp hs ha ha₀ hb) id
  have ht (p : Position) (hp : p.In (palPcieCreateInfoTable mcfg)) :
      taken hw s (palPcieCreateInfoTable mcfg) unset p = true ↔ p.Expected hw s := by
    by_cases hs : p.block.segmentNum < 256
    case pos => exact hlow p hp hs
    case neg =>
      obtain ⟨hx, hx'⟩ := h.segment p hp (by omega)
      obtain ⟨q, hq, hr⟩ := hm p hp
      rw [taken_congr hp hq (hr.bdf_eq hp hq), hlow q hq (by have := hr.segment; omega)]
      simp [hx, hx' q hq hr]
  have hsort := (positions_sorted (palPcieCreateInfoTable mcfg)).filter
    (taken hw s (palPcieCreateInfoTable mcfg) unset)
  refine ⟨_, hsort, fun p => ?_, rfl, ?_⟩
  · rw [List.mem_filter, mem_positions]
    exact and_congr_right fun hp => ht p hp
  · refine List.Nodup.map_on ?_ (hsort.imp fun hlt he => by simp [Lt, he] at hlt)
    intro p hp q hq he
    obtain ⟨hp, hxp⟩ := List.mem_filter.mp hp
    obtain ⟨hq, hxq⟩ := List.mem_filter.mp hq
    rw [mem_positions] at hp hq
    obtain ⟨h₁, h₂, h₃, h₄⟩ := (bdf_eq_iff hp hq).mp he
    have hps : p.block.segmentNum < 256 := by
      by_contra hc
      exact (h.segment p hp (by omega)).left ((ht p hp).mp hxp)
    have hqs : q.block.segmentNum < 256 := by
      by_contra hc
      exact (h.segment q hq (by omega)).left ((ht q hq).mp hxq)
    exact position_unique hd hp hq (by omega) h₂ h₃ h₄

-- The type of a function in the table can be told.
theorem devicePortType_total {unset : Unset} (hm : ∀ p : Position, p.In (palPcieCreateInfoTable mcfg) →
      ∃ q : Position, q.In (palPcieCreateInfoTable mcfg) ∧ p.Reaches q) {found : List Nat}
    (he : found = ((positions (palPcieCreateInfoTable mcfg)).filter
      (taken hw s (palPcieCreateInfoTable mcfg) unset)).map bdf) :
    ∀ device ∈ found.map ({ bdf := ·, rpBdf := none }),
      ∃ t, valPcieDevicePortType hw (palPcieCreateInfoTable mcfg) s unset (PcieDeviceAttr.bdf device) = some t := by
  intro device hd'
  have ⟨n, hn, hdev⟩ := List.mem_map.mp hd'
  have ⟨p, hp, hb⟩ := List.mem_map.mp (he ▸ hn)
  have ⟨hp, ht⟩ := List.mem_filter.mp hp
  rw [mem_positions] at hp
  have ⟨q, hq, hr⟩ := hm p hp
  have ⟨l, hl⟩ := hf q hq ((taken_iff hd hz hf unset hp hq hr).mp ht).right.left
  have hfind := findCapability_eq (hr.read_eq hd hz hp hq) hl
  have : ∃ r, valPcieFindCapability hw (palPcieCreateInfoTable mcfg) s p.bdf .pcieCap cidPciecs = some r := by
    rw [hfind]
    split
    case isTrue => exact ⟨_, rfl⟩
    case isFalse =>
      split
      case h_1 => exact ⟨_, rfl⟩
      case h_2 => exact ⟨_, rfl⟩
  have ⟨r, hfind⟩ := this
  simp only [←hdev, ←hb, valPcieDevicePortType, pciecsBase, hfind, Option.map_some]
  exact ⟨_, rfl⟩

-- The call returns. A table that it has built holds exactly the expected functions if and only if the
-- config space is fit for the scan.
theorem bdf_table_exact_iff (unset : Unset) :
    (∃ status devices, valPcieCreateDeviceBdfTable hw (palPcieCreateInfoTable mcfg) s unset none =
      some (status, devices)) ∧
    ∀ devices, valPcieCreateDeviceBdfTable hw (palPcieCreateInfoTable mcfg) s unset none =
        some (pcieSuccess, devices) →
      (ExactEntries hw s (palPcieCreateInfoTable mcfg) (devices.map (·.bdf)) ↔
        Fit hw s (palPcieCreateInfoTable mcfg)) := by
  have ⟨(goOn, found), hscan⟩ := scan_positions_total hd hz hf unset
  by_cases hl : (palPcieCreateInfoTable mcfg).length = 0
  case pos => simp [valPcieCreateDeviceBdfTable, hl, pcieSuccess]
  case neg =>
  cases goOn
  case false => simp [valPcieCreateDeviceBdfTable, hl, hscan, pcieSuccess]
  case true =>
    have hm := fun p hp => reaches_of_scan (p := p) hscan hp
    have he : found = ((positions (palPcieCreateInfoTable mcfg)).filter
        (taken hw s (palPcieCreateInfoTable mcfg) unset)).map bdf := by
      rw [scan_positions_eq hd hz hf unset hm] at hscan
      simp only [Option.some.injEq, Prod.mk.injEq, true_and] at hscan
      exact hscan.symm
    have ht := devicePortType_total hd hz hf hm he
    have ⟨(status, devices), hpop⟩ := populateLoop_total ht ht
    simp only [valPcieCreateDeviceBdfTable, hl, if_false, hscan, valPciePopulateDeviceRootport, hpop]
    by_cases h0 : status = 0
    case neg => simp [h0, pcieSuccess]
    case pos =>
      have hbdf : devices.map (·.bdf) = found := by
        rw [populateLoop_bdf hpop, List.map_map]
        exact List.map_id'' (fun _ => rfl) found
      simp only [h0, ne_eq, not_true_eq_false, if_false]
      refine ⟨⟨0, devices, rfl⟩, fun devices' h => ?_⟩
      simp only [Option.some.injEq, Prod.mk.injEq] at h
      rw [←h.right, hbdf, he]
      exact ⟨fit_of_exact hd hz hf hm, exact_of_fit hd hz hf hm⟩

end Exact

-- One bus in a window at 1 GB, where only function 0 of device 0 answers.
def busZero : List McfgEntry :=
  [{ baseAddress := 0x40000000, pciSegmentGroupNumber := 0, startBusNumber := 0, endBusNumber := 0 }]

def words (rom : Nat → BitVec 32) : Mmio Unit where
  read _ addr := rom addr
  write s _ _ := s

-- A root port.
def rootPortRom : Nat → BitVec 32
  | 0x40000000 => 0x000C1B36
  | 0x40000008 => 0x06040000
  | 0x40000018 => 0x00010100
  | 0x40000034 => 0x00000040
  | 0x40000040 => 0x00400010
  | _          => 0xFFFFFFFF

-- Two buses in the window.
def busPair : List McfgEntry :=
  [{ baseAddress := 0x40000000, pciSegmentGroupNumber := 0, startBusNumber := 0, endBusNumber := 1 }]

-- The root port, and behind it a conventional device whose capabilities pointer reads as all ones.
def legacyRom : Nat → BitVec 32
  | 0x40100000 => 0x10411AF4
  | 0x40100008 => 0x02000000
  | 0x401000FC => 0x00000000
  | addr       => rootPortRom addr

def noUnset : Unset where
  regValue   := 0
  pciecsBase := fun _ => 0

theorem busZero_disjoint : DisjointBuses (palPcieCreateInfoTable busZero) ∧
    ∀ block ∈ palPcieCreateInfoTable busZero, block.ecamBase ≠ 0 :=
  ⟨List.pairwise_singleton .., by decide⟩

def busZeroFirst : Position where
  ecam  := 0
  block := { ecamBase := 0x40000000, segmentNum := 0, startBusNum := 0, endBusNum := 0 }
  bus   := 0
  dev   := 0
  func  := 0

theorem rootPortRom_answers : ∀ p ∈ positions (palPcieCreateInfoTable busZero),
    p.word (words rootPortRom) () type01Vidr ≠ pcieUnknownResponse → p = busZeroFirst := by
  decide +kernel

theorem root_port_listed :
    ∃ devices, valPcieCreateDeviceBdfTable (words rootPortRom) (palPcieCreateInfoTable busZero) ()
        noUnset none = some (pcieSuccess, devices) ∧
      ExactEntries (words rootPortRom) () (palPcieCreateInfoTable busZero) (devices.map (·.bdf)) := by
  have ⟨hd, hz⟩ := busZero_disjoint
  have hrun : valPcieCreateDeviceBdfTable (words rootPortRom) (palPcieCreateInfoTable busZero) () noUnset none =
      some (pcieSuccess, [{ bdf := 0, rpBdf := some 0 }]) := by decide +kernel
  refine ⟨_, hrun, ((bdf_table_exact_iff hd hz ?_ noUnset).right _ hrun).mpr ⟨?_, ?_⟩⟩
  · intro p hp ha
    rw [rootPortRom_answers p (mem_positions.mpr hp) ha]
    exact ⟨[0x40], .cons (by decide) (.nil)⟩
  · intro p hp _ ha _ _ hc
    rw [rootPortRom_answers p (mem_positions.mpr hp) ha] at hc
    exact absurd hc (by decide)
  · intro p hp hs
    have : ∀ p ∈ positions (palPcieCreateInfoTable busZero), p.block.segmentNum = 0 := by decide +kernel
    have := this p (mem_positions.mpr hp)
    omega

theorem busPair_disjoint : DisjointBuses (palPcieCreateInfoTable busPair) ∧
    ∀ block ∈ palPcieCreateInfoTable busPair, block.ecamBase ≠ 0 :=
  ⟨List.pairwise_singleton .., by decide⟩

def busPairPosition (bus : Nat) : Position where
  ecam  := 0
  block := { ecamBase := 0x40000000, segmentNum := 0, startBusNum := 0, endBusNum := 1 }
  bus   := bus
  dev   := 0
  func  := 0

theorem legacyRom_answers : ∀ p ∈ positions (palPcieCreateInfoTable busPair),
    p.word (words legacyRom) () type01Vidr ≠ pcieUnknownResponse → p = busPairPosition 0 ∨ p = busPairPosition 1 := by
  decide +kernel

theorem legacyRom_lists :
    (busPairPosition 0).Capabilities (words legacyRom) () [0x40] ∧
      (busPairPosition 1).Capabilities (words legacyRom) () [0xFF] :=
  ⟨.cons (by decide) .nil, .cons (by decide) .nil⟩

theorem legacyRom_finite : ∀ p : Position, p.In (palPcieCreateInfoTable busPair) → p.Answers (words legacyRom) () →
    ∃ l, p.Capabilities (words legacyRom) () l := by
  intro p hp ha
  cases legacyRom_answers p (mem_positions.mpr hp) ha
  case inl h => exact h ▸ ⟨_, legacyRom_lists.left⟩
  case inr h => exact h ▸ ⟨_, legacyRom_lists.right⟩

theorem legacyRom_reaches {p : Position} (hp : p.In (palPcieCreateInfoTable busPair)) : p.Reaches p := by
  have h : ∀ p ∈ positions (palPcieCreateInfoTable busPair), p.block.segmentNum < 256 := by decide +kernel
  exact reaches_self (h p (mem_positions.mpr hp))

-- The unset locals make no difference to the scan.
theorem legacyRom_scan (unset : Unset) :
    scan (ecamLoop (words legacyRom) (palPcieCreateInfoTable busPair) () unset) (palPcieCreateInfoTable busPair) [] =
      some (true, [0, 0x10000]) := by
  have ⟨hd, hz⟩ := busPair_disjoint
  have hm (p : Position) (hp : p.In (palPcieCreateInfoTable busPair)) :
      ∃ q : Position, q.In (palPcieCreateInfoTable busPair) ∧ p.Reaches q := ⟨p, hp, legacyRom_reaches hp⟩
  have hf := legacyRom_finite
  have htaken : ∀ p ∈ positions (palPcieCreateInfoTable busPair),
      taken (words legacyRom) () (palPcieCreateInfoTable busPair) unset p =
        taken (words legacyRom) () (palPcieCreateInfoTable busPair) noUnset p := by
    intro p hp
    have hp := mem_positions.mp hp
    rw [Bool.eq_iff_iff, taken_iff hd hz hf unset hp hp (legacyRom_reaches hp),
      taken_iff hd hz hf noUnset hp hp (legacyRom_reaches hp)]
  have hrun : scan (ecamLoop (words legacyRom) (palPcieCreateInfoTable busPair) () noUnset)
      (palPcieCreateInfoTable busPair) [] = some (true, [0, 0x10000]) := by decide +kernel
  rw [scan_positions_eq hd hz hf unset hm, List.filter_congr htaken, ←scan_positions_eq hd hz hf noUnset hm, hrun]

-- The conventional device has a root port above it, whatever type it is taken for.
theorem legacyRom_populate (unset : Unset) :
    ∃ rpBdf, valPciePopulateDeviceRootport (words legacyRom) (palPcieCreateInfoTable busPair) () unset
        [⟨0, none⟩, ⟨0x10000, none⟩] = some (0, [⟨0, some 0⟩, ⟨0x10000, some rpBdf⟩]) := by
  have hport : valPcieDevicePortType (words legacyRom) (palPcieCreateInfoTable busPair) () unset 0 = some rp := by
    have hbase : pciecsBase (words legacyRom) (palPcieCreateInfoTable busPair) () (unset.pciecsBase 0) 0 =
        some 0x40 := by
      have hfind : valPcieFindCapability (words legacyRom) (palPcieCreateInfoTable busPair) () 0 .pcieCap cidPciecs =
          some (pcieSuccess, some 0x40) := by decide +kernel
      rw [pciecsBase, hfind]
      rfl
    rw [valPcieDevicePortType, hbase]
    decide +kernel
  obtain ⟨type, htype⟩ : ∃ type,
      valPcieDevicePortType (words legacyRom) (palPcieCreateInfoTable busPair) () unset 0x10000 = some type := by
    have hfind : valPcieFindCapability (words legacyRom) (palPcieCreateInfoTable busPair) () 0x10000 .pcieCap cidPciecs =
        some (pcieSuccess, none) := by decide +kernel
    rw [valPcieDevicePortType, pciecsBase, hfind]
    exact ⟨_, rfl⟩
  have hbuses : valPcieReadCfg (words legacyRom) (palPcieCreateInfoTable busPair) () 0 type1Pbn = some 0x00010100 := by
    decide +kernel
  have hloop : rootportLoop (words legacyRom) (palPcieCreateInfoTable busPair) () unset 1
      [⟨0, none⟩, ⟨0x10000, none⟩] = some (0, 0) := by
    simp only [rootportLoop, hport, hbuses, Option.getD_some]
    rw [if_pos (by decide)]
  have hbus : pcieExtractBdfBus 0x10000 = 1 := by decide
  have hfirst : valPcieGetRootport (words legacyRom) (palPcieCreateInfoTable busPair) () unset
      [⟨0, none⟩, ⟨0x10000, none⟩] 0 = some (0, 0) := by
    simp only [valPcieGetRootport, hport, if_true]
  obtain ⟨status, rpBdf, hsecond, hgo⟩ : ∃ status rpBdf,
      valPcieGetRootport (words legacyRom) (palPcieCreateInfoTable busPair) () unset
        [⟨0, none⟩, ⟨0x10000, none⟩] 0x10000 = some (status, rpBdf) ∧ ¬(status ≠ 0 ∧ rpBdf = 0) := by
    simp only [valPcieGetRootport, htype, hbus, hloop]
    by_cases h₁ : type = rp
    case pos => exact ⟨0, 0x10000, if_pos h₁, by decide⟩
    case neg =>
      rw [if_neg h₁]
      by_cases h₂ : type = rciep ∨ type = rcec
      case pos => exact ⟨1, 0xFFFFFFFF, if_pos h₂, by decide⟩
      case neg => exact ⟨0, 0, if_neg h₂, by decide⟩
  refine ⟨rpBdf, ?_⟩
  simp only [valPciePopulateDeviceRootport, populateLoop, hfirst, hsecond, if_neg hgo, ne_eq, not_true_eq_false,
    false_and, if_false, Option.map_some]

-- The conventional device is listed as if it had the capability, whatever the unset locals hold.
theorem legacy_listed :
    DisjointBuses (palPcieCreateInfoTable busPair) ∧
    (∀ block ∈ palPcieCreateInfoTable busPair, block.ecamBase ≠ 0) ∧
    (∀ p : Position, p.In (palPcieCreateInfoTable busPair) → p.Answers (words legacyRom) () →
      ∃ l, p.Capabilities (words legacyRom) () l) ∧
    ∀ unset : Unset, ∃ devices,
      valPcieCreateDeviceBdfTable (words legacyRom) (palPcieCreateInfoTable busPair) () unset none =
        some (pcieSuccess, devices) ∧
      ¬ExactEntries (words legacyRom) () (palPcieCreateInfoTable busPair) (devices.map (·.bdf)) := by
  have ⟨hd, hz⟩ := busPair_disjoint
  refine ⟨hd, hz, legacyRom_finite, fun unset => ?_⟩
  obtain ⟨rpBdf, hpop⟩ := legacyRom_populate unset
  refine ⟨[⟨0, some 0⟩, ⟨0x10000, some rpBdf⟩], ?_, ?_⟩
  · have hlen : (palPcieCreateInfoTable busPair).length ≠ 0 := by decide
    simp only [valPcieCreateDeviceBdfTable, if_neg hlen, legacyRom_scan, List.map_cons, List.map_nil, hpop, ne_eq,
      not_true_eq_false, if_false, pcieSuccess]
  · rintro ⟨l, _, hm, he, _⟩
    have hmem : (0x10000 : Nat) ∈ l.map bdf := he ▸ by simp
    obtain ⟨p, hp, hb⟩ := List.mem_map.mp hmem
    obtain ⟨hin, hx⟩ := (hm p).mp hp
    have hlast : p = busPairPosition 1 := by
      cases legacyRom_answers p (mem_positions.mpr hin) hx.left
      case inl h => exact absurd (h ▸ hb) (by decide)
      case inr h => exact h
    have hnone : [0xFF].find? (isCap ((busPairPosition 1).word (words legacyRom) ()) cidPciecs) = none := by decide
    obtain ⟨o, ho⟩ := (hasPciecs_iff legacyRom_lists.right).mp (hlast ▸ hx.right.right.right)
    simp [hnone] at ho

end Pcie
