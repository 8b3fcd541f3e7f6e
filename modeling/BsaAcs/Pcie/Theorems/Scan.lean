import BsaAcs.Pcie.Scan
import BsaAcs.Pcie.Theorems.DeviceTable
import Mathlib.Data.List.TakeWhile

namespace Pcie

section Passes

variable {S : Type} (hw : Mmio S) (table : PcieInfoTable) (s : S) (unset : Unset)

-- A function that is looked at, and where the scan does not go on: its number has no mapping, or the
-- search for its capability does not end.
def stops (p : Position) : Bool :=
  (decide (p.func = 0) || decide (probe hw table s unset p.func0.bdf ≠ some .absent)) &&
    (decide (probe hw table s unset p.bdf = none) || decide (probe hw table s unset p.bdf = some .noMapping))

-- Of the functions before that, those that are listed.
def listed (l : List Position) : List Position :=
  (l.takeWhile fun p => !stops hw table s unset p).filter (taken hw s table unset)

-- A part of the scan that goes through the positions of `l`.
structure Passes (result : Option Bool × List Nat) (found : List Nat) (l : List Position) : Prop where
  found : result.2 = found ++ (listed hw table s unset l).map Position.bdf
  goOn  : result.1 = some true ↔ ∀ p ∈ l, stops hw table s unset p = false

end Passes

section Scan

variable {S : Type} {hw : Mmio S} {table : PcieInfoTable} {s : S} {unset : Unset} {found : List Nat}

theorem listed_append_of_goOn {l l' : List Position} (h : ∀ p ∈ l, stops hw table s unset p = false) :
    listed hw table s unset (l ++ l') = listed hw table s unset l ++ listed hw table s unset l' := by
  have ht : l.takeWhile (fun p => !stops hw table s unset p) = l :=
    List.takeWhile_eq_self_iff.mpr fun p hp => by simp [h p hp]
  rw [listed, List.takeWhile_append, if_pos (by rw [ht]), List.filter_append, listed, ht, listed]

theorem listed_append_of_stops {l l' : List Position} (h : ¬∀ p ∈ l, stops hw table s unset p = false) :
    listed hw table s unset (l ++ l') = listed hw table s unset l := by
  have ht : ¬(l.takeWhile (fun p => !stops hw table s unset p)).length = l.length := by
    intro he
    have := List.takeWhile_eq_self_iff.mp ((List.takeWhile_prefix _).eq_of_length he)
    exact h fun p hp => by simpa using this p hp
  rw [listed, List.takeWhile_append, if_neg ht, listed]

section Cons

variable {ι : Type} {body : ι → List Nat → Option Bool × List Nat} {i : ι} {is : List ι} {found' : List Nat}

theorem scanLog_cons_goOn (h : body i found = (some true, found')) :
    scanLog body (i :: is) found = scanLog body is found' := by
  rw [scanLog, h]

theorem scanLog_cons_stop {goOn : Option Bool} (h : body i found = (goOn, found')) (hg : goOn ≠ some true) :
    scanLog body (i :: is) found = (goOn, found') := by
  rw [scanLog, h]
  match goOn with
  | some true  => exact absurd rfl hg
  | some false => rfl
  | none       => rfl

end Cons

theorem scanLog_passes {ι : Type} {body : ι → List Nat → Option Bool × List Nat} {is : List ι}
    {l : ι → List Position} (h : ∀ i ∈ is, ∀ found, Passes hw table s unset (body i found) found (l i)) :
    Passes hw table s unset (scanLog body is found) found (is.flatMap l) := by
  induction is generalizing found
  case nil => exact ⟨by simp [scanLog, listed], by simp [scanLog]⟩
  case cons i is hi =>
    have hb := h i (by simp) found
    have hr := fun found => @hi found fun j hj => h j (by simp [hj])
    rw [List.flatMap_cons]
    cases hbody : body i found
    case mk goOn found' =>
      rw [hbody] at hb
      by_cases hg : goOn = some true
      case pos =>
        cases hg
        rw [scanLog_cons_goOn hbody]
        have hall := hb.goOn.mp rfl
        have hf : found' = _ := hb.found
        constructor
        case found =>
          rw [listed_append_of_goOn hall, List.map_append, ← List.append_assoc, ← hf]
          exact (hr found').found
        case goOn =>
          rw [(hr found').goOn]
          constructor
          · intro ha p hp
            cases List.mem_append.mp hp
            case inl hp => exact hall p hp
            case inr hp => exact ha p hp
          · intro ha p hp
            exact ha p (List.mem_append_right _ hp)
      case neg =>
        have hstop : ¬∀ p ∈ l i, stops hw table s unset p = false := fun ha => hg (hb.goOn.mpr ha)
        rw [scanLog_cons_stop hbody hg]
        constructor
        case found =>
          rw [listed_append_of_stops hstop]
          exact hb.found
        case goOn =>
          constructor
          · intro hc
            exact absurd hc hg
          · intro ha
            exact absurd (fun p hp => ha p (List.mem_append_left _ hp)) hstop

-- The functions of a device from the second one on, where the first one answers.
theorem funcLoopLog_passes {ecam bus dev : Nat} {block : PcieInfoBlock} {funcs : List Nat}
    (h₀ : probe hw table s unset (pcieCreateBdf block.segmentNum bus dev 0) ≠ some .absent)
    (hf : ∀ func ∈ funcs, func ≠ 0) :
    Passes hw table s unset (funcLoopLog hw table s unset (pcieCreateBdf block.segmentNum bus dev) funcs found)
      found (funcs.map fun func => { ecam, block, bus, dev, func }) := by
  induction funcs generalizing found
  case nil => exact ⟨by simp [funcLoopLog, listed], by simp [funcLoopLog]⟩
  case cons func funcs hi =>
    have hne := hf func (by simp)
    have hr := fun found => @hi found fun f hm => hf f (by simp [hm])
    cases hp : probe hw table s unset (pcieCreateBdf block.segmentNum bus dev func)
    case none =>
      constructor <;> simp [funcLoopLog, hp, listed, stops, Position.func0, Position.bdf, h₀]
    case some r =>
      cases r
      case noMapping =>
        constructor <;> simp [funcLoopLog, hp, listed, stops, Position.func0, Position.bdf, h₀]
      case absent =>
        obtain ⟨h₁, h₂⟩ := hr found
        constructor
        · simpa [funcLoopLog, hp, hne, listed, stops, taken, Position.func0, Position.bdf, h₀] using h₁
        · simpa [funcLoopLog, hp, hne, listed, stops, Position.func0, Position.bdf, h₀] using h₂
      case skipped =>
        obtain ⟨h₁, h₂⟩ := hr found
        constructor
        · simpa [funcLoopLog, hp, listed, stops, taken, Position.func0, Position.bdf, h₀] using h₁
        · simpa [funcLoopLog, hp, listed, stops, Position.func0, Position.bdf, h₀] using h₂
      case listed =>
        obtain ⟨h₁, h₂⟩ := hr (found ++ [pcieCreateBdf block.segmentNum bus dev func])
        constructor
        · simpa [funcLoopLog, hp, listed, stops, taken, Position.func0, Position.bdf, h₀] using h₁
        · simpa [funcLoopLog, hp, listed, stops, Position.func0, Position.bdf, h₀] using h₂

theorem devLoopLog_passes {ecam bus dev : Nat} {block : PcieInfoBlock} :
    Passes hw table s unset (devLoopLog hw table s unset block.segmentNum bus dev found) found
      ((List.range pcieMaxFunc).map fun func => { ecam, block, bus, dev, func }) := by
  have hrange : List.range pcieMaxFunc = 0 :: List.range' 1 7 := rfl
  have hne : ∀ func ∈ List.range' 1 7, func ≠ 0 := by decide
  rw [devLoopLog, hrange]
  cases hp : probe hw table s unset (pcieCreateBdf block.segmentNum bus dev 0)
  case none => constructor <;> simp [funcLoopLog, hp, listed, stops, Position.bdf]
  case some r =>
    cases r
    case noMapping => constructor <;> simp [funcLoopLog, hp, listed, stops, Position.bdf]
    case absent =>
      -- The other functions are not looked at.
      have hstop : ∀ p ∈ (0 :: List.range' 1 7).map fun func => (⟨ecam, block, bus, dev, func⟩ : Position),
          stops hw table s unset p = false := by
        intro p hm
        obtain ⟨func, _, he⟩ := List.mem_map.mp hm
        by_cases h0 : func = 0
        case pos => simp [← he, h0, stops, Position.bdf, hp]
        case neg => simp [← he, h0, stops, Position.func0, Position.bdf, hp]
      have htaken : ∀ p ∈ (0 :: List.range' 1 7).map fun func => (⟨ecam, block, bus, dev, func⟩ : Position),
          taken hw s table unset p = false := by
        intro p hm
        obtain ⟨func, _, he⟩ := List.mem_map.mp hm
        simp [← he, taken, Position.func0, Position.bdf, hp]
      have hlisted : listed hw table s unset
          ((0 :: List.range' 1 7).map fun func => (⟨ecam, block, bus, dev, func⟩ : Position)) = [] := by
        rw [listed, List.filter_eq_nil_iff]
        intro p hm
        simp [htaken p ((List.takeWhile_subset _) hm)]
      constructor
      case found =>
        rw [hlisted]
        simp [funcLoopLog, hp]
      case goOn => simpa [funcLoopLog, hp] using hstop
    case skipped =>
      obtain ⟨h₁, h₂⟩ := @funcLoopLog_passes S hw table s unset found ecam bus dev block _ (by simp [hp]) hne
      constructor
      · simpa [funcLoopLog, hp, listed, stops, taken, Position.func0, Position.bdf] using h₁
      · simpa [funcLoopLog, hp, stops, Position.func0, Position.bdf] using h₂
    case listed =>
      obtain ⟨h₁, h₂⟩ := @funcLoopLog_passes S hw table s unset (found ++ [pcieCreateBdf block.segmentNum bus dev 0])
        ecam bus dev block _ (by simp [hp]) hne
      constructor
      · simpa [funcLoopLog, hp, listed, stops, taken, Position.func0, Position.bdf] using h₁
      · simpa [funcLoopLog, hp, stops, Position.func0, Position.bdf] using h₂

theorem scanLog_zipIdx {ι : Type} {body : ι → List Nat → Option Bool × List Nat} {is : List ι} {k : Nat} :
    scanLog (fun x => body x.1) (is.zipIdx k) found = scanLog body is found := by
  induction is generalizing found k
  case nil => rfl
  case cons i is hi =>
    rw [List.zipIdx_cons, scanLog, scanLog]
    cases body i found
    case mk goOn found' =>
      match goOn with
      | some true  => exact hi
      | some false => rfl
      | none       => rfl

-- The scan lists what is fit for it, function by function, up to the first place where it stops.
theorem scan_passes :
    Passes hw table s unset (scanLog (ecamLoopLog hw table s unset) table []) [] (positions table) := by
  rw [← @scanLog_zipIdx [] _ _ _ 0]
  exact scanLog_passes fun _ _ _ => scanLog_passes fun _ _ _ => scanLog_passes fun _ _ _ => devLoopLog_passes

theorem bdfEntries_eq : bdfEntries hw table s unset = (listed hw table s unset (positions table)).map Position.bdf := by
  rw [bdfEntries, scan_passes.found, List.nil_append]

end Scan

section Log

variable {S : Type} {hw : Mmio S} {table : PcieInfoTable} {s : S} {unset : Unset} {found : List Nat}

-- What is left of the log where only the result counts.
def result (r : Option Bool × List Nat) : Option (Bool × List Nat) :=
  r.1.map fun goOn => (goOn, r.2)

theorem funcLoop_eq_log {bdf : Nat → Nat} {funcs : List Nat} :
    funcLoop hw table s unset bdf funcs found = result (funcLoopLog hw table s unset bdf funcs found) := by
  induction funcs generalizing found
  case nil => rfl
  case cons func funcs hi =>
    rw [funcLoop, funcLoopLog]
    cases probe hw table s unset (bdf func)
    case none => rfl
    case some r =>
      cases r
      case noMapping => rfl
      case skipped   => exact hi
      case listed    => exact hi
      case absent =>
        by_cases h0 : func = 0
        case pos => simp only [h0, if_true]; rfl
        case neg => simpa only [h0, if_false] using hi

theorem scan_eq_log {ι : Type} {body : ι → List Nat → Option (Bool × List Nat)}
    {bodyLog : ι → List Nat → Option Bool × List Nat} {is : List ι}
    (h : ∀ i found, body i found = result (bodyLog i found)) : scan body is found = result (scanLog bodyLog is found) := by
  induction is generalizing found
  case nil => rfl
  case cons i is hi =>
    rw [scan, scanLog, h]
    cases bodyLog i found
    case mk goOn found' =>
      cases goOn
      case none      => rfl
      case some goOn =>
        cases goOn
        case true  => exact hi
        case false => rfl

theorem scan_table_eq_log : scan (ecamLoop hw table s unset) table [] =
    result (scanLog (ecamLoopLog hw table s unset) table []) :=
  scan_eq_log fun _ _ => scan_eq_log fun _ _ => scan_eq_log fun _ _ => funcLoop_eq_log

end Log

-- The table has room for the entries at every step: their number goes up one by one.
def TableFits {S : Type} (hw : Mmio S) (table : PcieInfoTable) (s : S) (unset : Unset) : Prop :=
  ∀ numEntries ≤ (bdfEntries hw table s unset).length, bdfTableSize numEntries ≤ pcieDeviceBdfTableSz

theorem table_fits_iff {S : Type} (hw : Mmio S) (table : PcieInfoTable) (s : S) (unset : Unset) :
    TableFits hw table s unset ↔ (listed hw table s unset (positions table)).length ≤ 1023 := by
  rw [TableFits, bdfEntries_eq, List.length_map]
  simp only [bdfTableSize, pcieDeviceBdfTableSz]
  constructor
  · intro h
    have := h _ le_rfl
    omega
  · intro h n hn
    omega

-- Four buses with a bridge at each function number, each with the PCI Express capability.
def crowdedBuses : PcieInfoTable :=
  [{ ecamBase := 0x40000000, segmentNum := 0, startBusNum := 0, endBusNum := 3 }]

def crowded : Mmio Unit where
  read _ addr :=
    match addr % 4096 with
    | 0x00 => 0x000C1B36
    | 0x08 => 0x06040000
    | 0x34 => 0x00000040
    | 0x40 => 0x00500010
    | _    => 0
  write s _ _ := s

theorem crowded_probe : ∀ bus < 4, ∀ dev < 32, ∀ func < 8,
    probe crowded crowdedBuses () noUnset (pcieCreateBdf 0 bus dev func) = some .listed := by
  decide +kernel

-- 1024 functions are one too many.
theorem table_overflows :
    ¬∀ (S : Type) (hw : Mmio S) (table : PcieInfoTable) (s : S) (unset : Unset), TableFits hw table s unset := by
  intro h
  have hf := h Unit crowded crowdedBuses () noUnset
  have hprobe : ∀ p ∈ positions crowdedBuses, probe crowded crowdedBuses () noUnset p.bdf = some .listed ∧
      probe crowded crowdedBuses () noUnset p.func0.bdf = some .listed := by
    intro p hp
    have hin := mem_positions.mp hp
    have hb : p.block = ⟨0x40000000, 0, 0, 3⟩ := by simpa [crowdedBuses] using hin.mem
    have hbus : p.bus < 4 := by
      have := hin.last
      simp only [hb] at this
      omega
    simp only [Position.bdf, Position.func0, hb]
    exact ⟨crowded_probe p.bus hbus p.dev hin.dev p.func hin.func, crowded_probe p.bus hbus p.dev hin.dev 0 (by decide)⟩
  have hall : listed crowded crowdedBuses () noUnset (positions crowdedBuses) = positions crowdedBuses := by
    have hstop : ∀ p ∈ positions crowdedBuses, (!stops crowded crowdedBuses () noUnset p) = true := by
      intro p hp
      simp [stops, (hprobe p hp).left]
    rw [listed, List.takeWhile_eq_self_iff.mpr hstop, List.filter_eq_self]
    intro p hp
    simp [taken, hprobe p hp]
  have hlen : (positions crowdedBuses).length = 1024 := by decide +kernel
  have hsize := hf 1024 (by rw [bdfEntries_eq, List.length_map, hall, hlen])
  exact absurd hsize (by decide)

section Calls

variable {S : Type} (hw : Mmio S) (table : PcieInfoTable)

-- The table is what a scan of all windows lists, and every entry has its root port.
structure Complete (call : Call S) (devices : List PcieDeviceAttr) : Prop where
  windows   : table ≠ []
  scanned   : ∀ p ∈ positions table, stops hw table call.state call.unset p = false
  entries   : devices.map (·.bdf) = (listed hw table call.state call.unset (positions table)).map Position.bdf
  rootports : ∀ device ∈ devices, device.rpBdf ≠ none

-- A call that returns success leaves a table that is complete, for itself or for a call before it.
def Honest (calls : List (Call S)) : Prop :=
  ∀ (i : Nat) bdfTable, (createCalls hw table none calls)[i]? = some (pcieSuccess, bdfTable) →
    ∃ devices, bdfTable = some devices ∧ ∃ j : Nat, j ≤ i ∧ ∃ call, calls[j]? = some call ∧ Complete hw table call devices

-- There is a window, all function numbers in the windows have a mapping, and no function is left without
-- a root port.
structure Scannable (call : Call S) : Prop where
  windows   : table ≠ []
  scanned   : ∀ p ∈ positions table, stops hw table call.state call.unset p = false
  rootports : ∀ bdf ∈ bdfEntries hw table call.state call.unset, ∀ status,
    valPcieGetRootport hw table call.state call.unset
      ((bdfEntries hw table call.state call.unset).map ({ bdf := ·, rpBdf := none })) bdf = some (status, 0) →
    status = 0

end Calls

section Calls

variable {S : Type} {hw : Mmio S} {table : PcieInfoTable} {s : S} {unset : Unset} {call : Call S}
  {status : Nat} {devices devices' all : List PcieDeviceAttr}

theorem populateLoop_rpBdf (h : populateLoop hw table s unset all devices = some (0, devices')) :
    ∀ device ∈ devices', device.rpBdf ≠ none := by
  induction devices generalizing devices'
  case nil =>
    cases h
    simp
  case cons device rest hi =>
    rw [populateLoop] at h
    split at h
    case h_1 => simp at h
    case h_2 status rpBdf _ =>
      split at h
      case isTrue => simp at h
      case isFalse =>
        obtain ⟨⟨status', rest'⟩, hr, he⟩ := Option.map_eq_some_iff.mp h
        cases he
        intro d hd
        cases List.mem_cons.mp hd
        case inl he => simp [he]
        case inr hd => exact hi hr d hd

theorem populateLoop_status
    (hr : ∀ device ∈ devices, ∀ status,
      valPcieGetRootport hw table s unset all device.bdf = some (status, 0) → status = 0)
    (h : populateLoop hw table s unset all devices = some (status, devices')) : status = 0 := by
  induction devices generalizing status devices'
  case nil =>
    cases h
    rfl
  case cons device rest hi =>
    rw [populateLoop] at h
    split at h
    case h_1 => simp at h
    case h_2 status' rpBdf hg =>
      split at h
      case isTrue hc =>
        rw [hc.right] at hg
        exact absurd (hr device (by simp) status' hg) hc.left
      case isFalse =>
        obtain ⟨⟨status', rest'⟩, hl, he⟩ := Option.map_eq_some_iff.mp h
        cases he
        exact hi (fun d hd => hr d (by simp [hd])) hl

-- What the scan of all windows finds, where it gets to the end.
theorem scan_result {goOn : Bool} {found : List Nat}
    (h : scan (ecamLoop hw table s unset) table [] = some (goOn, found)) :
    found = bdfEntries hw table s unset ∧ (goOn = true ↔ ∀ p ∈ positions table, stops hw table s unset p = false) := by
  rw [scan_table_eq_log] at h
  have ⟨g, hg, he⟩ := Option.map_eq_some_iff.mp h
  cases he
  have hp := @scan_passes S hw table s unset
  refine ⟨rfl, ?_⟩
  rw [← hp.goOn, hg]
  simp

theorem created_complete
    (h : valPcieCreateDeviceBdfTable hw table call.state call.unset none = some (pcieSuccess, devices)) :
    Complete hw table call devices := by
  simp only [valPcieCreateDeviceBdfTable] at h
  split at h
  case isTrue => simp [pcieSuccess] at h
  case isFalse ht =>
    split at h
    case h_1 => simp at h
    case h_2 => simp [pcieSuccess] at h
    case h_3 found hs =>
      split at h
      case h_1 => simp at h
      case h_2 status devices' hp =>
        split at h
        case isTrue => simp [pcieSuccess] at h
        case isFalse hz =>
          cases h
          have hz : status = 0 := by simpa using hz
          rw [hz] at hp
          obtain ⟨hf, hg⟩ := scan_result hs
          refine ⟨fun he => ht (by simp [he]), hg.mp rfl, ?_, populateLoop_rpBdf hp⟩
          rw [populateLoop_bdf hp, ← bdfEntries_eq, ← hf]
          simp [Function.comp_def]

theorem Scannable.status_eq (hc : Scannable hw table call)
    (h : valPcieCreateDeviceBdfTable hw table call.state call.unset none = some (status, devices)) :
    status = pcieSuccess := by
  simp only [valPcieCreateDeviceBdfTable] at h
  split at h
  case isTrue ht => exact absurd (List.length_eq_zero_iff.mp ht) hc.windows
  case isFalse =>
    split at h
    case h_1 => simp at h
    case h_2 found hs =>
      have := (scan_result hs).right.mpr hc.scanned
      simp at this
    case h_3 found hs =>
      split at h
      case h_1 => simp at h
      case h_2 status' devices' hp =>
        have hz : status' = 0 := by
          refine populateLoop_status ?_ hp
          intro device hd status hg
          obtain ⟨bdf, hm, he⟩ := List.mem_map.mp hd
          cases he
          rw [(scan_result hs).left] at hm hg
          exact hc.rootports bdf hm status hg
        rw [hz] at h
        cases h
        rfl

-- A table that is there is handed on, call after call.
theorem createCalls_some {calls : List (Call S)} {i : Nat} {bdfTable : Option (List PcieDeviceAttr)}
    (h : (createCalls hw table (some devices) calls)[i]? = some (status, bdfTable)) : bdfTable = some devices := by
  induction calls generalizing i
  case nil => simp [createCalls] at h
  case cons call calls hi =>
    cases i
    case zero =>
      simp only [createCalls, createCall, List.getElem?_cons_zero, Option.some.injEq, Prod.mk.injEq] at h
      exact h.right.symm
    case succ i => exact hi (by simpa [createCalls, createCall] using h)

theorem Honest.cons_none {calls : List (Call S)} (h : Honest hw table calls)
    (hc : createCall hw table none call = some (1, none)) : Honest hw table (call :: calls) := by
  intro i bdfTable hi
  simp only [createCalls, hc] at hi
  cases i
  case zero => simp [pcieSuccess] at hi
  case succ i =>
    obtain ⟨devices, he, j, hj, c, hcall, hcomplete⟩ := h i bdfTable (by simpa using hi)
    exact ⟨devices, he, j + 1, by omega, c, by simpa using hcall, hcomplete⟩

end Calls

-- As long as no call fails half way that is not the last one, success means a complete table.
theorem honest_of_scannable {S : Type} (hw : Mmio S) (table : PcieInfoTable) (calls : List (Call S))
    (h : ∀ call ∈ calls.dropLast, call.alloc = true → Scannable hw table call) : Honest hw table calls := by
  induction calls
  case nil =>
    intro i bdfTable hi
    simp [createCalls] at hi
  case cons call calls hi =>
    by_cases ha : call.alloc = true
    case neg =>
      refine Honest.cons_none (hi ?_) (by simp [createCall, ha])
      intro c hc
      apply h c
      cases calls
      case nil  => simp at hc
      case cons => exact List.mem_cons_of_mem _ hc
    case pos =>
      intro i bdfTable hr
      cases hf : valPcieCreateDeviceBdfTable hw table call.state call.unset none
      case none => simp [createCalls, createCall, ha, hf] at hr
      case some result =>
        have ⟨status, devices⟩ := result
        have hz : status = pcieSuccess := by
          cases i
          case zero =>
            simp only [createCalls, createCall, ha, if_true, hf, Option.map_some, List.getElem?_cons_zero,
              Option.some.injEq, Prod.mk.injEq] at hr
            exact hr.left
          case succ i =>
            have hne : calls ≠ [] := by
              intro he
              simp [createCalls, createCall, ha, hf, he] at hr
            exact (h call (by simp [List.dropLast_cons_of_ne_nil hne]) ha).status_eq hf
        have hb : bdfTable = some devices := by
          cases i
          case zero =>
            simp only [createCalls, createCall, ha, if_true, hf, Option.map_some, List.getElem?_cons_zero,
              Option.some.injEq, Prod.mk.injEq] at hr
            exact hr.right.symm
          case succ i =>
            exact createCalls_some (by simpa [createCalls, createCall, ha, hf] using hr)
        exact ⟨devices, hb, 0, by omega, call, rfl, created_complete (hz ▸ hf)⟩

def plainCall : Call Unit where
  state := ()
  unset := noUnset
  alloc := true

theorem rootPort_scannable : Scannable (words rootPortRom) (palPcieCreateInfoTable busZero) plainCall where
  windows   := by decide
  scanned   := by decide +kernel
  rootports := by
    intro bdf hb status hg
    have he : bdfEntries (words rootPortRom) (palPcieCreateInfoTable busZero) plainCall.state plainCall.unset = [0] := by
      decide +kernel
    rw [he] at hb hg
    cases List.mem_singleton.mp hb
    have hr : valPcieGetRootport (words rootPortRom) (palPcieCreateInfoTable busZero) plainCall.state
        plainCall.unset [{ bdf := 0, rpBdf := none }] 0 = some (0, 0) := by
      decide +kernel
    cases hr.symm.trans hg
    rfl

theorem rootPort_honest :
    (∀ call ∈ [plainCall, plainCall].dropLast, call.alloc = true →
      Scannable (words rootPortRom) (palPcieCreateInfoTable busZero) call) ∧
    Honest (words rootPortRom) (palPcieCreateInfoTable busZero) [plainCall, plainCall] := by
  have h : ∀ call ∈ [plainCall, plainCall].dropLast, call.alloc = true →
      Scannable (words rootPortRom) (palPcieCreateInfoTable busZero) call := by
    intro call hc _
    cases List.mem_singleton.mp hc
    exact rootPort_scannable
  exact ⟨h, honest_of_scannable _ _ _ h⟩

-- An endpoint on the root bus, without a root port.
def endpointRom : Nat → BitVec 32
  | 0x40000000 => 0x10D38086
  | 0x40000008 => 0x02000000
  | 0x40000018 => 0x00000100
  | 0x40000034 => 0x00000040
  | 0x40000040 => 0x00000010
  | _          => 0xFFFFFFFF

-- The first call fails and empties the table, and the second one finds it.
theorem emptied_table_reported :
    ¬∀ (S : Type) (hw : Mmio S) (table : PcieInfoTable) (calls : List (Call S)), Honest hw table calls := by
  intro h
  have hh := h Unit (words endpointRom) (palPcieCreateInfoTable busZero) [plainCall, plainCall]
  have hcalls : createCalls (words endpointRom) (palPcieCreateInfoTable busZero) none [plainCall, plainCall] =
      [(1, some []), (0, some [])] := by
    decide +kernel
  have ⟨devices, hd, j, _, call, hj, hc⟩ := hh 1 (some []) (by rw [hcalls]; rfl)
  have hcall : call = plainCall := by
    have hm := List.mem_of_getElem? hj
    simpa using hm
  have he : bdfEntries (words endpointRom) (palPcieCreateInfoTable busZero) plainCall.state plainCall.unset = [0] := by
    decide +kernel
  have hentries := hc.entries
  cases hd
  rw [hcall, ← bdfEntries_eq, he] at hentries
  simp at hentries

end Pcie
