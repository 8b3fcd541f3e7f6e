import BsaAcs.Pcie.Peripheral
import BsaAcs.Pcie.Theorems.Positions

namespace Pcie

namespace PciFunction

-- Where UEFI says that the function is.
def location (f : PciFunction) : Nat × Nat × Nat × Nat :=
  (f.seg, f.bus, f.dev, f.func)

-- The order of the search.
def key (f : PciFunction) : Nat :=
  32 * f.bus + f.dev

structure Valid (f : PciFunction) : Prop where
  bus  : f.bus < 256
  dev  : f.dev < 32
  func : f.func < 8

end PciFunction

-- The function that a number names.
def locate (bdf : Nat) : Nat × Nat × Nat × Nat :=
  (pcieExtractBdfSeg bdf, pcieExtractBdfBus bdf, pcieExtractBdfDev bdf, pcieExtractBdfFunc bdf)

-- No two handles are for the same function.
structure Reported (fns : List PciFunction) : Prop where
  valid : ∀ f ∈ fns, f.Valid
  nodup : (fns.map (·.location)).Nodup

def PeripheralInfoTable.listed (table : PeripheralInfoTable) (type : PeripheralType) : List Nat :=
  (table.info.filter (·.type = type)).filterMap (·.bdf)

-- The base class and the sub class of USB and SATA controllers.
def isUsb (f : PciFunction) : Bool := decide (f.classCode2 = 0x0C ∧ f.classCode1 = 0x03)
def isSata (f : PciFunction) : Bool := decide (f.classCode2 = 0x01 ∧ f.classCode1 = 0x06)

-- Each controller is listed once, and nothing else is.
structure Discovers (fns : List PciFunction) (table : PeripheralInfoTable) : Prop where
  usb     : ((table.listed .usb).map locate).Perm ((fns.filter isUsb).map (·.location))
  sata    : ((table.listed .sata).map locate).Perm ((fns.filter isSata).map (·.location))
  numUsb  : table.numUsb = (fns.filter isUsb).length
  numSata : table.numSata = (fns.filter isSata).length

-- The functions of a class that a search finds one by one.
structure Discoverable (matching : List PciFunction) : Prop where
  segment : ∀ f ∈ matching, f.seg < 256
  zero    : ∀ f ∈ matching, f.location ≠ (0, 0, 0, 0)
  apart   : ∀ f ∈ matching, ∀ g ∈ matching, f.key = g.key → f = g
  last    : ∀ f ∈ matching, ¬(f.bus = 255 ∧ f.dev = 31)
  -- From one bus to the next the device number has to grow, unless it was the largest one.
  next    : ∀ f ∈ matching, ∀ g ∈ matching, f.bus < g.bus →
    (∀ h ∈ matching, ¬(f.key < h.key ∧ h.key < g.key)) → f.dev = 31 ∨ f.dev < g.dev

variable {fns : List PciFunction} {classCode start : Nat} {f g : PciFunction} {l : List PciFunction}

section Bdf

variable {seg bus dev func : Nat}

-- Without the masks the word is the same, as long as the numbers fit.
theorem palPcieCreateBdf_eq (hb : bus < 256) (hd : dev < 256) :
    palPcieCreateBdf seg bus dev func = pcieCreateBdf seg bus dev func := by
  have hb' : bus &&& 0xFF = bus := (Nat.and_two_pow_sub_one_eq_mod bus 8).trans (Nat.mod_eq_of_lt hb)
  have hd' : dev &&& 0xFF = dev := (Nat.and_two_pow_sub_one_eq_mod dev 8).trans (Nat.mod_eq_of_lt hd)
  rw [palPcieCreateBdf, pcieCreateBdf, hb', hd']

-- Bus 256 runs over into the segment.
theorem extract_bus_256 :
    pcieExtractBdfBus (palPcieCreateBdf seg 256 0 0) = 0 ∧ pcieExtractBdfDev (palPcieCreateBdf seg 256 0 0) = 0 := by
  have he : palPcieCreateBdf seg 256 0 0 = ((seg ||| 1) * 2 ^ 24) % 2 ^ 32 := by
    have hs : (256 <<< 16 : Nat) = 1 <<< 24 := by decide
    rw [palPcieCreateBdf, Nat.zero_shiftLeft, Nat.or_zero, Nat.or_zero, hs, ← Nat.shiftLeft_or_distrib, Nat.shiftLeft_eq]
  rw [he, extractBdfBus_eq, extractBdfDev_eq]
  omega

end Bdf

namespace PciFunction.Valid

theorem bdf_eq (h : f.Valid) : f.bdf = pcieCreateBdf f.seg f.bus f.dev f.func :=
  palPcieCreateBdf_eq h.bus (Nat.lt_trans h.dev (by decide))

theorem locate_bdf (h : f.Valid) : locate f.bdf = (f.seg % 256, f.bus, f.dev, f.func) := by
  have ⟨h₁, h₂, h₃, h₄⟩ := @extract_pcieCreateBdf f.seg f.bus f.dev f.func h.bus h.dev h.func
  rw [locate, h.bdf_eq, h₁, h₂, h₃, h₄]

theorem bdf_eq_zero_iff (h : f.Valid) (hs : f.seg < 256) : f.bdf = 0 ↔ f.location = (0, 0, 0, 0) := by
  rw [h.bdf_eq, pcieCreateBdf_eq h.bus h.dev h.func, location, Prod.mk.injEq, Prod.mk.injEq, Prod.mk.injEq]
  omega

-- The search goes on behind the device, or from the start if there is nothing behind it.
theorem extract_increment (h : f.Valid) :
    (pcieExtractBdfBus (incrementBusDev f.bdf), pcieExtractBdfDev (incrementBusDev f.bdf)) =
      if f.dev ≠ 31 then (f.bus, f.dev + 1) else if f.bus ≠ 255 then (f.bus + 1, 0) else (0, 0) := by
  have ⟨hb, hd, hf⟩ := h
  have ⟨h₁, h₂, h₃, _⟩ := @extract_pcieCreateBdf f.seg f.bus f.dev f.func hb hd hf
  rw [incrementBusDev, h.bdf_eq, h₁, h₂, h₃]
  by_cases hl : f.dev = 31
  case neg =>
    have ⟨_, h₂, h₃, _⟩ := @extract_pcieCreateBdf (f.seg % 256) f.bus (f.dev + 1) 0 hb (by omega) (by decide)
    simp only [pciMaxDevice, ne_eq, hl, not_false_iff, if_true, palPcieCreateBdf_eq hb (show f.dev + 1 < 256 by omega), h₂, h₃]
  case pos =>
    by_cases hl' : f.bus = 255
    case neg =>
      have hb' : f.bus + 1 < 256 := by omega
      have ⟨_, h₂, h₃, _⟩ := @extract_pcieCreateBdf (f.seg % 256) (f.bus + 1) 0 0 hb' (by decide) (by decide)
      simp [pciMaxDevice, hl, hl', palPcieCreateBdf_eq hb' (show 0 < 256 by decide), h₂, h₃]
    case pos =>
      simp [pciMaxDevice, hl, hl', extract_bus_256]

end PciFunction.Valid

section Search

theorem mem_busDevs {bus dev : Nat} {p : Nat × Nat} :
    p ∈ busDevs bus dev ↔ bus ≤ p.1 ∧ p.1 < 256 ∧ dev ≤ p.2 ∧ p.2 < 32 := by
  simp only [busDevs, List.mem_flatMap, List.mem_map, List.mem_range'_1, pciMaxBus, pciMaxDevice]
  constructor
  · intro ⟨b, hb, d, hd, he⟩
    subst he
    omega
  · intro h
    exact ⟨p.1, by omega, p.2, by omega, rfl⟩

theorem busDevs_sorted (bus dev : Nat) : (busDevs bus dev).Pairwise fun p q => 32 * p.1 + p.2 < 32 * q.1 + q.2 := by
  refine List.pairwise_flatMap.mpr ⟨?_, ?_⟩
  · intro b _
    exact List.pairwise_map.mpr ((List.pairwise_lt_range' 1).imp fun h => by simpa using h)
  · refine (List.pairwise_lt_range' 1).imp fun h p hp q hq => ?_
    simp only [List.mem_map, List.mem_range'_1, pciMaxDevice] at hp hq
    have ⟨_, hp, he⟩ := hp
    have ⟨_, hq, he'⟩ := hq
    subst he he'
    simp only
    omega

-- What the search can find.
structure InRange (start : Nat) (f : PciFunction) : Prop where
  bus : pcieExtractBdfBus start ≤ f.bus
  dev : pcieExtractBdfDev start ≤ f.dev

theorem find_ne_none (hg : g ∈ fns) (hc : g.hasClass classCode = true) :
    (fns.find? fun f => decide (g.bus = f.bus) && decide (g.dev = f.dev) && f.hasClass classCode) ≠ none := by
  intro h
  have := List.find?_eq_none.mp h g hg
  simp [hc] at this

theorem foundFunction_some (hv : ∀ f ∈ fns, f.Valid) (h : foundFunction fns classCode start = some f) :
    f ∈ fns.filter (·.hasClass classCode) ∧ InRange start f ∧
      ∀ g ∈ fns.filter (·.hasClass classCode), InRange start g → f.key ≤ g.key := by
  have ⟨before, p, after, hl, hf, hn⟩ := List.findSome?_eq_some_iff.mp h
  have hm := List.mem_of_find?_eq_some hf
  have hp := List.find?_some hf
  simp only [Bool.and_eq_true, decide_eq_true_eq] at hp
  have hr := mem_busDevs.mp (hl ▸ List.mem_append_right before List.mem_cons_self)
  refine ⟨List.mem_filter.mpr ⟨hm, hp.right⟩, ⟨by omega, by omega⟩, ?_⟩
  intro g hg hr'
  have ⟨hm', hc⟩ := List.mem_filter.mp hg
  have ⟨hb, hd, _⟩ := hv g hm'
  have hg' : (g.bus, g.dev) ∈ before ++ p :: after := hl ▸ mem_busDevs.mpr ⟨hr'.bus, hb, hr'.dev, hd⟩
  have hs := hl ▸ busDevs_sorted _ _
  rw [PciFunction.key, PciFunction.key, ← hp.left.left, ← hp.left.right]
  cases List.mem_append.mp hg'
  case inl hg' => exact absurd (hn _ hg') (find_ne_none hm' hc)
  case inr hg' =>
    cases List.mem_cons.mp hg'
    case inl he => rw [← he]
    case inr hg' =>
      have := (List.pairwise_cons.mp (List.pairwise_append.mp hs).right.left).left _ hg'
      omega

theorem foundFunction_none (hv : ∀ f ∈ fns, f.Valid) (h : foundFunction fns classCode start = none) :
    ∀ g ∈ fns.filter (·.hasClass classCode), ¬InRange start g := by
  intro g hg hr
  have ⟨hm, hc⟩ := List.mem_filter.mp hg
  have ⟨hb, hd, _⟩ := hv g hm
  have hn := List.findSome?_eq_none_iff.mp h (g.bus, g.dev) (mem_busDevs.mpr ⟨hr.bus, hb, hr.dev, hd⟩)
  exact find_ne_none hm hc hn

-- The place where a search starts, in its order.
def place (start : Nat) : Nat :=
  32 * pcieExtractBdfBus start + pcieExtractBdfDev start

theorem InRange.key_le (h : InRange start f) : place start ≤ f.key := by
  have ⟨hb, hd⟩ := h
  rw [place, PciFunction.key]
  omega

theorem key_increment (h : f.Valid) (hl : ¬(f.bus = 255 ∧ f.dev = 31)) :
    place (incrementBusDev f.bdf) = f.key + 1 := by
  have he := h.extract_increment
  rw [place, PciFunction.key]
  split at he
  case isTrue =>
    have ⟨hb, hd⟩ := Prod.mk.injEq .. ▸ he
    omega
  case isFalse =>
    rw [if_pos (by omega)] at he
    have ⟨hb, hd⟩ := Prod.mk.injEq .. ▸ he
    omega

end Search

-- The functions that the loop lists from `start` on.
inductive Hits (fns : List PciFunction) (classCode : Nat) : Nat → List PciFunction → Prop
  | stop {start : Nat} : (palPcieGetBdf fns classCode start = 0) → Hits fns classCode start []
  | next {start : Nat} {f : PciFunction} {l : List PciFunction} :
    (foundFunction fns classCode start = some f) → (f.bdf ≠ 0) →
    Hits fns classCode (incrementBusDev f.bdf) l → Hits fns classCode start (f :: l)

theorem palPcieGetBdf_of_found (h : foundFunction fns classCode start = some f) :
    palPcieGetBdf fns classCode start = f.bdf := by
  rw [palPcieGetBdf, h]

namespace Hits

variable {type : PeripheralType} {table table' : PeripheralInfoTable} {fuel : Nat}

theorem run (h : Hits fns classCode start l) (hf : l.length < fuel) :
    controllerLoop fns type classCode fuel start table =
      some ((l.map (controllerInfo fns type ·.bdf)).foldl (·.add ·) table) := by
  induction h generalizing fuel table
  case stop h =>
    cases fuel
    case zero => cases hf
    case succ => simp [controllerLoop, h]
  case next hs hz _ hi =>
    cases fuel
    case zero => cases hf
    case succ fuel =>
      have hl := Nat.lt_of_succ_lt_succ hf
      rw [controllerLoop, palPcieGetBdf_of_found hs, if_pos hz, hi hl]
      rfl

theorem of_run (h : controllerLoop fns type classCode fuel start table = some table') : ∃ l,
    Hits fns classCode start l ∧ table' = (l.map (controllerInfo fns type ·.bdf)).foldl (·.add ·) table := by
  induction fuel generalizing start table
  case zero => cases h
  case succ fuel hi =>
    rw [controllerLoop] at h
    split at h
    case isTrue hz =>
      have ⟨l, hl, ht⟩ := hi h
      cases hs : foundFunction fns classCode start
      case none => simp [palPcieGetBdf, hs] at hz
      case some f =>
        rw [palPcieGetBdf_of_found hs] at hz hl ht
        exact ⟨f :: l, .next hs hz hl, ht⟩
    case isFalse hz =>
      cases h
      exact ⟨[], .stop (not_not.mp hz), rfl⟩

theorem deterministic {l' : List PciFunction} (h : Hits fns classCode start l) (h' : Hits fns classCode start l') :
    l = l' := by
  induction h generalizing l'
  case stop h =>
    cases h'
    case stop => rfl
    case next hz _ hs =>
      rw [palPcieGetBdf_of_found hs] at h
      exact absurd h hz
  case next hs hz _ hi =>
    cases h'
    case stop h =>
      rw [palPcieGetBdf_of_found hs] at h
      exact absurd h hz
    case next _ h' hs' =>
      cases hs ▸ hs'
      rw [hi h']

theorem found_first (h : Hits fns classCode start l) (hs : l.Pairwise fun f g => f.key < g.key) (hg : g ∈ l)
    (hn : ∀ f ∈ l, ¬f.key < g.key) : foundFunction fns classCode start = some g := by
  cases h
  case stop => cases hg
  case next f l _ _ hf =>
    cases List.mem_cons.mp hg
    case inl he => exact he ▸ hf
    case inr hg => exact absurd ((List.pairwise_cons.mp hs).left g hg) (hn f List.mem_cons_self)

-- Only bus and device of the start are looked at.
theorem congr {start' : Nat} (h : Hits fns classCode start l)
    (he : (pcieExtractBdfBus start, pcieExtractBdfDev start) = (pcieExtractBdfBus start', pcieExtractBdfDev start')) :
    Hits fns classCode start' l := by
  have ⟨hb, hd⟩ := Prod.mk.injEq .. ▸ he
  have hs : foundFunction fns classCode start' = foundFunction fns classCode start := by
    rw [foundFunction, foundFunction, hb, hd]
  cases h
  case stop h => exact .stop (by rw [palPcieGetBdf, hs]; exact h)
  case next hz h hf => exact .next (hs.trans hf) hz h

theorem split (h : Hits fns classCode start l) (hf : f ∈ l) : ∃ before after, l = before ++ f :: after ∧
    f.bdf ≠ 0 ∧ Hits fns classCode (incrementBusDev f.bdf) after := by
  induction h
  case stop => cases hf
  case next hs hz h hi =>
    cases List.mem_cons.mp hf
    case inl he =>
      subst he
      exact ⟨[], _, rfl, hz, h⟩
    case inr hf =>
      have ⟨before, after, hl, hz, h⟩ := hi hf
      exact ⟨_ :: before, after, by rw [hl, List.cons_append], hz, h⟩

theorem mem (h : Hits fns classCode start l) (hv : ∀ f ∈ fns, f.Valid) (hf : f ∈ l) :
    f ∈ fns.filter (·.hasClass classCode) := by
  induction h
  case stop => cases hf
  case next hs _ _ hi =>
    cases List.mem_cons.mp hf
    case inl he => exact he ▸ (foundFunction_some hv hs).left
    case inr hf => exact hi hf

-- A search that comes to the last device starts over, and does not end.
theorem not_last (h : Hits fns classCode 0 l) (hv : ∀ f ∈ fns, f.Valid) (hf : f ∈ l) :
    ¬(f.bus = 255 ∧ f.dev = 31) := by
  intro ⟨hb, hd⟩
  have ⟨before, after, hl, _, ha⟩ := h.split hf
  have hi := (hv f (List.mem_filter.mp (h.mem hv hf)).left).extract_increment
  simp only [hb, hd, ne_eq, not_true, if_false] at hi
  have he := congrArg List.length (h.deterministic (ha.congr hi))
  rw [hl, List.length_append, List.length_cons] at he
  omega

theorem sorted (h : Hits fns classCode start l) (hv : ∀ f ∈ fns, f.Valid)
    (hl : ∀ f ∈ l, ¬(f.bus = 255 ∧ f.dev = 31)) :
    (∀ f ∈ l, place start ≤ f.key) ∧
      l.Pairwise fun f g => f.key < g.key := by
  induction h
  case stop => simp
  case next f l hs _ _ hi =>
    have ⟨hm, hr, _⟩ := foundFunction_some hv hs
    have ⟨hk, hp⟩ := hi fun g hg => hl g (List.mem_cons_of_mem _ hg)
    rw [key_increment (hv f (List.mem_filter.mp hm).left) (hl f List.mem_cons_self)] at hk
    have hr := InRange.key_le hr
    refine ⟨?_, List.pairwise_cons.mpr ⟨hk, hp⟩⟩
    intro g hg
    cases List.mem_cons.mp hg
    case inl he => exact he ▸ hr
    case inr hg =>
      have := hk g hg
      omega

end Hits

section Discovery

-- All functions with the class.
abbrev matching (fns : List PciFunction) (classCode : Nat) : List PciFunction :=
  fns.filter (·.hasClass classCode)

theorem Reported.matching_valid (h : Reported fns) : ∀ f ∈ matching fns classCode, f.Valid :=
  fun f hf => h.valid f (List.mem_filter.mp hf).left

theorem Reported.eq_of_location (h : Reported fns) (hf : f ∈ matching fns classCode) (hg : g ∈ matching fns classCode)
    (he : f.location = g.location) : f = g :=
  List.inj_on_of_nodup_map h.nodup (List.mem_filter.mp hf).left (List.mem_filter.mp hg).left he

-- What is listed of a class.
def Lists (fns : List PciFunction) (classCode : Nat) (l : List PciFunction) : Prop :=
  Hits fns classCode 0 l ∧ (l.map (locate ·.bdf)).Perm ((matching fns classCode).map (·.location))

theorem Lists.segment (h : Lists fns classCode l) (hr : Reported fns) : ∀ f ∈ matching fns classCode, f.seg < 256 := by
  intro g hg
  have hm := h.right.mem_iff.mpr (List.mem_map_of_mem hg)
  have ⟨f, hf, he⟩ := List.mem_map.mp hm
  rw [(hr.matching_valid f (h.left.mem hr.valid hf)).locate_bdf] at he
  have hs : f.seg % 256 = g.seg := congrArg Prod.fst he
  omega

-- Every function with the class is among the hits.
theorem Lists.mem (h : Lists fns classCode l) (hr : Reported fns) (hg : g ∈ matching fns classCode) : g ∈ l := by
  have hm := h.right.mem_iff.mpr (List.mem_map_of_mem hg)
  have ⟨f, hf, he⟩ := List.mem_map.mp hm
  have hf' := h.left.mem hr.valid hf
  rw [(hr.matching_valid f hf').locate_bdf, Nat.mod_eq_of_lt (h.segment hr f hf')] at he
  exact hr.eq_of_location hf' hg he ▸ hf

theorem Lists.discoverable (h : Lists fns classCode l) (hr : Reported fns) : Discoverable (matching fns classCode) := by
  have hl : ∀ f ∈ l, ¬(f.bus = 255 ∧ f.dev = 31) := fun f hf => h.left.not_last hr.valid hf
  have ⟨_, hs⟩ := h.left.sorted hr.valid hl
  refine ⟨h.segment hr, ?_, ?_, fun f hf => hl f (h.mem hr hf), ?_⟩
  · intro f hf hz
    have ⟨_, _, _, hne, _⟩ := h.left.split (h.mem hr hf)
    exact hne (((hr.matching_valid f hf).bdf_eq_zero_iff (h.segment hr f hf)).mpr hz)
  · intro f hf g hg hk
    have hn : (l.map (·.key)).Nodup := List.pairwise_map.mpr (hs.imp Nat.ne_of_lt)
    exact List.inj_on_of_nodup_map hn (h.mem hr hf) (h.mem hr hg) hk
  · intro f hf g hg hb hn
    have hvf := hr.matching_valid f hf
    have hvg := hr.matching_valid g hg
    have ⟨before, after, he, _, ha⟩ := h.left.split (h.mem hr hf)
    have hg' := h.mem hr hg
    have hlt : f.key < g.key := by
      have := hvf.dev
      simp only [PciFunction.key]
      omega
    rw [he] at hs hg'
    have ⟨_, hs, hbefore⟩ := List.pairwise_append.mp hs
    have ⟨hafter, hs⟩ := List.pairwise_cons.mp hs
    -- The next hit after `f` is `g`, since nothing lies between them.
    have hm : g ∈ after := by
      cases List.mem_append.mp hg'
      case inl hm =>
        have := hbefore g hm f List.mem_cons_self
        omega
      case inr hm =>
        cases List.mem_cons.mp hm
        case inl hm =>
          rw [hm] at hlt
          omega
        case inr hm => exact hm
    have hx := ha.found_first hs hm fun h hm hlt => hn h (ha.mem hr.valid hm) ⟨hafter h hm, hlt⟩
    have hd := (foundFunction_some hr.valid hx).right.left.dev
    by_cases h31 : f.dev = 31
    case pos => exact .inl h31
    case neg =>
      have hinc := congrArg Prod.snd hvf.extract_increment
      rw [if_pos h31] at hinc
      simp only at hinc
      omega

-- What is left from a place on.
def leftFrom (fns : List PciFunction) (classCode k : Nat) : List PciFunction :=
  (matching fns classCode).filter (k ≤ ·.key)

theorem mem_leftFrom {k : Nat} : f ∈ leftFrom fns classCode k ↔ f ∈ matching fns classCode ∧ k ≤ f.key := by
  rw [leftFrom, List.mem_filter, decide_eq_true_eq]

theorem exists_first {l : List PciFunction} (h : l ≠ []) : ∃ f ∈ l, ∀ g ∈ l, f.key ≤ g.key := by
  induction l
  case nil => exact absurd rfl h
  case cons first rest hi =>
    by_cases hr : rest = []
    case pos =>
      subst hr
      exact ⟨first, List.mem_cons_self, by simp⟩
    case neg =>
      have ⟨f, hf, hm⟩ := hi hr
      by_cases hl : first.key ≤ f.key
      case pos =>
        refine ⟨first, List.mem_cons_self, List.forall_mem_cons.mpr ⟨Nat.le_refl _, ?_⟩⟩
        exact fun g hg => Nat.le_trans hl (hm g hg)
      case neg => exact ⟨f, List.mem_cons_of_mem _ hf, List.forall_mem_cons.mpr ⟨Nat.le_of_not_le hl, hm⟩⟩

theorem Reported.nodup_fns (h : Reported fns) : fns.Nodup :=
  h.nodup.of_map _

theorem leftFrom_perm {k : Nat} (hr : Reported fns) (h : Discoverable (matching fns classCode))
    (hf : f ∈ leftFrom fns classCode k) (hm : ∀ g ∈ leftFrom fns classCode k, f.key ≤ g.key) :
    (leftFrom fns classCode k).Perm (f :: leftFrom fns classCode (f.key + 1)) := by
  have hn : ∀ k, (leftFrom fns classCode k).Nodup := fun _ => (hr.nodup_fns.filter _).filter _
  have hk := (mem_leftFrom.mp hf).right
  apply (List.perm_ext_iff_of_nodup (hn k) (List.nodup_cons.mpr ⟨?_, hn _⟩)).mpr
  · intro g
    rw [List.mem_cons]
    constructor
    · intro hg
      have hle := hm g hg
      by_cases he : f.key = g.key
      case pos => exact .inl (h.apart f (mem_leftFrom.mp hf).left g (mem_leftFrom.mp hg).left he).symm
      case neg => exact .inr (mem_leftFrom.mpr ⟨(mem_leftFrom.mp hg).left, by omega⟩)
    · rintro (rfl | hg)
      case inl => exact hf
      case inr =>
        have ⟨hg, hl⟩ := mem_leftFrom.mp hg
        exact mem_leftFrom.mpr ⟨hg, by omega⟩
  · intro hc
    have := (mem_leftFrom.mp hc).right
    omega

-- The search finds the first of what is left, if that is in range.
theorem foundFunction_first (h : Discoverable (matching fns classCode)) (hr : Reported fns)
    (hm : f ∈ leftFrom fns classCode (place start)) (hfirst : ∀ g ∈ leftFrom fns classCode (place start), f.key ≤ g.key)
    (hi : InRange start f) : foundFunction fns classCode start = some f := by
  have hm' := (mem_leftFrom.mp hm).left
  cases hs : foundFunction fns classCode start
  case none => exact absurd hi (foundFunction_none hr.valid hs f hm')
  case some g =>
    have ⟨hg, hi', hmin⟩ := foundFunction_some hr.valid hs
    have h₁ := hmin f hm' hi
    have h₂ := hfirst g (mem_leftFrom.mpr ⟨hg, hi'.key_le⟩)
    rw [h.apart g hg f hm' (Nat.le_antisymm h₁ h₂)]

-- After a hit the first of what is left is in range again.
theorem Discoverable.inRange_next (h : Discoverable (matching fns classCode)) (hv : f.Valid) (hvg : g.Valid)
    (hf : f ∈ matching fns classCode) (hg : g ∈ leftFrom fns classCode (f.key + 1))
    (hfirst : ∀ x ∈ leftFrom fns classCode (f.key + 1), g.key ≤ x.key) : InRange (incrementBusDev f.bdf) g := by
  have ⟨hg, hk⟩ := mem_leftFrom.mp hg
  have he := hv.extract_increment
  have hl := h.last f hf
  have hd := hv.dev
  have hd' := hvg.dev
  rw [PciFunction.key, PciFunction.key] at hk
  by_cases h31 : f.dev = 31
  case pos =>
    rw [if_neg (not_not.mpr h31), if_pos (fun hb => hl ⟨hb, h31⟩)] at he
    have ⟨h₁, h₂⟩ := Prod.mk.injEq .. ▸ he
    exact ⟨by omega, by omega⟩
  case neg =>
    rw [if_pos h31] at he
    have ⟨h₁, h₂⟩ := Prod.mk.injEq .. ▸ he
    refine ⟨by omega, ?_⟩
    by_cases hb : f.bus = g.bus
    case pos => omega
    case neg =>
      have hn := h.next f hf g hg (by omega) fun x hx ⟨h₁, h₂⟩ => by
        have := hfirst x (mem_leftFrom.mpr ⟨hx, h₁⟩)
        omega
      omega

theorem Discoverable.hits (h : Discoverable (matching fns classCode)) (hr : Reported fns) (n : Nat)
    (hn : (leftFrom fns classCode (place start)).length = n)
    (hf : ∀ f ∈ leftFrom fns classCode (place start), (∀ g ∈ leftFrom fns classCode (place start), f.key ≤ g.key) →
      InRange start f) :
    ∃ l, Hits fns classCode start l ∧ l.Perm (leftFrom fns classCode (place start)) := by
  induction n generalizing start
  case zero =>
    have he := List.length_eq_zero_iff.mp hn
    refine ⟨[], .stop ?_, by rw [he]⟩
    cases hs : foundFunction fns classCode start
    case none => rw [palPcieGetBdf, hs]
    case some f =>
      have ⟨hm, hi, _⟩ := foundFunction_some hr.valid hs
      have := mem_leftFrom.mpr ⟨hm, hi.key_le⟩
      rw [he] at this
      cases this
  case succ n hi =>
    have ⟨f, hm, hfirst⟩ := exists_first (List.ne_nil_of_length_eq_add_one hn)
    have hm' := (mem_leftFrom.mp hm).left
    have hv := hr.matching_valid f hm'
    have hz : f.bdf ≠ 0 := fun hz => h.zero f hm' ((hv.bdf_eq_zero_iff (h.segment f hm')).mp hz)
    have hp := leftFrom_perm hr h hm hfirst
    have hk := key_increment hv (h.last f hm')
    have hlen : (leftFrom fns classCode (f.key + 1)).length = n := by
      have := hp.length_eq
      rw [List.length_cons] at this
      omega
    rw [← hk] at hlen hp
    have ⟨l, hl, hp'⟩ := hi hlen fun g hg hfirst' => by
      rw [hk] at hg hfirst'
      exact h.inRange_next hv (hr.matching_valid g (mem_leftFrom.mp hg).left) hm' hg hfirst'
    exact ⟨f :: l, .next (foundFunction_first h hr hm hfirst (hf f hm hfirst)) hz hl, (hp'.cons f).trans hp.symm⟩

theorem Discoverable.lists (h : Discoverable (matching fns classCode)) (hr : Reported fns) :
    ∃ l, Lists fns classCode l := by
  have hall : leftFrom fns classCode (place 0) = matching fns classCode :=
    List.filter_eq_self.mpr fun f _ => decide_eq_true (Nat.zero_le f.key)
  have ⟨l, hl, hp⟩ := @Discoverable.hits fns classCode 0 h hr _ rfl fun f _ _ =>
    ⟨Nat.zero_le f.bus, Nat.zero_le f.dev⟩
  rw [hall] at hp
  refine ⟨l, hl, ?_⟩
  have he : (matching fns classCode).map (·.location) = (matching fns classCode).map (locate ·.bdf) := by
    apply List.map_congr_left
    intro f hf
    rw [(hr.matching_valid f hf).locate_bdf, Nat.mod_eq_of_lt (h.segment f hf)]
    rfl
  rw [he]
  exact hp.map _

end Discovery

section Table

variable {table : PeripheralInfoTable} {entries : List PeripheralInfoBlock} {type : PeripheralType}

theorem foldl_add : (entries.foldl (·.add ·) table).info = table.info ++ entries ∧
    (entries.foldl (·.add ·) table).numUsb = table.numUsb + entries.countP (·.type = .usb) ∧
    (entries.foldl (·.add ·) table).numSata = table.numSata + entries.countP (·.type = .sata) := by
  induction entries generalizing table
  case nil => simp
  case cons entry entries hi =>
    have ⟨h₁, h₂, h₃⟩ := @hi (table.add entry)
    rw [List.foldl_cons, h₁, h₂, h₃, List.countP_cons, List.countP_cons]
    cases ht : entry.type <;> simp [PeripheralInfoTable.add, ht] <;> omega

-- The entries of the three kinds, one after the other.
def infoTable (fns : List PciFunction) (usb sata : List PciFunction) (spcr : Option (Nat × Nat)) :
    List PeripheralInfoBlock :=
  usb.map (controllerInfo fns .usb ·.bdf) ++ sata.map (controllerInfo fns .sata ·.bdf) ++ uartInfo spcr

theorem palPeripheralCreateInfoTable_iff {spcr : Option (Nat × Nat)} :
    (∃ fuel, palPeripheralCreateInfoTable fns spcr fuel = some table) ↔
      ∃ usb sata, Hits fns usbClasscode 0 usb ∧ Hits fns sataClasscode 0 sata ∧
        table = (infoTable fns usb sata spcr).foldl (·.add ·) { numUsb := 0, numSata := 0, numUart := 0, info := [] } := by
  constructor
  · intro ⟨fuel, h⟩
    rw [palPeripheralCreateInfoTable] at h
    split at h
    case h_1 => cases h
    case h_2 table₁ h₁ =>
      split at h
      case h_1 => cases h
      case h_2 table₂ h₂ =>
        have ⟨usb, hu, he₁⟩ := Hits.of_run h₁
        have ⟨sata, hs, he₂⟩ := Hits.of_run h₂
        refine ⟨usb, sata, hu, hs, ?_⟩
        rw [infoTable, List.foldl_append, List.foldl_append, ← he₁, ← he₂]
        exact (Option.some.inj h).symm
  · intro ⟨usb, sata, hu, hs, he⟩
    refine ⟨usb.length + sata.length + 1, ?_⟩
    rw [palPeripheralCreateInfoTable, hu.run (by omega)]
    simp only
    rw [hs.run (by omega), he, infoTable, List.foldl_append, List.foldl_append]

-- What the entries of a class list.
def listedOf (type : PeripheralType) (entries : List PeripheralInfoBlock) : List Nat :=
  (entries.filter (·.type = type)).filterMap (·.bdf)

theorem listedOf_append {entries' : List PeripheralInfoBlock} :
    listedOf type (entries ++ entries') = listedOf type entries ++ listedOf type entries' := by
  simp [listedOf]

theorem listedOf_controllers {type' : PeripheralType} :
    listedOf type (l.map (controllerInfo fns type' ·.bdf)) = if type' = type then l.map (·.bdf) else [] := by
  split
  case isTrue h =>
    simp [listedOf, controllerInfo, h, List.filter_map, List.filterMap_map, Function.comp_def]
  case isFalse h => simp [listedOf, controllerInfo, h]

theorem listedOf_uart {spcr : Option (Nat × Nat)} (h : type ≠ .uart) : listedOf type (uartInfo spcr) = [] := by
  have h' : ¬PeripheralType.uart = type := fun he => h he.symm
  cases spcr <;> simp [listedOf, uartInfo, platformGenericUartBase, h']

theorem countP_controllers {type' : PeripheralType} :
    (l.map (controllerInfo fns type' ·.bdf)).countP (·.type = type) = if type' = type then l.length else 0 := by
  split
  case isTrue h => simp [controllerInfo, h, Function.comp_def]
  case isFalse h => simp [controllerInfo, h, Function.comp_def]

theorem countP_uart {spcr : Option (Nat × Nat)} (h : type ≠ .uart) : (uartInfo spcr).countP (·.type = type) = 0 := by
  have h' : ¬PeripheralType.uart = type := fun he => h he.symm
  cases spcr <;> simp [uartInfo, platformGenericUartBase, h']

theorem infoTable_discovers {usb sata : List PciFunction} {spcr : Option (Nat × Nat)}
    (ht : table = (infoTable fns usb sata spcr).foldl (·.add ·) { numUsb := 0, numSata := 0, numUart := 0, info := [] }) :
    (table.listed .usb = usb.map (·.bdf) ∧ table.numUsb = usb.length) ∧
    table.listed .sata = sata.map (·.bdf) ∧ table.numSata = sata.length := by
  have ⟨h₁, h₂, h₃⟩ := @foldl_add { numUsb := 0, numSata := 0, numUart := 0, info := [] } (infoTable fns usb sata spcr)
  rw [← ht, List.nil_append] at h₁
  rw [← ht, infoTable, List.countP_append, List.countP_append, countP_controllers, countP_controllers,
    countP_uart (by decide)] at h₂ h₃
  have hl : ∀ type, table.listed type = listedOf type (infoTable fns usb sata spcr) := fun type => by
    rw [← h₁]
    rfl
  simp only [hl, infoTable, listedOf_append, listedOf_controllers]
  rw [listedOf_uart (by decide), listedOf_uart (by decide)]
  exact ⟨⟨by simp, by simpa using h₂⟩, by simp, by simpa using h₃⟩

theorem filter_isUsb : fns.filter isUsb = matching fns usbClasscode := by
  apply List.filter_congr
  intro f _
  rw [Bool.eq_iff_iff, isUsb, PciFunction.hasClass, Bool.and_eq_true, decide_eq_true_eq, decide_eq_true_eq,
    decide_eq_true_eq]
  exact Iff.rfl

theorem filter_isSata : fns.filter isSata = matching fns sataClasscode := by
  apply List.filter_congr
  intro f _
  rw [Bool.eq_iff_iff, isSata, PciFunction.hasClass, Bool.and_eq_true, decide_eq_true_eq, decide_eq_true_eq,
    decide_eq_true_eq]
  exact Iff.rfl

theorem discovers_iff {usb sata : List PciFunction} {spcr : Option (Nat × Nat)}
    (hu : Hits fns usbClasscode 0 usb) (hs : Hits fns sataClasscode 0 sata)
    (ht : table = (infoTable fns usb sata spcr).foldl (·.add ·) { numUsb := 0, numSata := 0, numUart := 0, info := [] }) :
    Discovers fns table ↔ Lists fns usbClasscode usb ∧ Lists fns sataClasscode sata := by
  have ⟨⟨h₁, h₂⟩, h₃, h₄⟩ := infoTable_discovers ht
  constructor
  · intro h
    refine ⟨⟨hu, ?_⟩, hs, ?_⟩
    · have := h.usb
      rwa [h₁, List.map_map, filter_isUsb] at this
    · have := h.sata
      rwa [h₃, List.map_map, filter_isSata] at this
  · intro ⟨⟨_, hu⟩, _, hs⟩
    refine ⟨?_, ?_, ?_, ?_⟩
    · rwa [h₁, List.map_map, filter_isUsb]
    · rwa [h₃, List.map_map, filter_isSata]
    · simpa [h₂, filter_isUsb] using hu.length_eq
    · simpa [h₄, filter_isSata] using hs.length_eq

end Table

theorem Discovers.discoverable {table : PeripheralInfoTable} {spcr : Option (Nat × Nat)} {fuel : Nat}
    (h : Discovers fns table) (hr : Reported fns) (ht : palPeripheralCreateInfoTable fns spcr fuel = some table) :
    Discoverable (fns.filter isUsb) ∧ Discoverable (fns.filter isSata) := by
  have ⟨usb, sata, hu, hs, he⟩ := palPeripheralCreateInfoTable_iff.mp ⟨fuel, ht⟩
  have ⟨hu', hs'⟩ := (discovers_iff hu hs he).mp h
  rw [filter_isUsb, filter_isSata]
  exact ⟨hu'.discoverable hr, hs'.discoverable hr⟩

theorem peripherals_discovered_iff {spcr : Option (Nat × Nat)} (hr : Reported fns) :
    (∃ fuel table, palPeripheralCreateInfoTable fns spcr fuel = some table ∧ Discovers fns table) ↔
      Discoverable (fns.filter isUsb) ∧ Discoverable (fns.filter isSata) := by
  constructor
  · intro ⟨fuel, table, ht, hd⟩
    exact hd.discoverable hr ht
  · rw [filter_isUsb, filter_isSata]
    intro ⟨hu, hs⟩
    have ⟨usb, hu⟩ := hu.lists hr
    have ⟨sata, hs⟩ := hs.lists hr
    have ⟨fuel, ht⟩ := (@palPeripheralCreateInfoTable_iff fns _ spcr).mpr ⟨usb, sata, hu.left, hs.left, rfl⟩
    exact ⟨fuel, _, ht, (discovers_iff hu.left hs.left rfl).mpr ⟨hu, hs⟩⟩

-- A USB controller at a bus, a device and a function of segment 0.
def usbAt (bus dev func : Nat) : PciFunction where
  seg        := 0
  bus        := bus
  dev        := dev
  func       := func
  classCode1 := 0x03
  classCode2 := 0x0C
  bar _      := 0

theorem reported_of_distinct (hv : ∀ f ∈ fns, f.bus < 256 ∧ f.dev < 32 ∧ f.func < 8)
    (hn : (fns.map (·.location)).Nodup) : Reported fns :=
  ⟨fun f hf => ⟨(hv f hf).left, (hv f hf).right.left, (hv f hf).right.right⟩, hn⟩

theorem usbAt_apart {bus dev func bus' dev' func' : Nat} (h : (usbAt bus dev func).key ≠ (usbAt bus' dev' func').key) :
    ∀ f ∈ [usbAt bus dev func, usbAt bus' dev' func'], ∀ g ∈ [usbAt bus dev func, usbAt bus' dev' func'],
      f.key = g.key → f = g := by
  simp [h, Ne.symm h]

theorem two_controllers_discovered :
    Reported [usbAt 1 0 0, usbAt 2 3 0] ∧
    ∃ fuel table, palPeripheralCreateInfoTable [usbAt 1 0 0, usbAt 2 3 0] none fuel = some table ∧
      Discovers [usbAt 1 0 0, usbAt 2 3 0] table := by
  have hr : Reported [usbAt 1 0 0, usbAt 2 3 0] := reported_of_distinct (by decide) (by decide)
  refine ⟨hr, (peripherals_discovered_iff hr).mpr ⟨?_, ?_⟩⟩
  · exact ⟨by decide, by decide, usbAt_apart (by decide), by decide, by decide⟩
  · exact ⟨by decide, by decide, by simp [isSata, usbAt], by decide, by decide⟩

-- The second controller has a smaller device number on a later bus.
theorem second_controller_lost :
    Reported [usbAt 1 3 0, usbAt 2 0 0] ∧
    palPcieGetBdf [usbAt 1 3 0, usbAt 2 0 0] usbClasscode (incrementBusDev (usbAt 1 3 0).bdf) = 0 ∧
    ¬∃ fuel table, palPeripheralCreateInfoTable [usbAt 1 3 0, usbAt 2 0 0] none fuel = some table ∧
      Discovers [usbAt 1 3 0, usbAt 2 0 0] table := by
  have hr : Reported [usbAt 1 3 0, usbAt 2 0 0] := reported_of_distinct (by decide) (by decide)
  refine ⟨hr, ?_, ?_⟩
  · cases hs : foundFunction [usbAt 1 3 0, usbAt 2 0 0] usbClasscode (incrementBusDev (usbAt 1 3 0).bdf)
    case none => rw [palPcieGetBdf, hs]
    case some f =>
      have ⟨hm, hi, _⟩ := foundFunction_some hr.valid hs
      have hd : ∀ f ∈ [usbAt 1 3 0, usbAt 2 0 0], f.dev < 4 := by decide
      exact absurd (hd f (List.mem_filter.mp hm).left) (Nat.not_lt.mpr hi.dev)
  intro ⟨fuel, table, ht, hd⟩
  have hn := (hd.discoverable hr ht).left.next (usbAt 1 3 0) List.mem_cons_self (usbAt 2 0 0)
    (List.mem_cons_of_mem _ List.mem_cons_self) (by decide) (by decide)
  exact absurd hn (by decide)

end Pcie
