import BsaAcs.Pcie.DeviceTable
import BsaAcs.Pcie.Theorems.Search

namespace Pcie

section Hierarchy

variable {S : Type} (hw : Mmio S) (table : PcieInfoTable) (s : S)

-- The function is mapped and has a PCI Express capability.
def Express (bdf : Nat) : Prop :=
  ∃ offset, valPcieFindCapability hw table s bdf .pcieCap cidPciecs = some (pcieSuccess, some offset)

-- The device/port type that this capability shows.
def portType (bdf : Nat) : Nat :=
  match valPcieFindCapability hw table s bdf .pcieCap cidPciecs with
  | some (_, some offset) => 1 <<< (configWord hw table s bdf offset >>> 20 &&& 0xF).toNat
  | _                     => 0

def IsRootPort (bdf : Nat) : Prop :=
  portType hw table s bdf = rp ∨ portType hw table s bdf = iepRp

def IsBridge (bdf : Nat) : Prop :=
  valPcieFunctionHeaderType hw table s 0 bdf = type1Header

-- What stands at the offset of the bus numbers. In a function of type 0 this is a part of a base address.
def busNumbers (bdf : Nat) : BitVec 32 :=
  configWord hw table s bdf type1Pbn

def Carries (bdf bus : Nat) : Prop :=
  secondaryBus (busNumbers hw table s bdf) ≤ bus ∧ bus ≤ subordinateBus (busNumbers hw table s bdf)

-- The bridge is below the other one, with all the buses behind it.
def Below (bdf bdf' : Nat) : Prop :=
  Carries hw table s bdf' (pcieExtractBdfBus bdf) ∧
    ∀ bus, Carries hw table s bdf bus → Carries hw table s bdf' bus

instance (bdf : Nat) : Decidable (IsRootPort hw table s bdf) :=
  inferInstanceAs (Decidable (_ ∨ _))

instance (bdf : Nat) : Decidable (IsBridge hw table s bdf) :=
  inferInstanceAs (Decidable (_ = _))

instance (bdf bus : Nat) : Decidable (Carries hw table s bdf bus) :=
  inferInstanceAs (Decidable (_ ∧ _))

-- A table of the functions below any number of root complexes. Nothing is said about the bus numbers of a
-- function that is not a bridge, nor about the order of the entries.
structure Hierarchy (devices : List PcieDeviceAttr) : Prop where
  distinct  : (devices.map (·.bdf)).Nodup
  express   : ∀ bdf ∈ devices.map (·.bdf), Express hw table s bdf
  rootPort  : ∀ bdf ∈ devices.map (·.bdf), IsRootPort hw table s bdf → IsBridge hw table s bdf
  numbered  : ∀ bdf ∈ devices.map (·.bdf), IsBridge hw table s bdf →
    pcieExtractBdfBus bdf < secondaryBus (busNumbers hw table s bdf) ∧
      secondaryBus (busNumbers hw table s bdf) ≤ subordinateBus (busNumbers hw table s bdf)
  nested    : ∀ a ∈ devices.map (·.bdf), ∀ b ∈ devices.map (·.bdf), a ≠ b → IsBridge hw table s a →
    IsBridge hw table s b → pcieExtractBdfSeg a = pcieExtractBdfSeg b →
    (∀ bus, ¬(Carries hw table s a bus ∧ Carries hw table s b bus)) ∨ Below hw table s a b ∨ Below hw table s b a
  top       : ∀ a ∈ devices.map (·.bdf), ∀ b ∈ devices.map (·.bdf), IsRootPort hw table s a →
    IsBridge hw table s b → pcieExtractBdfSeg a = pcieExtractBdfSeg b →
    ¬Carries hw table s b (pcieExtractBdfBus a)

-- The root port that a function belongs to: itself, or the one of its segment with its bus behind it.
def RootPortOf (devices : List PcieDeviceAttr) (bdf rpBdf : Nat) : Prop :=
  if portType hw table s bdf = rp then rpBdf = bdf
  else
    rpBdf ∈ devices.map (·.bdf) ∧ IsRootPort hw table s rpBdf ∧
      pcieExtractBdfSeg rpBdf = pcieExtractBdfSeg bdf ∧ Carries hw table s rpBdf (pcieExtractBdfBus bdf)

-- The parent that `val_pcie_parent_is_rootport` looks for.
def IsParent (bdf rpBdf : Nat) : Prop :=
  portType hw table s rpBdf = rp ∧ pcieExtractBdfBus bdf = secondaryBus (busNumbers hw table s rpBdf) ∧
    pcieExtractBdfBus bdf ≤ subordinateBus (busNumbers hw table s rpBdf)

instance (bdf rpBdf : Nat) : Decidable (IsParent hw table s bdf rpBdf) :=
  inferInstanceAs (Decidable (_ ∧ _))

variable (unset : Unset) (devices : List PcieDeviceAttr) (bdf : Nat)

def FindsRootport : Prop :=
  ∃ status rpBdf, valPcieGetRootport hw table s unset devices bdf = some (status, rpBdf) ∧
    (status = 0 ↔ ∃ r, RootPortOf hw table s devices bdf r) ∧
    (status = 0 → RootPortOf hw table s devices bdf rpBdf)

-- The three searches through the table agree with the hierarchy and with each other.
structure ResolvesRootport : Prop where
  finds      : FindsRootport hw table s unset devices bdf
  parent     : ∀ rpBdf, valPcieParentIsRootport hw table s unset devices bdf = some (0, some rpBdf) →
    valPcieGetRootport hw table s unset devices bdf = some (0, rpBdf)
  downstream : ∀ rpBdf ∈ devices.map (·.bdf), IsRootPort hw table s rpBdf →
    valPcieGetDownstreamFunction hw table s unset devices rpBdf = (0, bdf) →
    valPcieGetRootport hw table s unset devices bdf = some (0, rpBdf)

end Hierarchy

-- An entry that is wrong and could be taken has one that is right before it.
def Unshadowed (entries : List Nat) (takes right : Nat → Prop) : Prop :=
  ∀ before e after, entries = before ++ e :: after → takes e → ¬right e → ∃ r ∈ before, takes r ∧ right r

theorem unshadowed_iff {entries : List Nat} {takes right : Nat → Prop} [DecidablePred takes] :
    Unshadowed entries takes right ↔ ∀ e, entries.find? (takes ·) = some e → right e := by
  constructor
  · intro h e he
    have ⟨ht, before, after, hl, hb⟩ := List.find?_eq_some_iff_append.mp he
    by_contra hr
    have ⟨r, hm, ht', _⟩ := h before e after hl (of_decide_eq_true ht) hr
    simpa [ht'] using hb r hm
  · intro h before e after hl ht hr
    cases hf : before.find? (takes ·)
    case none =>
      have : entries.find? (takes ·) = some e := by
        rw [hl, List.find?_append, hf, List.find?_cons_of_pos (by simpa using ht)]
        rfl
      exact absurd (h e this) hr
    case some r =>
      have : entries.find? (takes ·) = some r := by
        rw [hl, List.find?_append, hf]
        rfl
      exact ⟨r, List.mem_of_find?_eq_some hf, by simpa using List.find?_some hf, h r this⟩

-- No entry of the table is taken for the root port: neither one with the bus in the bytes of its bus
-- numbers, nor a root port of another segment with the same secondary bus.
def RootportUnshadowed {S : Type} (hw : Mmio S) (table : PcieInfoTable) (s : S) (devices : List PcieDeviceAttr)
    (bdf : Nat) : Prop :=
  (portType hw table s bdf ≠ rp → Unshadowed (devices.map (·.bdf))
    (Carries hw table s · (pcieExtractBdfBus bdf)) (RootPortOf hw table s devices bdf)) ∧
  Unshadowed (devices.map (·.bdf)) (IsParent hw table s bdf) (RootPortOf hw table s devices bdf)

section Search

variable {S : Type} {hw : Mmio S} {table : PcieInfoTable} {s : S} {unset : Unset}
  {devices : List PcieDeviceAttr} {bdf bus : Nat}

theorem loop_capStep_lt {read : Nat → BitVec 32} {cid n p offset : Nat}
    (h : loop (capStep capLayout read cid) n p = some (some offset)) (hp : p < 256) : offset < 256 := by
  induction n generalizing p
  case zero => cases h
  case succ n hi =>
    cases hs : capStep capLayout read cid p
    case inl q =>
      simp only [loop, hs] at h
      exact hi h (capStep_inl_lt hs)
    case inr r =>
      simp only [loop, hs, Option.some.injEq] at h
      simp only [h, capStep] at hs
      split_ifs at hs
      · cases hs
      · cases hs
        exact hp

theorem Express.mapped (h : Express hw table s bdf) : Mapped table bdf := by
  have ⟨offset, hc⟩ := h
  by_contra hm
  simp [valPcieFindCapability, read_of_not_mapped hm] at hc

theorem Express.offset_lt {status offset : Nat}
    (h : valPcieFindCapability hw table s bdf .pcieCap cidPciecs = some (status, some offset)) : offset < 256 := by
  simp only [valPcieFindCapability] at h
  split at h
  case h_1 => cases h
  case h_2 =>
    split at h
    case isTrue => cases h
    case isFalse =>
      split at h
      case h_1 => cases h
      case h_2 => cases h
      case h_3 hl =>
        cases h
        exact loop_capStep_lt hl (and_0xff_lt _)

theorem Express.devicePortType (h : Express hw table s bdf) :
    valPcieDevicePortType hw table s unset bdf = some (portType hw table s bdf) := by
  have ⟨offset, hc⟩ := h
  have hlt := Express.offset_lt hc
  have hmod : (offset + cidrOffset) % 2 ^ 32 = offset := Nat.mod_eq_of_lt (by simp [cidrOffset]; omega)
  simp only [valPcieDevicePortType, pciecsBase, hc, Option.map_some, Option.getD_some, hmod,
    read_of_mapped h.mapped, portType]

theorem Express.regValue (h : Express hw table s bdf) :
    (valPcieReadCfg hw table s bdf type1Pbn).getD unset.regValue = busNumbers hw table s bdf := by
  rw [read_of_mapped h.mapped]
  rfl

-- The search for the root port takes the first entry with the bus, of whatever type and segment.
theorem rootportLoop_eq (h : ∀ bdf ∈ devices.map (·.bdf), Express hw table s bdf) :
    rootportLoop hw table s unset bus devices =
      some (((devices.map (·.bdf)).find? (Carries hw table s · bus)).elim (1, 0) (0, ·)) := by
  induction devices
  case nil => rfl
  case cons device rest hi =>
    have ⟨hd, hr⟩ := List.forall_mem_cons.mp h
    simp only [rootportLoop, hd.devicePortType, hd.regValue, List.map_cons]
    by_cases hc : Carries hw table s device.bdf bus
    case pos =>
      rw [if_pos (show _ ∧ _ from hc), List.find?_cons_of_pos (by simpa using hc)]
      rfl
    case neg =>
      rw [if_neg (show ¬(_ ∧ _) from hc), List.find?_cons_of_neg (by simpa using hc)]
      exact hi hr

theorem parentLoop_eq (h : ∀ bdf ∈ devices.map (·.bdf), Express hw table s bdf) :
    valPcieParentIsRootport hw table s unset devices bdf =
      some (((devices.map (·.bdf)).find? (IsParent hw table s bdf ·)).elim (1, none) ((0, some ·))) := by
  simp only [valPcieParentIsRootport]
  induction devices
  case nil => rfl
  case cons device rest hi =>
    have ⟨hd, hr⟩ := List.forall_mem_cons.mp h
    simp only [parentLoop, hd.devicePortType, hd.regValue, List.map_cons]
    by_cases hp : IsParent hw table s bdf device.bdf
    case pos =>
      rw [if_pos hp.left, if_pos hp.right, List.find?_cons_of_pos (by simpa using hp)]
      rfl
    case neg =>
      rw [List.find?_cons_of_neg (by simpa using hp), ← hi hr]
      split_ifs with ht hn
      · exact absurd ⟨ht, hn⟩ hp
      · rfl
      · rfl

-- What is found downstream is an entry on one of the buses, in the segment.
theorem downstreamLoop_spec {secBus subBus seg f : Nat} {type1Bdf : Option Nat}
    (h : downstreamLoop hw table s unset secBus subBus seg devices type1Bdf = (0, f))
    (h₁ : ∀ f ∈ type1Bdf, (secBus ≤ pcieExtractBdfBus f ∧ pcieExtractBdfBus f ≤ subBus) ∧ pcieExtractBdfSeg f = seg) :
    (secBus ≤ pcieExtractBdfBus f ∧ pcieExtractBdfBus f ≤ subBus) ∧ pcieExtractBdfSeg f = seg := by
  induction devices generalizing type1Bdf
  case nil =>
    cases type1Bdf
    case none => simp [downstreamLoop] at h
    case some f' =>
      cases h
      exact h₁ f rfl
  case cons device rest hi =>
    simp only [downstreamLoop] at h
    split_ifs at h with hb ht
    · cases h
      exact ⟨⟨hb.left, hb.right.left⟩, hb.right.right⟩
    · refine hi h ?_
      intro f' hf
      cases type1Bdf
      case none =>
        cases hf
        exact ⟨⟨hb.left, hb.right.left⟩, hb.right.right⟩
      case some => exact h₁ f' hf
    · exact hi h h₁

variable (h : Hierarchy hw table s devices)
include h

theorem Hierarchy.getRootport_eq (hf : bdf ∈ devices.map (·.bdf)) (hrp : portType hw table s bdf ≠ rp)
    (hep : portType hw table s bdf ≠ rciep) (hec : portType hw table s bdf ≠ rcec) :
    valPcieGetRootport hw table s unset devices bdf = some (((devices.map (·.bdf)).find?
      (Carries hw table s · (pcieExtractBdfBus bdf))).elim (1, 0) (0, ·)) := by
  simp only [valPcieGetRootport, (h.express bdf hf).devicePortType, hrp, hep, hec, or_self, if_false]
  exact rootportLoop_eq h.express

theorem Hierarchy.getRootport_of_rp (hf : bdf ∈ devices.map (·.bdf)) (hrp : portType hw table s bdf = rp) :
    valPcieGetRootport hw table s unset devices bdf = some (0, bdf) := by
  simp only [valPcieGetRootport, (h.express bdf hf).devicePortType, hrp, if_true]

-- Two root ports of a segment are not below each other, so no bus is behind both.
theorem Hierarchy.rootPortOf_unique {r r' : Nat} (hr : RootPortOf hw table s devices bdf r)
    (hr' : RootPortOf hw table s devices bdf r') : r = r' := by
  by_contra hne
  simp only [RootPortOf] at hr hr'
  split_ifs at hr hr'
  · exact hne (hr.trans hr'.symm)
  · have ⟨hm, hrp, hseg, hc⟩ := hr
    have ⟨hm', hrp', hseg', hc'⟩ := hr'
    have hb := h.rootPort r hm hrp
    have hb' := h.rootPort r' hm' hrp'
    have hs := hseg.trans hseg'.symm
    cases h.nested r hm r' hm' hne hb hb' hs
    case inl hd => exact hd _ ⟨hc, hc'⟩
    case inr hd =>
      cases hd
      case inl hd => exact h.top r hm r' hm' hrp hb' hs hd.left
      case inr hd => exact h.top r' hm' r hm hrp' hb hs.symm hd.left

theorem Hierarchy.finds_iff (hf : bdf ∈ devices.map (·.bdf)) (hep : portType hw table s bdf ≠ rciep)
    (hec : portType hw table s bdf ≠ rcec) : FindsRootport hw table s unset devices bdf ↔
      (portType hw table s bdf ≠ rp → Unshadowed (devices.map (·.bdf))
        (Carries hw table s · (pcieExtractBdfBus bdf)) (RootPortOf hw table s devices bdf)) := by
  by_cases hrp : portType hw table s bdf = rp
  case pos =>
    have hself : RootPortOf hw table s devices bdf bdf := by simp [RootPortOf, hrp]
    simp only [hrp, ne_eq, not_true_eq_false, IsEmpty.forall_iff, iff_true]
    exact ⟨0, bdf, h.getRootport_of_rp hf hrp, iff_of_true rfl ⟨bdf, hself⟩, fun _ => hself⟩
  case neg =>
    simp only [ne_eq, hrp, not_false_eq_true, true_imp_iff, unshadowed_iff, FindsRootport,
      h.getRootport_eq hf hrp hep hec, Option.some.injEq]
    constructor
    · intro ⟨status, rpBdf, he, _, hr⟩ e hfind
      rw [hfind] at he
      cases he
      exact hr rfl
    · intro hright
      cases hfind : (devices.map (·.bdf)).find? (Carries hw table s · (pcieExtractBdfBus bdf))
      case none =>
        refine ⟨1, 0, rfl, iff_of_false (by decide) ?_, by simp⟩
        intro ⟨r, hr⟩
        simp only [RootPortOf, hrp, if_false] at hr
        simpa [hr.right.right.right] using List.find?_eq_none.mp hfind r hr.left
      case some e => exact ⟨0, e, rfl, iff_of_true rfl ⟨e, hright e hfind⟩, fun _ => hright e hfind⟩

-- Whatever finds a root port finds the one that the function belongs to.
theorem Hierarchy.getRootport_of_rootPortOf {r : Nat} (hfinds : FindsRootport hw table s unset devices bdf)
    (hr : RootPortOf hw table s devices bdf r) : valPcieGetRootport hw table s unset devices bdf = some (0, r) := by
  have ⟨status, rpBdf, he, hs, hright⟩ := hfinds
  have h0 := hs.mpr ⟨r, hr⟩
  rw [he, h0, h.rootPortOf_unique (hright h0) hr]

-- A function that is found downstream of a root port belongs to it: no root port is below another one.
theorem Hierarchy.rootPortOf_of_downstream {r : Nat} (hf : bdf ∈ devices.map (·.bdf)) (hm : r ∈ devices.map (·.bdf))
    (hr : IsRootPort hw table s r) (hd : valPcieGetDownstreamFunction hw table s unset devices r = (0, bdf)) :
    RootPortOf hw table s devices bdf r := by
  simp only [valPcieGetDownstreamFunction, (h.express r hm).regValue] at hd
  have ⟨hc, hseg⟩ := downstreamLoop_spec hd (by simp)
  simp only [RootPortOf]
  split_ifs with hrp
  · exact absurd hc (h.top bdf hf r hm (.inl hrp) (h.rootPort r hm hr) hseg)
  · exact ⟨hm, hr, hseg.symm, hc⟩

theorem rootport_resolved_iff (hf : bdf ∈ devices.map (·.bdf)) (hep : portType hw table s bdf ≠ rciep)
    (hec : portType hw table s bdf ≠ rcec) (unset : Unset) :
    ResolvesRootport hw table s unset devices bdf ↔ RootportUnshadowed hw table s devices bdf := by
  have hfinds := @Hierarchy.finds_iff S hw table s unset devices bdf h hf hep hec
  have hparent := @parentLoop_eq S hw table s unset devices bdf h.express
  rw [RootportUnshadowed, ← hfinds, unshadowed_iff]
  constructor
  · intro hres
    refine ⟨hres.finds, ?_⟩
    intro e hfind
    have he := hres.parent e (by rw [hparent, hfind]; rfl)
    have ⟨status, rpBdf, hget, _, hright⟩ := hres.finds
    rw [he] at hget
    cases hget
    exact hright rfl
  · intro ⟨hfinds, hright⟩
    refine ⟨hfinds, ?_, ?_⟩
    · intro rpBdf hp
      cases hfind : (devices.map (·.bdf)).find? (IsParent hw table s bdf ·)
      case none => simp [hparent, hfind] at hp
      case some e =>
        rw [hparent, hfind] at hp
        cases hp
        exact h.getRootport_of_rootPortOf hfinds (hright _ hfind)
    · intro rpBdf hm hr hd
      exact h.getRootport_of_rootPortOf hfinds (h.rootPortOf_of_downstream hf hm hr hd)

end Search

-- Two segments, each with a root port on bus 0 and an endpoint on bus 1 behind it.
def twoSegments : PcieInfoTable :=
  [{ ecamBase := 0x40000000, segmentNum := 0, startBusNum := 0, endBusNum := 1 },
   { ecamBase := 0x50000000, segmentNum := 1, startBusNum := 0, endBusNum := 1 }]

def twoTrees : Mmio Unit where
  write s _ _ := s
  read _ addr :=
    if addr / 0x100000 % 2 = 0 then
      match addr % 0x1000 with
      | 0x0C => 0x00010000
      | 0x18 => 0x00010100
      | 0x34 => 0x00000040
      | 0x40 => 0x00400010
      | _    => 0
    else
      match addr % 0x1000 with
      | 0x34 => 0x00000040
      | 0x40 => 0x00000010
      | _    => 0

def twoTreesDevices : List PcieDeviceAttr :=
  [0x00000000, 0x00010000, 0x01000000, 0x01010000].map ({ bdf := ·, rpBdf := none })

theorem twoTrees_hierarchy : Hierarchy twoTrees twoSegments () twoTreesDevices where
  distinct := by decide
  express  := by
    have : ∀ bdf ∈ twoTreesDevices.map (·.bdf),
        valPcieFindCapability twoTrees twoSegments () bdf .pcieCap cidPciecs = some (pcieSuccess, some 0x40) := by
      decide +kernel
    exact fun bdf hm => ⟨0x40, this bdf hm⟩
  rootPort := by decide +kernel
  numbered := by decide +kernel
  nested   := by
    have : ∀ a ∈ twoTreesDevices.map (·.bdf), ∀ b ∈ twoTreesDevices.map (·.bdf), a ≠ b →
        IsBridge twoTrees twoSegments () a → IsBridge twoTrees twoSegments () b →
        pcieExtractBdfSeg a ≠ pcieExtractBdfSeg b := by decide +kernel
    exact fun a ha b hb hne h₁ h₂ hs => absurd hs (this a ha b hb hne h₁ h₂)
  top      := by decide +kernel

-- The tree of the first segment in the table is searched first.
theorem twoTrees_resolved : Hierarchy twoTrees twoSegments () twoTreesDevices ∧
    0x00010000 ∈ twoTreesDevices.map (·.bdf) ∧ portType twoTrees twoSegments () 0x00010000 ≠ rciep ∧
    portType twoTrees twoSegments () 0x00010000 ≠ rcec ∧
    ResolvesRootport twoTrees twoSegments () ⟨0, fun _ => 0⟩ twoTreesDevices 0x00010000 := by
  have hf : 0x00010000 ∈ twoTreesDevices.map (·.bdf) := by decide
  have hep : portType twoTrees twoSegments () 0x00010000 ≠ rciep := by decide +kernel
  have hec : portType twoTrees twoSegments () 0x00010000 ≠ rcec := by decide +kernel
  have hright : RootPortOf twoTrees twoSegments () twoTreesDevices 0x00010000 0 := by
    rw [RootPortOf, if_neg (by decide +kernel)]
    decide +kernel
  refine ⟨twoTrees_hierarchy, hf, hep, hec, (rootport_resolved_iff twoTrees_hierarchy hf hep hec _).mpr ⟨?_, ?_⟩⟩
  · intro _
    refine unshadowed_iff.mpr ?_
    intro e he
    have hfirst : (twoTreesDevices.map (·.bdf)).find?
        (Carries twoTrees twoSegments () · (pcieExtractBdfBus 0x00010000)) = some 0 := by decide +kernel
    rw [hfirst] at he
    cases he
    exact hright
  · refine unshadowed_iff.mpr ?_
    intro e he
    have hfirst : (twoTreesDevices.map (·.bdf)).find?
        (IsParent twoTrees twoSegments () 0x00010000 ·) = some 0 := by decide +kernel
    rw [hfirst] at he
    cases he
    exact hright

-- The endpoint of the second segment is given the root port of the first one.
theorem other_segment_taken : ¬∀ (S : Type) (hw : Mmio S) (table : PcieInfoTable) (s : S) (unset : Unset)
    (devices : List PcieDeviceAttr) (bdf : Nat), Hierarchy hw table s devices → bdf ∈ devices.map (·.bdf) →
    portType hw table s bdf ≠ rciep → portType hw table s bdf ≠ rcec →
    ResolvesRootport hw table s unset devices bdf := by
  intro h
  have ⟨⟨status, rpBdf, he, _, hright⟩, _, _⟩ := h Unit twoTrees twoSegments () ⟨0, fun _ => 0⟩ twoTreesDevices
    0x01010000 twoTrees_hierarchy (by decide) (by decide +kernel) (by decide +kernel)
  have hget : valPcieGetRootport twoTrees twoSegments () ⟨0, fun _ => 0⟩ twoTreesDevices 0x01010000 =
      some (0, 0) := by decide +kernel
  rw [hget] at he
  cases he
  have hr := hright rfl
  rw [RootPortOf, if_neg (by decide +kernel)] at hr
  exact absurd hr.right.right.left (by decide)

end Pcie
