import BsaAcs.Pcie.Exerciser
import Mathlib.Tactic.Ring

namespace Pcie

section Bdf

variable {bdf seg bus dev func : Nat}

theorem extractBdfSeg_eq : pcieExtractBdfSeg bdf = bdf / 2 ^ 24 % 2 ^ 8 := by
  rw [pcieExtractBdfSeg, Nat.shiftRight_eq_div_pow]
  exact Nat.and_two_pow_sub_one_eq_mod _ 8

theorem extractBdfBus_eq : pcieExtractBdfBus bdf = bdf / 2 ^ 16 % 2 ^ 8 := by
  rw [pcieExtractBdfBus, Nat.shiftRight_eq_div_pow]
  exact Nat.and_two_pow_sub_one_eq_mod _ 8

theorem extractBdfDev_eq : pcieExtractBdfDev bdf = bdf / 2 ^ 8 % 2 ^ 8 := by
  rw [pcieExtractBdfDev, Nat.shiftRight_eq_div_pow]
  exact Nat.and_two_pow_sub_one_eq_mod _ 8

theorem extractBdfFunc_eq : pcieExtractBdfFunc bdf = bdf % 2 ^ 8 :=
  Nat.and_two_pow_sub_one_eq_mod _ 8

-- The fields of a word of 32 bits determine it.
theorem bdf_ext {bdf' : Nat} (hb : bdf < 2 ^ 32) (hb' : bdf' < 2 ^ 32)
    (h₁ : pcieExtractBdfSeg bdf = pcieExtractBdfSeg bdf')
    (h₂ : pcieExtractBdfBus bdf = pcieExtractBdfBus bdf')
    (h₃ : pcieExtractBdfDev bdf = pcieExtractBdfDev bdf')
    (h₄ : pcieExtractBdfFunc bdf = pcieExtractBdfFunc bdf') : bdf = bdf' := by
  simp only [extractBdfSeg_eq, extractBdfBus_eq, extractBdfDev_eq, extractBdfFunc_eq] at h₁ h₂ h₃ h₄
  omega

theorem cfgAddr_eq : cfgAddr bus dev func = bus * 2 ^ 20 + dev * 2 ^ 15 + func * 2 ^ 12 := by
  simp only [cfgAddr, pcieMaxDev, pcieMaxFunc]
  ring

end Bdf

-- The windows of a segment cover different buses.
def DisjointBuses (table : PcieInfoTable) : Prop :=
  table.Pairwise fun block block' => block.segmentNum = block'.segmentNum →
    block.endBusNum < block'.startBusNum ∨ block'.endBusNum < block.startBusNum

-- A valid function number and the window it lies in.
structure Covered (table : PcieInfoTable) (bdf : Nat) (block : PcieInfoBlock) : Prop where
  lt     : bdf < 2 ^ 32
  dev    : pcieExtractBdfDev bdf < pcieMaxDev
  func   : pcieExtractBdfFunc bdf < pcieMaxFunc
  mem    : block ∈ table
  covers : block.covers (pcieExtractBdfSeg bdf) (pcieExtractBdfBus bdf) = true

namespace PcieInfoBlock

variable {block : PcieInfoBlock} {segment bus : Nat}

theorem covers_iff : block.covers segment bus = true ↔
    block.startBusNum ≤ bus ∧ bus ≤ block.endBusNum ∧ segment = block.segmentNum := by
  simp [covers, and_assoc]

-- The memory of a window, in which the config spaces of its buses lie.
def memStart (block : PcieInfoBlock) : Nat :=
  block.ecamBase + block.startBusNum * 2 ^ 20

def memEnd (block : PcieInfoBlock) : Nat :=
  block.ecamBase + (block.endBusNum + 1) * 2 ^ 20

def Apart (block block' : PcieInfoBlock) : Prop :=
  block.memEnd ≤ block'.memStart ∨ block'.memEnd ≤ block.memStart

end PcieInfoBlock

variable {table : PcieInfoTable} {bdf offset : Nat} {block : PcieInfoBlock}

theorem DisjointBuses.find?_eq {segment bus : Nat} (hd : DisjointBuses table) (hm : block ∈ table)
    (hc : block.covers segment bus = true) : table.find? (·.covers segment bus) = some block := by
  induction table
  case nil => cases hm
  case cons head rest hi =>
    have ⟨hh, ht⟩ := List.pairwise_cons.mp hd
    cases hf : head.covers segment bus
    case false =>
      have hr : block ∈ rest := by
        cases hm
        case head   => simp [hc] at hf
        case tail h => exact h
      simpa [List.find?_cons, hf] using hi ht hr
    case true =>
      cases hm
      case head   => simp [hf]
      case tail hr =>
        have ⟨h₁, h₂, h₃⟩ := PcieInfoBlock.covers_iff.mp hf
        have ⟨h₄, h₅, h₆⟩ := PcieInfoBlock.covers_iff.mp hc
        have := hh block hr (h₃ ▸ h₆)
        omega

namespace Covered

theorem bus_lt (bdf : Nat) : pcieExtractBdfBus bdf < pcieMaxBus := by
  rw [extractBdfBus_eq]
  exact Nat.mod_lt _ (by decide)

theorem bdfCfgAddr_lt (hb : Covered table bdf block) : bdfCfgAddr bdf + 4096 ≤ 2 ^ 28 := by
  have h₁ := bus_lt bdf
  have h₂ := hb.dev
  have h₃ := hb.func
  simp only [pcieMaxBus, pcieMaxDev, pcieMaxFunc] at h₁ h₂ h₃
  rw [bdfCfgAddr, cfgAddr_eq]
  omega

theorem configAddr_eq (hd : DisjointBuses table) (hb : Covered table bdf block) :
    configAddr table bdf offset =
      if block.ecamBase = 0 then none else some ((block.ecamBase + bdfCfgAddr bdf + offset) % 2 ^ 64) := by
  have h₁ := bus_lt bdf
  have h₂ := hb.dev
  have h₃ := hb.func
  have : ¬(pcieExtractBdfBus bdf ≥ pcieMaxBus ∨ pcieExtractBdfDev bdf ≥ pcieMaxDev ∨
    pcieExtractBdfFunc bdf ≥ pcieMaxFunc) := by omega
  simp only [configAddr, this, if_false, ecamBase, hd.find?_eq hb.mem hb.covers, bdfCfgAddr]

-- The config space lies in the memory of the window.
theorem mem_window (hb : Covered table bdf block) :
    block.memStart ≤ block.ecamBase + bdfCfgAddr bdf ∧
    block.ecamBase + bdfCfgAddr bdf + 4096 ≤ block.memEnd := by
  have ⟨h₁, h₂, _⟩ := PcieInfoBlock.covers_iff.mp hb.covers
  have h₃ := hb.dev
  have h₄ := hb.func
  simp only [pcieMaxDev, pcieMaxFunc] at h₃ h₄
  simp only [PcieInfoBlock.memStart, PcieInfoBlock.memEnd, bdfCfgAddr, cfgAddr_eq]
  omega

-- Two functions of one window are 4 KB apart.
theorem bdfCfgAddr_apart {bdf' : Nat} (hb : Covered table bdf block) (hb' : Covered table bdf' block)
    (hne : bdf' ≠ bdf) :
    bdfCfgAddr bdf + 4096 ≤ bdfCfgAddr bdf' ∨ bdfCfgAddr bdf' + 4096 ≤ bdfCfgAddr bdf := by
  have hseg : pcieExtractBdfSeg bdf = pcieExtractBdfSeg bdf' := by
    rw [(PcieInfoBlock.covers_iff.mp hb.covers).right.right,
      (PcieInfoBlock.covers_iff.mp hb'.covers).right.right]
  have h₁ := hb.dev
  have h₂ := hb.func
  have h₃ := hb'.dev
  have h₄ := hb'.func
  simp only [pcieMaxDev, pcieMaxFunc] at h₁ h₂ h₃ h₄
  by_contra hc
  simp only [bdfCfgAddr, cfgAddr_eq] at hc
  exact hne (bdf_ext hb'.lt hb.lt hseg.symm (by omega) (by omega) (by omega))

end Covered

-- The accessors, the VAL and the PAL of the exerciser use one address for the function.
def Agree {S : Type} (hw : Mmio S) (s : S) (mcfg : List McfgEntry) (unset : BitVec 32) (bdf : Nat) : Prop :=
  let table := palPcieCreateInfoTable mcfg
  ∃ addr, configAddr table bdf 0 = some addr ∧ valPcieGetBdfConfigAddr table bdf = addr ∧
    exerciserInitAddr hw table s unset bdf = some addr ∧ palExerciserConfigAddr mcfg bdf = addr

-- No other function has its config space within 4 KB, if the windows do not overlap.
def Separate (table : PcieInfoTable) (bdf : Nat) (block : PcieInfoBlock) : Prop :=
  ∀ bdf' block' addr addr', Covered table bdf' block' → bdf' ≠ bdf →
    block' = block ∨ block.Apart block' → block.memEnd ≤ 2 ^ 64 → block'.memEnd ≤ 2 ^ 64 →
    configAddr table bdf 0 = some addr → configAddr table bdf' 0 = some addr' →
    addr + 4096 ≤ addr' ∨ addr' + 4096 ≤ addr

theorem DisjointBuses.separate (hd : DisjointBuses table) (hb : Covered table bdf block) :
    Separate table bdf block := by
  intro bdf' block' addr addr' hb' hne hw hf hf' ha ha'
  have hm := hb.mem_window
  have hm' := hb'.mem_window
  rw [hb.configAddr_eq hd] at ha
  rw [hb'.configAddr_eq hd] at ha'
  split at ha
  case isTrue => cases ha
  split at ha'
  case isTrue => cases ha'
  simp only [Option.some.injEq, Nat.add_zero] at ha ha'
  rw [Nat.mod_eq_of_lt (by omega)] at ha ha'
  cases hw
  case inl he =>
    subst he
    have := hb.bdfCfgAddr_apart hb' hne
    omega
  case inr ha =>
    simp only [PcieInfoBlock.Apart] at ha
    omega

-- The window lies below 4 GB, and the window that the VAL selects for the exerciser and the first
-- window of all have the same base, as far as 32 bits show it.
def SameLowBase {S : Type} (hw : Mmio S) (s : S) (mcfg : List McfgEntry) (unset : BitVec 32) (bdf : Nat)
    (block : PcieInfoBlock) : Prop :=
  let table := palPcieCreateInfoTable mcfg
  block.ecamBase ≠ 0 ∧ block.ecamBase < 2 ^ 32 ∧
  (∃ selected, (table.take 256).find? (selects hw table s unset bdf) = some selected ∧
    selected.ecamBase % 2 ^ 32 = block.ecamBase) ∧
  (∃ first, mcfg.head? = some first ∧ first.baseAddress.toNat % 2 ^ 32 = block.ecamBase)

section Agreement

variable {S : Type} {hw : Mmio S} {s : S} {mcfg : List McfgEntry} {unset : BitVec 32}

theorem ecamBase_lt (hm : block ∈ palPcieCreateInfoTable mcfg) : block.ecamBase < 2 ^ 64 := by
  have ⟨entry, _, he⟩ := List.mem_map.mp hm
  exact he ▸ entry.baseAddress.isLt

theorem palExerciserConfigAddr_eq (hc : bdfCfgAddr bdf + 4096 ≤ 2 ^ 28) :
    palExerciserConfigAddr mcfg bdf = palPcieGetMcfgEcam mcfg % 2 ^ 32 + bdfCfgAddr bdf := by
  rw [palExerciserConfigAddr, palExerciserGetPcieConfigOffset]
  have := Nat.mod_lt (palPcieGetMcfgEcam mcfg) (show 2 ^ 32 > 0 by decide)
  exact Nat.mod_eq_of_lt (by omega)

-- The exerciser's address tells the window that was selected, unless that is at 0.
theorem exerciserInitAddr_eq_some_iff {base : Nat} (hc : bdfCfgAddr bdf + 4096 ≤ 2 ^ 28) (hb : base ≠ 0) :
    exerciserInitAddr hw table s unset bdf = some (base + bdfCfgAddr bdf) ↔
      ∃ selected, (table.take 256).find? (selects hw table s unset bdf) = some selected ∧
        selected.ecamBase % 2 ^ 32 = base := by
  have hn (n : Nat) : (n % 2 ^ 32 + bdfCfgAddr bdf) % 2 ^ 64 = n % 2 ^ 32 + bdfCfgAddr bdf := by
    have := Nat.mod_lt n (show 2 ^ 32 > 0 by decide)
    exact Nat.mod_eq_of_lt (by omega)
  cases hf : (table.take 256).find? (selects hw table s unset bdf)
  case some selected =>
    simp only [exerciserInitAddr, valPcieGetEcamBase, hf, Option.map_some, hn, Option.some.injEq,
      exists_eq_left', Nat.add_right_cancel_iff]
  case none =>
    simp only [exerciserInitAddr, valPcieGetEcamBase, hf, reduceCtorEq, false_and, exists_false, iff_false]
    split
    case isTrue  => simp only [Option.map_some, hn, Option.some.injEq]; omega
    case isFalse => simp

-- All the addresses of a function agree exactly if the windows look the same to the code that keeps
-- bases in 32 bits and to the code that looks at the first window. Different functions always have
-- their config spaces apart.
theorem config_addresses_iff (hd : DisjointBuses (palPcieCreateInfoTable mcfg))
    (hb : Covered (palPcieCreateInfoTable mcfg) bdf block) :
    Agree hw s mcfg unset bdf ∧ Separate (palPcieCreateInfoTable mcfg) bdf block ↔
      SameLowBase hw s mcfg unset bdf block := by
  have hc := hb.bdfCfgAddr_lt
  have hl := ecamBase_lt hb.mem
  have ha : configAddr (palPcieCreateInfoTable mcfg) bdf 0 = _ := hb.configAddr_eq hd
  obtain ⟨first, rest, rfl⟩ : ∃ first rest, mcfg = first :: rest := by
    cases mcfg
    case nil => cases hb.mem
    case cons first rest => exact ⟨first, rest, rfl⟩
  have hp : palExerciserConfigAddr (first :: rest) bdf = _ := palExerciserConfigAddr_eq hc
  constructor
  · intro ⟨⟨addr, h₁, _, h₃, h₄⟩, _⟩
    rw [ha] at h₁
    split at h₁
    case isTrue => cases h₁
    case isFalse h0 =>
      simp only [Option.some.injEq, Nat.add_zero] at h₁
      simp only [hp, palPcieGetMcfgEcam] at h₄
      have := Nat.mod_lt first.baseAddress.toNat (show 2 ^ 32 > 0 by decide)
      have he : block.ecamBase = first.baseAddress.toNat % 2 ^ 32 := by omega
      have hs : addr = block.ecamBase + bdfCfgAddr bdf := by omega
      exact ⟨h0, by omega, (exerciserInitAddr_eq_some_iff hc h0).mp (hs ▸ h₃), first, rfl, he.symm⟩
  · intro ⟨h0, hlow, hs, f, hf, he⟩
    cases hf
    have hm : (block.ecamBase + bdfCfgAddr bdf) % 2 ^ 64 = block.ecamBase + bdfCfgAddr bdf :=
      Nat.mod_eq_of_lt (by omega)
    refine ⟨⟨block.ecamBase + bdfCfgAddr bdf, ?_, ?_, ?_, ?_⟩, hd.separate hb⟩
    · simp only [ha, h0, if_false, Nat.add_zero, hm]
    · simp only [valPcieGetBdfConfigAddr, ha, h0, if_false, Nat.add_zero, hm, Option.getD_some]
    · exact (exerciserInitAddr_eq_some_iff hc h0).mpr hs
    · simp only [hp, palPcieGetMcfgEcam, he]

end Agreement

-- A window of 256 buses at the given base, and memory that reads as zero.
def oneWindow (base : BitVec 64) : List McfgEntry :=
  [{ baseAddress := base, pciSegmentGroupNumber := 0, startBusNumber := 0, endBusNumber := 255 }]

def zeroMmio : Mmio Unit where
  read _ _ := 0
  write s _ _ := s

theorem oneWindow_covered (base : BitVec 64) :
    DisjointBuses (palPcieCreateInfoTable (oneWindow base)) ∧
    Covered (palPcieCreateInfoTable (oneWindow base)) 0x10800
      { ecamBase := base.toNat, segmentNum := 0, startBusNum := 0, endBusNum := 255 } := by
  refine ⟨List.pairwise_singleton .., by decide, by decide, by decide, ?_, ?_⟩
  · simp [palPcieCreateInfoTable, oneWindow]
  · simp [PcieInfoBlock.covers, pcieExtractBdfSeg, pcieExtractBdfBus]

theorem low_window_agrees :
    Agree zeroMmio () (oneWindow 0x40000000) 0 0x10800 ∧
    Separate (palPcieCreateInfoTable (oneWindow 0x40000000)) 0x10800
      { ecamBase := 0x40000000, segmentNum := 0, startBusNum := 0, endBusNum := 255 } := by
  have ⟨hd, hb⟩ := oneWindow_covered 0x40000000
  exact (config_addresses_iff hd hb).mpr ⟨by decide, by decide, ⟨_, rfl, rfl⟩, ⟨_, rfl, rfl⟩⟩

-- With the window at 256 GB the exerciser code works at the address that 32 bits leave of it.
theorem high_window_disagrees :
    ¬∀ (mcfg : List McfgEntry) (bdf : Nat) (block : PcieInfoBlock) (unset : BitVec 32),
      DisjointBuses (palPcieCreateInfoTable mcfg) →
      Covered (palPcieCreateInfoTable mcfg) bdf block →
      Agree zeroMmio () mcfg unset bdf ∧ Separate (palPcieCreateInfoTable mcfg) bdf block := by
  intro h
  have ⟨hd, hb⟩ := oneWindow_covered 0x4010000000
  have ⟨⟨addr, h₁, _, _, h₄⟩, _⟩ := h _ _ _ 0 hd hb
  have ha : configAddr (palPcieCreateInfoTable (oneWindow 0x4010000000)) 0x10800 0 =
      some 0x4010140000 := by decide
  have hp : palExerciserConfigAddr (oneWindow 0x4010000000) 0x10800 = 0x10140000 := by decide
  simp only [ha, Option.some.injEq] at h₁
  omega

end Pcie
