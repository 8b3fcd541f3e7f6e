import BsaAcs.Pcie.DeviceTable
import BsaAcs.Pcie.Theorems.Capability
import BsaAcs.Pcie.Theorems.Address

namespace Pcie

-- A place for a function in one of the windows, named by the index of the window.
structure Position where
  ecam  : Nat
  block : PcieInfoBlock
  bus   : Nat
  dev   : Nat
  func  : Nat
deriving DecidableEq

namespace Position

-- The order of window, bus, device and function.
def Lt (p q : Position) : Prop :=
  p.ecam < q.ecam ∨ p.ecam = q.ecam ∧ (p.bus < q.bus ∨ p.bus = q.bus ∧
    (p.dev < q.dev ∨ p.dev = q.dev ∧ p.func < q.func))

structure In (table : PcieInfoTable) (p : Position) : Prop where
  window : table[p.ecam]? = some p.block
  start  : p.block.startBusNum ≤ p.bus
  last   : p.bus ≤ p.block.endBusNum
  dev    : p.dev < pcieMaxDev
  func   : p.func < pcieMaxFunc

def bdf (p : Position) : Nat :=
  pcieCreateBdf p.block.segmentNum p.bus p.dev p.func

def func0 (p : Position) : Position :=
  { p with func := 0 }

end Position

def positions (table : PcieInfoTable) : List Position :=
  table.zipIdx.flatMap fun (block, ecam) =>
    block.buses.flatMap fun bus =>
      (List.range pcieMaxDev).flatMap fun dev =>
        (List.range pcieMaxFunc).map fun func => { ecam, block, bus, dev, func }

variable {table : PcieInfoTable} {p q : Position}

theorem mem_buses {block : PcieInfoBlock} {bus : Nat} :
    bus ∈ block.buses ↔ block.startBusNum ≤ bus ∧ bus ≤ block.endBusNum := by
  simp only [PcieInfoBlock.buses, List.mem_range'_1]
  omega

theorem mem_positions : p ∈ positions table ↔ p.In table := by
  simp only [positions, List.mem_flatMap, List.mem_map, List.mem_range, mem_buses, Prod.exists,
    List.mk_mem_zipIdx_iff_getElem?]
  constructor
  · intro ⟨block, ecam, hw, bus, ⟨h₁, h₂⟩, dev, h₃, func, h₄, he⟩
    subst he
    exact ⟨hw, h₁, h₂, h₃, h₄⟩
  · intro ⟨hw, h₁, h₂, h₃, h₄⟩
    exact ⟨_, _, hw, _, ⟨h₁, h₂⟩, _, h₃, _, h₄, rfl⟩

theorem positions_sorted (table : PcieInfoTable) : (positions table).Pairwise Position.Lt := by
  refine List.pairwise_flatMap.mpr ⟨?windows, ?across⟩
  case windows =>
    intro (block, ecam) _
    refine List.pairwise_flatMap.mpr ⟨?buses, ?_⟩
    case buses =>
      intro bus _
      refine List.pairwise_flatMap.mpr ⟨?devices, ?_⟩
      case devices =>
        intro dev _
        exact List.pairwise_map.mpr (List.pairwise_lt_range.imp fun h => by simp [Position.Lt, h])
      · refine List.pairwise_lt_range.imp fun h p hp q hq => ?_
        simp only [List.mem_map] at hp hq
        have ⟨_, _, hp⟩ := hp
        have ⟨_, _, hq⟩ := hq
        simp [←hp, ←hq, Position.Lt, h]
    · refine (List.pairwise_lt_range' 1).imp fun h p hp q hq => ?_
      simp only [List.mem_flatMap, List.mem_map] at hp hq
      have ⟨_, _, _, _, hp⟩ := hp
      have ⟨_, _, _, _, hq⟩ := hq
      simp [←hp, ←hq, Position.Lt, h]
  case across =>
    have : table.zipIdx.Pairwise fun x y => x.2 < y.2 := by
      apply List.pairwise_map.mp
      rw [List.zipIdx_map_snd]
      exact List.pairwise_lt_range' 1
    refine this.imp fun h p hp q hq => ?_
    simp only [List.mem_flatMap, List.mem_map] at hp hq
    have ⟨_, _, _, _, _, _, hp⟩ := hp
    have ⟨_, _, _, _, _, _, hq⟩ := hq
    simp [←hp, ←hq, Position.Lt, h]

section Bdf

variable {seg bus dev func : Nat}

-- The word has the fields side by side, with the low 8 bits of the segment on top.
theorem pcieCreateBdf_eq (hb : bus < 256) (hd : dev < 32) (hf : func < 8) :
    pcieCreateBdf seg bus dev func =
      seg % 256 * 2 ^ 24 + bus * 2 ^ 16 + dev * 2 ^ 8 + func := by
  have h₁ : bus &&& 0xFF = bus := (Nat.and_two_pow_sub_one_eq_mod bus 8).trans (Nat.mod_eq_of_lt hb)
  have h₂ : dev &&& 0xFF = dev :=
    (Nat.and_two_pow_sub_one_eq_mod dev 8).trans (Nat.mod_eq_of_lt (by omega))
  have h₃ : dev <<< 8 ||| func = dev * 2 ^ 8 + func := by
    rw [←Nat.shiftLeft_add_eq_or_of_lt (show func < 2 ^ 8 by omega), Nat.shiftLeft_eq]
  have h₄ : bus <<< 16 ||| (dev * 2 ^ 8 + func) = bus * 2 ^ 16 + (dev * 2 ^ 8 + func) := by
    rw [←Nat.shiftLeft_add_eq_or_of_lt (show _ < 2 ^ 16 by omega), Nat.shiftLeft_eq]
  have h₅ : seg <<< 24 ||| (bus * 2 ^ 16 + (dev * 2 ^ 8 + func)) =
      seg * 2 ^ 24 + (bus * 2 ^ 16 + (dev * 2 ^ 8 + func)) := by
    rw [←Nat.shiftLeft_add_eq_or_of_lt (show _ < 2 ^ 24 by omega), Nat.shiftLeft_eq]
  rw [pcieCreateBdf, h₁, h₂, Nat.or_assoc, Nat.or_assoc, h₃, h₄, h₅]
  omega

theorem extract_pcieCreateBdf (hb : bus < 256) (hd : dev < 32) (hf : func < 8) :
    pcieExtractBdfSeg (pcieCreateBdf seg bus dev func) = seg % 256 ∧
    pcieExtractBdfBus (pcieCreateBdf seg bus dev func) = bus ∧
    pcieExtractBdfDev (pcieCreateBdf seg bus dev func) = dev ∧
    pcieExtractBdfFunc (pcieCreateBdf seg bus dev func) = func := by
  simp only [pcieCreateBdf_eq hb hd hf, extractBdfSeg_eq, extractBdfBus_eq, extractBdfDev_eq,
    extractBdfFunc_eq]
  omega

end Bdf

-- The tables that the PAL creates have bus numbers of 8 bits.
theorem endBusNum_lt {mcfg : List McfgEntry} {block : PcieInfoBlock}
    (h : block ∈ palPcieCreateInfoTable mcfg) : block.endBusNum < 256 := by
  have ⟨entry, _, he⟩ := List.mem_map.mp h
  exact he ▸ entry.endBusNumber.isLt

namespace Position

section Config

variable {S : Type} (hw : Mmio S) (s : S)

-- The config space of the function at a position of a window.
def word (p : Position) (offset : Nat) : BitVec 32 :=
  palMmioRead hw s ((p.block.ecamBase + cfgAddr p.bus p.dev p.func + offset) % 2 ^ 64)

def Answers (p : Position) : Prop :=
  p.word hw s type01Vidr ≠ pcieUnknownResponse

def HostBridge (p : Position) : Prop :=
  (p.word hw s type01Ridr >>> 24 &&& 0xFF).toNat = 0x06 ∧
  (p.word hw s type01Ridr >>> 16 &&& 0xFF).toNat = 0x00

-- The capability list of the function.
def Capabilities (p : Position) (l : List Nat) : Prop :=
  CapList (p.word hw s) (p.word hw s type01Cpr &&& 0xFF).toNat l

def HasPciecs (p : Position) : Prop :=
  ∃ l, p.Capabilities hw s l ∧ ∃ q ∈ l, isCap (p.word hw s) cidPciecs q = true

-- The functions that the table of devices is for.
def Expected (p : Position) : Prop :=
  p.Answers hw s ∧ p.func0.Answers hw s ∧ ¬p.HostBridge hw s ∧ p.HasPciecs hw s

-- The functions that the scan takes: a capabilities pointer that reads as all ones passes for a
-- successful search.
def Listable (p : Position) : Prop :=
  p.Answers hw s ∧ ¬p.HostBridge hw s ∧
    (p.word hw s type01Cpr = pcieUnknownResponse ∨ p.HasPciecs hw s)

end Config

-- The function number of `p` has 8 bits for the segment and so stands for a function of `q`.
structure Reaches (p q : Position) : Prop where
  segment : q.block.segmentNum = p.block.segmentNum % 256
  bus     : q.bus = p.bus
  dev     : q.dev = p.dev
  func    : q.func = p.func

theorem Reaches.func0 (h : Reaches p q) : Reaches p.func0 q.func0 :=
  ⟨h.segment, h.bus, h.dev, rfl⟩

theorem In.func0 (h : p.In table) : p.func0.In table :=
  ⟨h.window, h.start, h.last, h.dev, show 0 < pcieMaxFunc by decide⟩

theorem In.mem (h : p.In table) : p.block ∈ table :=
  List.mem_of_getElem? h.window

variable {mcfg : List McfgEntry}

theorem In.bus_lt (h : p.In (palPcieCreateInfoTable mcfg)) : p.bus < 256 :=
  Nat.lt_of_le_of_lt h.last (endBusNum_lt h.mem)

theorem In.extract_bdf (h : p.In (palPcieCreateInfoTable mcfg)) :
    pcieExtractBdfSeg p.bdf = p.block.segmentNum % 256 ∧ pcieExtractBdfBus p.bdf = p.bus ∧
    pcieExtractBdfDev p.bdf = p.dev ∧ pcieExtractBdfFunc p.bdf = p.func :=
  extract_pcieCreateBdf h.bus_lt h.dev h.func

theorem Reaches.covered (hr : Reaches p q) (hp : p.In (palPcieCreateInfoTable mcfg))
    (hq : q.In (palPcieCreateInfoTable mcfg)) :
    Covered (palPcieCreateInfoTable mcfg) p.bdf q.block ∧
    bdfCfgAddr p.bdf = cfgAddr q.bus q.dev q.func := by
  have ⟨h₁, h₂, h₃, h₄⟩ := hp.extract_bdf
  refine ⟨⟨Nat.mod_lt _ (by decide), h₃ ▸ hp.dev, h₄ ▸ hp.func, hq.mem, ?_⟩, ?_⟩
  · rw [PcieInfoBlock.covers_iff, h₁, h₂, ←hr.bus]
    exact ⟨hq.start, hq.last, hr.segment.symm⟩
  · rw [bdfCfgAddr, h₂, h₃, h₄, hr.bus, hr.dev, hr.func]

variable {S : Type} {hw : Mmio S} {s : S}

theorem Reaches.read_eq (hr : Reaches p q) (hd : DisjointBuses (palPcieCreateInfoTable mcfg))
    (hz : ∀ block ∈ palPcieCreateInfoTable mcfg, block.ecamBase ≠ 0)
    (hp : p.In (palPcieCreateInfoTable mcfg)) (hq : q.In (palPcieCreateInfoTable mcfg)) (offset : Nat) :
    valPcieReadCfg hw (palPcieCreateInfoTable mcfg) s p.bdf offset = some (q.word hw s offset) := by
  have ⟨hc, ha⟩ := hr.covered hp hq
  simp only [valPcieReadCfg, hc.configAddr_eq hd, hz q.block hq.mem, if_false, ha, Option.map_some, word]

end Position
end Pcie
