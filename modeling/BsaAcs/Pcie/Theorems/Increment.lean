import BsaAcs.Pcie.Increment
import BsaAcs.Pcie.Enumeration
import BsaAcs.Pcie.Theorems.Positions
import Mathlib.Data.List.Chain

namespace Pcie

-- The windows cover some buses each.
def ValidBuses (table : PcieInfoTable) : Prop :=
  ∀ block ∈ table, block.startBusNum ≤ block.endBusNum ∧ block.endBusNum < 256

instance (table : PcieInfoTable) : Decidable (ValidBuses table) :=
  inferInstanceAs (Decidable (∀ _ ∈ table, _))

instance (table : PcieInfoTable) : Decidable (DisjointBuses table) :=
  inferInstanceAs (Decidable (table.Pairwise _))

def PcieInfoBlock.firstBdf (block : PcieInfoBlock) : Nat :=
  pcieCreateBdf block.segmentNum block.startBusNum 0 0

-- All functions of the windows are met in order and no other, and each number is that of its function.
structure Enumerates (table : PcieInfoTable) (first : Nat) : Prop where
  visits : ∃ fuel, incrementBdfs table fuel first = some ((positions table).map (·.bdf))
  once   : ((positions table).map (·.bdf)).Nodup
  named  : ∀ p ∈ positions table,
    pcieExtractBdfSeg p.bdf = p.block.segmentNum ∧ pcieExtractBdfBus p.bdf = p.bus ∧
    pcieExtractBdfDev p.bdf = p.dev ∧ pcieExtractBdfFunc p.bdf = p.func

-- The segment fits into a function number. A window ends where the next one of its segment starts, or it is
-- the last one of its segment. Function number 0 is that of no window after the first one.
structure Sequential (table : PcieInfoTable) : Prop where
  segment : ∀ block ∈ table, block.segmentNum < 256
  next    : ∀ before block next after, table = before ++ block :: next :: after →
    (next.segmentNum = block.segmentNum ∧ next.startBusNum = block.endBusNum + 1) ∨
      ∀ later ∈ next :: after, later.segmentNum ≠ block.segmentNum
  zero    : ∀ block ∈ table.tail, ¬(block.segmentNum = 0 ∧ block.startBusNum = 0)

variable {table : PcieInfoTable}

section Run

-- What the run goes on with.
def Next (table : PcieInfoTable) (bdf next : Nat) : Prop :=
  valPcieIncrementBdf table bdf = next ∧ next ≠ 0

-- The last function that is met is the one that nothing follows.
def EndsWalk (table : PcieInfoTable) (l : List Nat) : Prop :=
  ∀ last ∈ l.getLast?, valPcieIncrementBdf table last = 0

theorem incrementBdfs_sound {fuel bdf : Nat} {l : List Nat} (h : incrementBdfs table fuel bdf = some l) :
    l.head? = some bdf ∧ l.IsChain (Next table) ∧ EndsWalk table l := by
  induction fuel generalizing bdf l
  case zero => cases h
  case succ fuel hi =>
    rw [incrementBdfs] at h
    split at h
    case isTrue hz =>
      cases h
      exact ⟨rfl, .singleton _, by simp [EndsWalk, hz]⟩
    case isFalse hz =>
      have ⟨rest, hr, he⟩ := Option.map_eq_some_iff.mp h
      have ⟨hh, hc, hl⟩ := hi hr
      subst he
      cases rest
      case nil => cases hh
      case cons next rest =>
        cases hh
        exact ⟨rfl, .cons_cons ⟨rfl, hz⟩ hc, hl⟩

theorem incrementBdfs_complete {bdf : Nat} {l : List Nat} (hc : (bdf :: l).IsChain (Next table))
    (hl : EndsWalk table (bdf :: l)) : ∃ fuel, incrementBdfs table fuel bdf = some (bdf :: l) := by
  induction l generalizing bdf
  case nil => exact ⟨1, by rw [incrementBdfs, if_pos (hl bdf rfl)]⟩
  case cons next l hi =>
    have ⟨⟨hn, hz⟩, hc⟩ := List.isChain_cons_cons.mp hc
    have ⟨fuel, hf⟩ := hi hc hl
    refine ⟨fuel + 1, ?_⟩
    rw [incrementBdfs, hn, if_neg hz, hf]
    rfl

theorem incrementBdfs_iff {bdf : Nat} {l : List Nat} (hh : l.head? = some bdf) :
    (∃ fuel, incrementBdfs table fuel bdf = some l) ↔ l.IsChain (Next table) ∧ EndsWalk table l := by
  constructor
  · intro ⟨fuel, hf⟩
    exact (incrementBdfs_sound hf).right
  · intro ⟨hc, hl⟩
    cases l
    case nil => cases hh
    case cons =>
      cases hh
      exact incrementBdfs_complete hc hl

end Run

section Step

variable {seg bus dev func : Nat} {before after : List PcieInfoBlock} {block last : PcieInfoBlock}

theorem numEcam_eq (h : table ≠ []) : valPcieGetInfo table .numEcam 0 = table.length := by
  cases table
  case nil => exact absurd rfl h
  case cons => rfl

theorem valPcieGetInfo_eq {index : Nat} (h : table[index]? = some block) :
    valPcieGetInfo table .segment index = block.segmentNum ∧ valPcieGetInfo table .startBus index = block.startBusNum ∧
    valPcieGetInfo table .endBus index = block.endBusNum := by
  simp [valPcieGetInfo, h]

-- The windows after the last one of the segment are passed over.
theorem findEcam_append (ha : ∀ block ∈ after, block.segmentNum ≠ last.segmentNum) (n : Nat) (hn : n ≤ after.length) :
    findEcam (before ++ last :: after) last.segmentNum (before.length + 1 + n) = some before.length := by
  induction n
  case zero =>
    have hl : (before ++ last :: after)[before.length]? = some last := by simp
    rw [Nat.add_zero, findEcam, (valPcieGetInfo_eq hl).left, if_pos rfl]
  case succ n hi =>
    have hg : (before ++ last :: after)[before.length + 1 + n]? = some (after.get ⟨n, hn⟩) := by
      rw [List.getElem?_append_right (by omega), show before.length + 1 + n - before.length = n + 1 by omega]
      simp
    have hne := ha _ (List.get_mem after ⟨n, hn⟩)
    rw [← Nat.add_assoc, findEcam, (valPcieGetInfo_eq hg).left, if_neg fun h => hne h.symm]
    exact hi (by omega)

theorem findEcam_eq (ha : ∀ block ∈ after, block.segmentNum ≠ last.segmentNum) :
    findEcam (before ++ last :: after) last.segmentNum (before ++ last :: after).length = some before.length := by
  have hl : (before ++ last :: after).length = before.length + 1 + after.length := by
    simp only [List.length_append, List.length_cons]
    omega
  rw [hl]
  exact findEcam_append ha after.length (Nat.le_refl _)

theorem exists_last (h : ∃ block ∈ table, block.segmentNum = seg) : ∃ before last after,
    table = before ++ last :: after ∧ last.segmentNum = seg ∧ ∀ later ∈ after, later.segmentNum ≠ seg := by
  induction table
  case nil => simp at h
  case cons first rest hi =>
    by_cases hr : ∃ block ∈ rest, block.segmentNum = seg
    case pos =>
      have ⟨before, last, after, ht, hl, ha⟩ := hi hr
      exact ⟨first :: before, last, after, by rw [ht, List.cons_append], hl, ha⟩
    case neg =>
      push Not at hr
      have ⟨block, hm, hb⟩ := h
      cases List.mem_cons.mp hm
      case inl he => exact ⟨[], first, rest, rfl, he ▸ hb, hr⟩
      case inr hm => exact absurd hb (hr block hm)

theorem pcieCreateBdf_eq_zero_iff (hb : bus < 256) (hd : dev < 32) (hf : func < 8) :
    pcieCreateBdf seg bus dev func = 0 ↔ seg % 256 = 0 ∧ bus = 0 ∧ dev = 0 ∧ func = 0 := by
  rw [pcieCreateBdf_eq hb hd hf]
  omega

-- A step, where the last window of the segment is known.
theorem increment_eq (ha : ∀ block ∈ after, block.segmentNum ≠ last.segmentNum) (hs : last.segmentNum < 256)
    (hb : bus < 256) (hd : dev < 32) (hf : func < 8) :
    valPcieIncrementBdf (before ++ last :: after) (pcieCreateBdf last.segmentNum bus dev func) =
      if func < 7 then pcieCreateBdf last.segmentNum bus dev (func + 1)
      else if dev < 31 then pcieCreateBdf last.segmentNum bus (dev + 1) 0
      else if bus < last.endBusNum then pcieCreateBdf last.segmentNum (bus + 1) 0 0
      else (after.head?.map (·.firstBdf)).getD 0 := by
  have ⟨h₁, h₂, h₃, h₄⟩ := @extract_pcieCreateBdf last.segmentNum bus dev func hb hd hf
  have hl : (before ++ last :: after)[before.length]? = some last := by simp
  rw [Nat.mod_eq_of_lt hs] at h₁
  have hn : valPcieGetInfo (before ++ last :: after) .numEcam 0 = (before ++ last :: after).length :=
    numEcam_eq (by simp)
  simp only [valPcieIncrementBdf, h₁, h₂, h₃, h₄, hn, findEcam_eq ha, (valPcieGetInfo_eq hl).right.right,
    pcieMaxFunc, pcieMaxDev]
  congr 3
  cases after
  case nil => simp
  case cons next after =>
    have hg : (before ++ last :: next :: after)[before.length + 1]? = some next := by
      rw [List.getElem?_append_right (by omega), Nat.add_sub_cancel_left]
      rfl
    have ⟨h₁, h₂, _⟩ := valPcieGetInfo_eq hg
    simp [h₁, h₂, PcieInfoBlock.firstBdf]

end Step

namespace PcieInfoBlock

def busBdfs (block : PcieInfoBlock) (bus : Nat) : List Nat :=
  functionsOfBus.map fun (dev, func) => pcieCreateBdf block.segmentNum bus dev func

def bdfs (block : PcieInfoBlock) : List Nat :=
  block.buses.flatMap block.busBdfs

def lastBdf (block : PcieInfoBlock) (bus : Nat) : Nat :=
  pcieCreateBdf block.segmentNum bus 31 7

end PcieInfoBlock

theorem map_bdf_positions (table : PcieInfoTable) : (positions table).map (·.bdf) = table.flatMap (·.bdfs) := by
  have hb : ∀ block : PcieInfoBlock, block.busBdfs = fun bus => (List.range pcieMaxDev).flatMap fun dev =>
      (List.range pcieMaxFunc).map fun func => pcieCreateBdf block.segmentNum bus dev func := by
    intro block
    funext bus
    simp only [PcieInfoBlock.busBdfs, functionsOfBus, List.map_flatMap, List.map_map, Function.comp_def]
  have ht : table.flatMap (·.bdfs) = (table.zipIdx.map Prod.fst).flatMap (·.bdfs) := by
    rw [List.zipIdx_map_fst]
  rw [ht, positions, List.map_flatMap, List.flatMap_map]
  simp only [PcieInfoBlock.bdfs, List.map_flatMap, List.map_map, hb, Function.comp_def, Position.bdf]

section Chain

variable {block : PcieInfoBlock} {bus : Nat}

-- Within a bus the counter always goes on.
theorem functionsOfBus_chain : functionsOfBus.IsChain fun (dev, func) (dev', func') => dev < 32 ∧ func < 8 ∧
    ((func < 7 ∧ dev' = dev ∧ func' = func + 1) ∨ (func = 7 ∧ dev < 31 ∧ dev' = dev + 1 ∧ func' = 0)) := by
  decide +kernel

theorem busBdfs_chain (h : block ∈ table) (hs : block.segmentNum < 256) (hb : bus < 256) :
    (block.busBdfs bus).IsChain (Next table) := by
  have ⟨before, last, after, ht, hl, ha⟩ := exists_last ⟨block, h, rfl⟩
  rw [← hl] at hs ha
  rw [PcieInfoBlock.busBdfs, List.isChain_map, ht, ← hl]
  apply functionsOfBus_chain.imp
  intro (dev, func) (dev', func') ⟨hd, hf, hn⟩
  have he := @increment_eq bus dev func before after last ha hs hb hd hf
  rw [Next, he]
  cases hn
  case inl hn =>
    have ⟨hlt, hd', hf'⟩ := hn
    subst hd' hf'
    refine ⟨if_pos hlt, fun hz => ?_⟩
    have := ((pcieCreateBdf_eq_zero_iff hb hd (by omega)).mp hz).right.right.right
    omega
  case inr hn =>
    have ⟨hlt, hlt', hd', hf'⟩ := hn
    subst hd' hf'
    refine ⟨?_, fun hz => ?_⟩
    · rw [if_neg (by omega), if_pos hlt']
    · have := ((pcieCreateBdf_eq_zero_iff hb (by omega) (by omega)).mp hz).right.right.left
      omega

theorem busBdfs_head? : (block.busBdfs bus).head? = some (pcieCreateBdf block.segmentNum bus 0 0) := by
  rw [PcieInfoBlock.busBdfs, List.head?_map]
  rfl

theorem busBdfs_getLast? : (block.busBdfs bus).getLast? = some (block.lastBdf bus) := by
  have hl : functionsOfBus.getLast? = some (31, 7) := by decide +kernel
  rw [PcieInfoBlock.busBdfs, List.getLast?_map, hl]
  rfl

theorem busBdfs_ne_nil : block.busBdfs bus ≠ [] := by
  intro h
  have := @busBdfs_head? block bus
  rw [h] at this
  cases this

-- Within a window it has to go on at the end of every bus.
theorem bdfs_chain_iff (h : block ∈ table) (hs : block.segmentNum < 256)
    (hb : block.startBusNum ≤ block.endBusNum ∧ block.endBusNum < 256) :
    block.bdfs.IsChain (Next table) ↔ ∀ bus, block.startBusNum ≤ bus → bus < block.endBusNum →
      valPcieIncrementBdf table (block.lastBdf bus) = pcieCreateBdf block.segmentNum (bus + 1) 0 0 := by
  have hn : [] ∉ block.buses.map block.busBdfs := by
    simp [busBdfs_ne_nil]
  have hc : ∀ l ∈ block.buses.map block.busBdfs, l.IsChain (Next table) := by
    intro l hl
    have ⟨bus, hm, he⟩ := List.mem_map.mp hl
    exact he ▸ busBdfs_chain h hs (by have := mem_buses.mp hm; omega)
  rw [PcieInfoBlock.bdfs, List.flatMap_def, List.isChain_flatten hn, List.isChain_map, and_iff_right hc,
    PcieInfoBlock.buses, List.isChain_iff_getElem]
  simp only [busBdfs_getLast?, busBdfs_head?, Option.mem_some_iff, forall_eq', List.length_range',
    List.getElem_range', Next]
  constructor
  · intro hi bus hl hu
    have := (hi (bus - block.startBusNum) (by omega)).left
    rwa [show block.startBusNum + 1 * (bus - block.startBusNum) = bus by omega,
      show block.startBusNum + 1 * (bus - block.startBusNum + 1) = bus + 1 by omega] at this
  · intro hi i hl
    have := hi (block.startBusNum + 1 * i) (by omega) (by omega)
    refine ⟨this, fun hz => ?_⟩
    have := ((pcieCreateBdf_eq_zero_iff (by omega) (by omega) (by omega)).mp hz).right.left
    omega

theorem bdfs_head? (hb : block.startBusNum ≤ block.endBusNum) : block.bdfs.head? = some block.firstBdf := by
  have ⟨n, hn⟩ : ∃ n, block.endBusNum + 1 - block.startBusNum = n + 1 := ⟨block.endBusNum - block.startBusNum, by omega⟩
  rw [PcieInfoBlock.bdfs, PcieInfoBlock.buses, hn, List.range'_succ, List.flatMap_cons,
    List.head?_append_of_ne_nil _ busBdfs_ne_nil, busBdfs_head?]
  rfl

theorem bdfs_getLast? (hb : block.startBusNum ≤ block.endBusNum) :
    block.bdfs.getLast? = some (block.lastBdf block.endBusNum) := by
  have hn : block.endBusNum + 1 - block.startBusNum = (block.endBusNum - block.startBusNum) + 1 := by omega
  have he : block.startBusNum + 1 * (block.endBusNum - block.startBusNum) = block.endBusNum := by omega
  rw [PcieInfoBlock.bdfs, PcieInfoBlock.buses, hn, List.range'_concat, he, List.flatMap_append]
  simp [List.getLast?_append, busBdfs_getLast?]

-- From window to window it has to go on at the end of the last bus.
theorem windows_chain_iff (hv : ValidBuses table) (hs : ∀ block ∈ table, block.segmentNum < 256) :
    (table.flatMap (·.bdfs)).IsChain (Next table) ↔
      (∀ block ∈ table, ∀ bus, block.startBusNum ≤ bus → bus < block.endBusNum →
        valPcieIncrementBdf table (block.lastBdf bus) = pcieCreateBdf block.segmentNum (bus + 1) 0 0) ∧
      ∀ before block next after, table = before ++ block :: next :: after →
        Next table (block.lastBdf block.endBusNum) next.firstBdf := by
  have hn : [] ∉ table.map (·.bdfs) := by
    intro hm
    have ⟨block, hb, he⟩ := List.mem_map.mp hm
    have := bdfs_head? (hv block hb).left
    rw [he] at this
    cases this
  rw [List.flatMap_def, List.isChain_flatten hn, List.isChain_map, List.forall_mem_map]
  apply and_congr
  · exact forall₂_congr fun block hb => bdfs_chain_iff hb (hs block hb) (hv block hb)
  · rw [List.isChain_iff_forall_rel_of_append_cons_cons]
    constructor
    · intro h before block next after ht
      have hb := (hv block (by simp [ht])).left
      have hn := (hv next (by simp [ht])).left
      exact h ht _ (bdfs_getLast? hb) _ (bdfs_head? hn)
    · intro h block next before after ht x hx y hy
      have hb := (hv block (by simp [ht])).left
      have hn := (hv next (by simp [ht])).left
      rw [bdfs_getLast? hb] at hx
      rw [bdfs_head? hn] at hy
      cases hx
      cases hy
      exact h before block next after ht

end Chain

section Windows

variable {before after : List PcieInfoBlock} {block next last : PcieInfoBlock}

-- The end of a bus, where the last window of the segment is known.
theorem increment_lastBdf (ha : ∀ later ∈ after, later.segmentNum ≠ last.segmentNum) (hs : last.segmentNum < 256)
    (hl : last.segmentNum = block.segmentNum) {bus : Nat} (hb : bus < 256) :
    valPcieIncrementBdf (before ++ last :: after) (block.lastBdf bus) =
      if bus < last.endBusNum then pcieCreateBdf block.segmentNum (bus + 1) 0 0
      else (after.head?.map (·.firstBdf)).getD 0 := by
  rw [PcieInfoBlock.lastBdf, ← hl, increment_eq ha hs hb (by decide) (by decide)]
  rfl

theorem firstBdf_ne_zero_iff (hs : block.segmentNum < 256) (hb : block.startBusNum < 256) :
    block.firstBdf ≠ 0 ↔ ¬(block.segmentNum = 0 ∧ block.startBusNum = 0) := by
  rw [Ne, PcieInfoBlock.firstBdf, pcieCreateBdf_eq_zero_iff hb (by decide) (by decide), Nat.mod_eq_of_lt hs]
  simp

theorem mem_tail_append : next ∈ (before ++ block :: next :: after).tail := by
  cases before <;> simp

-- What follows a window in a sequential table, up to the last window of its segment.
theorem Sequential.windows (h : Sequential table) (hv : ValidBuses table) {rest : List PcieInfoBlock}
    (ht : table = before ++ block :: rest) :
    ∃ between last after, block :: rest = between ++ last :: after ∧ last.segmentNum = block.segmentNum ∧
      (∀ later ∈ after, later.segmentNum ≠ last.segmentNum) ∧
      ((between = [] ∧ last = block) ∨
        block.endBusNum < last.endBusNum ∧ ∃ next rest', rest = next :: rest' ∧
          next.segmentNum = block.segmentNum ∧ next.startBusNum = block.endBusNum + 1) := by
  induction rest generalizing before block
  case nil => exact ⟨[], block, [], rfl, rfl, by simp, .inl ⟨rfl, rfl⟩⟩
  case cons next rest hi =>
    cases h.next before block next rest ht
    case inl hn =>
      have ⟨between, last, after, he, hl, ha, hc⟩ := @hi (before ++ [block]) next (by simp [ht])
      have hb := (hv next (by simp [ht])).left
      have hlt : block.endBusNum < last.endBusNum := by
        cases hc
        case inl hc =>
          rw [hc.right]
          omega
        case inr hc => omega
      exact ⟨block :: between, last, after, by rw [he, List.cons_append], hl.trans hn.left, ha,
        .inr ⟨hlt, next, rest, rfl, hn⟩⟩
    case inr hn => exact ⟨[], block, next :: rest, rfl, rfl, hn, .inl ⟨rfl, rfl⟩⟩

theorem Sequential.chain (h : Sequential table) (hv : ValidBuses table) :
    (table.flatMap (·.bdfs)).IsChain (Next table) := by
  rw [windows_chain_iff hv h.segment]
  constructor
  · intro block hm bus hl hu
    have ⟨before, rest, ht⟩ := List.append_of_mem hm
    have ⟨between, last, after, he, hs, ha, hc⟩ := h.windows hv ht
    have hb := hv block hm
    have ht' : table = (before ++ between) ++ last :: after := by rw [ht, he, List.append_assoc]
    have hlt : bus < last.endBusNum := by
      cases hc
      case inl hc => exact hc.right ▸ hu
      case inr hc => omega
    rw [ht', increment_lastBdf ha (hs ▸ h.segment block hm) hs (by omega), if_pos hlt]
  · intro before block next after ht
    have hm : block ∈ table := by simp [ht]
    have ⟨between, last, after', he, hs, ha, hc⟩ := h.windows hv ht
    have ht' : table = (before ++ between) ++ last :: after' := by rw [ht, he, List.append_assoc]
    have hm' : next ∈ table := by simp [ht]
    have hb := hv next hm'
    have hz : next.firstBdf ≠ 0 := by
      rw [firstBdf_ne_zero_iff (h.segment next hm') (by omega)]
      exact h.zero next (ht ▸ mem_tail_append)
    refine ⟨?_, hz⟩
    rw [ht', increment_lastBdf ha (hs ▸ h.segment block hm) hs (hv block hm).right]
    cases hc
    case inl hc =>
      have ⟨hb, hl⟩ := hc
      subst hb hl
      cases he
      rw [if_neg (Nat.lt_irrefl _)]
      rfl
    case inr hc =>
      have ⟨hlt, next', rest', hr, hn, hb⟩ := hc
      cases hr
      rw [if_pos hlt, PcieInfoBlock.firstBdf, hn, hb]

theorem Sequential.ends (h : Sequential table) (hv : ValidBuses table) : EndsWalk table (table.flatMap (·.bdfs)) := by
  intro x hx
  cases List.eq_nil_or_concat table
  case inl he =>
    rw [he] at hx
    cases hx
  case inr he =>
    have ⟨init, last, he⟩ := he
    rw [List.concat_eq_append] at he
    have hm : last ∈ table := by simp [he]
    have hb := hv last hm
    rw [he, List.flatMap_append, List.flatMap_singleton, List.getLast?_append, bdfs_getLast? hb.left] at hx
    cases hx
    rw [he, increment_lastBdf (by simp) (h.segment last hm) rfl hb.right, if_neg (Nat.lt_irrefl _)]
    rfl

-- Two windows that start at the same bus of a segment are one.
theorem append_eq_of_start (hv : ValidBuses table) (hd : DisjointBuses table) {before' after' : List PcieInfoBlock}
    {next' : PcieInfoBlock} (h : table = before ++ next :: after) (h' : table = before' ++ next' :: after')
    (hs : next.segmentNum = next'.segmentNum) (hb : next.startBusNum = next'.startBusNum) :
    before = before' ∧ next = next' ∧ after = after' := by
  have hn := (hv next (by simp [h])).left
  have hn' := (hv next' (by simp [h'])).left
  have hg : table[before.length]? = some next := by simp [h]
  have hg' : table[before'.length]? = some next' := by simp [h']
  have ⟨hl, hg⟩ := List.getElem?_eq_some_iff.mp hg
  have ⟨hl', hg'⟩ := List.getElem?_eq_some_iff.mp hg'
  have hp := List.pairwise_iff_getElem.mp hd
  have he : before.length = before'.length := by
    rcases Nat.lt_trichotomy before.length before'.length with hlt | he | hlt
    · have := hp _ _ hl hl' hlt
      rw [hg, hg'] at this
      have := this hs
      omega
    · exact he
    · have := hp _ _ hl' hl hlt
      rw [hg, hg'] at this
      have := this hs.symm
      omega
  have ⟨h₁, h₂⟩ := List.append_inj (h.symm.trans h') he
  have ⟨h₂, h₃⟩ := List.cons_eq_cons.mp h₂
  exact ⟨h₁, h₂, h₃⟩

theorem pcieCreateBdf_inj {seg bus seg' bus' : Nat} (hs : seg < 256) (hs' : seg' < 256) (hb : bus < 256)
    (hb' : bus' < 256) (h : pcieCreateBdf seg bus 0 0 = pcieCreateBdf seg' bus' 0 0) : seg = seg' ∧ bus = bus' := by
  rw [pcieCreateBdf_eq hb (by decide) (by decide), pcieCreateBdf_eq hb' (by decide) (by decide)] at h
  omega

theorem exists_before_of_mem_tail (h : block ∈ table.tail) :
    ∃ before first after, table = before ++ first :: block :: after := by
  cases table
  case nil => cases h
  case cons head rest =>
    have ⟨pre, post, hr⟩ := List.append_of_mem h
    have ⟨before, first, hb⟩ : ∃ before first, head :: pre = before ++ [first] :=
      ⟨_, _, (List.dropLast_append_getLast (List.cons_ne_nil head pre)).symm⟩
    refine ⟨before, first, post, ?_⟩
    rw [List.tail_cons] at hr
    calc head :: rest = (head :: pre) ++ block :: post := by rw [hr, List.cons_append]
      _ = before ++ first :: block :: post := by rw [hb, List.append_assoc, List.singleton_append]

theorem Sequential.of_chain (hv : ValidBuses table) (hd : DisjointBuses table)
    (hs : ∀ block ∈ table, block.segmentNum < 256) (hc : (table.flatMap (·.bdfs)).IsChain (Next table)) :
    Sequential table := by
  have ⟨_, hw⟩ := (windows_chain_iff hv hs).mp hc
  refine ⟨hs, ?_, ?_⟩
  · intro before block next after ht
    have ⟨hi, hz⟩ := hw before block next after ht
    have hm : block ∈ table := by simp [ht]
    have hm' : next ∈ table := by simp [ht]
    have hb := hv block hm
    have hb' := hv next hm'
    have ⟨before', last, after', ht', hl, ha⟩ := exists_last ⟨block, hm, rfl⟩
    have hbl := hv last (by simp [ht'])
    rw [← hl] at ha
    rw [ht', increment_lastBdf ha (hl ▸ hs block hm) hl hb.right] at hi
    split at hi
    case isTrue hlt =>
      have ⟨h₁, h₂⟩ := pcieCreateBdf_inj (hs block hm) (hs next hm') (by omega) (by omega) hi
      exact .inl ⟨h₁.symm, h₂.symm⟩
    case isFalse =>
      cases after'
      case nil => exact absurd hi.symm hz
      case cons next' after' =>
        -- The window that the step goes to is the next one, so the window it leaves is the last of its segment.
        have hn := hv next' (by simp [ht'])
        have ⟨h₁, h₂⟩ := pcieCreateBdf_inj (hs next' (by simp [ht'])) (hs next hm') (by omega) (by omega) hi
        have ⟨_, h₃, h₄⟩ := @append_eq_of_start table (before ++ [block]) after next hv hd (before' ++ [last]) after' next'
          (by simp [ht]) (by simp [ht']) h₁.symm h₂.symm
        rw [h₃, h₄, ← hl]
        exact .inr ha
  · intro block hm
    have ⟨before, first, after, ht⟩ := exists_before_of_mem_tail hm
    have hm : block ∈ table := by simp [ht]
    have hb := hv block hm
    exact (firstBdf_ne_zero_iff (hs block hm) (by omega)).mp (hw before first block after ht).right

end Windows

section Named

variable {p q : Position}

theorem Position.In.extract (h : p.In table) (hv : ValidBuses table) :
    pcieExtractBdfSeg p.bdf = p.block.segmentNum % 256 ∧ pcieExtractBdfBus p.bdf = p.bus ∧
    pcieExtractBdfDev p.bdf = p.dev ∧ pcieExtractBdfFunc p.bdf = p.func :=
  extract_pcieCreateBdf (Nat.lt_of_le_of_lt h.last (hv p.block h.mem).right) h.dev h.func

-- The segment is all that can be lost.
theorem named_iff (hv : ValidBuses table) :
    (∀ p ∈ positions table, pcieExtractBdfSeg p.bdf = p.block.segmentNum ∧ pcieExtractBdfBus p.bdf = p.bus ∧
      pcieExtractBdfDev p.bdf = p.dev ∧ pcieExtractBdfFunc p.bdf = p.func) ↔
      ∀ block ∈ table, block.segmentNum < 256 := by
  constructor
  · intro h block hm
    have ⟨ecam, he⟩ := List.mem_iff_getElem?.mp hm
    have hp : Position.In table ⟨ecam, block, block.startBusNum, 0, 0⟩ :=
      ⟨he, Nat.le_refl _, (hv block hm).left, Nat.zero_lt_succ _, Nat.zero_lt_succ _⟩
    have hs := (h _ (mem_positions.mpr hp)).left
    rw [(hp.extract hv).left] at hs
    rw [← hs]
    exact Nat.mod_lt _ (by decide)
  · intro h p hm
    have hp := mem_positions.mp hm
    have he := hp.extract hv
    rwa [Nat.mod_eq_of_lt (h p.block hp.mem)] at he

-- Two positions of which the numbers have the same fields are one.
theorem bdf_ne_of_lt (hd : DisjointBuses table) (hp : p.In table) (hq : q.In table) (hl : p.Lt q)
    (hs : p.block.segmentNum = q.block.segmentNum) (hb : p.bus = q.bus) (hv : p.dev = q.dev) : p.func ≠ q.func := by
  intro hf
  cases hl
  case inl hl =>
    have ⟨h₁, g₁⟩ := List.getElem?_eq_some_iff.mp hp.window
    have ⟨h₂, g₂⟩ := List.getElem?_eq_some_iff.mp hq.window
    have hc := List.pairwise_iff_getElem.mp hd _ _ h₁ h₂ hl
    rw [g₁, g₂] at hc
    have := hc hs
    have := hp.start
    have := hp.last
    have := hq.start
    have := hq.last
    omega
  case inr hl => omega

theorem bdfs_nodup (hv : ValidBuses table) (hd : DisjointBuses table)
    (hs : ∀ block ∈ table, block.segmentNum < 256) : ((positions table).map (·.bdf)).Nodup := by
  have hn := (named_iff hv).mpr hs
  apply List.pairwise_map.mpr
  apply (positions_sorted table).imp_of_mem
  intro p q hp hq hl he
  have ⟨h₁, h₂, h₃, h₄⟩ := hn p hp
  have ⟨h₁', h₂', h₃', h₄'⟩ := hn q hq
  rw [he] at h₁ h₂ h₃ h₄
  exact bdf_ne_of_lt hd (mem_positions.mp hp) (mem_positions.mp hq) hl (h₁.symm.trans h₁') (h₂.symm.trans h₂')
    (h₃.symm.trans h₃') (h₄.symm.trans h₄')

end Named

theorem positions_head? (hn : table ≠ []) (hv : ValidBuses table) :
    ((positions table).map (·.bdf)).head? = some (table.head hn).firstBdf := by
  rw [map_bdf_positions]
  cases table
  case nil => exact absurd rfl hn
  case cons block rest =>
    have hb := bdfs_head? (hv block List.mem_cons_self).left
    rw [List.flatMap_cons, List.head?_append, hb]
    rfl

theorem increment_bdf_enumerates_iff (hn : table ≠ []) (hv : ValidBuses table) (hd : DisjointBuses table) :
    Enumerates table (table.head hn).firstBdf ↔ Sequential table := by
  have hr := @incrementBdfs_iff table _ _ (positions_head? hn hv)
  constructor
  · intro h
    have ⟨hc, _⟩ := hr.mp h.visits
    rw [map_bdf_positions] at hc
    exact .of_chain hv hd ((named_iff hv).mp h.named) hc
  · intro h
    refine ⟨hr.mpr ?_, bdfs_nodup hv hd h.segment, (named_iff hv).mpr h.segment⟩
    rw [map_bdf_positions]
    exact ⟨h.chain hv, h.ends hv⟩

-- Two windows side by side in segment 0, and one in the middle of segment 1.
def sequentialWindows : PcieInfoTable :=
  [{ ecamBase := 0x40000000, segmentNum := 0, startBusNum := 1, endBusNum := 15 },
    { ecamBase := 0x50000000, segmentNum := 0, startBusNum := 16, endBusNum := 255 },
    { ecamBase := 0x60000000, segmentNum := 1, startBusNum := 32, endBusNum := 63 }]

theorem sequentialWindows_sequential : Sequential sequentialWindows where
  segment := by decide
  zero    := by decide
  next    := by
    intro before block next after h
    cases before
    case nil =>
      cases h
      exact .inl (by decide)
    case cons head before =>
      cases before
      case nil =>
        cases h
        exact .inr (by decide)
      case cons head' before =>
        have := congrArg List.length h
        simp [sequentialWindows] at this
        omega

theorem sequential_windows_enumerated :
    (sequentialWindows ≠ [] ∧ ValidBuses sequentialWindows ∧ DisjointBuses sequentialWindows) ∧
    (sequentialWindows.head (by decide)).firstBdf = 0x10000 ∧ Enumerates sequentialWindows 0x10000 := by
  have hf : (sequentialWindows.head (by decide)).firstBdf = 0x10000 := by decide
  have hv : ValidBuses sequentialWindows := by decide
  have hd : DisjointBuses sequentialWindows := by decide
  refine ⟨⟨by decide, hv, hd⟩, hf, ?_⟩
  rw [← hf]
  exact (increment_bdf_enumerates_iff (by decide) hv hd).mpr sequentialWindows_sequential

-- Two windows of one segment with a bus between them.
def windowsApart : PcieInfoTable :=
  [{ ecamBase := 0x40000000, segmentNum := 0, startBusNum := 0, endBusNum := 0 },
    { ecamBase := 0x50000000, segmentNum := 0, startBusNum := 2, endBusNum := 2 }]

theorem windows_apart_left :
    (windowsApart ≠ [] ∧ ValidBuses windowsApart ∧ DisjointBuses windowsApart) ∧
    valPcieIncrementBdf windowsApart 0x1F07 = 0x10000 ∧ ¬Enumerates windowsApart 0 := by
  have hv : ValidBuses windowsApart := by decide
  have hd : DisjointBuses windowsApart := by decide
  refine ⟨⟨by decide, hv, hd⟩, by decide, fun h => ?_⟩
  have ⟨fuel, hf⟩ := h.visits
  have ⟨_, hc, _⟩ := incrementBdfs_sound hf
  rw [map_bdf_positions] at hc
  have hs := Sequential.of_chain hv hd (by decide) hc
  cases hs.next [] _ _ [] rfl
  case inl hn => exact absurd hn (by decide)
  case inr hn => exact absurd (hn _ List.mem_cons_self) (by decide)

end Pcie
