import BsaAcs.Info.Memory
import Mathlib.Tactic

namespace MemInfo

section Max

-- The region is above 0 and above the ends of the regions before it that stand themselves.
def Stands (l : List MemInfoBlock) (i : Nat) : Prop :=
  ∃ block, l[i]? = some block ∧ 0 < block.phyAddr ∧
    ∀ j, (hj : j < i) → Stands l j → ∀ block', l[j]? = some block' → block'.stop < block.phyAddr
termination_by i

-- The running value of the search.
def raised (addr : Nat) (block : MemInfoBlock) : Nat :=
  if block.phyAddr > addr then block.stop else addr

variable {l : List MemInfoBlock} {table : MemoryInfoTable} {i addr r : Nat}

theorem run_maxBody : Scan.run maxBody i l addr = .inl (l.foldl raised addr) := by
  induction l generalizing i addr
  case nil => rfl
  case cons block l hi =>
    rw [Scan.run, List.foldl_cons, raised, maxBody]
    by_cases h : block.phyAddr > addr
    case pos => simpa only [if_pos h] using hi
    case neg => simpa only [if_neg h] using hi

-- The search ends if the table has no more entries than the index has values.
theorem valGetMaxMemory_iff :
    (∃ fuel, valGetMaxMemory table fuel = some r) ↔
      table.info.length < indexSize ∧ r = table.info.foldl raised 0 := by
  have hleaves (hl : table.info.length < indexSize) :
      ∃ n, Loop.Leaves (Scan.step indexSize maxBody id table.info) n (0, 0) (table.info.foldl raised 0) :=
    Scan.leaves_of_all hl run_maxBody
  constructor
  case mp =>
    intro ⟨fuel, h⟩
    have ⟨n, _, hn⟩ := Loop.Leaves.of_run h
    by_cases hl : table.info.length < indexSize
    case pos =>
      have ⟨m, hm⟩ := hleaves hl
      exact ⟨hl, (hn.deterministic hm).right⟩
    case neg =>
      have ⟨_, _, block, addr, _, hb⟩ := Scan.leaves_inr (by omega) (by decide) hn
      rw [maxBody] at hb
      split at hb <;> cases hb
  case mpr =>
    intro ⟨hl, hr⟩
    have ⟨n, hn⟩ := hleaves hl
    exact ⟨n, hr ▸ hn.run le_rfl⟩

-- Before each entry the running value is the greatest end of the regions that stand, or 0.
theorem foldl_raised_lt_iff (hs : ∀ block ∈ l, block.phyAddr + block.size < 2 ^ 64) (hi : i ≤ l.length) :
    ((l.take i).foldl raised 0 < addr) ↔
      0 < addr ∧ ∀ j < i, Stands l j → ∀ block, l[j]? = some block → block.stop < addr := by
  induction i generalizing addr
  case zero => simp
  case succ i hind =>
    have hb : l[i]? = some l[i] := List.getElem?_eq_getElem hi
    have hstop : l[i].phyAddr ≤ l[i].stop := by
      have := hs _ (List.getElem_mem hi)
      rw [MemInfoBlock.stop, Nat.mod_eq_of_lt this]
      omega
    have hstands : Stands l i ↔ (l.take i).foldl raised 0 < l[i].phyAddr := by
      rw [hind (by omega), Stands]
      simp [hb]
    rw [List.take_succ_eq_append_getElem hi, List.foldl_append, List.foldl_cons, List.foldl_nil, raised]
    split
    case isTrue ht =>
      constructor
      case mp =>
        intro hlt
        have hlow := (hind (by omega)).mp ht
        refine ⟨by omega, ?_⟩
        intro j hj hst block hbl
        by_cases he : j = i
        case pos =>
          subst he
          cases hb.symm.trans hbl
          exact hlt
        case neg =>
          have := hlow.right j (by omega) hst block hbl
          omega
      case mpr =>
        intro ⟨_, h⟩
        exact h i (by omega) (hstands.mpr ht) _ hb
    case isFalse hf =>
      rw [hind (by omega)]
      refine and_congr_right fun _ => ⟨fun h j hj hst => ?_, fun h j hj => h j (by omega)⟩
      by_cases he : j = i
      case pos => exact absurd (hstands.mp (he ▸ hst)) hf
      case neg => exact h j (by omega) hst

-- The greatest of the ends, and 0 only for a table without an end above it.
structure IsMaxEnd (l : List MemInfoBlock) (r : Nat) : Prop where
  upper    : ∀ block ∈ l, block.phyAddr + block.size ≤ r
  attained : r ≠ 0 → ∃ block ∈ l, block.phyAddr + block.size = r

variable (hs : ∀ block ∈ l, block.phyAddr + block.size < 2 ^ 64)
include hs

theorem stop_eq {block : MemInfoBlock} (hb : block ∈ l) : block.stop = block.phyAddr + block.size :=
  Nat.mod_eq_of_lt (hs block hb)

theorem foldl_raised_lt_iff_all :
    l.foldl raised 0 < addr ↔
      0 < addr ∧ ∀ j < l.length, Stands l j → ∀ block, l[j]? = some block → block.stop < addr := by
  rw [←foldl_raised_lt_iff hs le_rfl, List.take_length]

-- A value above 0 is the end of a region that stands.
theorem exists_stands_of_foldl (h0 : l.foldl raised 0 ≠ 0) :
    ∃ i block, l[i]? = some block ∧ Stands l i ∧ l.foldl raised 0 ≤ block.phyAddr + block.size := by
  by_contra hc
  apply lt_irrefl (l.foldl raised 0)
  refine (foldl_raised_lt_iff_all hs).mpr ⟨Nat.pos_of_ne_zero h0, fun j _ hst block hb => ?_⟩
  rw [stop_eq hs (List.mem_of_getElem? hb)]
  by_contra hge
  exact hc ⟨j, block, hb, hst, by omega⟩

theorem le_foldl_raised {block : MemInfoBlock} (hb : l[i]? = some block) (hst : Stands l i) :
    block.phyAddr + block.size ≤ l.foldl raised 0 := by
  by_contra hc
  have hi : i < l.length := (List.getElem?_eq_some_iff.mp hb).1
  have hlt := ((foldl_raised_lt_iff_all hs).mp (Nat.lt_of_not_le hc)).right i hi hst block hb
  rw [stop_eq hs (List.mem_of_getElem? hb)] at hlt
  exact lt_irrefl _ hlt

theorem isMaxEnd_foldl_iff :
    IsMaxEnd l (l.foldl raised 0) ↔
      (∀ block ∈ l, block.phyAddr + block.size = 0) ∨
      ∃ i block, l[i]? = some block ∧ Stands l i ∧
        ∀ other ∈ l, other.phyAddr + other.size ≤ block.phyAddr + block.size := by
  constructor
  case mp =>
    intro hm
    by_cases h0 : l.foldl raised 0 = 0
    case pos =>
      left
      intro block hb
      have := hm.upper block hb
      omega
    case neg =>
      right
      have ⟨i, block, hb, hst, hle⟩ := exists_stands_of_foldl hs h0
      exact ⟨i, block, hb, hst, fun other ho => (hm.upper other ho).trans hle⟩
  case mpr =>
    intro h
    cases h
    case inl hz =>
      have h0 : l.foldl raised 0 = 0 := by
        by_contra h0
        have ⟨_, block, hb, _, hle⟩ := exists_stands_of_foldl hs h0
        have := hz block (List.mem_of_getElem? hb)
        omega
      exact ⟨fun block hb => (hz block hb).trans_le (Nat.zero_le _), fun h => absurd h0 h⟩
    case inr h =>
      have ⟨i, block, hb, hst, hmax⟩ := h
      have hge := le_foldl_raised hs hb hst
      constructor
      case upper    => exact fun other ho => (hmax other ho).trans hge
      case attained =>
        intro h0
        have ⟨_, block', hb', _, hle⟩ := exists_stands_of_foldl hs h0
        have := hmax block' (List.mem_of_getElem? hb')
        exact ⟨block, List.mem_of_getElem? hb, by omega⟩

end Max

-- An entry is only looked at if it starts above the end that was found last, so that the greatest end is
-- missed if no region with it stands.
theorem max_memory_iff (table : MemoryInfoTable) (hs : ∀ block ∈ table.info, block.phyAddr + block.size < 2 ^ 64) :
    (∃ fuel r, valGetMaxMemory table fuel = some r ∧ IsMaxEnd table.info r) ↔
      table.info.length < indexSize ∧
      ((∀ block ∈ table.info, block.phyAddr + block.size = 0) ∨
        ∃ i block, table.info[i]? = some block ∧ Stands table.info i ∧
          ∀ other ∈ table.info, other.phyAddr + other.size ≤ block.phyAddr + block.size) := by
  rw [←isMaxEnd_foldl_iff hs]
  constructor
  case mp =>
    intro ⟨fuel, r, hr, hm⟩
    have ⟨hl, he⟩ := valGetMaxMemory_iff.mp ⟨fuel, hr⟩
    exact ⟨hl, he ▸ hm⟩
  case mpr =>
    intro ⟨hl, hm⟩
    have ⟨fuel, hr⟩ := valGetMaxMemory_iff.mpr ⟨hl, rfl⟩
    exact ⟨fuel, _, hr, hm⟩

-- Two regions with a gap between them.
theorem max_memory_of_gap :
    let table : MemoryInfoTable := {
      info    := [⟨.device, 0x10000000, 0, 0x1000, 0⟩, ⟨.normal, 0x80000000, 0, 0x1000, 0⟩]
      noneEnd := by decide
    }
    ∃ fuel r, valGetMaxMemory table fuel = some r ∧ IsMaxEnd table.info r := by
  intro table
  have hs : ∀ block ∈ table.info, block.phyAddr + block.size < 2 ^ 64 := by decide
  refine (max_memory_iff table hs).mpr ⟨by decide, .inr ⟨1, ⟨.normal, 0x80000000, 0, 0x1000, 0⟩, rfl, ?_, by decide⟩⟩
  rw [Stands]
  refine ⟨_, rfl, by decide, fun j hj _ block hb => ?_⟩
  obtain rfl : j = 0 := by omega
  cases hb
  decide

-- Two regions without a gap between them: the end of the first one is returned.
theorem adjacent_region_missed :
    let table : MemoryInfoTable := {
      info    := [⟨.normal, 0x80000000, 0, 0x1000, 0⟩, ⟨.normal, 0x80001000, 0, 0x1000, 0⟩]
      noneEnd := by decide
    }
    valGetMaxMemory table 3 = some 0x80001000 ∧ ¬IsMaxEnd table.info 0x80001000 := by
  refine ⟨by decide, fun h => ?_⟩
  exact absurd (h.upper ⟨.normal, 0x80001000, 0, 0x1000, 0⟩ (by decide)) (by decide)

section Index

-- Where the entries of a type are.
def positions (table : MemoryInfoTable) (type : MemInfoType) : List Nat :=
  table.info.findIdxs (fun block => block.type = type)

def IndexReturns (table : MemoryInfoTable) (type : MemInfoType) (inst q : Nat) : Prop :=
  ∃ fuel, valMemoryGetEntryIndex table fuel type inst = some q

def AddrReturns (table : MemoryInfoTable) (type : MemInfoType) (inst attr : Nat) (out : Nat × Nat) : Prop :=
  ∃ fuel, valMemoryGetAddr table fuel type inst attr = some out

variable {l : List MemInfoBlock} {table : MemoryInfoTable} {type : MemInfoType} {i inst attr p q : Nat}

theorem run_entryBody :
    Scan.run (entryBody type) i l inst =
      match (l.findIdxs (fun block => block.type = type) i)[inst]? with
      | some p => .inr p
      | none   => .inl (inst - l.countP (fun block => block.type = type)) := by
  induction l generalizing i inst
  case nil => rfl
  case cons block l hi =>
    rw [Scan.run, entryBody, List.findIdxs_cons, List.countP_cons]
    by_cases ht : block.type = type
    case neg => simp [ht, hi]
    case pos =>
      cases inst
      case zero => simp [ht]
      case succ inst => simp [ht, hi]

theorem IndexReturns.unique (h : IndexReturns table type inst p) (h' : IndexReturns table type inst q) : p = q := by
  have ⟨_, h⟩ := h
  have ⟨_, h'⟩ := h'
  exact Loop.run_unique h h'

-- A position that the index can hold is found, whatever comes after it.
theorem indexReturns_of_position (hp : (positions table type)[inst]? = some p) (hs : p < indexSize) :
    IndexReturns table type inst p := by
  have hfound : ((table.info.take indexSize).findIdxs (fun block => block.type = type))[inst]? = some p := by
    have hlt : p < table.info.length := List.lt_add_of_mem_findIdxs p (List.mem_of_getElem? hp)
    rw [positions, ←List.take_append_drop indexSize table.info, List.findIdxs_append, List.getElem?_append] at hp
    split at hp
    case isTrue => exact hp
    case isFalse =>
      have hge := List.ge_of_mem_findIdxs p (List.mem_of_getElem? hp)
      rw [List.length_take] at hge
      omega
  have hrun : Scan.run (entryBody type) 0 (table.info.take indexSize) inst = .inr p := by
    rw [run_entryBody, hfound]
  exact (Scan.leaves_of_take hrun).imp fun _ hn => hn.run le_rfl

theorem indexReturns_notFound (hn : (positions table type)[inst]? = none) (hl : table.info.length < indexSize) :
    IndexReturns table type inst notFound := by
  have hrun : Scan.run (entryBody type) 0 table.info inst =
      .inl (inst - table.info.countP (fun block => block.type = type)) := by
    rw [positions] at hn
    rw [run_entryBody, hn]
  exact (Scan.leaves_of_all hl hrun).imp fun _ hn => hn.run le_rfl

-- In a table that the index runs around in, it is that of an entry of the type.
theorem IndexReturns.of_long (h : IndexReturns table type inst q) (hl : indexSize ≤ table.info.length) :
    q < indexSize ∧ ∃ block, table.info[q]? = some block ∧ block.type = type := by
  have ⟨_, h⟩ := h
  have ⟨_, _, hl'⟩ := Loop.Leaves.of_run h
  have ⟨i, hi, block, s, hb, hr⟩ := Scan.leaves_inr hl (by decide) hl'
  rw [entryBody] at hr
  split at hr
  case isTrue ht =>
    split at hr
    · cases hr
      exact ⟨hi, block, hb, ht⟩
    · cases hr
  case isFalse => cases hr

theorem addrReturns_iff (ht : type = .device ∨ type = .normal) {out : Nat × Nat} :
    AddrReturns table type inst attr out ↔
      ∃ i, IndexReturns table type inst i ∧
        out = if i ≠ notFound then
            match table.info[i]? with
            | some block => (block.phyAddr, block.flags)
            | none       => (0, attr)
          else (0, attr) := by
  have hv (fuel : Nat) : valMemoryGetAddr table fuel type inst attr =
      (valMemoryGetEntryIndex table fuel type inst).map fun i =>
        if i ≠ notFound then
          match table.info[i]? with
          | some block => (block.phyAddr, block.flags)
          | none       => (0, attr)
        else (0, attr) := by
    rcases ht with rfl | rfl <;> rfl
  constructor
  case mp =>
    intro ⟨fuel, h⟩
    rw [hv, Option.map_eq_some_iff] at h
    have ⟨i, hi, he⟩ := h
    exact ⟨i, ⟨fuel, hi⟩, he.symm⟩
  case mpr =>
    intro ⟨i, ⟨fuel, hi⟩, he⟩
    refine ⟨fuel, ?_⟩
    rw [hv, hi, he, Option.map_some]

theorem addrReturns_of_index (ht : type = .device ∨ type = .normal) (hi : IndexReturns table type inst i)
    (hn : i ≠ notFound) {block : MemInfoBlock} (hb : table.info[i]? = some block) :
    AddrReturns table type inst attr (block.phyAddr, block.flags) :=
  (addrReturns_iff ht).mpr ⟨i, hi, by simp [hn, hb]⟩

-- The word that stands for no entry is an index like any other.
theorem addrReturns_notFound (ht : type = .device ∨ type = .normal) {out : Nat × Nat}
    (hi : IndexReturns table type inst notFound) :
    AddrReturns table type inst attr out ↔ out = (0, attr) := by
  rw [addrReturns_iff ht]
  constructor
  case mp =>
    intro ⟨i, hi', he⟩
    rw [hi'.unique hi] at he
    simpa using he
  case mpr => exact fun h => ⟨notFound, hi, by simpa using h⟩

-- Each number gives the entry of the type at that place in the table, with its address and its flags, and
-- the numbers past the last one give 0 and leave `attr`.
def Enumerates (table : MemoryInfoTable) (type : MemInfoType) : Prop :=
  ∀ k < indexSize, match (positions table type)[k]? with
    | some p => IndexReturns table type k p ∧
        ∀ attr, ∃ block, table.info[p]? = some block ∧ AddrReturns table type k attr (block.phyAddr, block.flags)
    | none   => ∀ attr, AddrReturns table type k attr (0, attr)

theorem mem_positions : p ∈ positions table type ↔ ∃ block, table.info[p]? = some block ∧ block.type = type := by
  rw [positions, List.mem_findIdxs_iff_exists_getElem_pos]
  constructor
  case mp =>
    intro ⟨hp, ht⟩
    exact ⟨_, List.getElem?_eq_getElem hp, of_decide_eq_true ht⟩
  case mpr =>
    intro ⟨block, hb, ht⟩
    have ⟨hp, he⟩ := List.getElem?_eq_some_iff.mp hb
    exact ⟨hp, by simp [he, ht]⟩

-- The positions go up, by one at least.
theorem position_add_le {d : Nat} (hp : (positions table type)[inst]? = some p)
    (hq : (positions table type)[inst + d]? = some q) : p + d ≤ q := by
  induction d generalizing q
  case zero => simp_all
  case succ d hi =>
    have ⟨hlt, he⟩ := List.getElem?_eq_some_iff.mp hq
    have hd : (positions table type)[inst + d]? = some (positions table type)[inst + d] :=
      List.getElem?_eq_getElem (by omega)
    have hs : (positions table type)[inst + d] < (positions table type)[inst + (d + 1)] :=
      List.pairwise_iff_getElem.mp List.pairwise_findIdxs (inst + d) (inst + (d + 1)) _ hlt (by omega)
    have := hi hd
    omega

theorem le_of_position (hp : (positions table type)[inst]? = some p) : inst ≤ p := by
  have ⟨hlt, _⟩ := List.getElem?_eq_some_iff.mp hp
  have h0 : (positions table type)[0]? = some (positions table type)[0] := List.getElem?_eq_getElem (by omega)
  have := position_add_le h0 ((Nat.zero_add inst).symm ▸ hp)
  omega

namespace Enumerates

variable (ht : type = .device ∨ type = .normal) (h : Enumerates table type)
include ht h

-- The entry at the position that stands for none is not found.
theorem notFound_free : notFound ∉ positions table type := by
  intro hm
  have ⟨k, hk, he⟩ := List.mem_iff_getElem.mp hm
  have hp : (positions table type)[k]? = some notFound := List.getElem?_eq_some_iff.mpr ⟨hk, he⟩
  have hlt : k < indexSize := (le_of_position hp).trans_lt (by decide)
  have hr := h k hlt
  rw [hp] at hr
  have ⟨block, _, ha⟩ := hr.right 0
  have ⟨block', hb', ha'⟩ := hr.right (block.flags + 1)
  have h0 := (addrReturns_notFound ht hr.left).mp ha
  have h1 := (addrReturns_notFound ht hr.left).mp ha'
  simp_all

-- No number is past the last one if the index runs around in the table.
theorem position_of_long (hl : indexSize ≤ table.info.length) {k : Nat} (hk : k < indexSize) :
    ∃ p < indexSize, (positions table type)[k]? = some p := by
  have hr := h k hk
  cases hp : (positions table type)[k]?
  case some p =>
    rw [hp] at hr
    exact ⟨p, (hr.left.of_long hl).left, rfl⟩
  case none =>
    rw [hp] at hr
    have ⟨i, hi, _⟩ := (addrReturns_iff ht).mp (hr 0)
    have ⟨_, block, hb, hbt⟩ := hi.of_long hl
    have hn : i ≠ notFound := fun he => notFound_free ht h (he ▸ mem_positions.mpr ⟨block, hb, hbt⟩)
    have ⟨j, hj, he⟩ := (addrReturns_iff ht).mp (hr (block.flags + 1))
    rw [hj.unique hi] at he
    simp [hn, hb] at he

-- Then all the entries up to the last value of the index are of the type, the one that stands for none too.
theorem length_lt : table.info.length < indexSize := by
  by_contra hl
  have hl : indexSize ≤ table.info.length := by omega
  have ⟨p, _, hp⟩ := position_of_long ht h hl (show notFound < indexSize by decide)
  have ⟨q, hq, hlast⟩ := position_of_long ht h hl (show notFound + (indexSize - 1 - notFound) < indexSize by decide)
  have hle := position_add_le hp hlast
  have hge := le_of_position hp
  have he : p = notFound := by
    rw [indexSize] at hle hq
    rw [notFound] at hle hge ⊢
    omega
  exact notFound_free ht h (he ▸ List.mem_of_getElem? hp)

end Enumerates

end Index

-- The enumeration is right as long as no entry of the type is at the place that stands for none, in the
-- tables that the index gets to the end of.
theorem enumerates_iff (table : MemoryInfoTable) (type : MemInfoType) (ht : type = .device ∨ type = .normal) :
    Enumerates table type ↔
      table.info.length < indexSize ∧ ∀ block, table.info[notFound]? = some block → block.type ≠ type := by
  constructor
  case mp =>
    intro h
    refine ⟨h.length_lt ht, fun block hb hbt => ?_⟩
    exact h.notFound_free ht (mem_positions.mpr ⟨block, hb, hbt⟩)
  case mpr =>
    intro ⟨hl, hf⟩ k _
    cases hp : (positions table type)[k]?
    case none => exact fun attr => (addrReturns_notFound ht (indexReturns_notFound hp hl)).mpr rfl
    case some p =>
      have ⟨block, hb, hbt⟩ := mem_positions.mp (List.mem_of_getElem? hp)
      have hlt : p < table.info.length := (List.getElem?_eq_some_iff.mp hb).1
      have hi := indexReturns_of_position hp (hlt.trans hl)
      have hn : p ≠ notFound := fun he => hf block (he ▸ hb) hbt
      exact ⟨hi, fun attr => ⟨block, hb, addrReturns_of_index ht hi hn hb⟩⟩

theorem enumerates_device :
    Enumerates ⟨[⟨.normal, 0x80000000, 0, 0x1000, 1⟩, ⟨.device, 0x10000000, 0, 0x1000, 2⟩], by decide⟩ .device :=
  (enumerates_iff _ .device (.inl rfl)).mpr ⟨by decide, by decide⟩

-- The 256th region of normal memory is not found by its number.
theorem entry_255_not_found :
    let table : MemoryInfoTable := {
      info    := List.replicate 256 ⟨.normal, 0x80000000, 0, 0x1000, 1⟩
      noneEnd := fun block hb => List.eq_of_mem_replicate hb ▸ by decide
    }
    (positions table .normal)[255]? = some 255 ∧
    valMemoryGetEntryIndex table 256 .normal 255 = some 255 ∧
    valMemoryGetAddr table 256 .normal 255 7 = some (0, 7) ∧
    ¬Enumerates table .normal := by
  intro table
  have hindex : valMemoryGetEntryIndex table 256 .normal 255 = some notFound := by decide +kernel
  have haddr : valMemoryGetAddr table 256 .normal 255 7 = some (0, 7) := by
    simp only [valMemoryGetAddr, hindex]
    rfl
  refine ⟨by decide +kernel, hindex, haddr, fun h => ?_⟩
  exact h.notFound_free (.inr rfl) (by decide +kernel)

end MemInfo
