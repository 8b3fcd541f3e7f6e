import BsaAcs.Info.Madt
import BsaAcs.Iovirt.Theorems.Raw
import BsaAcs.Dt.Theorems.Watchdog

-- When the walks over the MADT and the search for the cells of an interrupt end.

namespace Madt

open Iovirt (Bytes)

variable {madt : Bytes}

-- The structures from `p` on have lengths other than 0, and the last one ends below 4 GB.
inductive Structures (madt : Bytes) : Nat → Prop
  | done {p} : (tableLength madt ≤ p) → (p < 2 ^ 32) → Structures madt p
  | next {p} : (p < tableLength madt) → (0 < entryLength madt p) → Structures madt (p + entryLength madt p) →
      Structures madt p

-- The walk ends, and the entries it has read start inside of the table.
def WalksRight {S : Type*} (madt : Bytes) (run : Nat → Option (Walk S)) : Prop :=
  ∃ fuel w, run fuel = some w ∧ ∀ e ∈ w.read, e < tableLength madt

theorem tableLength_lt (madt : Bytes) : tableLength madt < 2 ^ 32 :=
  Bytes.uint32_lt _

theorem entryLength_lt (madt : Bytes) (p : Nat) : entryLength madt p < 2 ^ 8 :=
  (madt (p + 1)).toNat_lt

section

variable {S : Type*} {fill : Nat → S → S} {w w' r : Walk S} {n p : Nat}

theorem step_inl (fill : Nat → S → S) (hl : (w.length + entryLength madt w.entry) % 2 ^ 32 < tableLength madt) :
    step madt fill w = .inl {
      entry  := w.entry + entryLength madt w.entry
      length := (w.length + entryLength madt w.entry) % 2 ^ 32
      read   := w.read ++ [w.entry]
      filled := fill w.entry w.filled } :=
  if_pos hl

theorem step_inr (hl : tableLength madt ≤ (w.length + entryLength madt w.entry) % 2 ^ 32) :
    step madt fill w = .inr {
      entry  := w.entry + entryLength madt w.entry
      length := (w.length + entryLength madt w.entry) % 2 ^ 32
      read   := w.read ++ [w.entry]
      filled := fill w.entry w.filled } :=
  if_neg (by simpa using hl)

-- What has been read stays recorded, and the entry that the walk has come to is read.
theorem read_of_leaves (h : Loop.Leaves (step madt fill) n w r) : w.entry ∈ r.read ∧ ∀ e ∈ w.read, e ∈ r.read := by
  induction h
  case now w r he =>
    by_cases hl : (w.length + entryLength madt w.entry) % 2 ^ 32 < tableLength madt
    case pos =>
      rw [step_inl fill hl] at he
      cases he
    case neg =>
      rw [step_inr (by omega)] at he
      cases he
      exact ⟨List.mem_append_right _ (List.mem_singleton_self _), fun _ he => List.mem_append_left _ he⟩
  case next w w' r n he _ ih =>
    by_cases hl : (w.length + entryLength madt w.entry) % 2 ^ 32 < tableLength madt
    case pos =>
      rw [step_inl fill hl] at he
      cases he
      have ⟨_, hr⟩ := ih
      exact ⟨hr _ (List.mem_append_right _ (List.mem_singleton_self _)), fun _ he => hr _ (List.mem_append_left _ he)⟩
    case neg =>
      rw [step_inr (by omega)] at he
      cases he

theorem leaves_of_structures (fill : Nat → S → S) (h : Structures madt p) (hp : p < tableLength madt)
    (he : w.entry = p) (hl : w.length = p) (hr : ∀ e ∈ w.read, e < tableLength madt) :
    ∃ n r, Loop.Leaves (step madt fill) n w r ∧ ∀ e ∈ r.read, e < tableLength madt := by
  have hT := tableLength_lt madt
  induction h generalizing w
  case done h _ => omega
  case next p _ _ h ih =>
    have hr' : ∀ e ∈ w.read ++ [w.entry], e < tableLength madt := by
      intro e hm
      rcases List.mem_append.mp hm with hm | hm
      · exact hr e hm
      · rwa [List.mem_singleton.mp hm, he]
    by_cases hq : p + entryLength madt p < tableLength madt
    case pos =>
      have hm : (w.length + entryLength madt w.entry) % 2 ^ 32 = p + entryLength madt p := by
        rw [he, hl]
        exact Nat.mod_eq_of_lt (by omega)
      have hs := step_inl fill (hm ▸ hq)
      have ⟨n, r, hleaves, hread⟩ := ih hq (w := {
        entry  := w.entry + entryLength madt w.entry
        length := (w.length + entryLength madt w.entry) % 2 ^ 32
        read   := w.read ++ [w.entry]
        filled := fill w.entry w.filled }) (by rw [he]) hm hr'
      exact ⟨n + 1, r, .next hs hleaves, hread⟩
    case neg =>
      have hlt : p + entryLength madt p < 2 ^ 32 := by
        cases h
        case done hlt  => exact hlt
        case next hq' _ _ => exact absurd hq' hq
      have hm : (w.length + entryLength madt w.entry) % 2 ^ 32 = p + entryLength madt p := by
        rw [he, hl]
        exact Nat.mod_eq_of_lt hlt
      exact ⟨1, _, .now (step_inr (by omega)), hr'⟩

theorem structures_of_leaves (h : Loop.Leaves (step madt fill) n w r) (hr : ∀ e ∈ r.read, e < tableLength madt)
    (he : w.entry = p) (hl : w.length = p) (hp : p < tableLength madt) : Structures madt p := by
  have hT := tableLength_lt madt
  have hlen := entryLength_lt madt p
  induction h generalizing p
  case now w r hs =>
    have hge : tableLength madt ≤ (p + entryLength madt p) % 2 ^ 32 := by
      by_contra hlt
      rw [step_inl fill (by rw [he, hl]; omega)] at hs
      cases hs
    have hlt : p + entryLength madt p < 2 ^ 32 := by
      by_contra hlt
      omega
    rw [Nat.mod_eq_of_lt hlt] at hge
    exact .next hp (by omega) (.done hge hlt)
  case next w w' r n hs hleaves ih =>
    have hlt : (p + entryLength madt p) % 2 ^ 32 < tableLength madt := by
      by_contra hge
      rw [step_inr (by rw [he, hl]; omega)] at hs
      cases hs
    rw [step_inl fill (by rwa [he, hl])] at hs
    cases hs
    have hq : p + entryLength madt p < tableLength madt := by
      have hm := hr _ (read_of_leaves hleaves).left
      rwa [he] at hm
    have hq' : (w.length + entryLength madt w.entry) % 2 ^ 32 = p + entryLength madt p := by
      rw [he, hl]
      exact Nat.mod_eq_of_lt (by omega)
    have hnext := ih hr (by rw [he]) hq' hq (entryLength_lt madt _)
    by_cases h₀ : entryLength madt p = 0
    case pos => rwa [h₀] at hnext
    case neg => exact .next hp (Nat.pos_of_ne_zero h₀) hnext

theorem walk_right_iff (s : S) :
    WalksRight madt (run madt fill s) ↔ headerSize < tableLength madt ∧ Structures madt headerSize := by
  constructor
  case mp =>
    intro ⟨fuel, r, hrun, hr⟩
    have ⟨_, _, hl⟩ := Loop.Leaves.of_run hrun
    have hp : headerSize < tableLength madt := hr _ (read_of_leaves hl).left
    exact ⟨hp, structures_of_leaves hl hr rfl rfl hp⟩
  case mpr =>
    intro ⟨hp, h⟩
    have ⟨n, r, hl, hr⟩ := leaves_of_structures fill (w := walk s) h hp rfl rfl fun e he => absurd he List.not_mem_nil
    exact ⟨n, r, hl.run le_rfl, hr⟩

end

-- Both walks over the MADT and the search for the cells of an interrupt of the node end.
structure WalksEnd (madt : Bytes) (gicInfo : Nat → GicInfo.Entry) (fdt : Dt.Libfdt) (node : Int) : Prop where
  gic   : WalksRight madt (gicWalk madt gicInfo)
  pe    : WalksRight madt (peWalk madt)
  cells : ∃ fuel cells, loop (Dt.interruptCellsStep fdt) fuel node = some cells

theorem walks_end_iff (madt : Bytes) (gicInfo : Nat → GicInfo.Entry) (fdt : Dt.Libfdt) (node : Int)
    (h : fdt.Inside) (h0 : 0 ≤ node) (hi : node < fdt.totalsize) :
    WalksEnd madt gicInfo fdt node ↔
      (headerSize < tableLength madt ∧ Structures madt headerSize) ∧ Dt.NoCircle fdt node := by
  have hcells := Dt.interruptCells_end_iff h h0 hi
  constructor
  case mp =>
    intro he
    exact ⟨(walk_right_iff _).mp he.gic, hcells.mp he.cells⟩
  case mpr =>
    intro ⟨hs, hc⟩
    exact ⟨(walk_right_iff _).mpr hs, (walk_right_iff _).mpr hs, hcells.mpr hc⟩

-- A MADT that says that it has `total` bytes, with a GICD structure that says that it has `length`.
def oneGicd (total length : UInt8) : Bytes := fun a =>
  if a = 4 then total else if a = 44 then 0x0C else if a = 45 then length else 0

def emptyMemory : Nat → GicInfo.Entry :=
  fun _ => ⟨0, 0, 0, 0, 0, 0⟩

theorem watchdogs_inside (nodes : List Nat) : (Dt.watchdogs 3 nodes).Inside where
  parent := by
    intro node
    simp only [Dt.watchdogs]
    split <;> decide
  phandle := fun _ => show (-1 : Int) < 1024 by decide

-- The watchdog at 64 finds the cells at the root.
theorem walks_end_once : WalksEnd (oneGicd 68 24) emptyMemory (Dt.watchdogs 3 [64]) 64 := by
  apply (walks_end_iff _ _ _ _ (watchdogs_inside _) (by decide) (by decide)).mpr
  refine ⟨⟨by decide, ?_⟩, ?_⟩
  · exact .next (by decide) (by decide) (.done (by decide) (by decide))
  · exact (Dt.interruptCells_end_iff (watchdogs_inside _) (by decide) (by decide)).mp ⟨2, 3, by decide⟩

-- A node that is its own interrupt parent.
def selfParent : Dt.Libfdt where
  totalsize              := 1024
  nodeOffsetByCompatible := fun _ _ => -Dt.fdtErrNotfound
  nodeOffsetByPhandle    := fun phandle => if phandle = 1 then 64 else -Dt.fdtErrNotfound
  parentOffset           := fun nodeoffset => if nodeoffset = 0 then -Dt.fdtErrNotfound else 0
  subnodeOffset          := fun _ _ => -Dt.fdtErrNotfound
  nextSubnode            := fun _ => -Dt.fdtErrNotfound
  sizeCells              := fun _ => 2
  addressCells           := fun _ => 2
  getprop                := fun nodeoffset name =>
    if nodeoffset = 64 ∧ name = "interrupt-parent" then some ⟨4, fun _ => 1⟩ else none

theorem selfParent_inside : selfParent.Inside where
  parent := by
    intro node
    simp only [selfParent]
    split <;> decide
  phandle := by
    intro phandle
    simp only [selfParent]
    split <;> decide

-- The walks stay at a structure of the length 0, they read a structure behind a table that has none, and the
-- search for the cells goes round in a circle.
theorem walks_without_end :
    ¬WalksEnd (oneGicd 68 0) emptyMemory (Dt.watchdogs 3 [64]) 64 ∧
      ¬WalksEnd (oneGicd 44 24) emptyMemory (Dt.watchdogs 3 [64]) 64 ∧
      selfParent.Inside ∧ ¬WalksEnd (oneGicd 68 24) emptyMemory selfParent 64 := by
  refine ⟨?_, ?_, selfParent_inside, ?_⟩
  · intro h
    have ⟨_, hs⟩ := (walk_right_iff _).mp h.gic
    cases hs
    case done hl _   => exact absurd hl (by decide)
    case next _ hl _ => exact absurd hl (by decide)
  · intro h
    have ⟨hl, _⟩ := (walk_right_iff _).mp h.gic
    exact absurd hl (by decide)
  · intro h
    have hc := (Dt.interruptCells_end_iff selfParent_inside (by decide) (by decide)).mp h.cells
    have hself : Dt.AsksNext selfParent 64 64 := ⟨rfl, rfl, by decide⟩
    exact hc 64 .refl (.single hself)

end Madt
