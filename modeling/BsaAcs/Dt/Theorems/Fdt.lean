import BsaAcs.Dt.Fdt
import Mathlib.Tactic

namespace Dt

namespace Libfdt

-- Where a search that has come before the nodes goes on.
def first : List Nat → Int
  | []        => -fdtErrNotfound
  | node :: _ => node

variable {fdt : Libfdt} {compatible : String} {node : Nat} {nodes pre : List Nat}

theorem first_cons : first (node :: nodes) = node := rfl

theorem first_cons_ne : first (node :: nodes) ≠ -fdtErrNotfound := by
  rw [first_cons, fdtErrNotfound]
  omega

theorem search_neg_one : search nodes (-1) = first nodes := by
  cases nodes
  case nil => rfl
  case cons node nodes =>
    have hn : (-1 : Int) < node := by omega
    simp [search, first, hn]

theorem first_nonneg_iff : 0 ≤ first nodes ↔ nodes ≠ [] := by
  cases nodes
  case nil => simp [first, fdtErrNotfound]
  case cons => simp [first]

-- From one of the nodes it goes on to the one behind it.
theorem search_node (hs : (pre ++ node :: nodes).Pairwise (· < ·)) :
    search (pre ++ node :: nodes) node = first nodes := by
  have ⟨_, hnodes, hpre⟩ := List.pairwise_append.mp hs
  have hskip : ∀ n ∈ pre, ¬((node : Int) < (n : Nat)) := by
    intro n hn
    have := hpre n hn node List.mem_cons_self
    omega
  have hfind : (pre ++ node :: nodes).find? (fun n : Nat => decide ((node : Int) < n)) =
      nodes.find? fun n : Nat => decide ((node : Int) < n) := by
    rw [List.find?_append, List.find?_eq_none.mpr fun n hn => by simpa using hskip n hn]
    simp
  rw [search, hfind]
  cases nodes
  case nil => rfl
  case cons next nodes =>
    have hn : node < next := (List.pairwise_cons.mp hnodes).left next List.mem_cons_self
    rw [List.find?_cons_of_pos (by simpa using hn)]
    rfl

theorem Lists.first (h : fdt.Lists compatible nodes) :
    fdt.nodeOffsetByCompatible (-1) compatible = Libfdt.first nodes := by
  rw [h.search (-1) (by decide), search_neg_one]

theorem Lists.next (h : fdt.Lists compatible (pre ++ node :: nodes)) :
    fdt.nodeOffsetByCompatible (Libfdt.first (node :: nodes)) compatible = Libfdt.first nodes := by
  rw [first_cons, h.search node (by omega), search_node h.sorted]

theorem Lists.length_le (h : fdt.Lists compatible nodes) : nodes.length ≤ fdt.totalsize := by
  have hd : nodes.Nodup := h.sorted.imp fun hlt => hlt.ne
  have hs : nodes ⊆ List.range fdt.totalsize := fun node hn => List.mem_range.mpr (h.inside node hn)
  simpa using (List.subperm_of_subset hd hs).length_le

-- A loop over the nodes that are found goes over them in their order.
theorem Lists.loop_eq {C E : Type*} (body : C → Int → Except E C) (run : Nat → Int → C → Except E C)
    (hrun : ∀ fuel offset c, run (fuel + 1) offset c =
      if offset = -fdtErrNotfound then .ok c
      else body c offset >>= run fuel (fdt.nodeOffsetByCompatible offset compatible))
    (h : fdt.Lists compatible (pre ++ nodes)) {fuel : Nat} (hf : nodes.length < fuel) (c : C) :
    run fuel (Libfdt.first nodes) c = nodes.foldlM (fun c (node : Nat) => body c node) c := by
  induction nodes generalizing pre fuel c
  case nil =>
    cases fuel
    case zero      => omega
    case succ fuel =>
      rw [hrun]
      rfl
  case cons node nodes hi =>
    cases fuel
    case zero => omega
    case succ fuel =>
      rw [hrun, if_neg first_cons_ne, h.next, List.foldlM_cons, first_cons]
      cases body c node
      case error e => rfl
      case ok c'   => exact hi (List.append_cons pre node nodes ▸ h) (by simpa using hf) c'

end Libfdt

section

-- The offsets of the nodes lie in the blob.
structure Libfdt.Inside (fdt : Libfdt) : Prop where
  parent  : ∀ nodeoffset, fdt.parentOffset nodeoffset < fdt.totalsize
  phandle : ∀ phandle, fdt.nodeOffsetByPhandle phandle < fdt.totalsize

variable {fdt : Libfdt} {nodeoffset : Int}

-- A step goes from an offset in the blob to an offset in the blob.
theorem Libfdt.Inside.step_mem (h : fdt.Inside) {p q : Int} (_ : p ∈ Finset.Ico (0 : Int) fdt.totalsize)
    (hstep : interruptCellsStep fdt p = .inl q) : q ∈ Finset.Ico (0 : Int) fdt.totalsize := by
  simp only [interruptCellsStep] at hstep
  split at hstep
  · cases hstep
  · split at hstep
    case isFalse => cases hstep
    case isTrue hn =>
      cases hstep
      refine Finset.mem_Ico.mpr ⟨hn, ?_⟩
      rw [interruptParent]
      split
      · exact h.phandle _
      · exact h.parent _

-- `q` is asked for the cells after `p`, which does not have them.
def AsksNext (fdt : Libfdt) (p q : Int) : Prop :=
  fdt.getprop p "#interrupt-cells" = none ∧ interruptParent fdt p = q ∧ 0 ≤ q

-- No node is asked twice.
def NoCircle (fdt : Libfdt) (node : Int) : Prop :=
  ∀ p, Relation.ReflTransGen (AsksNext fdt) node p → ¬Relation.TransGen (AsksNext fdt) p p

theorem interruptCellsStep_inl_iff {p q : Int} : interruptCellsStep fdt p = .inl q ↔ AsksNext fdt p q := by
  rw [interruptCellsStep, AsksNext]
  cases fdt.getprop p "#interrupt-cells"
  case some ic => simp
  case none =>
    dsimp only
    split
    case isTrue hn =>
      simp only [Sum.inl.injEq, true_and]
      constructor
      · rintro rfl
        exact ⟨rfl, hn⟩
      · exact And.left
    case isFalse hn =>
      simp only [reduceCtorEq, true_and, false_iff]
      rintro ⟨rfl, hq⟩
      exact hn hq

theorem interruptCells_end_iff (h : fdt.Inside) (h0 : 0 ≤ nodeoffset) (hi : nodeoffset < fdt.totalsize) :
    (∃ fuel cells, loop (interruptCellsStep fdt) fuel nodeoffset = some cells) ↔ NoCircle fdt nodeoffset := by
  have hstep : (fun p q => interruptCellsStep fdt p = .inl q) = AsksNext fdt := by
    funext p q
    exact propext interruptCellsStep_inl_iff
  have hmem : nodeoffset ∈ Finset.Ico (0 : Int) fdt.totalsize := Finset.mem_Ico.mpr ⟨h0, hi⟩
  have hcirc := Loop.leaves_iff_not_circles hmem h.step_mem
  rw [NoCircle, ←hstep]
  refine Iff.trans ?_ hcirc
  constructor
  case mp =>
    intro ⟨fuel, cells, hr⟩
    have ⟨n, _, hl⟩ := Loop.Leaves.of_run hr
    exact ⟨n, cells, hl⟩
  case mpr =>
    intro ⟨n, cells, hl⟩
    exact ⟨n, cells, hl.run le_rfl⟩

end

end Dt
