import BsaAcs.Info.Peripheral
import Mathlib.Tactic

-- Where the search for an entry ends.

namespace Peripheral

open Loop (Goes)

-- The call returns the value.
def Returns (table : InfoTable) (infoType : Info) (inst value : Nat) : Prop :=
  ∃ fuel, valPeripheralGetInfo table infoType inst fuel = some value

-- From index `first` on there are `count` entries of one type, and there are none of it before.
structure Block (table : InfoTable) (type first count : Nat) : Prop where
  before : ∀ i < first, (table.info i).type ≠ type ∧ (table.info i).type ≠ typeEnd
  inside : ∀ i < count, (table.info (first + i)).type = type

section

variable {table : InfoTable} {type first count inst i : Nat}

theorem entryIndex_skip (inst : Nat) (hn : type ≠ typeNone)
    (hb : ∀ i < first, (table.info i).type ≠ type ∧ (table.info i).type ≠ typeEnd)
    (hf : first < 2 ^ 32) : Goes (entryIndexStep table type) (0, inst) (first, inst) := by
  induction first
  case zero => exact .refl
  case succ first ih =>
    have ⟨ht, he⟩ := hb first (Nat.lt_succ_self _)
    have hgoes := ih (fun i hi => hb i (Nat.lt_succ_of_lt hi)) (Nat.lt_of_succ_lt hf)
    refine hgoes.trans (.single ?_)
    rw [entryIndexStep, if_neg he, if_neg (not_or.mpr ⟨hn, ht⟩), Nat.mod_eq_of_lt hf]

theorem entryIndex_count (he : type ≠ typeEnd) (hi : ∀ i < inst, (table.info (first + i)).type = type)
    (hf : first + inst < 2 ^ 32) : Goes (entryIndexStep table type) (first, inst) (first + inst, 0) := by
  induction inst generalizing first
  case zero => exact .refl
  case succ inst ih =>
    have ht : (table.info first).type = type := hi 0 (Nat.succ_pos _)
    have hnext : ∀ i < inst, (table.info (first + 1 + i)).type = type := by
      intro i h
      rw [Nat.add_assoc, Nat.add_comm 1]
      exact hi (i + 1) (Nat.succ_lt_succ h)
    have hgoes := ih hnext (by omega)
    have hlast : first + 1 + inst = first + (inst + 1) := by omega
    rw [hlast] at hgoes
    refine .trans (.single ?_) hgoes
    rw [entryIndexStep, ht, if_neg he, if_pos (.inr rfl), if_neg (Nat.succ_ne_zero _), Nat.mod_eq_of_lt (by omega)]
    rfl

theorem Block.entryIndex (h : Block table type first count) (hn : type ≠ typeNone) (he : type ≠ typeEnd) (hi : i < count)
    (hf : first + i < 2 ^ 32) : ∃ fuel, valPeripheralGetEntryIndex table type i fuel = some (first + i) := by
  have hstep : entryIndexStep table type (first + i, 0) = .inr (first + i) := by
    rw [entryIndexStep, h.inside i hi, if_neg he, if_pos (.inr rfl), if_pos rfl]
  have hskip := entryIndex_skip i hn h.before (by omega)
  have hcount := entryIndex_count he (fun k hk => h.inside k (hk.trans hi)) hf
  have ⟨fuel, hl⟩ := (hskip.trans hcount).leaves (.now hstep)
  exact ⟨fuel, hl.run le_rfl⟩

theorem returns_unique {infoType : Info} {value value' : Nat} (h : Returns table infoType inst value)
    (h' : Returns table infoType inst value') : value = value' := by
  have ⟨fuel, h⟩ := h
  have ⟨fuel', h'⟩ := h'
  have hfield (type : Nat) (f : InfoBlock → Nat)
      (h : ((valPeripheralGetEntryIndex table type inst fuel).map fun i => if i ≠ noEntry then f (table.info i) else 0) = some value)
      (h' : ((valPeripheralGetEntryIndex table type inst fuel').map fun i => if i ≠ noEntry then f (table.info i) else 0) =
        some value') : value = value' := by
    have ⟨i, hi, hv⟩ := Option.map_eq_some_iff.mp h
    have ⟨i', hi', hv'⟩ := Option.map_eq_some_iff.mp h'
    cases Loop.run_unique hi hi'
    exact hv.symm.trans hv'
  cases infoType
  case numUsb | numSata | numUart | numAll => exact Option.some.inj (h.symm.trans h')
  all_goals exact hfield _ _ h h'

end

end Peripheral
