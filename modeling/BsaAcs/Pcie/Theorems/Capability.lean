import BsaAcs.Pcie.Basic

namespace Pcie

variable {read read' : Nat → BitVec 32} {cid p q : Nat} {r : Option Nat} {n : Nat} {l : List Nat}

theorem capStep_congr (h : read' p = read p) :
    capStep capLayout read' cid p = capStep capLayout read cid p := by
  simp [capStep, h]

theorem and_toNat_le (w m : BitVec 32) : (w &&& m).toNat ≤ m.toNat := by
  rw [BitVec.toNat_and]
  exact Nat.and_le_right

theorem and_0xff_lt (w : BitVec 32) : (w &&& 0xFF).toNat < 256 :=
  Nat.lt_succ_of_le (and_toNat_le w 0xFF)

theorem capStep_inl_le {layout : CapLayout} (h : capStep layout read cid p = .inl q) :
    q ≤ layout.ncprMask.toNat := by
  simp only [capStep] at h
  split at h
  case isTrue => cases h
  case isFalse =>
    split at h
    case isTrue => cases h
    case isFalse =>
      simp only [Sum.inl.injEq] at h
      exact h ▸ and_toNat_le _ _

theorem capStep_inl_lt (h : capStep capLayout read cid p = .inl q) : q < 256 :=
  Nat.lt_succ_of_le (capStep_inl_le h)

-- A search that ends does so within as many rounds as there are pointers.
theorem search_within {layout : CapLayout} (h : Loop.Leaves (capStep layout read cid) n p r)
    (hp : p ≤ layout.ncprMask.toNat) : loop (capStep layout read cid) (layout.ncprMask.toNat + 1) p = some r := by
  have := Loop.run_card (s := Finset.range (layout.ncprMask.toNat + 1)) (h.run le_rfl)
    (by simpa using Nat.lt_succ_of_le hp) fun _ hs => by simpa using Nat.lt_succ_of_le (capStep_inl_le hs)
  simpa using this

theorem search_of_leaves (h : Loop.Leaves (capStep capLayout read cid) n p r) (hp : p < 256) :
    loop (capStep capLayout read cid) 256 p = some r :=
  search_within h (Nat.le_of_lt_succ hp)

-- The entries of a capability list, from a pointer to the end.
inductive CapList (read : Nat → BitVec 32) : Nat → List Nat → Prop
  | nil : CapList read 0 []
  | cons {p : Nat} {l : List Nat} : (p ≠ 0) → CapList read (read p >>> 8 &&& 0xFF).toNat l → CapList read p (p :: l)

def isCap (read : Nat → BitVec 32) (cid : Nat) (p : Nat) : Bool :=
  decide ((read p &&& 0xFF).toNat = cid)

namespace CapList

theorem unique {l' : List Nat} (h : CapList read p l) (h' : CapList read p l') : l = l' := by
  induction h generalizing l'
  case nil =>
    cases h'
    case nil       => rfl
    case cons h' _ => exact absurd rfl h'
  case cons hp _ hi =>
    cases h'
    case nil       => exact absurd rfl hp
    case cons _ h' => rw [hi h']

theorem leaves (h : CapList read p l) (cid : Nat) :
    ∃ n, Loop.Leaves (capStep capLayout read cid) n p (l.find? (isCap read cid)) := by
  induction h
  case nil => exact ⟨1, .now rfl⟩
  case cons p l hp _ hi =>
    cases hc : isCap read cid p
    case true =>
      have := of_decide_eq_true hc
      rw [List.find?_cons_of_pos hc]
      exact ⟨1, .now (by simp only [capStep, hp, if_false, capLayout, this, if_true])⟩
    case false =>
      have := of_decide_eq_false hc
      have ⟨n, hl⟩ := hi
      rw [List.find?_cons_of_neg (by simp [hc])]
      exact ⟨n + 1, .next (by simp only [capStep, hp, if_false, capLayout, this]) hl⟩

-- The list is found again where its entries read the same.
theorem congr (h : CapList read p l) (hr : ∀ q ∈ l, read' q = read q) : CapList read' p l := by
  induction h
  case nil => exact .nil
  case cons p l hp _ hi =>
    refine .cons hp ?_
    rw [hr p List.mem_cons_self]
    exact hi fun q hq => hr q (List.mem_cons_of_mem _ hq)

-- The search ends at the first entry with the identifier, or at the end of the list.
theorem search_eq (h : CapList read p l) (hp : p < 256) :
    loop (capStep capLayout read cid) 256 p = some (l.find? (isCap read cid)) := by
  have ⟨_, hl⟩ := h.leaves cid
  exact search_of_leaves hl hp

end CapList
end Pcie
