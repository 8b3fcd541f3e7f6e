import BsaAcs.Smmu.Master

namespace Smmu

-- The calls that follow the initialisation.
inductive Call
  | map (attr : SmmuMasterAttributes) (pgt : PgtDescriptor)
  | unmap (attr : SmmuMasterAttributes)

def Call.streamid : Call → Nat
  | .map attr _ => attr.streamid
  | .unmap attr => attr.streamid

-- A call that returns, with its status. An unmap has no status of its own and counts as successful.
inductive Step (pf : Platform) (d : Driver) : Call → Nat → Driver → Prop
  | map {fuel attr pgt status d'} : (valSmmuMap pf fuel attr pgt d = some (status, d')) → Step pf d (.map attr pgt) status d'
  | unmap {fuel attr d'} : (valSmmuUnmap pf fuel attr d = some d') → Step pf d (.unmap attr) 0 d'

-- The calls made so far with their status, the last one first.
abbrev History := List (Call × Nat)

namespace History

-- The stream ids that were passed to `val_smmu_map`, and to `val_smmu_unmap`.
def mapIds (hist : History) : List Nat :=
  hist.filterMap fun (c, _) => match c with
    | .map attr _ => some attr.streamid
    | .unmap _    => none

def unmapIds (hist : History) : List Nat :=
  hist.filterMap fun (c, _) => match c with
    | .map _ _    => none
    | .unmap attr => some attr.streamid

-- The stream ids with a successful map.
def mappedIds (hist : History) : List Nat :=
  hist.filterMap fun (c, status) => match c with
    | .map attr _ => if status = 0 then some attr.streamid else none
    | .unmap _    => none

-- The stream ids that are mapped now.
def current : History → List Nat
  | [] => []
  | (.map attr _, status) :: hist => if status = 0 then attr.streamid :: current hist else current hist
  | (.unmap attr, _) :: hist      => (current hist).filter (· ≠ attr.streamid)

end History

-- A run from `d₀` in which every call meets the condition `K`, which may look at the calls before it.
inductive Run (pf : Platform) (K : History → Driver → Call → Prop) (d₀ : Driver) : History → Driver → Prop
  | nil : Run pf K d₀ [] d₀
  | cons {hist d c status d'} :
    (Run pf K d₀ hist d) → (K hist d c) → (Step pf d c status d') → Run pf K d₀ ((c, status) :: hist) d'

-- A property of the history and the driver holds along a run if every call keeps it.
theorem Run.invariant {pf : Platform} {K : History → Driver → Call → Prop} {d₀ d : Driver} {hist : History}
    {I : History → Driver → Prop} (h₀ : I [] d₀)
    (hs : ∀ {hist d c status d'}, I hist d → K hist d c → Step pf d c status d' → I ((c, status) :: hist) d')
    (h : Run pf K d₀ hist d) : I hist d := by
  induction h
  case nil             => exact h₀
  case cons hk hst hi => exact hs hi hk hst

end Smmu
