import BsaAcs.Lib.Memory
import Mathlib.Data.List.Nodup
import Mathlib.Data.List.Perm.Basic

-- A heap: word memory, and the blocks of it that are in use. The address 0 is the null pointer.
structure Heap where
  mem      : Memory
  -- The sizes that the allocator was asked for, the last one first.
  requests : List Nat
  -- The blocks in use, by address and size.
  live     : List (Nat × Nat)
  -- The addresses that were freed without being the address of a block in use.
  wild     : List Nat

namespace Heap

-- The answer of an allocator to its `n`-th call, given the blocks in use and the size asked for.
abbrev Allocator := Nat → List (Nat × Nat) → Nat → Nat

def alloc (a : Allocator) (size : Nat) (h : Heap) : Nat × Heap :=
  let ptr := a h.requests.length h.live size
  (ptr, { h with requests := size :: h.requests, live := if ptr = 0 then h.live else (ptr, size) :: h.live })

def free (ptr : Nat) (h : Heap) : Heap :=
  if ptr = 0 then h
  else if ptr ∈ h.live.map Prod.fst then { h with live := h.live.eraseP (·.1 == ptr) }
  else { h with wild := ptr :: h.wild }

def write (a v : Nat) (h : Heap) : Heap :=
  { h with mem := h.mem.write a v }

def set (a size v : Nat) (h : Heap) : Heap :=
  { h with mem := h.mem.set a size v }

-- The addresses of the blocks in use.
def owned (h : Heap) : List Nat :=
  h.live.map Prod.fst

variable {a : Allocator} {ptr size : Nat} {ps roots roots' : List Nat} {h h' : Heap}

@[simp]
theorem free_requests : (h.free ptr).requests = h.requests := by
  simp only [free]
  split
  case isTrue  => rfl
  case isFalse => split <;> rfl

-- Every block has an address of its own.
def Allocator.Fresh (a : Allocator) : Prop :=
  ∀ n live size, a n live size ≠ 0 → a n live size ∉ live.map Prod.fst

-- The blocks in use are those that `roots` points to, each one once, where null pointers do not
-- count, and only blocks in use were freed.
structure Owns (h : Heap) (roots : List Nat) : Prop where
  perm  : h.owned.Perm (roots.filter (· ≠ 0))
  nodup : h.owned.Nodup
  tame  : h.wild = []

namespace Owns

theorem congr (ho : h.Owns roots) (hl : h'.live = h.live) (hw : h'.wild = h.wild) : h'.Owns roots := by
  have he : h'.owned = h.owned := by rw [owned, hl, owned]
  exact ⟨he ▸ ho.perm, he ▸ ho.nodup, hw.trans ho.tame⟩

theorem of_perm (ho : h.Owns roots) (hp : roots.Perm roots') : h.Owns roots' :=
  ⟨ho.perm.trans (hp.filter _), ho.nodup, ho.tame⟩

theorem zero_cons_iff : h.Owns (0 :: roots) ↔ h.Owns roots := by
  constructor <;> intro ho <;> exact ⟨by simpa using ho.perm, ho.nodup, ho.tame⟩

-- Null pointers can be left out anywhere.
theorem of_filter_eq (ho : h.Owns roots) (hf : roots.filter (· ≠ 0) = roots'.filter (· ≠ 0)) : h.Owns roots' :=
  ⟨hf ▸ ho.perm, ho.nodup, ho.tame⟩

theorem alloc (ho : h.Owns roots) (hf : a.Fresh) :
    (h.alloc a size).2.Owns ((h.alloc a size).1 :: roots) := by
  simp only [Heap.alloc]
  by_cases hz : a h.requests.length h.live size = 0
  case pos =>
    rw [hz, zero_cons_iff]
    refine ho.congr ?_ rfl
    simp
  case neg =>
    have hn := hf h.requests.length h.live size hz
    rw [if_neg hz]
    refine ⟨?_, ?_, ho.tame⟩
    · simp only [owned, List.map_cons, List.filter_cons, hz, ne_eq, not_false_eq_true, decide_true, if_true]
      exact ho.perm.cons _
    · exact List.nodup_cons.mpr ⟨hn, ho.nodup⟩

theorem free (ho : h.Owns (ptr :: roots)) : (h.free ptr).Owns roots := by
  by_cases hz : ptr = 0
  case pos =>
    rw [hz, zero_cons_iff] at ho
    rw [hz, Heap.free, if_pos rfl]
    exact ho
  case neg =>
    have hp := ho.perm
    simp only [List.filter_cons, hz, ne_eq, not_false_eq_true, decide_true, if_true] at hp
    have hm : ptr ∈ h.live.map Prod.fst := hp.mem_iff.mpr (List.mem_cons_self ..)
    have he : (h.live.eraseP (·.1 == ptr)).map Prod.fst = h.owned.erase ptr := by
      rw [owned, List.erase_eq_eraseP, List.eraseP_map]
      congr 2
      funext b
      exact Bool.beq_comm
    rw [Heap.free, if_neg hz, if_pos hm]
    refine ⟨?_, ?_, ho.tame⟩
    · rw [owned, he]
      have he := hp.erase ptr
      rwa [List.erase_cons_head] at he
    · rw [owned, he]
      exact ho.nodup.erase ptr

-- Nothing is in use beyond the roots.
theorem append_iff (ho : h.Owns (ps ++ roots)) : h.Owns roots ↔ ∀ p ∈ ps, p = 0 := by
  have hn : ps.filter (· ≠ 0) = [] ↔ ∀ p ∈ ps, p = 0 := by simp
  rw [← hn]
  constructor
  case mp =>
    intro hr
    have hl := (ho.perm.symm.trans hr.perm).length_eq
    rw [List.filter_append, List.length_append] at hl
    exact List.length_eq_zero_iff.mp (by omega)
  case mpr =>
    intro hz
    refine ho.of_filter_eq ?_
    rw [List.filter_append, hz, List.nil_append]

theorem freeAll (ho : h.Owns (ps ++ roots)) : (ps.foldl (fun h p => h.free p) h).Owns roots := by
  induction ps generalizing h
  case nil          => exact ho
  case cons p ps hi => exact hi ho.free

end Owns

section

variable {f : Nat → Nat} {i n p : Nat}

-- A table of pointers in which the null pointer at `i` is replaced.
theorem map_range_update_perm (hi : i < n) (hz : f i = 0) :
    (((List.range n).map fun j => if j = i then p else f j).filter (· ≠ 0)).Perm
      ((p :: (List.range n).map f).filter (· ≠ 0)) := by
  have hp := List.perm_cons_erase (List.mem_range.mpr hi)
  have h₁ := hp.map fun j => if j = i then p else f j
  have h₂ := hp.map f
  have he : ((List.range n).erase i).map (fun j => if j = i then p else f j) = ((List.range n).erase i).map f := by
    refine List.map_congr_left ?_
    intro j hj
    have hne : j ≠ i := by
      rintro rfl
      exact List.nodup_range.not_mem_erase hj
    rw [if_neg hne]
  rw [List.map_cons, if_pos rfl, he] at h₁
  rw [List.map_cons, hz] at h₂
  refine (h₁.filter _).trans ?_
  have h₃ := ((h₂.cons p).filter (· ≠ 0)).symm
  simpa [List.filter_cons] using h₃

theorem filter_map_zero (hz : ∀ j < n, f j = 0) : ((List.range n).map f).filter (· ≠ 0) = [] := by
  rw [List.filter_eq_nil_iff]
  intro q hq
  have ⟨j, hj, he⟩ := List.mem_map.mp hq
  simp [← he, hz j (List.mem_range.mp hj)]

end

end Heap
