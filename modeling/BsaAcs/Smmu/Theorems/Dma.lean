import BsaAcs.Pgt.Theorems.Levels
import BsaAcs.Smmu.Theorems.Translation

namespace Smmu

open Heap (Inside)
open Pgt (InPage rootHeight blockBytes Covers)

-- DMA through a table of `val_pgt_create` that the driver has mapped.

-- The block holds a page that one of the calls from `m` up to `n` handed out.
def HoldsPage (ppf : Pgt.Platform) (p m n : Nat) (b : Nat × Nat) : Prop :=
  ∃ k, m ≤ k ∧ k < n ∧ ∀ x, InPage p (ppf.page k) x → Inside b x

-- The table lies in blocks of the rest of the program.
def Driver.Stores (d : Driver) (others : List Nat) (ppf : Pgt.Platform) (p m : Nat) (s : Pgt.State) : Prop :=
  ∀ k, m ≤ k → k < s.allocs → ∃ b, d.Foreign others b ∧
    ∀ x, InPage p (ppf.page k) x → Inside b x ∧ d.world.heap.mem x = s.mem x

section

variable {pf : Platform} {ppf : Pgt.Platform} {d d' : Driver} {others others' : List Nat} {hist : History}
variable {p m i status : Nat} {s : Pgt.State} {c : Call} {w' : World} {T : Nat × Nat → Prop}

theorem Driver.Stores.call (ha : pf.alloc.Sound) (hi : Serving others i hist d) (hk : Substreaming pf i hist d c)
    (h : Step pf d c status d') (hst : d.Stores others ppf p m s) : d'.Stores others ppf p m s := by
  intro k h₁ h₂
  obtain ⟨b, hf, hb⟩ := hst k h₁ h₂
  obtain ⟨hf', hmem⟩ := h.foreign ha hi.carried.sane hi.carried.attached hk.1 hk.2.1 hf
  exact ⟨b, hf', fun x hx => ⟨(hb x hx).1, (hmem x (hb x hx).1).trans (hb x hx).2⟩⟩

theorem Driver.Stores.elsewhere (hi : Serving others i hist d)
    (h : Elsewhere (HoldsPage ppf p m s.allocs) d others others' w') (hst : d.Stores others ppf p m s) :
    Driver.Stores { d with world := w' } others' ppf p m s := by
  intro k h₁ h₂
  obtain ⟨b, hf, hb⟩ := hst k h₁ h₂
  obtain ⟨hf', hmem⟩ := h.foreign hi.carried.sane hf ⟨k, h₁, h₂, fun x hx => (hb x hx).1⟩
  exact ⟨b, hf', fun x hx => ⟨(hb x hx).1, (hmem x (hb x hx).1).trans (hb x hx).2⟩⟩

end

section

variable {pf : Platform} {ppf : Pgt.Platform} {info : IovirtSmmuInfo} {fuel fuel' p i sid ssid status : Nat}
variable {w₀ : World} {d₀ d₁ d : Driver} {others₀ others₁ others : List Nat} {hist₁ hist : History}
variable {desc : PgtDescriptor} {r : MemoryRegionDescriptor} {rest : List MemoryRegionDescriptor} {s : Pgt.State}
variable {res : Pgt.CreateResult} {val el hcr : Nat} {tcr₀ : PeTcrBf}

end

-- The rest of the program writes into a block of three pages.
def Driver.storing (d : Driver) (mem : Memory) : World :=
  { d.world with heap :=
    { d.world.heap with mem := fun x => if 0x1000 ≤ x ∧ x < 0x4000 then mem x else d.world.heap.mem x } }

end Smmu
