import BsaAcs.Lib.Heap

-- Where the blocks of a heap lie, and which words an operation can change.

namespace Heap

variable {a : Allocator} {b c : Nat × Nat} {h h₁ h₂ : Heap} {S T : Nat → Prop} {ptr size v x : Nat}

def Inside (b : Nat × Nat) (x : Nat) : Prop :=
  b.1 ≤ x ∧ x < b.1 + b.2

-- Two blocks that do not overlap.
def Apart (b c : Nat × Nat) : Prop :=
  b.1 + b.2 ≤ c.1 ∨ c.1 + c.2 ≤ b.1

theorem Apart.symm (h : Apart b c) : Apart c b :=
  Or.symm h

instance : Std.Symm Apart :=
  ⟨fun _ _ => Apart.symm⟩

theorem Apart.not_inside (h : Apart b c) (hx : Inside b x) : ¬Inside c x := by
  intro hc
  have ⟨_, _⟩ := hx
  have ⟨_, _⟩ := hc
  rcases h with h | h <;> omega

-- New blocks lie in the address space, and do not overlap with the blocks in use.
structure Allocator.Sound (a : Allocator) : Prop where
  fresh : a.Fresh
  apart : ∀ n live size, a n live size ≠ 0 → ∀ b ∈ live, Apart (a n live size, size) b
  fits  : ∀ n live size, size < 2 ^ 32 → a n live size + size ≤ 2 ^ 64

-- An allocator that answers less often.
theorem Allocator.Sound.of_less {a' : Allocator} (ha : a.Sound)
    (h : ∀ n live size, a' n live size ≠ 0 → a' n live size = a n live size) : a'.Sound := by
  refine ⟨?_, ?_, ?_⟩
  · intro n live size hn
    have he := h n live size hn
    rw [he] at hn ⊢
    exact ha.fresh n live size hn
  · intro n live size hn
    have he := h n live size hn
    rw [he] at hn ⊢
    exact ha.apart n live size hn
  · intro n live size hs
    by_cases hn : a' n live size = 0
    case pos => omega
    case neg =>
      rw [h n live size hn]
      exact ha.fits n live size hs

structure Laid (h : Heap) : Prop where
  apart : h.live.Pairwise Apart
  fits  : ∀ b ∈ h.live, b.1 + b.2 ≤ 2 ^ 64

theorem Laid.not_inside (hl : h.Laid) (hb : b ∈ h.live) (hc : c ∈ h.live) (hn : b ≠ c) (hx : Inside b x) :
    ¬Inside c x := by
  have hp : Apart b c := hl.apart.forall hb hc hn
  exact hp.not_inside hx

theorem alloc_new (ha : a.Sound) (hp : (h.alloc a size).1 ≠ 0) :
    ((h.alloc a size).1, size) ∈ (h.alloc a size).2.live ∧ ∀ c ∈ h.live, Apart ((h.alloc a size).1, size) c := by
  refine ⟨?_, ha.apart _ _ _ hp⟩
  simp only [Heap.alloc] at hp ⊢
  rw [if_neg hp]
  exact List.mem_cons_self ..

-- Every block stays, and every word of it outside `S` keeps its value. Nothing is said about the words of
-- new blocks.
structure Frame (S : Nat → Prop) (h h' : Heap) : Prop where
  live : ∀ b ∈ h.live, b ∈ h'.live
  laid : h.Laid → h'.Laid
  mem  : ∀ b ∈ h.live, ∀ x, Inside b x → ¬S x → h'.mem x = h.mem x

namespace Frame

theorem refl : Frame S h h :=
  ⟨fun _ hb => hb, id, fun _ _ _ _ _ => rfl⟩

theorem mono (hf : Frame S h h₁) (hs : ∀ x, S x → T x) : Frame T h h₁ :=
  ⟨hf.live, hf.laid, fun b hb x hx hn => hf.mem b hb x hx fun hc => hn (hs x hc)⟩

theorem trans (h₁₂ : Frame S h h₁) (h₂₃ : Frame S h₁ h₂) : Frame S h h₂ where
  live := fun b hb => h₂₃.live b (h₁₂.live b hb)
  laid := fun hl => h₂₃.laid (h₁₂.laid hl)
  mem  := fun b hb x hx hn => (h₂₃.mem b (h₁₂.live b hb) x hx hn).trans (h₁₂.mem b hb x hx hn)

-- Words of a block that is not there yet do not count.
theorem forget (hf : Frame (fun x => S x ∨ Inside b x) h h₁) (hb : ∀ c ∈ h.live, Apart b c) : Frame S h h₁ where
  live := hf.live
  laid := hf.laid
  mem  := fun c hc x hx hn => hf.mem c hc x hx fun hs => hs.elim hn fun hi => (hb c hc).symm.not_inside hx hi

theorem of_same (hl : h₁.live = h.live) (hm : ∀ x, ¬S x → h₁.mem x = h.mem x) : Frame S h h₁ where
  live := fun _ hb => hl ▸ hb
  laid := fun hd => ⟨hl ▸ hd.apart, fun c hc => hd.fits c (hl ▸ hc)⟩
  mem  := fun _ _ x _ hn => hm x hn

theorem write : Frame (· = x) h (h.write x v) :=
  of_same rfl fun _ hn => Memory.write_ne hn

theorem set : Frame (fun y => x ≤ y ∧ y < x + size) h (h.set x size v) :=
  of_same rfl fun _ hn => Memory.set_not_mem hn

theorem alloc (ha : a.Sound) (hs : size < 2 ^ 32) : Frame S h (h.alloc a size).2 := by
  by_cases hp : (h.alloc a size).1 = 0
  case pos =>
    have hl : (h.alloc a size).2.live = h.live := by
      simp only [Heap.alloc] at hp ⊢
      rw [if_pos hp]
    exact of_same hl fun _ _ => rfl
  case neg =>
    have hl : (h.alloc a size).2.live = ((h.alloc a size).1, size) :: h.live := by
      simp only [Heap.alloc] at hp ⊢
      rw [if_neg hp]
    refine ⟨fun b hb => hl ▸ List.mem_cons_of_mem _ hb, fun hd => ⟨?_, ?_⟩, fun _ _ _ _ _ => rfl⟩
    · rw [hl]
      exact List.pairwise_cons.mpr ⟨(alloc_new ha hp).2, hd.apart⟩
    · intro b hb
      rw [hl] at hb
      rcases List.mem_cons.mp hb with rfl | hb
      case inl => exact ha.fits _ _ _ hs
      case inr => exact hd.fits b hb

end Frame

-- No word outside the blocks that are in use at the end was changed.
structure Tidy (h h' : Heap) : Prop where
  live : ∀ b ∈ h.live, b ∈ h'.live
  mem  : ∀ x, h'.mem x = h.mem x ∨ ∃ b ∈ h'.live, Inside b x

namespace Tidy

theorem trans (h₁₂ : Tidy h h₁) (h₂₃ : Tidy h₁ h₂) : Tidy h h₂ where
  live := fun b hb => h₂₃.live b (h₁₂.live b hb)
  mem  := fun x => by
    rcases h₂₃.mem x with h₃ | hin
    case inr => exact .inr hin
    case inl =>
      rcases h₁₂.mem x with h₄ | ⟨b, hb, hx⟩
      case inl => exact .inl (h₃.trans h₄)
      case inr => exact .inr ⟨b, h₂₃.live b hb, hx⟩

theorem of_frame (hf : Frame S h h₁) (hm : ∀ x, h₁.mem x = h.mem x ∨ ∃ b ∈ h₁.live, Inside b x) : Tidy h h₁ :=
  ⟨hf.live, hm⟩

-- The words of a new block are as they were.
theorem new_mem (ht : Tidy h h₁) (ha : a.Sound) (hp : (h₁.alloc a size).1 ≠ 0) (hx : Inside ((h₁.alloc a size).1, size) x) :
    h₁.mem x = h.mem x := by
  refine (ht.mem x).resolve_right ?_
  rintro ⟨b, hb, hin⟩
  exact ((alloc_new ha hp).2 b hb).not_inside hx hin

end Tidy

-- What the allocator answers to one of the next `n` requests, if it is for `size` bytes, has the property `P`.
def Answers (a : Allocator) (h : Heap) (n size : Nat) (P : Nat → Prop) : Prop :=
  ∀ i live, h.requests.length ≤ i → i < h.requests.length + n → (∀ b ∈ h.live, b ∈ live) →
    a i live size ≠ 0 → P (a i live size)

namespace Answers

variable {n n' : Nat} {P : Nat → Prop}

theorem later (hs : Answers a h n size P) (hl : ∀ b ∈ h.live, b ∈ h₁.live) (hr : h.requests.length ≤ h₁.requests.length)
    (hn : h₁.requests.length + n' ≤ h.requests.length + n) : Answers a h₁ n' size P :=
  fun i live h₂ h₃ h₄ => hs i live (by omega) (by omega) fun b hb => h₄ b (hl b hb)

theorem alloc (hs : Answers a h n size P) (hn : 0 < n) (hp : (h.alloc a size).1 ≠ 0) : P (h.alloc a size).1 :=
  hs _ _ (Nat.le_refl _) (Nat.lt_add_of_pos_right hn) (fun _ hb => hb) hp

end Answers

theorem free_sublist : (h.free ptr).live.Sublist h.live := by
  simp only [free]
  split
  case isTrue => exact .refl _
  case isFalse =>
    split
    case isTrue  => exact List.eraseP_sublist
    case isFalse => exact .refl _

theorem free_mem : (h.free ptr).mem = h.mem := by
  simp only [free]
  split
  case isTrue => rfl
  case isFalse => split <;> rfl

theorem Laid.free (hl : h.Laid) : (h.free ptr).Laid :=
  ⟨hl.apart.sublist free_sublist, fun b hb => hl.fits b (free_sublist.subset hb)⟩

-- Freeing a block keeps the others.
theorem mem_free (hb : b ∈ h.live) (hn : b.1 ≠ ptr) : b ∈ (h.free ptr).live := by
  simp only [Heap.free]
  split
  case isTrue => exact hb
  case isFalse =>
    split
    case isTrue  => exact (List.mem_eraseP_of_neg (by simpa using hn)).mpr hb
    case isFalse => exact hb

theorem Owns.ne_zero {roots : List Nat} (ho : h.Owns roots) (hb : b ∈ h.live) : b.1 ≠ 0 := by
  have hm : b.1 ∈ h.owned := List.mem_map_of_mem hb
  have hf := (ho.perm.mem_iff).mp hm
  simpa using (List.mem_filter.mp hf).2

-- A block is still there if it is among the roots.
theorem Owns.mem_live {roots roots' : List Nat} (ho : h.Owns roots) (ho' : h₁.Owns roots') (hs : h₁.live.Sublist h.live)
    (hb : b ∈ h.live) (hr : b.1 ∈ roots') : b ∈ h₁.live := by
  have hm : b.1 ∈ h₁.owned := by
    refine ho'.perm.mem_iff.mpr (List.mem_filter.mpr ⟨hr, ?_⟩)
    simpa using ho.ne_zero hb
  have ⟨c, hc, he⟩ := List.mem_map.mp hm
  have hcb : c = b := List.inj_on_of_nodup_map ho.nodup (hs.subset hc) hb he
  exact hcb ▸ hc

end Heap
