import BsaAcs.Pgt.Theorems.Refine
import BsaAcs.Pgt.Theorems.Translate

namespace Pgt

-- Which pages a fill drops from the tree. A block descriptor that replaces a table descriptor drops
-- the pages below it, so no block may be written where a table is.

theorem forall_update {slots : Nat → Tree} {Q : Tree → Prop} (ht : Q t) (hq : ∀ i, Q (slots i)) :
    ∀ i, Q (Function.update slots j t i) := by
  intro i
  by_cases hi : i = j
  case pos => rwa [hi, Function.update_self]
  case neg => rw [Function.update_of_ne hi]; exact hq i

theorem Loop.invariant {slot : Nat → Tree → Nat → Tree → Nat → Prop} {Q : Tree → Prop}
    (hl : Loop p slot h nbits top ia slots m slots' n)
    (hs : ∀ {x t m t' n}, slot x t m t' n → Q t → Q t') (hq : ∀ i, Q (slots i)) :
    ∀ i, Q (slots' i) := by
  induction hl
  case done => exact hq
  case turn hturn _ ih => exact ih <| forall_update (hs hturn (hq _)) hq

-- The loop does not reach beyond the indices of its table.
theorem Loop.beyond (hl : Loop p slot h nbits top ia slots m slots' n) (hi : 2 ^ nbits ≤ i) :
    slots' i = slots i := by
  induction hl
  case done => rfl
  case turn ia _ _ _ _ _ _ _ _ _ ih =>
    have : i ≠ slotIndex p h nbits ia := (slotIndex_lt.trans_le hi).ne'
    rw [ih, Function.update_of_ne this]

theorem Loop.le {slot : Nat → Tree → Nat → Tree → Nat → Prop}
    (hl : Loop p slot h nbits top ia slots m slots' n)
    (hs : ∀ {x t m t' n}, slot x t m t' n → m ≤ n) : m ≤ n := by
  induction hl
  case done => exact le_rfl
  case turn hturn _ ih => exact (hs hturn).trans ih

theorem SlotFill.le (hs : SlotFill pf g p a va pa h ia top t m t' n) : m ≤ n := by
  induction h generalizing ia top t m t' n
  case zero => exact hs.right.ge
  case succ h ih =>
    rcases hs with ⟨_, _, rfl⟩ | ⟨_, q, slots, l, slots', hb, hloop, _⟩
    case inl => exact le_rfl
    case inr =>
      have := hloop.le fun hs => ih hs
      cases hb
      case existing => exact this
      case fresh => omega

-- The words of table descriptors are 32-bit words.
def Plain : Nat → Tree → Prop
  | h + 1, .table w slots => w < 2 ^ 32 ∧ ∀ i, Plain h (slots i)
  | _, _ => True

theorem plain_empty : Plain h .empty := by
  cases h <;> trivial

theorem plain_leaf : Plain h (.leaf w) := by
  cases h <;> trivial

theorem tableDescriptor_lt (hg : Granule g p) : tableDescriptor g q < 2 ^ 32 := by
  have := hg.hi
  rw [tableDescriptor, and_pageMask hg]
  refine Nat.or_lt_two_pow (by decide) ?_
  have : Bits.slice 31 p q < 2 ^ (31 + 1) := Bits.slice_lt (by omega)
  omega

theorem SlotFill.plain (hg : Granule g p) (hs : SlotFill pf g p a va pa h ia top t m t' n)
    (ht : Plain h t) : Plain h t' := by
  induction h generalizing ia top t m t' n
  case zero => rw [hs.left]; exact plain_leaf
  case succ h ih =>
    rcases hs with ⟨_, rfl, _⟩ | ⟨_, q, slots, l, slots', hb, hloop, rfl⟩
    case inl => exact plain_leaf
    case inr =>
      refine ⟨tableDescriptor_lt hg, hloop.invariant (fun hs ht => ih hs ht) ?_⟩
      cases hb
      case existing => exact ht.right
      case fresh => exact fun _ => plain_empty

section Tidy

-- The heights at which the addresses of the region are aligned, so that blocks are written.
def BlockHeight (p va pa h : Nat) : Prop :=
  blockBytes p h ∣ va ∧ blockBytes p h ∣ pa

-- No table stands where a block is due.
def Tidy (p va pa : Nat) : Nat → Tree → Prop
  | h + 1, .table _ slots =>
    ¬BlockHeight p va pa (h + 1) ∧ ∀ i < 2 ^ (p - 3), Tidy p va pa h (slots i)
  | _, _ => True

theorem tidy_empty : Tidy p va pa h .empty := by
  cases h <;> trivial

theorem tidy_leaf : Tidy p va pa h (.leaf w) := by
  cases h <;> trivial

-- The input addresses of the stops at a height.
def Stop (p va h x : Nat) : Prop :=
  ∃ k, x = va + k * blockBytes p h

-- Where blocks are written, the range consists of whole blocks.
def Whole (p va pa h ia top : Nat) : Prop :=
  ∀ j, 1 ≤ j → j ≤ h → BlockHeight p va pa j → ∀ x, Visits p j ia top x → x + blockBytes p j - 1 ≤ top

theorem Stop.next (hs : Stop p va h x) : Stop p va h (x + blockBytes p h) := by
  obtain ⟨k, rfl⟩ := hs
  exact ⟨k + 1, by rw [Nat.add_mul]; omega⟩

theorem Stop.below (hs : Stop p va (h + 1) x) : Stop p va h x := by
  obtain ⟨k, rfl⟩ := hs
  exact ⟨k * 2 ^ (p - 3), by rw [blockBytes_succ, Nat.mul_assoc]⟩

theorem Stop.eligible_iff (hs : Stop p va h x) (hu : p + h * (p - 3) < 64) :
    Eligible p (outputOf va pa) h x top ↔ BlockHeight p va pa h ∧ x + blockBytes p h - 1 ≤ top := by
  obtain ⟨k, rfl⟩ := hs
  have hd : blockBytes p h ∣ 2 ^ 64 := Nat.pow_dvd_pow 2 hu.le
  have hx : blockBytes p h ∣ va + k * blockBytes p h ↔ blockBytes p h ∣ va :=
    (Nat.dvd_add_iff_left (Nat.dvd_mul_left ..)).symm
  have ho : blockBytes p h ∣ outputOf va pa (va + k * blockBytes p h) ↔ blockBytes p h ∣ pa := by
    rw [outputOf, Nat.add_sub_cancel_left, Nat.dvd_mod_iff hd]
    exact (Nat.dvd_add_iff_left (Nat.dvd_mul_left ..)).symm
  rw [Eligible, hx, ho, BlockHeight, and_assoc]

theorem Visits.of_dvd (hv : Visits p j x top y) (hx : ∃ k, x = ia + k * blockBytes p h) (hj : j ≤ h) :
    Visits p j ia top y := by
  obtain ⟨k, rfl⟩ := hx
  obtain ⟨n, rfl, hlt⟩ := hv
  obtain ⟨m, hm⟩ := blockBytes_dvd (p := p) hj
  refine ⟨k * m + n, ?_, hlt⟩
  rw [hm, Nat.add_mul, Nat.mul_assoc, Nat.mul_comm m, Nat.add_assoc]

-- A stop that lies in a block ends with the block or before.
theorem Visits.block_le (hv : Visits p j x top y) (hj : j ≤ h) (hlt : y < x + blockBytes p h) :
    y + blockBytes p j ≤ x + blockBytes p h := by
  obtain ⟨n, rfl, _⟩ := hv
  obtain ⟨m, hm⟩ := blockBytes_dvd (p := p) hj
  have hlt : n * blockBytes p j < m * blockBytes p j := by
    rw [Nat.mul_comm m, ←hm]
    omega
  have := Nat.mul_le_mul_right (blockBytes p j) (show n + 1 ≤ m from Nat.lt_of_mul_lt_mul_right hlt)
  rw [Nat.add_mul, Nat.mul_comm m, ←hm] at this
  omega

-- A stop after a block is a stop of the range that starts there.
theorem Visits.later (hv : Visits p j x top y) (hj : j ≤ h) (hge : x + blockBytes p h ≤ y) :
    Visits p j (x + blockBytes p h) top y := by
  obtain ⟨n, rfl, hlt⟩ := hv
  obtain ⟨m, hm⟩ := blockBytes_dvd (p := p) hj
  have hle : m * blockBytes p j ≤ n * blockBytes p j := by
    rw [Nat.mul_comm m, ←hm]
    omega
  refine ⟨n - m, ?_, hlt⟩
  rw [Nat.sub_mul, Nat.mul_comm m, ←hm] at *
  omega

-- The range of a stop consists of whole blocks if it is one itself, or if the whole range does.
theorem whole_nested (hw : ia + blockBytes p (h + 1) - 1 ≤ top ∨ Whole p va pa (h + 1) ia top) :
    Whole p va pa h ia (min top (ia + blockBytes p (h + 1) - 1)) := by
  intro j h₁ h₂ hb x hx
  have hle := hx.block_le (h := h + 1) (by omega) (by have := hx.lt; omega)
  have hpos := blockBytes_pos (p := p) (h := j)
  cases hw
  case inl h => omega
  case inr h =>
    have hlt := hx.lt
    have hv : Visits p j ia top x := by
      obtain ⟨n, hn, _⟩ := hx
      exact ⟨n, hn, by omega⟩
    have := h j h₁ (by omega) hb x hv
    omega

theorem Whole.next (hw : Whole p va pa h ia top) : Whole p va pa h (ia + blockBytes p h) top :=
  fun j h₁ h₂ hb _ hx => hw j h₁ h₂ hb _ <| hx.of_dvd ⟨1, by omega⟩ h₂

end Tidy

-- A turn or a loop keeps the pages of the tree, and it enters all pages that it obtains.
structure Keeps (pf : Platform) (m n : Nat) (pages pages' : List Nat) : Prop where
  old : ∀ q ∈ pages, q ∈ pages'
  new : ∀ k, m ≤ k → k < n → pf.page k ∈ pages'

theorem Keeps.refl : Keeps pf m m pages pages :=
  ⟨fun _ h => h, fun _ h₁ h₂ => absurd (h₁.trans_lt h₂) (lt_irrefl _)⟩

theorem Keeps.trans (h₁ : Keeps pf l m pages₁ pages₂) (h₂ : Keeps pf m n pages₂ pages₃) :
    Keeps pf l n pages₁ pages₃ where
  old := fun q hq => h₂.old q <| h₁.old q hq
  new := by
    intro k hl hn
    by_cases hm : k < m
    case pos => exact h₂.old _ <| h₁.new k hl hm
    case neg => exact h₂.new k (Nat.not_lt.mp hm) hn

theorem Keeps.update (hi : i < 2 ^ (p - 3)) (hk : Keeps pf m n ((slots i).pages p h) (t.pages p h)) :
    Keeps pf m n (tablePages p h slots) (tablePages p h (Function.update slots i t)) where
  old := by
    intro q hq
    obtain ⟨j, hj, hq⟩ := mem_tablePages.mp hq
    by_cases hji : j = i
    case pos =>
      subst hji
      exact slot_mem_tablePages hi <| by rw [Function.update_self]; exact hk.old q hq
    case neg => exact slot_mem_tablePages hj <| by rwa [Function.update_of_ne hji]
  new := by
    intro k hm hn
    exact slot_mem_tablePages hi <| by rw [Function.update_self]; exact hk.new k hm hn

section

variable {pf : Platform} {g : Globals} {p a va pa : Nat} (hg : Granule g p) (hf : PageAllocator pf p)

include hg

-- A loop over tidy slots, provided that this holds for each of its turns. Only the last turn can
-- stop before the end of a block.
theorem TreeFill.keeps (hn : nbits ≤ p - 3)
    (hslot : ∀ {ia t m t' n}, SlotFill pf g p a va pa h ia top t m t' n → ia < top →
      Stop p va h ia → Tidy p va pa h t → Plain h t → LowPages pf m n →
      Keeps pf m n (t.pages p h) (t'.pages p h) ∧
      (ia + blockBytes p h - 1 ≤ top ∨ Whole p va pa h ia top → Tidy p va pa h t'))
    (hl : TreeFill pf g p a va pa h nbits top ia slots m slots' n) (hst : Stop p va h ia)
    (ht : ∀ i < 2 ^ (p - 3), Tidy p va pa h (slots i)) (hp : ∀ i, Plain h (slots i)) (hlow : LowPages pf m n) :
    Keeps pf m n (tablePages p h slots) (tablePages p h slots') ∧
    (Whole p va pa h ia top → ∀ i < 2 ^ (p - 3), Tidy p va pa h (slots' i)) := by
  rw [TreeFill] at hl
  induction hl
  case done => exact ⟨.refl, fun _ => ht⟩
  case turn ia slots m t' l slots' n hlt hturn hr ih =>
    have hle : l ≤ n := hr.le SlotFill.le
    have hi : slotIndex p h nbits ia < 2 ^ (p - 3) := lt_of_lt_of_le slotIndex_lt <|
      Nat.pow_le_pow_right (by omega) hn
    have ⟨hk, htidy⟩ := hslot hturn hlt hst (ht _ hi) (hp _) (hlow.mono le_rfl hle)
    have hk := hk.update hi
    by_cases hw : ia + blockBytes p h - 1 ≤ top ∨ Whole p va pa h ia top
    case pos =>
      have htidy : ∀ i < 2 ^ (p - 3),
          Tidy p va pa h (Function.update slots (slotIndex p h nbits ia) t' i) := by
        intro i hlt
        by_cases hi : i = slotIndex p h nbits ia
        case pos => rw [hi, Function.update_self]; exact htidy hw
        case neg => rw [Function.update_of_ne hi]; exact ht i hlt
      have hplain := forall_update (j := slotIndex p h nbits ia) (hturn.plain hg (hp _)) hp
      have ⟨hk', ht'⟩ := ih hst.next htidy hplain (hlow.mono hturn.le le_rfl)
      exact ⟨hk.trans hk', fun hw => ht' hw.next⟩
    case neg =>
      -- The block of this turn ends after the top, so the loop does too.
      have hge : ¬ia + blockBytes p h < top := by
        have := (not_or.mp hw).left
        omega
      cases hr
      case done => exact ⟨hk, fun h => absurd (.inr h) hw⟩
      case turn => contradiction

theorem tableDescriptor_page (hd : 2 ^ p ∣ q) (hq : q < 2 ^ 32) :
    Bits.slice 47 p (tableDescriptor g q) = q := by
  rw [tableDescriptor_slice hg, slice_low hg hd hq]

include hf

-- A turn on a tidy slot.
theorem SlotFill.keeps (hs : SlotFill pf g p a va pa h ia top t m t' n) (hu : p + h * (p - 3) < 64)
    (hlt : ia < top) (hst : Stop p va h ia) (ht : Tidy p va pa h t) (hp : Plain h t)
    (hlow : LowPages pf m n) :
    Keeps pf m n (t.pages p h) (t'.pages p h) ∧
    (ia + blockBytes p h - 1 ≤ top ∨ Whole p va pa h ia top → Tidy p va pa h t') := by
  induction h generalizing ia top t m t' n
  case zero =>
    obtain ⟨rfl, rfl⟩ := hs
    refine ⟨?_, fun _ => tidy_leaf⟩
    cases t <;> exact .refl
  case succ h ih =>
    have hu' : p + h * (p - 3) < 64 := by
      rw [Nat.add_mul] at hu
      omega
    rcases hs with ⟨he, rfl, rfl⟩ | ⟨he, q, slots, l, slots', hb, hloop, rfl⟩
    case inl =>
      -- A block is due here, so the slot holds no table.
      refine ⟨?_, fun _ => tidy_leaf⟩
      cases t
      case empty | leaf => simpa using .refl
      case table => exact absurd ((hst.eligible_iff hu).mp he).left ht.left
    case inr =>
      have hle : l ≤ n := hloop.le SlotFill.le
      have hrec := fun hts hps => TreeFill.keeps hg le_rfl
        (fun hs hlt hst ht hp hl => ih hs hu' hlt hst ht hp hl) hloop hst.below hts hps
      have hnb : ia + blockBytes p (h + 1) - 1 ≤ top ∨ Whole p va pa (h + 1) ia top →
          ¬BlockHeight p va pa (h + 1) := by
        intro hw hb
        refine he <| (hst.eligible_iff hu).mpr ⟨hb, hw.elim id fun hw => ?_⟩
        exact hw (h + 1) (by omega) le_rfl hb ia (.first hlt)
      cases hb
      case existing w =>
        have hq : Bits.slice 47 p w < 2 ^ 32 :=
          lt_of_le_of_lt (Nat.and_le_left) hp.left
        have hq := tableDescriptor_page hg Bits.dvd_slice hq
        have ⟨hk, htidy⟩ := hrec ht.right hp.right hlow
        refine ⟨⟨?old, ?new⟩, fun hw => ⟨hnb hw, htidy <| whole_nested hw⟩⟩
        case old =>
          intro r hr
          rw [mem_pages_table] at hr ⊢
          rw [hq]
          exact hr.imp (hk.old r) id
        case new =>
          intro k h₁ h₂
          exact mem_pages_table.mpr <| .inl <| hk.new k h₁ h₂
      case fresh hnt =>
        have hq := tableDescriptor_page hg (hf.aligned m) (hlow m le_rfl (by omega))
        have ⟨hk, htidy⟩ := hrec (fun _ _ => tidy_empty) (fun _ => plain_empty)
          (hlow.mono (Nat.le_succ m) le_rfl)
        refine ⟨⟨?old, ?new⟩, fun hw => ⟨hnb hw, htidy <| whole_nested hw⟩⟩
        case old =>
          intro r hr
          cases t
          case empty | leaf => simp at hr
          case table => exact absurd rfl (hnt _ _)
        case new =>
          intro k h₁ h₂
          rw [mem_pages_table, hq]
          rcases Nat.eq_or_lt_of_le h₁ with rfl | h₁
          case inl => exact .inr rfl
          case inr => exact .inl <| hk.new k h₁ h₂

end

end Pgt
