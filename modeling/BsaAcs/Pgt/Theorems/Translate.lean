import BsaAcs.Pgt.Theorems.Built

namespace Pgt

-- What the walk finds in a table that a fill has built.

-- The page of `v` is one of those that the loop over `[ia, top]` reaches.
def Covers (p ia top v : Nat) : Prop :=
  ia ≤ v ∧ v / 2 ^ p * 2 ^ p < top

instance : Decidable (Covers p ia top v) :=
  inferInstanceAs (Decidable (_ ∧ _))

-- At no height does the range run over a block boundary that it does not start on.
def Straight (p h ia top : Nat) : Prop :=
  ∀ j, 1 ≤ j → j ≤ h → blockBytes p j ∣ ia ∨ ia / blockBytes p j = top / blockBytes p j

theorem Straight.mono (hs : Straight p h ia top) (hle : n ≤ h) : Straight p n ia top :=
  fun j h₁ h₂ => hs j h₁ (h₂.trans hle)

theorem Straight.of_dvd (hd : blockBytes p h ∣ ia) : Straight p h ia top :=
  fun _ _ hj => .inl <| (blockBytes_dvd hj).trans hd

theorem blockBytes_zero : blockBytes p 0 = 2 ^ p := by
  simp [blockBytes]

theorem page_dvd_blockBytes : 2 ^ p ∣ blockBytes p h :=
  blockBytes_zero ▸ blockBytes_dvd (Nat.zero_le h)

section Arithmetic

variable {b x y ia top k : Nat}

theorem div_eq_of_same_block (hb : 0 < b) (hd : b ∣ x) (hx : x ≤ y) (hy : y < x + b) :
    y / b = x / b := by
  obtain ⟨m, rfl⟩ := hd
  rw [Nat.mul_div_cancel_left _ hb]
  exact Nat.div_eq_of_lt_le (Nat.mul_comm .. ▸ hx) (by rw [Nat.add_mul, Nat.mul_comm]; omega)

theorem block_bounds (hb : 0 < b) (hd : b ∣ x) (he : y / b = x / b) : x ≤ y ∧ y < x + b := by
  obtain ⟨m, rfl⟩ := hd
  rw [Nat.mul_div_cancel_left _ hb] at he
  have hy := Nat.div_add_mod y b
  have := Nat.mod_lt y hb
  rw [he] at hy
  omega

theorem lt_of_div_eq (hb : 0 < b) (he : ia / b = top / b) : top < ia + b := by
  have h₁ := Nat.div_add_mod ia b
  have h₂ := Nat.div_add_mod top b
  have := Nat.mod_lt top hb
  rw [he] at h₁
  omega

-- The block of an address starts after every block boundary before the address, and it ends before
-- every one behind it.
theorem le_start (hb : 0 < b) (hd : b ∣ x) (hx : x ≤ y) : x ≤ y / b * b := by
  obtain ⟨m, rfl⟩ := hd
  rw [Nat.mul_comm]
  exact Nat.mul_le_mul_right _ <| (Nat.le_div_iff_mul_le hb).mpr <| Nat.mul_comm .. ▸ hx

theorem start_add_le (hb : 0 < b) (hd : b ∣ x) (hlt : y < x) : y / b * b + b ≤ x := by
  obtain ⟨m, rfl⟩ := hd
  have := Nat.mul_le_mul_right b (show y / b + 1 ≤ m from (Nat.div_lt_iff_lt_mul hb).mpr (Nat.mul_comm .. ▸ hlt))
  rw [Nat.add_mul, Nat.one_mul] at this
  rwa [Nat.mul_comm b m]

-- The index within a table and the table that an address falls in determine its block.
theorem div_eq_of_mod_eq (hw : x / (k * b) = y / (k * b)) (hm : x / b % k = y / b % k) :
    x / b = y / b := by
  rw [Nat.mul_comm, ←Nat.div_div_eq_div_mul, ←Nat.div_div_eq_div_mul] at hw
  rw [←Nat.div_add_mod (x / b) k, ←Nat.div_add_mod (y / b) k, hw, hm]

end Arithmetic

theorem Visits.modEq (hv : Visits p h ia top x) : x % blockBytes p h = ia % blockBytes p h := by
  obtain ⟨k, rfl, _⟩ := hv
  exact Nat.add_mul_mod_self_right ..

theorem Visits.dvd (hv : Visits p h ia top x) (hd : d ∣ blockBytes p h) (hi : d ∣ ia) : d ∣ x := by
  obtain ⟨k, rfl, _⟩ := hv
  exact (Nat.dvd_add_right hi).mpr (hd.mul_left k)

-- If the range lies in one block, the loop stops once.
theorem Visits.eq_of_div_eq (hv : Visits p h ia top x)
    (he : ia / blockBytes p h = top / blockBytes p h) : x = ia := by
  have hlt := lt_of_div_eq blockBytes_pos he
  obtain ⟨k, rfl, hx⟩ := hv
  cases k
  case zero => simp
  case succ k =>
    rw [Nat.add_mul] at hx
    omega

theorem walk_empty : Tree.empty.walk p h v = .invalid 0 := by
  cases h <;> rfl

section Leaves

variable {g : Globals} {p a : Nat} (hg : Granule g p) (ha : AttrBits a)

include hg

theorem walk_table : (Tree.table (tableDescriptor g q) slots).walk p (h + 1) v =
    (slots (slotIndex p h (p - 3) v)).walk p h v := by
  simp [Tree.walk, tableDescriptor_testBit hg (Nat.zero_le 1)]

include ha

theorem walk_page : (Tree.leaf (pageDescriptor g o a)).walk p 0 v =
    .mapped (Bits.slice 31 p o + v % 2 ^ p) a := by
  simp only [Tree.walk, pageDescriptor_testBit hg ha (Nat.zero_le 1),
    pageDescriptor_testBit hg ha (le_refl 1), pageDescriptor_slice hg ha, pageDescriptor_attributes hg ha]
  rfl

-- A page is found at its address if the descriptor holds the address.
theorem walk_page_iff (hd : 2 ^ p ∣ o) :
    (Tree.leaf (pageDescriptor g o a)).walk p 0 v = .mapped (o + v % 2 ^ p) a ↔ o < 2 ^ 32 := by
  rw [walk_page hg ha, ←slice_low_iff hg hd]
  simp

-- A block is found at its address if the architecture has blocks of its size, and if the descriptor
-- holds the address.
theorem walk_block_iff (hk : blockAllowed p (h + 1) = true → p + (h + 1) * (p - 3) ≤ 47)
    (hd : blockBytes p (h + 1) ∣ o) : (Tree.leaf (blockWord p a (h + 1) o)).walk p (h + 1) v =
      .mapped (o + v % blockBytes p (h + 1)) a ↔ blockAllowed p (h + 1) = true ∧ o < 2 ^ 48 := by
  by_cases hal : blockAllowed p (h + 1)
  case neg => simp [Tree.walk, hal]
  case pos =>
    have hk := hk hal
    simp only [Tree.walk, blockWord_testBit_zero, hal, blockWord_slice hg.lo hk ha, Bool.not_true, Bool.false_eq_true,
      if_false, if_true, WalkResult.mapped.injEq, true_and]
    constructor
    case mp =>
      rintro ⟨he, _⟩
      have hlt : Bits.slice 47 (p + (h + 1) * (p - 3)) o < 2 ^ (47 + 1) := Bits.slice_lt hk
      omega
    case mpr =>
      intro ho
      exact ⟨by rw [Bits.slice_eq_self hd ho hk], blockWord_attributes hg.lo (by omega) ho ha⟩

-- What is found below a leaf never lies behind the block of its address.
theorem walk_page_le (hw : (Tree.leaf (pageDescriptor g o a)).walk p 0 v = .mapped o' a') :
    o' < o + 2 ^ p := by
  have hle : Bits.slice 31 p o ≤ o := Nat.and_le_left
  have hm := Nat.mod_lt v (Nat.two_pow_pos p)
  rw [walk_page hg ha] at hw
  cases hw
  omega

theorem walk_block_le (hk : blockAllowed p (h + 1) = true → p + (h + 1) * (p - 3) ≤ 47)
    (hw : (Tree.leaf (blockWord p a (h + 1) o)).walk p (h + 1) v = .mapped o' a') :
    o' < o + blockBytes p (h + 1) := by
  by_cases hal : blockAllowed p (h + 1)
  case neg => simp [Tree.walk, hal] at hw
  case pos =>
    have hle : Bits.slice 47 (p + (h + 1) * (p - 3)) o ≤ o := Nat.and_le_left
    have hm := Nat.mod_lt v (blockBytes_pos (p := p) (h := h + 1))
    simp only [Tree.walk, blockWord_testBit_zero, hal, blockWord_slice hg.lo (hk hal) ha, Bool.not_true,
      Bool.false_eq_true, if_false, if_true] at hw
    cases hw
    omega

end Leaves

-- A region with page aligned addresses that stays in the 64-bit range. The blocks that fit into it
-- are smaller than the address field of a descriptor.
structure Linear (p va pa top : Nat) : Prop where
  input  : 2 ^ p ∣ va
  output : 2 ^ p ∣ pa
  bound  : pa + (top - va) + 2 ^ p ≤ 2 ^ 64
  field  : ∀ j, blockAllowed p j = true → blockBytes p j ≤ top + 1 - va → p + j * (p - 3) ≤ 47

namespace Linear

variable (hl : Linear p va pa top)

include hl

theorem mono (hle : top' ≤ top) : Linear p va pa top' where
  input  := hl.input
  output := hl.output
  bound  := by have := hl.bound; omega
  field  := fun j hal hb => hl.field j hal (by omega)

theorem outputOf_eq (hx : x < top + 2 ^ p) : outputOf va pa x = pa + (x - va) := by
  have := hl.bound
  have := Nat.two_pow_pos p
  rw [outputOf, Nat.mod_eq_of_lt (by omega)]

theorem dvd_outputOf (hx : x ≤ top) (hd : 2 ^ p ∣ x) : 2 ^ p ∣ outputOf va pa x := by
  have := Nat.two_pow_pos p
  rw [hl.outputOf_eq (by omega)]
  exact (Nat.dvd_add_right hl.output).mpr <| Nat.dvd_sub hd hl.input

theorem outputOf_add (hs : va ≤ x) (hx : x + n < top + 2 ^ p) :
    outputOf va pa (x + n) = outputOf va pa x + n := by
  rw [hl.outputOf_eq hx, hl.outputOf_eq (by omega)]
  omega

end Linear

-- The address that follows `x` in its block.
theorem eq_add_mod (hb : 0 < b) (hd : b ∣ x) (he : v / b = x / b) : v = x + v % b := by
  obtain ⟨m, rfl⟩ := hd
  rw [Nat.mul_div_cancel_left _ hb] at he
  have := Nat.div_add_mod v b
  rw [he] at this
  omega

theorem two_le_page (hp : 12 ≤ p) : 2 ≤ 2 ^ p :=
  Nat.le_self_pow (by omega) 2

theorem page_start_le : v / 2 ^ p * 2 ^ p ≤ v :=
  Nat.div_mul_le_self ..

theorem page_start_div (hd : 2 ^ p ∣ b) : v / 2 ^ p * 2 ^ p / b = v / b := by
  obtain ⟨m, rfl⟩ := hd
  rw [←Nat.div_div_eq_div_mul, ←Nat.div_div_eq_div_mul, Nat.mul_div_cancel _ (Nat.two_pow_pos _)]

theorem le_page_start (hd : 2 ^ p ∣ x) (hx : x ≤ v) : x ≤ v / 2 ^ p * 2 ^ p :=
  le_start (Nat.two_pow_pos p) hd hx

-- The page of an address in a block ends where the block does, or before.
theorem page_start_lt (hp : 12 ≤ p) (hd : blockBytes p h ∣ x)
    (he : v / blockBytes p h = x / blockBytes p h) :
    v / 2 ^ p * 2 ^ p < x + blockBytes p h - 1 := by
  have hpd := page_dvd_blockBytes (p := p) (h := h)
  have hv := block_bounds blockBytes_pos hd he
  have h2 := two_le_page hp
  have := start_add_le (Nat.two_pow_pos p) ((Nat.dvd_add_right (hpd.trans hd)).mpr hpd) hv.right
  omega

section Built

variable {g : Globals} {p a va pa : Nat} (hg : Granule g p) (ha : AttrBits a)

-- The range of one stop of the loop.
def stopTop (p h top x : Nat) : Nat :=
  min top (x + blockBytes p h - 1)

-- The range of a stop inherits that it is straight.
theorem Straight.stop (hd : 2 ^ p ∣ ia) (hs : Straight p h ia top)
    (hv : Visits p h ia top x) :
    Straight p h x (stopTop p h top x) ∧
    ((blockBytes p h ∣ ia ∧ blockBytes p h ∣ x) ∨
      (ia / blockBytes p h = top / blockBytes p h ∧ x = ia ∧ stopTop p h top x = top)) := by
  by_cases hb : blockBytes p h ∣ ia
  case pos =>
    have hx := hv.dvd (dvd_refl _) hb
    exact ⟨.of_dvd hx, .inl ⟨hb, hx⟩⟩
  case neg =>
    cases h
    case zero => exact absurd (blockBytes_zero ▸ hd) hb
    case succ h =>
      have he := (hs (h + 1) (by omega) le_rfl).resolve_left hb
      obtain rfl := hv.eq_of_div_eq he
      have hlt := lt_of_div_eq blockBytes_pos he
      have ht : stopTop p (h + 1) top x = top := by
        rw [stopTop]
        omega
      exact ⟨ht.symm ▸ hs, .inr ⟨he, rfl, ht⟩⟩

-- The block of `v` lies in the range, and it starts at addresses that a block can start at.
def InBlock (p : Nat) (out : Nat → Nat) (ia top h v : Nat) : Prop :=
  ia ≤ v / blockBytes p h * blockBytes p h ∧ Eligible p out h (v / blockBytes p h * blockBytes p h) top

instance : Decidable (InBlock p out ia top h v) :=
  inferInstanceAs (Decidable (_ ∧ _))

-- The largest block of `v` is one that the architecture has, at an address that a block descriptor
-- can hold. If `v` lies in no block, a page descriptor can hold the address of its page.
def Held (p : Nat) (out : Nat → Nat) (ia top : Nat) : Nat → Nat → Prop
  | 0, v => out (v / 2 ^ p * 2 ^ p) < 2 ^ 32
  | h + 1, v =>
    if InBlock p out ia top (h + 1) v then
      blockAllowed p (h + 1) = true ∧ out (v / blockBytes p (h + 1) * blockBytes p (h + 1)) < 2 ^ 48
    else
      Held p out ia top h v

-- What the walk finds for `v`, if the table is filled for the range alone.
structure Finds (p a : Nat) (out : Nat → Nat) (ia top h v : Nat) (r : WalkResult) : Prop where
  missed  : ¬Covers p ia top v → r = .invalid 0
  covered : Covers p ia top v → (r = .mapped (out v) a ↔ Held p out ia top h v)

-- The block of an address at a stop is the same in the range of the stop as in the whole range.
section Stop

variable {out : Nat → Nat} (hd : 2 ^ p ∣ ia) (hs : Straight p h ia top) (hx : Visits p h ia top x)
  (hv : v / blockBytes p h = x / blockBytes p h)

include hd hs hx hv

theorem inBlock_stop (hj : j ≤ h) :
    InBlock p out x (stopTop p h top x) j v ↔ InBlock p out ia top j v := by
  rcases (hs.stop hd hx).right with ⟨hb, hbx⟩ | ⟨_, rfl, ht⟩
  case inr => rw [ht]
  case inl =>
    have ⟨hle, hlt⟩ := block_bounds blockBytes_pos hbx hv
    have hdvd := blockBytes_dvd (p := p) hj
    have hstart := le_start blockBytes_pos (hdvd.trans hbx) hle
    have hend := start_add_le blockBytes_pos ((Nat.dvd_add_right (hdvd.trans hbx)).mpr hdvd) hlt
    have := hx.le
    simp only [InBlock, Eligible, stopTop]
    generalize v / blockBytes p j * blockBytes p j = b at *
    constructor
    case mp =>
      rintro ⟨_, h₁, h₂, h₃⟩
      exact ⟨by omega, h₁, h₂, by omega⟩
    case mpr =>
      rintro ⟨_, h₁, h₂, h₃⟩
      exact ⟨by omega, h₁, h₂, by omega⟩

theorem held_stop (hj : j ≤ h) : Held p out x (stopTop p h top x) j v ↔ Held p out ia top j v := by
  induction j
  case zero => rfl
  case succ j ih => simp only [Held, inBlock_stop hd hs hx hv hj, ih (by omega)]

theorem covers_stop (hp : 12 ≤ p) : Covers p x (stopTop p h top x) v ↔ Covers p ia top v := by
  rcases (hs.stop hd hx).right with ⟨_, hbx⟩ | ⟨_, rfl, ht⟩
  case inl =>
    have := (block_bounds blockBytes_pos hbx hv).left
    have := page_start_lt hp hbx hv
    have := hx.le
    simp only [Covers, stopTop]
    omega
  case inr => rw [ht]

theorem Finds.of_stop (hp : 12 ≤ p) (hf : Finds p a out x (stopTop p h top x) h v r) :
    Finds p a out ia top h v r where
  missed hc  := hf.missed <| mt (covers_stop hd hs hx hv hp).mp hc
  covered hc := by
    rw [hf.covered <| (covers_stop hd hs hx hv hp).mpr hc]
    exact held_stop hd hs hx hv le_rfl

end Stop

-- Every page of the range is visited.
theorem Straight.visits (hs : Straight p h ia top) (hd : 2 ^ p ∣ ia) (hc : Covers p ia top v) :
    ∃ x, Visits p h ia top x ∧ v / blockBytes p h = x / blockBytes p h := by
  obtain ⟨hle, hlt⟩ := hc
  have hpd := page_dvd_blockBytes (p := p) (h := h)
  by_cases hb : blockBytes p h ∣ ia
  case pos =>
    obtain ⟨m, rfl⟩ := hb
    have hm : m ≤ v / blockBytes p h :=
      (Nat.le_div_iff_mul_le blockBytes_pos).mpr (Nat.mul_comm .. ▸ hle)
    refine ⟨v / blockBytes p h * blockBytes p h, ⟨v / blockBytes p h - m, ?_, ?_⟩, ?_⟩
    case refine_1 =>
      rw [Nat.sub_mul, Nat.mul_comm _ m]
      have := Nat.mul_le_mul_right (blockBytes p h) hm
      omega
    case refine_2 =>
      refine lt_of_le_of_lt ?_ hlt
      rw [←page_start_div hpd]
      exact Nat.div_mul_le_self ..
    case refine_3 => rw [Nat.mul_div_cancel _ blockBytes_pos]
  case neg =>
    -- The range lies in one block, and `v` does too.
    refine ⟨ia, .first <| (le_page_start hd hle).trans_lt hlt, ?_⟩
    cases h
    case zero => exact absurd (blockBytes_zero ▸ hd) hb
    case succ h =>
      have he := (hs (h + 1) (by omega) le_rfl).resolve_left hb
      apply le_antisymm _ (Nat.div_le_div_right hle)
      rw [he, ←page_start_div hpd]
      exact Nat.div_le_div_right hlt.le

-- A straight table maps its range and nothing else, provided that its slots do.
theorem TableBuilt.walk {slots : Nat → Tree} {out : Nat → Nat} (hp : 12 ≤ p)
    (hb : TableBuilt p (SlotBuilt g p a out h) h nbits ia top slots)
    (hn : nbits ≤ p - 3) (hs : Straight p h ia top) (hd : 2 ^ p ∣ ia)
    (hu : ∀ x, Visits p h ia top x → slotIndex p h nbits v = slotIndex p h nbits x →
      v / blockBytes p h = x / blockBytes p h)
    (hslot : ∀ {x T}, SlotBuilt g p a out h x top T → Visits p h ia top x →
      Straight p h x (stopTop p h top x) → v / blockBytes p h = x / blockBytes p h →
      Finds p a out x (stopTop p h top x) h v (T.walk p h v)) :
    Finds p a out ia top h v ((slots (slotIndex p h nbits v)).walk p h v) := by
  have hi : slotIndex p h nbits v < 2 ^ (p - 3) := lt_of_lt_of_le slotIndex_lt <|
    Nat.pow_le_pow_right (by omega) hn
  rcases hb _ hi with ⟨x, hx, he, hsb⟩ | ⟨hne, hsb⟩
  case inl =>
    have hvx := hu x hx he
    exact .of_stop hd hs hx hvx hp <| hslot hsb hx (hs.stop hd hx).left hvx
  case inr =>
    refine ⟨fun _ => by rw [hsb, walk_empty], fun hc => ?_⟩
    obtain ⟨x, hx, hvx⟩ := hs.visits hd hc
    exact absurd (by rw [slotIndex, slotIndex, hvx]) (hne x hx)

include hg ha

theorem SlotBuilt.walk (hb : SlotBuilt g p a (outputOf va pa) h x top T) (hl : Linear p va pa top)
    (hva : va ≤ x) (hd : 2 ^ p ∣ x) (hlt : x < top) (hs : Straight p h x (stopTop p h top x))
    (hv : v / blockBytes p h = x / blockBytes p h) :
    Finds p a (outputOf va pa) x (stopTop p h top x) h v (T.walk p h v) := by
  have hpos := Nat.two_pow_pos p
  induction h generalizing x top T
  case zero =>
    rw [blockBytes_zero] at hv
    have hps : v / 2 ^ p * 2 ^ p = x := by rw [hv, Nat.div_mul_cancel hd]
    have hvx := eq_add_mod hpos hd hv
    have hm := Nat.mod_lt v hpos
    constructor
    case missed =>
      have := (block_bounds hpos hd hv).left
      have := two_le_page hg.lo
      rw [Covers, hps, stopTop, blockBytes_zero]
      omega
    case covered =>
      intro _
      have hout : outputOf va pa v = outputOf va pa x + v % 2 ^ p := by
        rw [hvx, hl.outputOf_add hva (by omega), ←hvx]
      rw [hout, show T = _ from hb, walk_page_iff hg ha <| hl.dvd_outputOf hlt.le hd, Held, hps]
  case succ h ih =>
    have hbp := blockBytes_pos (p := p) (h := h + 1)
    rcases hb with ⟨⟨hdx, hdo, htop⟩, rfl⟩ | ⟨hne, q, slots, rfl, _, hb⟩
    case inl =>
      have hstart : v / blockBytes p (h + 1) * blockBytes p (h + 1) = x := by
        rw [hv, Nat.div_mul_cancel hdx]
      have hvx := eq_add_mod hbp hdx hv
      have hm := Nat.mod_lt v hbp
      constructor
      case missed =>
        have := page_start_lt hg.lo hdx hv
        have := (block_bounds blockBytes_pos hdx hv).left
        simp only [Covers, stopTop]
        omega
      case covered =>
        intro _
        have hout : outputOf va pa v = outputOf va pa x + v % blockBytes p (h + 1) := by
          rw [hvx, hl.outputOf_add hva (by omega), ←hvx]
        have hin : InBlock p (outputOf va pa) x (stopTop p (h + 1) top x) (h + 1) v := by
          rw [InBlock, hstart, stopTop]
          exact ⟨le_rfl, hdx, hdo, by omega⟩
        rw [hout, walk_block_iff hg ha (fun hal => hl.field _ hal (by omega)) hdo, Held, if_pos hin, hstart]
    case inr =>
      rw [walk_table hg]
      have hw : x / blockBytes p (h + 1) = stopTop p (h + 1) top x / blockBytes p (h + 1) := by
        rcases hs (h + 1) (by omega) le_rfl with hdx | he
        case inl =>
          symm
          apply div_eq_of_same_block hbp hdx <;> rw [stopTop] <;> omega
        case inr => exact he
      have hle : stopTop p (h + 1) top x ≤ top := Nat.min_le_left ..
      have hrec : Finds p a (outputOf va pa) x (stopTop p (h + 1) top x) h v _ := hb.walk hg.lo le_rfl
        (hs.mono (by omega)) hd
        (fun y hy => div_eq_of_mod_eq <| by
          rw [←blockBytes_succ, hv]
          exact le_antisymm (Nat.div_le_div_right hy.le) (hw ▸ Nat.div_le_div_right hy.lt.le))
        fun hsb hy hs hv => ih hsb (hl.mono hle) (hva.trans hy.le) (hy.dvd page_dvd_blockBytes hd) hy.lt hs hv
      refine ⟨hrec.missed, fun hc => ?_⟩
      have hin : ¬InBlock p (outputOf va pa) x (stopTop p (h + 1) top x) (h + 1) v := by
        rw [InBlock, hv]
        rintro ⟨hx, he⟩
        have hx := le_antisymm hx (Nat.div_mul_le_self ..)
        rw [←hx] at he
        exact hne ⟨he.left, he.right.left, he.right.right.trans hle⟩
      rw [hrec.covered hc, Held, if_neg hin]

end Built

end Pgt
