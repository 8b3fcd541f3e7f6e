import BsaAcs.Pgt.Theorems.Visit

namespace Pgt

-- The shape of the table that a fill of an empty table leaves behind.

section

variable (g : Globals) (p attributes : Nat) (out : Nat → Nat)

def Eligible (h ia top : Nat) : Prop :=
  blockBytes p h ∣ ia ∧ blockBytes p h ∣ out ia ∧ ia + blockBytes p h - 1 ≤ top

-- The input addresses at which the loop over a table stops.
def Visits (h ia top x : Nat) : Prop :=
  ∃ k, x = ia + k * blockBytes p h ∧ x < top

-- Every slot that the loop visits is as `slot` demands, every other slot is empty.
def TableBuilt (slot : Nat → Nat → Tree → Prop) (h nbits ia top : Nat) (slots : Nat → Tree) : Prop :=
  ∀ i < 2 ^ (p - 3),
    (∃ x, Visits p h ia top x ∧ i = slotIndex p h nbits x ∧ slot x top (slots i)) ∨
    ((∀ x, Visits p h ia top x → i ≠ slotIndex p h nbits x) ∧ slots i = .empty)

def SlotBuilt : Nat → Nat → Nat → Tree → Prop
  | 0, ia, _, slot => slot = .leaf (pageDescriptor g (out ia) attributes)
  | h + 1, ia, top, slot =>
    (Eligible p out (h + 1) ia top ∧ slot = .leaf (blockWord p attributes (h + 1) (out ia))) ∨
    (¬Eligible p out (h + 1) ia top ∧ ∃ q slots, slot = .table (tableDescriptor g q) slots ∧
      Bits.slice 47 p (tableDescriptor g q) = q ∧
      TableBuilt p (SlotBuilt h) h (p - 3) ia (min top (ia + blockBytes p (h + 1) - 1)) slots)

end

instance : Decidable (Eligible p out h ia top) :=
  inferInstanceAs (Decidable (_ ∧ _ ∧ _))

-- How a fill changes the slots of a table: the visited ones are built, the others are kept.
structure Filled (g : Globals) (p attributes : Nat) (out : Nat → Nat) (h nbits ia top : Nat)
    (slots slots' : Nat → Tree) : Prop where
  visited : ∀ x, Visits p h ia top x →
    SlotBuilt g p attributes out h x top (slots' (slotIndex p h nbits x))
  other   : ∀ i, (∀ x, Visits p h ia top x → i ≠ slotIndex p h nbits x) → slots' i = slots i

theorem Filled.tableBuilt (hb : Filled g p attributes out h nbits ia top (fun _ => .empty) slots) :
    TableBuilt p (SlotBuilt g p attributes out h) h nbits ia top slots := by
  intro i _
  by_cases hi : ∃ x, Visits p h ia top x ∧ i = slotIndex p h nbits x
  case pos =>
    obtain ⟨x, hv, rfl⟩ := hi
    exact .inl ⟨x, hv, rfl, hb.visited x hv⟩
  case neg =>
    have hi : ∀ x, Visits p h ia top x → i ≠ slotIndex p h nbits x :=
      fun x hv he => hi ⟨x, hv, he⟩
    exact .inr ⟨hi, hb.other i hi⟩

theorem blockBytes_pos : 0 < blockBytes p h :=
  Nat.two_pow_pos _

theorem blockBytes_succ : blockBytes p (h + 1) = 2 ^ (p - 3) * blockBytes p h := by
  rw [blockBytes, blockBytes, ←Nat.pow_add]
  congr 1
  rw [Nat.add_mul]
  omega

theorem blockBytes_dvd (h : n ≤ m) : blockBytes p n ∣ blockBytes p m :=
  Nat.pow_dvd_pow 2 (by have := Nat.mul_le_mul_right (p - 3) h; omega)

-- Stops of the loop that are less than a whole table apart use different slots.
theorem Visits.unique (hk : top ≤ ia + 2 ^ nbits * blockBytes p h) (hx : Visits p h ia top x)
    (hy : Visits p h ia top y) (he : slotIndex p h nbits x = slotIndex p h nbits y) : x = y := by
  obtain ⟨m, rfl, hm⟩ := hx
  obtain ⟨n, rfl, hn⟩ := hy
  have hm : m < 2 ^ nbits := Nat.lt_of_mul_lt_mul_right (a := blockBytes p h) (by omega)
  have hn : n < 2 ^ nbits := Nat.lt_of_mul_lt_mul_right (a := blockBytes p h) (by omega)
  simp only [slotIndex, Nat.add_mul_div_right _ _ (blockBytes_pos)] at he
  have := Nat.ModEq.add_left_cancel' _ he
  rw [Nat.ModEq, Nat.mod_eq_of_lt hm, Nat.mod_eq_of_lt hn] at this
  rw [this]

theorem Visits.cases (hv : Visits p h ia top x) :
    (x = ia ∧ ia < top) ∨ Visits p h (ia + blockBytes p h) top x := by
  obtain ⟨k, rfl, hx⟩ := hv
  cases k
  case zero => exact .inl ⟨by simp, by simpa using hx⟩
  case succ k => exact .inr ⟨k, by rw [Nat.add_mul]; omega, hx⟩

theorem Visits.tail (hv : Visits p h (ia + blockBytes p h) top x) : Visits p h ia top x := by
  obtain ⟨k, rfl, hx⟩ := hv
  exact ⟨k + 1, by rw [Nat.add_mul]; omega, hx⟩

theorem Visits.le (hv : Visits p h ia top x) : ia ≤ x := by
  obtain ⟨k, rfl, _⟩ := hv
  omega

theorem Visits.lt (hv : Visits p h ia top x) : x < top :=
  have ⟨_, _, hx⟩ := hv
  hx

theorem Visits.first (hlt : ia < top) : Visits p h ia top ia :=
  ⟨0, by simp, hlt⟩

theorem TableBuilt.visited {slot : Nat → Nat → Tree → Prop}
    (hb : TableBuilt p slot h nbits ia top slots)
    (hk : top ≤ ia + 2 ^ nbits * blockBytes p h) (hn : nbits ≤ p - 3) (hv : Visits p h ia top x) :
    slot x top (slots (slotIndex p h nbits x)) := by
  have hi : slotIndex p h nbits x < 2 ^ (p - 3) := lt_of_lt_of_le slotIndex_lt <|
    Nat.pow_le_pow_right (by omega) hn
  rcases hb _ hi with ⟨y, hy, he, hs⟩ | ⟨hne, _⟩
  case inl => exact hv.unique hk hy he ▸ hs
  case inr => exact absurd rfl (hne x hv)

theorem readTree_eq_empty_iff (hi : i < 2 ^ (p - 3)) :
    readTree mem p h base i = .empty ↔ mem (base + 8 * i) = 0 := by
  rw [readTree_eq_decode hi]
  cases h
  case zero => simp [decode]
  case succ =>
    by_cases hz : mem (base + 8 * i) = 0
    case pos => simp [decode, hz]
    case neg => simp only [decode, hz, if_false, iff_false]; split <;> simp

theorem readTree_eq_leaf (hr : readTree mem p h base i = .leaf w) :
    i < 2 ^ (p - 3) ∧ mem (base + 8 * i) = w := by
  by_cases hi : i < 2 ^ (p - 3)
  case neg => simp [readTree_of_le (Nat.not_lt.mp hi)] at hr
  case pos =>
    rw [readTree_eq_decode hi] at hr
    refine ⟨hi, ?_⟩
    cases h <;> simp only [decode] at hr <;> (repeat' split at hr) <;> simp_all

theorem readTree_eq_table (hr : readTree mem p (h + 1) base i = .table w slots) :
    mem (base + 8 * i) = w ∧ w ≠ 0 ∧ w.testBit 1 = true ∧
    slots = readTree mem p h (Bits.slice 47 p w) := by
  by_cases hi : i < 2 ^ (p - 3)
  case neg => simp [readTree_of_le (Nat.not_lt.mp hi)] at hr
  case pos =>
    rw [readTree_eq_decode hi] at hr
    simp only [decode] at hr
    repeat' split at hr
    case isTrue | isFalse.isFalse => simp at hr
    case isFalse.isTrue hz hb =>
      simp only [Tree.table.injEq] at hr
      obtain ⟨rfl, rfl⟩ := hr
      exact ⟨rfl, hz, hb, rfl⟩

-- The addresses of a run from `va`: the input address of no turn leaves the 64-bit range.
structure Run (p h : Nat) (va ia top : Nat) : Prop where
  start : va ≤ ia
  bound : top + blockBytes p h ≤ 2 ^ 64 + ia % blockBytes p h

-- The output address follows the input address at a fixed distance.
def outputOf (va pa x : Nat) : Nat :=
  (pa + (x - va)) % 2 ^ 64

namespace Run

theorem step (hr : Run p h va ia top) : Run p h va (ia + blockBytes p h) top where
  start := hr.start.trans <| Nat.le_add_right ..
  bound := by
    rw [Nat.add_mod_right]
    exact hr.bound

theorem lt (hr : Run p h va ia top) (hs : p + h * (p - 3) < 64) (hlt : ia < top) :
    ia + blockBytes p h < 2 ^ 64 := by
  obtain ⟨m, hm⟩ : blockBytes p h ∣ 2 ^ 64 := Nat.pow_dvd_pow 2 hs.le
  have hb := hr.bound
  have hpos := blockBytes_pos (p := p) (h := h)
  have hd := Nat.div_add_mod ia (blockBytes p h)
  have hmod := Nat.mod_lt ia hpos
  rw [hm] at hb ⊢
  -- Both sides are the same distance above a multiple of the block size.
  have hq : blockBytes p h * (ia / blockBytes p h + 1) < blockBytes p h * m := by
    rw [Nat.mul_add]
    omega
  have hq := Nat.lt_of_mul_lt_mul_left hq
  have := Nat.mul_le_mul_left (blockBytes p h) (show ia / blockBytes p h + 1 + 1 ≤ m from hq)
  rw [Nat.mul_add, Nat.mul_add] at this
  omega

theorem nested (hr : Run p (h + 1) va ia top) (hs : p + (h + 1) * (p - 3) < 64) (hlt : ia < top) :
    Run p h va ia (min top (ia + blockBytes p (h + 1) - 1)) where
  start := hr.start
  bound := by
    have hlt := hr.lt hs hlt
    have hs : p + h * (p - 3) < 64 := by
      rw [Nat.add_mul] at hs
      omega
    obtain ⟨m, hm⟩ : blockBytes p h ∣ 2 ^ 64 := Nat.pow_dvd_pow 2 hs.le
    obtain ⟨n, hn⟩ := blockBytes_dvd (p := p) (Nat.le_add_right h 1)
    have hd := Nat.div_add_mod ia (blockBytes p h)
    rw [hn, hm] at hlt ⊢
    have hq : blockBytes p h * (ia / blockBytes p h + n) < blockBytes p h * m := by
      rw [Nat.mul_add]
      omega
    have hq := Nat.lt_of_mul_lt_mul_left hq
    have := Nat.mul_le_mul_left (blockBytes p h) (show ia / blockBytes p h + n + 1 ≤ m from hq)
    rw [Nat.mul_add, Nat.mul_add] at this
    omega

variable {tt : TtDescriptor} (hr : Run p h va ia top) (ht : tt.At p h nbits base top)

include hr ht

theorem nextAddress_input (hlt : ia < top) : nextAddress tt ia = ia + blockBytes p h := by
  rw [nextAddress, ht.blockSize_eq, Nat.mod_eq_of_lt (hr.lt ht.size_lt hlt)]

theorem nextAddress_output :
    nextAddress tt (outputOf va pa ia) = outputOf va pa (ia + blockBytes p h) := by
  have := hr.start
  rw [nextAddress, ht.blockSize_eq, outputOf, outputOf, Nat.mod_add_mod]
  congr 1
  omega

theorem blockEligible_iff (hlt : ia < top) :
    tt.blockEligible ia (outputOf va pa ia) = true ↔ Eligible p (outputOf va pa) h ia top := by
  have := hr.lt ht.size_lt hlt
  rw [ht.blockEligible_iff, Eligible, Nat.mod_eq_of_lt (by omega)]

theorem nextLevel (hg : Granule g p) (hlt : ia < top) (hh : h = n + 1) :
    (tt.nextLevel g q ia oa).At p n (p - 3) q (min top (ia + blockBytes p h - 1)) := by
  subst hh
  have := hr.lt ht.size_lt hlt
  have hn : (tt.nextLevel g q ia oa).At p n (p - 3) q
      (min top ((ia + blockBytes p (n + 1) - 1) % 2 ^ 64)) := ht.nextLevel hg
  rwa [Nat.mod_eq_of_lt (by omega)] at hn

end Run

section

variable {pf : Platform} {g : Globals} {p : Nat} {md : MemoryRegionDescriptor}
  (hg : CreateGranule g p) (hf : PageAllocator pf p) (ha : md.attributes.testBit 1 = false)

include hg

-- The range of a nested fill is no longer than the table of the next level.
omit hg in
theorem nested_span : min top (ia + blockBytes p (h + 1) - 1) ≤ ia + 2 ^ (p - 3) * blockBytes p h := by
  rw [blockBytes_succ]
  omega

-- A table that already has the shape is not changed by another fill of the same range.
theorem fillFrom_of_built
    (hr : fillFrom pf g md fuel tt ia (outputOf va pa ia) s = some (0, s'))
    (ht : tt.At p h nbits base top) (hrun : Run p h va ia top)
    (hb : ∀ x, Visits p h ia top x → SlotBuilt g p md.attributes (outputOf va pa) h x top
      (readTree s.mem p h base (slotIndex p h nbits x))) : s' = s := by
  induction fuel generalizing tt ia h nbits base top s'
  case zero => simp [fillFrom] at hr
  case succ fuel ih =>
    rcases fillFrom_success_iff.mp hr with ⟨_, rfl⟩ | ⟨hlt, s₁, hv, hrest⟩
    case inl => rfl
    case inr =>
      rw [ht.top_eq] at hlt
      have hslot := hb ia (.first hlt)
      -- The turn writes the word that the slot already holds.
      have hs : s₁ = s := by
        cases hv
        case page h3 =>
          obtain rfl := (ht.level_eq_three_iff hg.lo).mp h3
          have hw := (readTree_eq_leaf hslot).right
          rw [ht.tableDesc_eq, State.write, Memory.write_eq_self hw]
        case block h3 he =>
          obtain ⟨h, rfl⟩ := ht.exists_height hg.lo h3
          have he := (hrun.blockEligible_iff ht hlt).mp he
          have hslot := (hslot.resolve_right (fun h => h.left he)).right
          have hw := (readTree_eq_leaf hslot).right
          rw [ht.tableDesc_eq, State.write, blockDescriptor_eq ht.blockSize_eq, Memory.write_eq_self hw]
        case table s₂ h3 he hn hf' =>
          obtain ⟨h, rfl⟩ := ht.exists_height hg.lo h3
          have he := mt (hrun.blockEligible_iff ht hlt).mpr (by simpa using he)
          obtain ⟨q, slots, hslot, hq, hbuilt⟩ := (hslot.resolve_left (fun h => he h.left)).right
          obtain ⟨hw, hz, hbit, rfl⟩ := readTree_eq_table hslot
          rw [ht.tableDesc_eq, hw] at hn
          rcases nextTable_cases hn with ⟨hc, _⟩ | ⟨_, _, hbase, rfl⟩
          case inl => simp [hz, hbit] at hc
          case inr =>
            rw [hg.mask, hq] at hbase
            subst hbase
            have hk : min top (ia + blockBytes p (h + 1) - 1) ≤
                ia + 2 ^ (p - 3) * blockBytes p h := nested_span
            have hs₂ := ih hf' (hrun.nextLevel ht hg.toGranule hlt rfl) (hrun.nested ht.size_lt hlt) fun x hx =>
              hq ▸ hbuilt.visited hk le_rfl hx
            rw [hs₂, ht.tableDesc_eq, State.write, Memory.write_eq_self hw]
      subst hs
      rw [hrun.nextAddress_input ht hlt, hrun.nextAddress_output ht] at hrest
      exact ih hrest ht hrun.step fun x hx => hb x hx.tail

-- The loop ends if every turn does: the distance to the top decreases from turn to turn.
omit hg in
theorem loop_terminates (ht : tt.At p h nbits base top) (hrun : Run p h va ia top)
    (hv : ∀ {ia s}, Run p h va ia top → ia < top →
      ∃ fuel s₁, Visit pf g md fuel tt ia (outputOf va pa ia) s s₁) :
    ∃ fuel s', fillFrom pf g md fuel tt ia (outputOf va pa ia) s = some (0, s') := by
  induction hd : top - ia using Nat.strongRecOn generalizing ia s
  case ind hrec =>
    by_cases hlt : ia < top
    case neg => exact ⟨1, s, fillFrom_success_iff.mpr <| .inl ⟨ht.top_eq ▸ hlt, rfl⟩⟩
    case pos =>
      obtain ⟨f₁, s₁, hv⟩ := hv (s := s) hrun hlt
      have hdec : top - (ia + blockBytes p h) < top - ia := by
        have := blockBytes_pos (p := p) (h := h)
        omega
      obtain ⟨f₂, s₂, hr⟩ := hrec _ (hd ▸ hdec) (s := s₁) hrun.step rfl
      refine ⟨max f₁ f₂ + 1, s₂, fillFrom_success_iff.mpr <| .inr ⟨ht.top_eq ▸ hlt, s₁,
        hv.mono (Nat.le_max_left ..), ?_⟩⟩
      rw [hrun.nextAddress_input ht hlt, hrun.nextAddress_output ht]
      exact fillFrom_mono hr (Nat.le_max_right ..)

-- If no allocation fails, the fill ends and returns 0.
theorem fillFrom_terminates (hz : ∀ k, pf.page k ≠ 0) (ht : tt.At p h nbits base top)
    (hrun : Run p h va ia top) :
    ∃ fuel s', fillFrom pf g md fuel tt ia (outputOf va pa ia) s = some (0, s') := by
  induction h generalizing tt nbits base top ia s
  case zero =>
    refine loop_terminates ht hrun fun _ _ => ⟨0, _, .page <| (ht.level_eq_three_iff hg.lo).mpr rfl⟩
  case succ h ih =>
    refine loop_terminates ht hrun fun {ia s} hrun hlt => ?_
    have h3 : tt.level ≠ 3 := fun h => by simpa using (ht.level_eq_three_iff hg.lo).mp h
    by_cases he : tt.blockEligible ia (outputOf va pa ia)
    case pos => exact ⟨0, _, .block h3 he⟩
    case neg =>
      obtain ⟨q, s₁, hn⟩ := nextTable_some hz (s := s) (w := s.mem (tt.tableDesc ia)) (g := g)
      have hn' : (tt.nextLevel g q ia (outputOf va pa ia)).At p _ (p - 3) q _ :=
        hrun.nextLevel ht hg.toGranule hlt rfl
      obtain ⟨fuel, s₂, hf⟩ := ih (s := s₁) hn' (hrun.nested ht.size_lt hlt)
      exact ⟨fuel, _, .table h3 (by simpa using he) hn hf⟩

include hf ha

omit hg hf ha in
theorem page_slot {s : State} (hi : i < 2 ^ (p - 3)) :
    readTree (s.write (base + 8 * i) (pageDescriptor g o a)).mem p 0 base i =
    .leaf (pageDescriptor g o a) := by
  simp only [State.write]
  rw [readTree_eq_decode hi, Memory.write_same, decode, if_neg pageDescriptor_ne_zero]

omit hf in
theorem block_slot {s : State} (hu : p + (h + 1) * (p - 3) < 64) (hi : i < 2 ^ (p - 3)) :
    readTree (s.write (base + 8 * i) (blockWord p md.attributes (h + 1) o)).mem p (h + 1) base i =
    .leaf (blockWord p md.attributes (h + 1) o) := by
  have h1 := blockWord_testBit_one (o := o) hg.lo hu ha
  simp only [State.write]
  rw [readTree_eq_decode hi, Memory.write_same, decode, if_neg blockWord_ne_zero,
    if_neg (by simp [h1])]

-- A turn of the loop on an empty slot builds the slot.
theorem visit_built (hv : Visit pf g md fuel tt ia (outputOf va pa ia) s s')
    (ht : tt.At p h nbits base top) (hrun : Run p h va ia top) (hlt : ia < top)
    (ho : Owned pf p s h base) (hl : LowPages pf s.allocs s'.allocs)
    (he : readTree s.mem p h base (slotIndex p h nbits ia) = .empty)
    (ih : ∀ {tt h nbits base top s s'},
      fillFrom pf g md fuel tt ia (outputOf va pa ia) s = some (0, s') →
      tt.At p h nbits base top → Run p h va ia top →
      top ≤ ia + 2 ^ nbits * blockBytes p h → Owned pf p s h base →
      LowPages pf s.allocs s'.allocs →
      (∀ x, Visits p h ia top x → readTree s.mem p h base (slotIndex p h nbits x) = .empty) →
      Filled g p md.attributes (outputOf va pa) h nbits ia top (readTree s.mem p h base)
        (readTree s'.mem p h base)) :
    SlotBuilt g p md.attributes (outputOf va pa) h ia top
      (readTree s'.mem p h base (slotIndex p h nbits ia)) := by
  have hp : 3 ≤ p := by have := hg.lo; omega
  have hi : slotIndex p h nbits ia < 2 ^ (p - 3) := ht.slotIndex_lt
  rw [readTree_eq_empty_iff hi] at he
  cases hv
  case page h3 =>
    obtain rfl := (ht.level_eq_three_iff hg.lo).mp h3
    rw [ht.tableDesc_eq]
    exact page_slot hi
  case block h3 hel =>
    obtain ⟨h, rfl⟩ := ht.exists_height hg.lo h3
    refine .inl ⟨(hrun.blockEligible_iff ht hlt).mp hel, ?_⟩
    rw [ht.tableDesc_eq, blockDescriptor_eq ht.blockSize_eq]
    exact block_slot hg ha ht.size_lt hi
  case table q s₁ s₂ h3 hne hn hf' =>
    obtain ⟨h, rfl⟩ := ht.exists_height hg.lo h3
    have hl : LowPages pf s.allocs s₂.allocs := hl
    rw [ht.tableDesc_eq] at hn ⊢
    have hnt := nextTable_spec hg ho hi hn <| hl.mono le_rfl (fillFrom_allocs_le hf')
    have ht' : (tt.nextLevel g q ia (outputOf va pa ia)).At p h (p - 3) q _ :=
      hrun.nextLevel ht hg.toGranule hlt rfl
    have hl' := hl.mono hnt.allocs le_rfl
    have hgr := fillFrom_grown hg hf ha hf' ht' hnt.owned hl'
    -- The slot was empty, so the table of the next level is a new page.
    have hempty : readTree s₁.mem p h q = fun _ => .empty := by
      rcases nextTable_cases hn with ⟨_, rfl, _, rfl⟩ | ⟨hw, _⟩
      case inl =>
        exact readTree_of_zero hp fun a h => Memory.set_mem h.left (hg.pageSize ▸ h.right)
      case inr => exact absurd he hw
    have hb := ih hf' ht' (hrun.nested ht.size_lt hlt) nested_span hnt.owned hl' (fun _ _ => by rw [hempty])
    refine .inr ⟨mt (hrun.blockEligible_iff ht hlt).mpr (by simpa using hne), q, _,
      nested_slot hg hf ho hnt hgr hi, ?_, (hempty ▸ hb).tableBuilt⟩
    have hd := hf.dvd_allocated hgr.owned.root
    rw [tableDescriptor_slice hg.toGranule, slice_low hg.toGranule hd hnt.low]

-- The run lemma: a fill whose stops use different slots, all of them empty, builds these slots.
theorem fillFrom_filled (hr : fillFrom pf g md fuel tt ia (outputOf va pa ia) s = some (0, s'))
    (ht : tt.At p h nbits base top) (hrun : Run p h va ia top)
    (hk : top ≤ ia + 2 ^ nbits * blockBytes p h) (ho : Owned pf p s h base) (hl : LowPages pf s.allocs s'.allocs)
    (he : ∀ x, Visits p h ia top x → readTree s.mem p h base (slotIndex p h nbits x) = .empty) :
    Filled g p md.attributes (outputOf va pa) h nbits ia top (readTree s.mem p h base)
      (readTree s'.mem p h base) := by
  induction fuel generalizing tt ia h nbits base top s s'
  case zero => simp [fillFrom] at hr
  case succ fuel ih =>
    have hp : 3 ≤ p := by have := hg.lo; omega
    rcases fillFrom_success_iff.mp hr with ⟨hlt, rfl⟩ | ⟨hlt, s₁, hv, hrest⟩
    case inl =>
      rw [ht.top_eq] at hlt
      exact ⟨fun x hx => absurd (hx.le.trans_lt hx.lt) hlt, fun _ _ => rfl⟩
    case inr =>
      rw [ht.top_eq] at hlt
      have hl₁ := hl.mono le_rfl (fillFrom_allocs_le hrest)
      have hc := visit_slotChanged hg hf ha hv ht ho hl₁ (fillFrom_grown hg hf ha)
      have hb := visit_built hg hf ha hv ht hrun hlt ho hl₁ (he ia <| .first hlt) ih
      rw [hrun.nextAddress_input ht hlt, hrun.nextAddress_output ht] at hrest
      -- No later stop comes back to the slot of this turn.
      have hne : ∀ x, Visits p h (ia + blockBytes p h) top x →
          slotIndex p h nbits x ≠ slotIndex p h nbits ia := by
        intro x hx hix
        have := hx.tail.unique hk (.first hlt) hix
        have := hx.le
        have := blockBytes_pos (p := p) (h := h)
        omega
      have hrec := ih hrest ht hrun.step (by omega) (hc.owned hp hf ho)
        (hl.mono hc.allocs le_rfl) fun x hx => by
        rw [hc.other_slot hp hf ho (hne x hx), he x hx.tail]
      constructor
      case visited =>
        intro x hx
        rcases hx.cases with ⟨rfl, _⟩ | hx
        case inl => rwa [hrec.other _ fun y hy h => hne y hy h.symm]
        case inr => exact hrec.visited x hx
      case other =>
        intro i hi
        rw [hrec.other i fun x hx => hi x hx.tail, hc.other_slot hp hf ho (hi ia <| .first hlt)]

end

end Pgt
