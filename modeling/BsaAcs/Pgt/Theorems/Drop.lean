import BsaAcs.Pgt.Theorems.Leak

namespace Pgt

-- When a fill does drop pages: a range that wraps around the table and ends inside a block leaves a
-- table where the next fill writes the block.

-- The pages after a step are pages from before it, or new ones.
def Comes (pf : Platform) (m n : Nat) (pages pages' : List Nat) : Prop :=
  ∀ q ∈ pages', q ∈ pages ∨ ∃ k, m ≤ k ∧ k < n ∧ q = pf.page k

theorem Comes.refl : Comes pf m n pages pages :=
  fun _ h => .inl h

theorem Comes.trans (h₁ : Comes pf l m pages₁ pages₂) (h₂ : Comes pf m n pages₂ pages₃)
    (hl : l ≤ m) (hn : m ≤ n) : Comes pf l n pages₁ pages₃ := by
  intro q hq
  rcases h₂ q hq with hq | ⟨k, h₁, h₂, rfl⟩
  case inl =>
    refine (h₁ q hq).imp id ?_
    rintro ⟨k, h₁, h₂, rfl⟩
    exact ⟨k, h₁, h₂.trans_le hn, rfl⟩
  case inr => exact .inr ⟨k, hl.trans h₁, h₂, rfl⟩

theorem Comes.update (hi : i < 2 ^ (p - 3)) (hc : Comes pf m n ((slots i).pages p h) (t.pages p h)) :
    Comes pf m n (tablePages p h slots) (tablePages p h (Function.update slots i t)) := by
  intro q hq
  obtain ⟨j, hj, hq⟩ := mem_tablePages.mp hq
  by_cases hji : j = i
  case pos =>
    rw [hji, Function.update_self] at hq
    exact (hc q hq).imp (slot_mem_tablePages hi) id
  case neg =>
    rw [Function.update_of_ne hji] at hq
    exact .inl <| slot_mem_tablePages hj hq

section

variable {pf : Platform} {g : Globals} {p a va pa : Nat} (hg : Granule g p) (hf : PageAllocator pf p)

include hg

theorem TreeFill.comes (hn : nbits ≤ p - 3)
    (hslot : ∀ {ia t m t' n}, SlotFill pf g p a va pa h ia top t m t' n → Plain h t →
      LowPages pf m n → Comes pf m n (t.pages p h) (t'.pages p h))
    (hl : TreeFill pf g p a va pa h nbits top ia slots m slots' n) (hp : ∀ i, Plain h (slots i))
    (hlow : LowPages pf m n) : Comes pf m n (tablePages p h slots) (tablePages p h slots') := by
  rw [TreeFill] at hl
  induction hl
  case done => exact .refl
  case turn ia slots m t' l slots' n hlt hturn hr ih =>
    have hle : l ≤ n := hr.le SlotFill.le
    have hi : slotIndex p h nbits ia < 2 ^ (p - 3) := lt_of_lt_of_le slotIndex_lt <|
      Nat.pow_le_pow_right (by omega) hn
    have hplain := forall_update (j := slotIndex p h nbits ia) (hturn.plain hg (hp _)) hp
    have hc := (hslot hturn (hp _) (hlow.mono le_rfl hle)).update hi
    exact hc.trans (ih hplain (hlow.mono hturn.le le_rfl)) hturn.le hle

include hf

theorem SlotFill.comes (hs : SlotFill pf g p a va pa h ia top t m t' n) (hp : Plain h t)
    (hlow : LowPages pf m n) : Comes pf m n (t.pages p h) (t'.pages p h) := by
  induction h generalizing ia top t m t' n
  case zero => rw [hs.left]; simp [Comes]
  case succ h ih =>
    rcases hs with ⟨_, rfl, _⟩ | ⟨_, q, slots, l, slots', hb, hloop, rfl⟩
    case inl => simp [Comes]
    case inr =>
      have hle : l ≤ n := hloop.le SlotFill.le
      have hrec := fun hps => TreeFill.comes hg le_rfl (fun hs hp hl => ih hs hp hl) hloop hps
      intro r hr
      rw [mem_pages_table] at hr
      cases hb
      case existing w =>
        have hq : Bits.slice 47 p w < 2 ^ 32 := lt_of_le_of_lt Nat.and_le_left hp.left
        rw [tableDescriptor_page hg Bits.dvd_slice hq] at hr
        rw [mem_pages_table]
        rcases hr with hr | rfl
        case inl => exact (hrec hp.right hlow r hr).imp .inl id
        case inr => exact .inl <| .inr rfl
      case fresh =>
        rw [tableDescriptor_page hg (hf.aligned m) (hlow m le_rfl (by omega))] at hr
        rcases hr with hr | rfl
        case inl =>
          rcases hrec (fun _ => plain_empty) (hlow.mono (Nat.le_succ m) le_rfl) r hr with hr | hr
          case inl => simp [tablePages] at hr
          case inr =>
            obtain ⟨k, h₁, h₂, rfl⟩ := hr
            exact .inr ⟨k, (Nat.le_succ m).trans h₁, h₂, rfl⟩
        case inr => exact .inr ⟨m, le_rfl, by omega, rfl⟩

-- A loop drops a page if one of its turns does, provided that the slot is not visited before and
-- that its pages are its own.
theorem TreeFill.drops (hn : nbits ≤ p - 3)
    (hl : TreeFill pf g p a va pa h nbits top ia slots m slots' n) (hp : ∀ i, Plain h (slots i))
    (hlow : LowPages pf m n) (hx : Visits p h ia top x) (hi : slotIndex p h nbits x = i)
    (hfirst : ∀ y, Visits p h ia top y → y < x → slotIndex p h nbits y ≠ i)
    (hown : ∀ q ∈ (slots i).pages p h, Allocated pf m q ∧
      ∀ j < 2 ^ (p - 3), j ≠ i → q ∉ (slots j).pages p h)
    (hdrop : ∀ {m' t' n'}, m ≤ m' → n' ≤ n → SlotFill pf g p a va pa h x top (slots i) m' t' n' →
      ∃ q ∈ (slots i).pages p h, q ∉ t'.pages p h) :
    ∃ q ∈ (slots i).pages p h, q ∉ tablePages p h slots' := by
  rw [TreeFill] at hl
  induction hl
  case done hge => exact absurd (hx.le.trans_lt hx.lt) hge
  case turn ia slots m t' l slots' n hlt hturn hr ih =>
    have hle : l ≤ n := hr.le SlotFill.le
    have hib : slotIndex p h nbits ia < 2 ^ (p - 3) :=
      lt_of_lt_of_le slotIndex_lt <| Nat.pow_le_pow_right (by omega) hn
    have hplain := forall_update (j := slotIndex p h nbits ia) (hturn.plain hg (hp _)) hp
    -- A page that was there before is not among the new ones.
    have hold : ∀ {q}, Allocated pf m q → ∀ k, m ≤ k → q ≠ pf.page k := by
      rintro q ⟨j, hj, rfl, hz⟩ k hk he
      have := hf.fresh j k he hz
      omega
    rcases hx.cases with ⟨rfl, _⟩ | hx'
    case inl =>
      subst hi
      obtain ⟨q, hq, hqt⟩ := hdrop le_rfl hle hturn
      refine ⟨q, hq, fun hq' => ?_⟩
      have hc := TreeFill.comes hg hn (fun hs hp hl => SlotFill.comes hg hf hs hp hl) hr hplain
        (hlow.mono hturn.le le_rfl)
      rcases hc q hq' with hq' | ⟨k, hk, _, he⟩
      case inl =>
        obtain ⟨j, hj, hq'⟩ := mem_tablePages.mp hq'
        by_cases hji : j = slotIndex p h nbits x
        case pos =>
          rw [hji, Function.update_self] at hq'
          exact hqt hq'
        case neg =>
          rw [Function.update_of_ne hji] at hq'
          exact (hown q hq).right j hj hji hq'
      case inr => exact hold (hown q hq).left k (hturn.le.trans hk) he
    case inr =>
      have hne : i ≠ slotIndex p h nbits ia := by
        have := blockBytes_pos (p := p) (h := h)
        have := hx'.le
        exact (hfirst ia (.first hlt) (by omega)).symm
      have hsame : Function.update slots (slotIndex p h nbits ia) t' i = slots i :=
        Function.update_of_ne hne ..
      have hrec := ih hplain (hlow.mono hturn.le le_rfl) hx' (fun y hy => hfirst y hy.tail) ?own ?drop
      case own =>
        rw [hsame]
        intro q hq
        refine ⟨(hown q hq).left.mono hturn.le, fun j hj hji => ?_⟩
        by_cases hja : j = slotIndex p h nbits ia
        case pos =>
          rw [hja, Function.update_self]
          intro hq'
          rcases hturn.comes hg hf (hp _) (hlow.mono le_rfl hle) q hq' with hq' | ⟨k, hk, _, he⟩
          case inl => exact (hown q hq).right _ hib hne.symm hq'
          case inr => exact hold (hown q hq).left k hk he
        case neg =>
          rw [Function.update_of_ne hja]
          exact (hown q hq).right j hj hji
      case drop =>
        rw [hsame]
        exact fun h₁ h₂ hs => hdrop (hturn.le.trans h₁) h₂ hs
      rwa [hsame] at hrec

end

-- Every slot of a table is visited by a range that spans the table.
theorem exists_visit (hp : 12 ≤ p) (hi : i < 2 ^ nbits)
    (hspan : ia + 2 ^ nbits * blockBytes p h - 1 ≤ top) :
    ∃ x, Visits p h ia top x ∧ x + blockBytes p h ≤ ia + 2 ^ nbits * blockBytes p h ∧
      slotIndex p h nbits x = i := by
  generalize hk : (i + 2 ^ nbits - ia / blockBytes p h % 2 ^ nbits) % 2 ^ nbits = k
  have hpos := blockBytes_pos (p := p) (h := h)
  have hklt : k < 2 ^ nbits := hk ▸ Nat.mod_lt _ (Nat.two_pow_pos _)
  have hmul := Nat.mul_le_mul_right (blockBytes p h) (show k + 1 ≤ 2 ^ nbits from hklt)
  have h2 : 2 ≤ blockBytes p h :=
    (two_le_page hp).trans <| Nat.le_of_dvd hpos page_dvd_blockBytes
  rw [Nat.add_mul] at hmul
  refine ⟨ia + k * blockBytes p h, ⟨k, rfl, by omega⟩, by omega, ?_⟩
  have hlt := Nat.mod_lt (ia / blockBytes p h) (Nat.two_pow_pos nbits)
  rw [slotIndex, Nat.add_mul_div_right _ _ hpos, ←hk, Nat.add_mod_mod, ←Nat.mod_add_mod,
    show ia / blockBytes p h % 2 ^ nbits + (i + 2 ^ nbits - ia / blockBytes p h % 2 ^ nbits) =
      i + 2 ^ nbits by omega, Nat.add_mod_right, Nat.mod_eq_of_lt hi]

section

variable {pf : Platform} {g : Globals} {p a va pa : Nat} (hg : Granule g p) (hf : PageAllocator pf p)

-- A range that ends inside a block leaves a table where a block is due, at its last stop.
theorem TreeFill.untidy
    (hslot : ∀ {ia t m t' n}, SlotFill pf g p a va pa h ia top t m t' n → ia < top →
      top < ia + blockBytes p h - 1 → ¬Whole p va pa h ia top → ¬Tidy p va pa h t')
    (hl : TreeFill pf g p a va pa h nbits top ia slots m slots' n) (hw : ¬Whole p va pa h ia top) :
    ∃ z, Visits p h ia top z ∧ top < z + blockBytes p h - 1 ∧
      ¬Tidy p va pa h (slots' (slotIndex p h nbits z)) := by
  rw [TreeFill] at hl
  induction hl
  case done hge => exact absurd (fun j _ _ _ x hx => absurd (hx.le.trans_lt hx.lt) hge) hw
  case turn ia slots m t' l slots' n hlt hturn hr ih =>
    by_cases hpart : top < ia + blockBytes p h - 1
    case pos =>
      refine ⟨ia, .first hlt, hpart, ?_⟩
      cases hr
      case done => rw [Function.update_self]; exact hslot hturn hlt hpart hw
      case turn hlt' _ _ => omega
    case neg =>
      have hw' : ¬Whole p va pa h (ia + blockBytes p h) top := by
        refine mt (fun hw' j h₁ h₂ hb x hx => ?_) hw
        by_cases hx' : ia + blockBytes p h ≤ x
        case pos => exact hw' j h₁ h₂ hb x (hx.later h₂ hx')
        case neg =>
          have := hx.block_le h₂ (Nat.not_le.mp hx')
          omega
      obtain ⟨z, hz, hzt⟩ := ih hw'
      exact ⟨z, hz.tail, hzt⟩

theorem SlotFill.untidy (hs : SlotFill pf g p a va pa h ia top t m t' n)
    (hpart : top < ia + blockBytes p h - 1) (hw : ¬Whole p va pa h ia top) :
    ¬Tidy p va pa h t' := by
  induction h generalizing ia top t m t' n
  case zero => exact absurd (fun j _ _ => by omega) hw
  case succ h ih =>
    rcases hs with ⟨he, _, _⟩ | ⟨_, q, slots, l, slots', _, hloop, rfl⟩
    case inl => exact absurd he.right.right (by omega)
    case inr =>
      rintro ⟨hnb, htidy⟩
      have ht : min top (ia + blockBytes p (h + 1) - 1) = top := by omega
      rw [ht] at hloop
      have hw' : ¬Whole p va pa h ia top := by
        refine mt (fun hw' j h₁ h₂ hb => ?_) hw
        rcases Nat.le_or_eq_of_le_succ h₂ with h₂ | rfl
        case inl => exact hw' j h₁ h₂ hb
        case inr => exact absurd hb hnb
      obtain ⟨z, _, _, hz⟩ := TreeFill.untidy (fun hs _ hpart hw => ih hs hpart hw) hloop hw'
      exact hz <| htidy _ slotIndex_lt

theorem Visits.stop (hv : Visits p h ia top x) (hs : Stop p va h ia) : Stop p va h x := by
  obtain ⟨k, rfl⟩ := hs
  obtain ⟨n, rfl, _⟩ := hv
  exact ⟨k + n, by rw [Nat.add_mul]; omega⟩

include hg hf

-- A turn that writes a whole block, or whole blocks below it, drops the tables in their place.
theorem SlotFill.drops (hs : SlotFill pf g p a va pa h ia top t m t' n) (hu : p + h * (p - 3) < 64)
    (hst : Stop p va h ia) (hwhole : ia + blockBytes p h - 1 ≤ top) (ht : ¬Tidy p va pa h t)
    (hp : Plain h t) (hlow : LowPages pf m n) (hnd : (t.pages p h).Nodup)
    (hall : ∀ q ∈ t.pages p h, Allocated pf m q) : ∃ q ∈ t.pages p h, q ∉ t'.pages p h := by
  induction h generalizing ia top t m t' n
  case zero => exact absurd (by cases t <;> trivial) ht
  case succ h ih =>
    have hu' : p + h * (p - 3) < 64 := by
      rw [Nat.add_mul] at hu
      omega
    cases t
    case empty => exact absurd tidy_empty ht
    case leaf => exact absurd tidy_leaf ht
    case table w slots =>
      rcases hs with ⟨_, rfl, _⟩ | ⟨he, q, slots₀, l, slots', hb, hloop, rfl⟩
      case inl => exact ⟨_, mem_pages_table.mpr (.inr rfl), by simp⟩
      case inr =>
        have hnb : ¬BlockHeight p va pa (h + 1) := fun hb => he <| (hst.eligible_iff hu).mpr ⟨hb, hwhole⟩
        cases hb
        case fresh hn => exact absurd rfl (hn _ _)
        case existing =>
          have hq : Bits.slice 47 p w < 2 ^ 32 := lt_of_le_of_lt Nat.and_le_left hp.left
          obtain ⟨i, hi, hti⟩ : ∃ i < 2 ^ (p - 3), ¬Tidy p va pa h (slots i) := by
            by_contra hc
            refine ht ⟨hnb, fun i hi => ?_⟩
            by_contra hti
            exact hc ⟨i, hi, hti⟩
          have hmin : min top (ia + blockBytes p (h + 1) - 1) = ia + blockBytes p (h + 1) - 1 := by
            omega
          rw [hmin] at hloop
          have hend : ia + 2 ^ (p - 3) * blockBytes p h - 1 ≤ ia + blockBytes p (h + 1) - 1 := by
            rw [blockBytes_succ]
          obtain ⟨x, hx, hxe, hxi⟩ := exists_visit hg.lo hi hend
          rw [←blockBytes_succ] at hxe
          have hnd' := nodup_pages_table.mp hnd
          have hslots := nodup_tablePages_iff.mp (List.nodup_cons.mp hnd').right
          have hmem : ∀ {q}, q ∈ (slots i).pages p h → q ∈ tablePages p h slots :=
            slot_mem_tablePages hi
          have hsub := fun q hq => hall q (mem_pages_table.mpr <| .inl <| hmem hq)
          obtain ⟨r, hr, hr'⟩ := TreeFill.drops hg hf le_rfl hloop hp.right hlow hx hxi
            (fun y hy hlt he => by
              have := hy.unique (by rw [←blockBytes_succ]; omega) hx (he.trans hxi.symm)
              omega)
            (fun q hq => ⟨hsub q hq, fun j hj hji => hslots.right i hi j hj hji.symm q hq⟩)
            (fun h₁ h₂ hs => ih hs hu' (hx.stop hst.below) (by omega) hti (hp.right i)
              (hlow.mono h₁ h₂) (hslots.left i hi) fun q hq => (hsub q hq).mono h₁)
          refine ⟨r, mem_pages_table.mpr <| .inl <| hmem hr, ?_⟩
          rw [mem_pages_table, tableDescriptor_page hg Bits.dvd_slice hq]
          rintro (hc | rfl)
          case inl => exact hr' hc
          case inr => exact (List.nodup_cons.mp hnd').left (hmem hr)

-- Two fills in a row of a range that is longer than the table and ends inside a block.
theorem TreeFill.second_drops (hn : nbits ≤ p - 3) (hu : p + h * (p - 3) < 64)
    (h₁ : TreeFill pf g p a va pa h nbits top va slots₀ m₀ slots₁ m₁)
    (h₂ : TreeFill pf g p a va pa h nbits top va slots₁ m₁ slots₂ m₂)
    (hspan : va + 2 ^ nbits * blockBytes p h < top) (hw : ¬Whole p va pa h va top)
    (hp : ∀ i, Plain h (slots₁ i)) (hlow : LowPages pf m₁ m₂) (hnd : (tablePages p h slots₁).Nodup)
    (hall : ∀ q ∈ tablePages p h slots₁, Allocated pf m₁ q) :
    ∃ q ∈ tablePages p h slots₁, q ∉ tablePages p h slots₂ := by
  obtain ⟨z, hz, _, hti⟩ := h₁.untidy (fun hs _ hpart hw => hs.untidy hpart hw) hw
  have hi : slotIndex p h nbits z < 2 ^ (p - 3) :=
    lt_of_lt_of_le slotIndex_lt <| Nat.pow_le_pow_right (by omega) hn
  -- The first stop at the slot of the last one lies a whole table before it.
  have hz' : slotIndex p h nbits z < 2 ^ nbits := slotIndex_lt
  have hend : va + 2 ^ nbits * blockBytes p h - 1 ≤ top := by omega
  obtain ⟨x, hx, hxe, hxi⟩ := exists_visit hg.lo hz' hend
  have hslots := nodup_tablePages_iff.mp hnd
  have hmem : ∀ {q}, q ∈ (slots₁ (slotIndex p h nbits z)).pages p h → q ∈ tablePages p h slots₁ :=
    slot_mem_tablePages hi
  have hst : Stop p va h va := ⟨0, by simp⟩
  have hpos := blockBytes_pos (p := p) (h := h)
  obtain ⟨r, hr, hr'⟩ := TreeFill.drops hg hf hn h₂ hp hlow hx hxi
    (fun y hy hlt he => by
      have hy' : Visits p h va (x + 1) y := ⟨hy.choose, hy.choose_spec.left, by omega⟩
      have hx' : Visits p h va (x + 1) x := ⟨hx.choose, hx.choose_spec.left, by omega⟩
      have := hy'.unique (by omega) hx' (he.trans hxi.symm)
      omega)
    (fun q hq => ⟨hall q (hmem hq), fun j hj hji => hslots.right _ hi j hj hji.symm q hq⟩)
    (fun h₁ h₂ hs => hs.drops hg hf hu (hx.stop hst) (by omega) hti (hp _) (hlow.mono h₁ h₂)
      (hslots.left _ hi) fun q hq => (hall q (hmem hq)).mono h₁)
  exact ⟨r, hmem hr, hr'⟩

end

end Pgt
