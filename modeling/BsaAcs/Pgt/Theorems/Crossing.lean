import BsaAcs.Pgt.Theorems.Translate

namespace Pgt

-- A range that runs over a block boundary without starting on one. The table of the next level that
-- is filled for the last stop starts behind the boundary, and what lies between the two is missed.

section

variable {g : Globals} {p a va pa : Nat} (hg : Granule g p) (ha : AttrBits a)

-- The stop of an address that lies before it in the same block is no boundary.
theorem not_dvd_of_lt {u y b : Nat} (hlt : u < y) (he : u / b = y / b) : ¬b ∣ y := by
  rintro ⟨m, rfl⟩
  by_cases hb : b = 0
  case pos => simp [hb] at hlt
  case neg =>
    have hb := Nat.pos_of_ne_zero hb
    rw [Nat.mul_div_cancel_left _ hb] at he
    have := (Nat.div_lt_iff_lt_mul hb).mpr (Nat.mul_comm .. ▸ hlt)
    omega

-- A loop that does not start on a boundary does not stop on one.
theorem Visits.boundary_lt (hx : Visits p h ia top x) (hnd : ¬blockBytes p h ∣ ia) (hd : blockBytes p h ∣ u)
    (he : u / blockBytes p h = x / blockBytes p h) : u < x := by
  refine lt_of_le_of_ne (block_bounds blockBytes_pos hd he.symm).left ?_
  rintro rfl
  have := hx.modEq
  rw [Nat.mod_eq_zero_of_dvd hd] at this
  exact hnd <| Nat.dvd_of_mod_eq_zero this.symm

-- Two slots that fall together are a whole table apart.
theorem add_two_le_of_mod_eq {m n k : Nat} (hk : 1 ≤ k) (hlt : m < n) (he : m % 2 ^ k = n % 2 ^ k) : m + 2 ≤ n := by
  have h₁ := Nat.le_of_dvd (by omega) <| (Nat.modEq_iff_dvd' hlt.le).mp he
  have h₂ : 2 ^ 1 ≤ 2 ^ k := Nat.pow_le_pow_right (by omega) hk
  omega

-- In the last block of the range some address comes before every stop: the boundary that the block
-- starts on, or an earlier address.
theorem exists_before_stops (hlt : u < y) (hy : y < top) (hnd : ¬blockBytes p h ∣ y) :
    ∃ u', u ≤ u' ∧ u' ≤ top ∧ u' / blockBytes p h = top / blockBytes p h ∧
      ∀ z, Visits p h y top z → u' / blockBytes p h = z / blockBytes p h → u' < z := by
  have hpos := blockBytes_pos (p := p) (h := h)
  by_cases hut : u / blockBytes p h = top / blockBytes p h
  case pos => exact ⟨u, le_rfl, by omega, hut, fun z hz _ => hlt.trans_le hz.le⟩
  case neg =>
    have hle : u / blockBytes p h ≤ top / blockBytes p h := Nat.div_le_div_right (by omega)
    have hlast := Nat.lt_mul_div_succ u hpos
    have := Nat.mul_le_mul_right (blockBytes p h) (show u / blockBytes p h + 1 ≤ top / blockBytes p h by omega)
    rw [Nat.mul_comm] at hlast
    refine ⟨top / blockBytes p h * blockBytes p h, by omega, Nat.div_mul_le_self .., Nat.mul_div_cancel _ hpos, ?_⟩
    exact fun z hz hzb => hz.boundary_lt hnd (Nat.dvd_mul_left ..) hzb

include hg

-- If the range starts behind `u` in the block of `u`, and ends there too, then some address of the
-- block from `u` on is missed.
theorem SlotBuilt.missed {out : Nat → Nat} (hb : SlotBuilt g p a out h y top T) (hd : 2 ^ p ∣ y) (hy : y < top)
    (hlt : u < y) (hu : u / blockBytes p h = y / blockBytes p h)
    (he : y / blockBytes p h = top / blockBytes p h) :
    ∃ w, u ≤ w ∧ w ≤ top ∧ T.walk p h w = .invalid 0 := by
  induction h generalizing y T u
  case zero => exact absurd (blockBytes_zero ▸ hd) (not_dvd_of_lt hlt hu)
  case succ h ih =>
    have hend := lt_of_div_eq blockBytes_pos he
    have ht : min top (y + blockBytes p (h + 1) - 1) = top := by omega
    obtain ⟨_, q, slots, rfl, _, hb⟩ := hb.resolve_left (fun hc => not_dvd_of_lt hlt hu hc.left.left)
    rw [ht] at hb
    -- All addresses from `u` to the top use different slots of the nested table.
    have unique : ∀ {w z}, u ≤ w → w ≤ top → Visits p h y top z →
        slotIndex p h (p - 3) w = slotIndex p h (p - 3) z → w / blockBytes p h = z / blockBytes p h := by
      intro w z h₁ h₂ hz hi
      refine div_eq_of_mod_eq ?_ hi
      rw [←blockBytes_succ]
      have := Nat.div_le_div_right (c := blockBytes p (h + 1)) h₁
      have := Nat.div_le_div_right (c := blockBytes p (h + 1)) h₂
      have := Nat.div_le_div_right (c := blockBytes p (h + 1)) hz.le
      have := Nat.div_le_div_right (c := blockBytes p (h + 1)) hz.lt.le
      omega
    rcases hb (slotIndex p h (p - 3) u) slotIndex_lt with ⟨z, hz, hi, _⟩ | ⟨_, hempty⟩
    case inr => exact ⟨u, le_rfl, by omega, by rw [walk_table hg, hempty, walk_empty]⟩
    case inl =>
      have huz := unique le_rfl (by omega) hz hi
      have huy : u / blockBytes p h = y / blockBytes p h :=
        le_antisymm (Nat.div_le_div_right hlt.le) (huz ▸ Nat.div_le_div_right hz.le)
      have hny := not_dvd_of_lt hlt huy
      obtain ⟨u', h₁, h₂, htop, hstop⟩ := exists_before_stops hlt hy hny
      rcases hb (slotIndex p h (p - 3) u') slotIndex_lt with ⟨z, hz, hi, hsb⟩ | ⟨_, hempty⟩
      case inr => exact ⟨u', h₁, h₂, by rw [walk_table hg, hempty, walk_empty]⟩
      case inl =>
        have huz := unique h₁ h₂ hz hi
        obtain ⟨w, hw₁, hw₂, hw⟩ := ih hsb (hz.dvd page_dvd_blockBytes hd) hz.lt (hstop z hz huz) huz (huz ▸ htop)
        refine ⟨w, h₁.trans hw₁, hw₂, ?_⟩
        have hwz : w / blockBytes p h = u' / blockBytes p h :=
          le_antisymm (htop ▸ Nat.div_le_div_right hw₂) (Nat.div_le_div_right hw₁)
        have hidx : slotIndex p h (p - 3) w = slotIndex p h (p - 3) u' := by
          rw [slotIndex, slotIndex, hwz]
        rw [walk_table hg, hidx]
        exact hw

include ha

-- What is found below a slot lies before the end of the block of its stop.
theorem SlotBuilt.lt_output (hb : SlotBuilt g p a (outputOf va pa) h x top T) (hl : Linear p va pa top)
    (hva : va ≤ x) (hd : 2 ^ p ∣ x) (hlt : x < top) (hw : T.walk p h v = .mapped o a') :
    o < pa + (x - va) + blockBytes p h := by
  have hpos := Nat.two_pow_pos p
  induction h generalizing x top T
  case zero =>
    rw [show T = _ from hb] at hw
    have := walk_page_le hg ha hw
    rw [hl.outputOf_eq (by omega)] at this
    rwa [blockBytes_zero]
  case succ h ih =>
    rcases hb with ⟨⟨_, hdo, htop⟩, rfl⟩ | ⟨_, q, slots, rfl, _, hb⟩
    case inl =>
      have := walk_block_le hg ha (fun hal => hl.field _ hal (by omega)) hw
      rwa [hl.outputOf_eq (by omega)] at this
    case inr =>
      rw [walk_table hg] at hw
      rcases hb (slotIndex p h (p - 3) v) slotIndex_lt with ⟨y, hy, _, hsb⟩ | ⟨_, hsb⟩
      case inr => simp [hsb, walk_empty] at hw
      case inl =>
        have hle : min top (x + blockBytes p (h + 1) - 1) ≤ top := Nat.min_le_left ..
        have := ih hsb (hl.mono hle) (hva.trans hy.le) (hy.dvd page_dvd_blockBytes hd) hy.lt hw
        obtain ⟨k, rfl, hk⟩ := hy
        -- The stops are whole entries apart, and so are the block and its end.
        have hk' : k * blockBytes p h < 2 ^ (p - 3) * blockBytes p h := by
          rw [←blockBytes_succ]
          omega
        have := Nat.mul_le_mul_right (blockBytes p h) (show k + 1 ≤ 2 ^ (p - 3) from Nat.lt_of_mul_lt_mul_right hk')
        rw [Nat.add_mul, ←blockBytes_succ] at this
        omega

-- A table that is not straight does not translate its range.
theorem TableBuilt.not_walk {slots : Nat → Tree}
    (hb : TableBuilt p (SlotBuilt g p a (outputOf va pa) h) h nbits ia top slots)
    (hl : Linear p va pa top) (hn : nbits ≤ p - 3) (hn₁ : 1 ≤ nbits) (hs : ¬Straight p h ia top) (hd : 2 ^ p ∣ ia)
    (hva : va ≤ ia)
    (hlt : ia < top) (hk : top < ia + 2 ^ nbits * blockBytes p h) :
    ∃ v, ia ≤ v ∧ v ≤ top ∧
      ∀ a', (slots (slotIndex p h nbits v)).walk p h v ≠ .mapped (outputOf va pa v) a' := by
  have hpos := Nat.two_pow_pos p
  induction h generalizing nbits slots
  case zero => exact absurd (fun j _ _ => by omega) hs
  case succ h ih =>
    have hbp := blockBytes_pos (p := p) (h := h + 1)
    have hnd : ¬blockBytes p (h + 1) ∣ ia := fun h => hs (.of_dvd h)
    have hi (v : Nat) : slotIndex p (h + 1) nbits v < 2 ^ (p - 3) := lt_of_lt_of_le slotIndex_lt <|
      Nat.pow_le_pow_right (by omega) hn
    by_cases he : ia / blockBytes p (h + 1) = top / blockBytes p (h + 1)
    case pos =>
      -- The range lies in one block, so the address is missed by the table of the next level.
      obtain ⟨x, hx, hidx, hsb⟩ := (hb _ (hi ia)).resolve_right fun hc => hc.left ia (.first hlt) rfl
      obtain rfl := hx.eq_of_div_eq he
      have hend := lt_of_div_eq hbp he
      have ht : min top (x + blockBytes p (h + 1) - 1) = top := by omega
      obtain ⟨_, q, slots', hslot, _, hb'⟩ := hsb.resolve_left (fun h => hnd h.left.left)
      rw [ht] at hb'
      have hs' : ¬Straight p h x top := by
        refine mt (fun hs' j h₁ h₂ => ?_) hs
        rcases Nat.le_or_eq_of_le_succ h₂ with h₂ | rfl
        case inl => exact hs' j h₁ h₂
        case inr => exact .inr he
      have hlo := hg.lo
      obtain ⟨v, hv₁, hv₂, hv⟩ := ih hb' le_rfl (by omega) hs' (blockBytes_succ ▸ hend)
      have hvx : v / blockBytes p (h + 1) = x / blockBytes p (h + 1) :=
        le_antisymm (he ▸ Nat.div_le_div_right hv₂) (Nat.div_le_div_right hv₁)
      have hidx : slotIndex p (h + 1) nbits v = slotIndex p (h + 1) nbits x := by
        rw [slotIndex, slotIndex, hvx]
      refine ⟨v, hv₁, hv₂, ?_⟩
      rw [hidx, hslot, walk_table hg]
      exact hv
    case neg =>
      -- The last boundary of the range.
      have hlt' : ia / blockBytes p (h + 1) < top / blockBytes p (h + 1) :=
        lt_of_le_of_ne (Nat.div_le_div_right hlt.le) he
      have hwrap : top / blockBytes p (h + 1) ≤ ia / blockBytes p (h + 1) + 2 ^ nbits := by
        have := Nat.div_le_div_right (c := blockBytes p (h + 1)) hk.le
        rwa [Nat.add_mul_div_right _ _ hbp] at this
      have hiau := Nat.mul_le_mul_right (blockBytes p (h + 1)) hlt'
      have hia := Nat.lt_mul_div_succ ia hbp
      have hut : top / blockBytes p (h + 1) * blockBytes p (h + 1) ≤ top := Nat.div_mul_le_self ..
      have hub : top / blockBytes p (h + 1) * blockBytes p (h + 1) / blockBytes p (h + 1) =
        top / blockBytes p (h + 1) := Nat.mul_div_cancel _ hbp
      have hdu : blockBytes p (h + 1) ∣ top / blockBytes p (h + 1) * blockBytes p (h + 1) := Nat.dvd_mul_left ..
      rw [Nat.mul_comm] at hia
      generalize top / blockBytes p (h + 1) * blockBytes p (h + 1) = u at *
      have hiu : ia ≤ u := (hia.trans_le hiau).le
      rcases hb _ (hi u) with ⟨x, hx, hidx, hsb⟩ | ⟨_, hempty⟩
      case inr => exact ⟨u, hiu, hut, fun a' => by simp [hempty, walk_empty]⟩
      case inl =>
        have hxd := hx.dvd page_dvd_blockBytes hd
        have hxia := Nat.div_le_div_right (c := blockBytes p (h + 1)) hx.le
        have hxt := Nat.div_le_div_right (c := blockBytes p (h + 1)) hx.lt.le
        by_cases hxu : x / blockBytes p (h + 1) = top / blockBytes p (h + 1)
        case pos =>
          -- The stop in the block of the boundary comes after it.
          have hux := hx.boundary_lt hnd hdu (hub.trans hxu.symm)
          obtain ⟨w, hw₁, hw₂, hw⟩ := hsb.missed hg hxd hx.lt hux (hub.trans hxu.symm) hxu
          have hwu : w / blockBytes p (h + 1) = u / blockBytes p (h + 1) :=
            le_antisymm (hub ▸ Nat.div_le_div_right hw₂) (Nat.div_le_div_right hw₁)
          refine ⟨w, hiu.trans hw₁, hw₂, fun a' => ?_⟩
          rw [show slotIndex p (h + 1) nbits w = slotIndex p (h + 1) nbits u by rw [slotIndex, slotIndex, hwu], hw]
          simp
        case neg =>
          -- The range comes back to the slot of its start, where the output addresses are smaller.
          refine ⟨u, hiu, hut, fun a' hw => ?_⟩
          have hout := hsb.lt_output hg ha hl (hva.trans hx.le) hxd hx.lt hw
          have hmod : x / blockBytes p (h + 1) % 2 ^ nbits = top / blockBytes p (h + 1) % 2 ^ nbits := by
            rw [slotIndex, slotIndex, hub] at hidx
            exact hidx.symm
          have hfar := add_two_le_of_mod_eq hn₁ (lt_of_le_of_ne hxt hxu) hmod
          have hlast := Nat.lt_mul_div_succ x hbp
          have := Nat.mul_le_mul_right (blockBytes p (h + 1)) hfar
          have hu : u = top / blockBytes p (h + 1) * blockBytes p (h + 1) := by
            rw [←hub, Nat.div_mul_cancel hdu]
          rw [hl.outputOf_eq (by omega)] at hout
          rw [Nat.mul_add, Nat.mul_comm] at hlast
          rw [Nat.add_mul] at this
          have := hx.le
          omega

end

end Pgt
