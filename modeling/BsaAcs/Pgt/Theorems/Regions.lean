import BsaAcs.Pgt.Theorems.Create

namespace Pgt

-- A list of regions. Every turn of the loop in `val_pgt_create` looks at the head of the array
-- again, so that the descriptors after the first are neither checked nor mapped.

def Disjoint (a b : MemoryRegionDescriptor) : Prop :=
  a.virtualAddress + a.length ≤ b.virtualAddress ∨ b.virtualAddress + b.length ≤ a.virtualAddress

-- What a call should do with a list: it checks every descriptor, and it maps every region.
def HandlesAll (pf : Platform) (p : Nat) (desc : PgtDescriptor) (rs : List MemoryRegionDescriptor)
    (res : CreateResult) : Prop :=
  ((∃ r ∈ rs, Rejects pf desc r) → res.status = acsStatusErr) ∧
  ((∀ r ∈ rs, ¬Rejects pf desc r) → rs.Pairwise Disjoint →
    res.status = 0 ∧ ∀ r ∈ rs, Translates res.pgtDesc res.state.mem p r)

-- The regions that a table can map. Whether a region runs over the end of the input addresses does
-- not matter, as long as it does not come back to its own start.
structure Mappable (p : Nat) (desc : PgtDescriptor) (r : MemoryRegionDescriptor) : Prop where
  attributes : AttrBits r.attributes
  length     : r.length ≤ 2 ^ desc.ias
  lastPage   : r.length % 2 ^ p ≠ 1
  straight   : Straight p (rootHeight p desc.ias) (regionStart desc r) (regionTop desc r)
  held       : ∀ v, regionStart desc r ≤ v → v ≤ regionTop desc r →
    Held p (outputOf (regionStart desc r) r.physicalAddress) (regionStart desc r) (regionTop desc r)
      (rootHeight p desc.ias) v

-- The region `r'` is a part of `r`, at addresses that differ by a multiple of the input size.
structure Aliases (p : Nat) (desc : PgtDescriptor) (r r' : MemoryRegionDescriptor) : Prop where
  attributes : r'.attributes = r.attributes
  output     : r.physicalAddress ≤ r'.physicalAddress
  input      : (regionStart desc r + (r'.physicalAddress - r.physicalAddress)) % 2 ^ desc.ias =
    r'.virtualAddress % 2 ^ desc.ias
  covered    : Covers p (regionStart desc r) (regionTop desc r)
    (regionStart desc r + (r'.physicalAddress - r.physicalAddress) + (r'.length - 1))

-- The lists that a call handles. If the first descriptor passes the checks, the others must pass them
-- too, and the table of the first region must map them all.
def Handled (pf : Platform) (p : Nat) (desc : PgtDescriptor) : List MemoryRegionDescriptor → Prop
  | [] => True
  | r :: rest =>
    Rejects pf desc r ∨
    (desc.tcr.tgSizeLog2.toNat = p ∧ (∀ r' ∈ rest, ¬Rejects pf desc r') ∧
      ((r :: rest).Pairwise Disjoint → Mappable p desc r ∧ ∀ r' ∈ rest, Aliases p desc r r')) ∨
    (desc.tcr.tgSizeLog2.toNat ≠ p ∧ ((∃ r' ∈ rest, Rejects pf desc r') ∨ ¬(r :: rest).Pairwise Disjoint))

section

variable {p va len v : Nat} (hp : 12 ≤ p) (hd : 2 ^ p ∣ va)

include hp hd

-- Every page of a region is reached, unless the region ends with the first byte of a page.
theorem covers_of_mem (hl : len % 2 ^ p ≠ 1) (h₁ : va ≤ v) (h₂ : v < va + len) :
    Covers p va (va + len - 1) v := by
  refine ⟨h₁, lt_of_le_of_ne (page_start_le.trans (by omega)) fun he => hl ?_⟩
  have hdv : 2 ^ p ∣ va + len - 1 := he ▸ Nat.dvd_mul_left ..
  obtain ⟨m, hm⟩ : 2 ^ p ∣ len - 1 := by
    have := Nat.dvd_sub hdv hd
    rwa [show va + len - 1 - va = len - 1 by omega] at this
  have := two_le_page hp
  rw [show len = 1 + 2 ^ p * m by omega, Nat.add_mul_mod_self_left, Nat.mod_eq_of_lt (by omega)]

omit hp in
theorem not_covers_last (hl : len % 2 ^ p = 1) : ¬Covers p va (va + len - 1) (va + len - 1) := by
  have hm := Nat.div_add_mod len (2 ^ p)
  obtain ⟨n, rfl⟩ := hd
  rintro ⟨_, hlt⟩
  have he : 2 ^ p * n + len - 1 = (n + len / 2 ^ p) * 2 ^ p := by
    rw [Nat.add_mul, Nat.mul_comm n, Nat.mul_comm (len / 2 ^ p)]
    omega
  rw [he, Nat.mul_div_cancel _ (Nat.two_pow_pos p)] at hlt
  omega

end

-- The addresses of a page lie in the same blocks.
theorem held_page : Held p out ia top h (v / 2 ^ p * 2 ^ p) ↔ Held p out ia top h v := by
  induction h
  case zero => rw [Held, Held, Nat.mul_div_cancel _ (Nat.two_pow_pos p)]
  case succ h ih =>
    have hin : InBlock p out ia top (h + 1) (v / 2 ^ p * 2 ^ p) ↔ InBlock p out ia top (h + 1) v := by
      rw [InBlock, InBlock, page_start_div page_dvd_blockBytes]
    simp only [Held, hin, page_start_div page_dvd_blockBytes, ih]

-- In a window of length `k` every residue occurs once.
section Window

variable {a k x y : Nat}

theorem eq_of_window (hx : a ≤ x ∧ x < a + k) (hy : a ≤ y ∧ y < a + k) (he : x % k = y % k) : x = y := by
  apply Nat.ModEq.eq_of_abs_lt he
  rw [abs_lt]
  omega

theorem exists_window (a v : Nat) (hk : 0 < k) : ∃ w, (a ≤ w ∧ w < a + k) ∧ w % k = v % k := by
  have hlt := Nat.mod_lt (v + (k - a % k)) hk
  refine ⟨a + (v + (k - a % k)) % k, ⟨by omega, by omega⟩, ?_⟩
  have hm := Nat.div_add_mod a k
  have hak := Nat.mod_lt a hk
  have he : a + (v + (k - a % k)) = v + k * (a / k + 1) := by
    rw [Nat.mul_add]
    omega
  rw [Nat.add_mod_mod, he, Nat.add_mul_mod_self_left]

end Window

section Region

variable {pf : Platform} {p : Nat} {desc : PgtDescriptor} {r : MemoryRegionDescriptor} (hs : Setting pf p desc)
  (hr : ¬Rejects pf desc r) (hlen : r.length ≠ 0) (hspan : r.length ≤ 2 ^ desc.ias)

include hs hr

theorem start_aligned : 2 ^ p ∣ regionStart desc r :=
  (Nat.dvd_mod_iff <| Nat.pow_dvd_pow 2 hs.input.le).mpr (hs.aligned hr).left

include hlen hspan

theorem linear_of_span (hp : p ≤ 25) : Linear p (regionStart desc r) r.physicalAddress (regionTop desc r) where
  input  := start_aligned hs hr
  output := (hs.aligned hr).right
  bound  := by
    have htop := top_eq_of_span hs hlen hspan
    have hlt := Setting.output_lt hr
    have hpos := Nat.two_pow_pos p
    have ho : 2 ^ desc.oas ≤ 2 ^ 63 := Nat.pow_le_pow_right (by omega) (by have := hs.output; omega)
    have hi : 2 ^ desc.ias ≤ 2 ^ 63 := Nat.pow_le_pow_right (by omega) (by have := hs.input_lt; omega)
    have hd : 2 ^ p ∣ 2 ^ 63 := Nat.pow_dvd_pow 2 (by omega)
    have := start_add_le hpos hd (hlt.trans_le ho)
    rw [Nat.div_mul_cancel (hs.aligned hr).right] at this
    omega
  field  := by
    intro j hal _
    simp only [blockAllowed, Bool.or_eq_true, Bool.and_eq_true, beq_iff_eq] at hal
    rcases hal with rfl | ⟨rfl, rfl⟩ <;> omega

end Region

-- A straight region that is no longer than the input addresses.
section Table

variable {pf : Platform} {p : Nat} {desc : PgtDescriptor} {r : MemoryRegionDescriptor} (hs : Setting pf p desc)
  (hr : ¬Rejects pf desc r) (hst : Straight p (rootHeight p desc.ias) (regionStart desc r) (regionTop desc r))

include hs hr hst

-- At the height of the root it starts on a boundary or lies in one entry.
theorem root_cases : blockBytes p (rootHeight p desc.ias) ∣ regionStart desc r ∨
    regionStart desc r / blockBytes p (rootHeight p desc.ias) =
      regionTop desc r / blockBytes p (rootHeight p desc.ias) := by
  by_cases hh : rootHeight p desc.ias = 0
  case pos => exact .inl <| hh ▸ blockBytes_zero ▸ start_aligned hs hr
  case neg => exact hst _ (by omega) le_rfl

variable (hlen : r.length ≠ 0) (hspan : r.length ≤ 2 ^ desc.ias)

include hlen hspan

-- The loop over it ends, although the region may run over the end of the input addresses.
theorem run_of_straight : Run p (rootHeight p desc.ias) (regionStart desc r) (regionStart desc r)
    (regionTop desc r) := by
  have hbp := blockBytes_pos (p := p) (h := rootHeight p desc.ias)
  have htop := top_eq_of_span hs hlen hspan
  have hlt : regionStart desc r < 2 ^ desc.ias := Nat.mod_lt _ (Nat.two_pow_pos _)
  have hi : 2 ^ desc.ias ≤ 2 ^ 63 := Nat.pow_le_pow_right (by omega) (by have := hs.input_lt; omega)
  have hdvd : blockBytes p (rootHeight p desc.ias) ∣ 2 ^ desc.ias := hs.rootBits_span ▸ Nat.dvd_mul_left ..
  have hend := start_add_le hbp hdvd hlt
  refine ⟨le_rfl, ?_⟩
  rcases root_cases hs hr hst with hd | he
  case inl =>
    rw [Nat.div_mul_cancel hd] at hend
    omega
  case inr =>
    have hdm := Nat.div_add_mod (regionTop desc r) (blockBytes p (rootHeight p desc.ias))
    have hm := Nat.mod_lt (regionTop desc r) hbp
    rw [←he, Nat.mul_comm] at hdm
    omega

-- It lies in the window of the root that starts with its first entry.
theorem region_window (h₁ : regionStart desc r ≤ x) (h₂ : x ≤ regionTop desc r) :
    regionStart desc r / blockBytes p (rootHeight p desc.ias) ≤ x / blockBytes p (rootHeight p desc.ias) ∧
    x / blockBytes p (rootHeight p desc.ias) <
      regionStart desc r / blockBytes p (rootHeight p desc.ias) + 2 ^ rootBits p desc.ias := by
  have hbp := blockBytes_pos (p := p) (h := rootHeight p desc.ias)
  have hle := Nat.div_le_div_right (c := blockBytes p (rootHeight p desc.ias)) h₁
  refine ⟨hle, ?_⟩
  rcases root_cases hs hr hst with hd | he
  case inl =>
    have htop := top_eq_of_span hs hlen hspan
    rw [Nat.div_lt_iff_lt_mul hbp, Nat.add_mul, hs.rootBits_span, Nat.div_mul_cancel hd]
    omega
  case inr =>
    have := Nat.two_pow_pos (rootBits p desc.ias)
    have := Nat.div_le_div_right (c := blockBytes p (rootHeight p desc.ias)) h₂
    omega

variable {base : Nat} {s : State} (hb : RootBuilt pf p desc r base s) (ha : AttrBits r.attributes)
  (hl : Linear p (regionStart desc r) r.physicalAddress (regionTop desc r))

include hb ha hl

theorem find_window
    (hw : regionStart desc r / blockBytes p (rootHeight p desc.ias) ≤ w / blockBytes p (rootHeight p desc.ias) ∧
      w / blockBytes p (rootHeight p desc.ias) <
        regionStart desc r / blockBytes p (rootHeight p desc.ias) + 2 ^ rootBits p desc.ias) :
    Finds p r.attributes (outputOf (regionStart desc r) r.physicalAddress) (regionStart desc r)
      (regionTop desc r) (rootHeight p desc.ias) w (translate { desc with pgtBase := base } s.mem p w) :=
  hs.root_walk hb ha hl hst fun _ hx he => eq_of_window hw (region_window hs hr hst hlen hspan hx.le hx.lt.le) he

-- A covered address is translated if the descriptors hold its address.
theorem find_covered (hc : Covers p (regionStart desc r) (regionTop desc r) w) :
    translate { desc with pgtBase := base } s.mem p w =
      .mapped (outputOf (regionStart desc r) r.physicalAddress w) r.attributes ↔
    Held p (outputOf (regionStart desc r) r.physicalAddress) (regionStart desc r) (regionTop desc r)
      (rootHeight p desc.ias) w := by
  obtain ⟨x, hx, hwx⟩ := hst.visits hl.input hc
  have hw := region_window hs hr hst hlen hspan hx.le hx.lt.le
  rw [←hwx] at hw
  exact (find_window hs hr hst hlen hspan hb ha hl hw).covered hc

-- Every address is found where one of the window is that the walk cannot tell from it.
theorem find_mod (v : Nat) : ∃ w, w % 2 ^ desc.ias = v % 2 ^ desc.ias ∧
    Finds p r.attributes (outputOf (regionStart desc r) r.physicalAddress) (regionStart desc r)
      (regionTop desc r) (rootHeight p desc.ias) w (translate { desc with pgtBase := base } s.mem p v) := by
  have hbp := blockBytes_pos (p := p) (h := rootHeight p desc.ias)
  obtain ⟨w, hw, he⟩ := exists_window
    (regionStart desc r / blockBytes p (rootHeight p desc.ias) * blockBytes p (rootHeight p desc.ias)) v
    (Nat.two_pow_pos desc.ias)
  refine ⟨w, he, ?_⟩
  rw [translate_congr hs he.symm]
  refine find_window hs hr hst hlen hspan hb ha hl ⟨(Nat.le_div_iff_mul_le hbp).mpr hw.left, ?_⟩
  rw [Nat.div_lt_iff_lt_mul hbp, Nat.add_mul, hs.rootBits_span]
  exact hw.right

theorem translates_iff_held (hlast : r.length % 2 ^ p ≠ 1) : Translates { desc with pgtBase := base } s.mem p r ↔
    ∀ v, regionStart desc r ≤ v → v ≤ regionTop desc r →
      Held p (outputOf (regionStart desc r) r.physicalAddress) (regionStart desc r) (regionTop desc r)
        (rootHeight p desc.ias) v := by
  have htop := top_eq_of_span hs hlen hspan
  rw [translates_iff hs hlen hspan hl]
  refine forall_congr' fun v => forall_congr' fun h₁ => forall_congr' fun h₂ => ?_
  apply find_covered hs hr hst hlen hspan hb ha hl
  rw [htop]
  exact covers_of_mem hs.lo hl.input hlast h₁ (by omega)

-- The last byte of a region that ends with the first byte of a page is missed.
theorem lastPage_of_translates (ht : Translates { desc with pgtBase := base } s.mem p r) : r.length % 2 ^ p ≠ 1 := by
  intro hlast
  have htop := top_eq_of_span hs hlen hspan
  have hm := (translates_iff hs hlen hspan hl).mp ht (regionTop desc r) (by omega) le_rfl
  have hnot : ¬Covers p (regionStart desc r) (regionTop desc r) (regionTop desc r) := by
    rw [htop]
    exact not_covers_last hl.input hlast
  have hw := region_window hs hr hst hlen hspan (x := regionTop desc r) (by omega) le_rfl
  rw [(find_window hs hr hst hlen hspan hb ha hl hw).missed hnot] at hm
  cases hm

variable (hheld : ∀ v, regionStart desc r ≤ v → v ≤ regionTop desc r →
  Held p (outputOf (regionStart desc r) r.physicalAddress) (regionStart desc r) (regionTop desc r)
    (rootHeight p desc.ias) v)

include hheld

-- What the table translates, if it translates its region.
theorem mapped_iff : translate { desc with pgtBase := base } s.mem p v = .mapped o a ↔
    ∃ w, w % 2 ^ desc.ias = v % 2 ^ desc.ias ∧ Covers p (regionStart desc r) (regionTop desc r) w ∧
      o = r.physicalAddress + (w - regionStart desc r) ∧ a = r.attributes := by
  have hfound : ∀ w, Covers p (regionStart desc r) (regionTop desc r) w →
      translate { desc with pgtBase := base } s.mem p w =
        .mapped (r.physicalAddress + (w - regionStart desc r)) r.attributes := by
    intro w hc
    have hm := Nat.div_add_mod w (2 ^ p)
    have := Nat.mod_lt w (Nat.two_pow_pos p)
    have hstart := le_page_start hl.input hc.left
    have hlt := hc.right
    rw [Nat.mul_comm] at hm
    rw [←hl.outputOf_eq (by omega)]
    exact (find_covered hs hr hst hlen hspan hb ha hl hc).mpr <| held_page.mp <| hheld _ hstart hlt.le
  constructor
  case mp =>
    intro ht
    obtain ⟨w, hw, hf⟩ := find_mod hs hr hst hlen hspan hb ha hl v
    by_cases hc : Covers p (regionStart desc r) (regionTop desc r) w
    case neg =>
      rw [hf.missed hc] at ht
      contradiction
    case pos =>
      rw [translate_congr hs hw.symm, hfound w hc] at ht
      cases ht
      exact ⟨w, hw, hc, rfl, rfl⟩
  case mpr =>
    rintro ⟨w, hw, hc, rfl, rfl⟩
    rw [translate_congr hs hw.symm, hfound w hc]

theorem aliases_iff (hlen' : r'.length ≠ 0) :
    Translates { desc with pgtBase := base } s.mem p r' ↔ Aliases p desc r r' := by
  have hmapped := fun v o a => mapped_iff hs hr hst hlen hspan hb ha hl hheld (v := v) (o := o) (a := a)
  simp only [Translates, hmapped]
  constructor
  case mp =>
    intro ht
    obtain ⟨w, hw, hc, ho, hattr⟩ := ht r'.virtualAddress le_rfl (by omega)
    obtain ⟨w', _, hc', ho', _⟩ := ht (r'.virtualAddress + (r'.length - 1)) (by omega) (by omega)
    have := hc.left
    have := hc'.left
    refine ⟨hattr, by omega, ?_, ?_⟩
    case refine_1 => rwa [show regionStart desc r + (r'.physicalAddress - r.physicalAddress) = w by omega]
    case refine_2 =>
      rwa [show regionStart desc r + (r'.physicalAddress - r.physicalAddress) + (r'.length - 1) = w' by omega]
  case mpr =>
    rintro ⟨hattr, hout, hin, hcov⟩ v h₁ h₂
    refine ⟨regionStart desc r + (r'.physicalAddress - r.physicalAddress) + (v - r'.virtualAddress), ?_, ?_, ?_, hattr⟩
    case refine_1 =>
      have := Nat.ModEq.add_right (v - r'.virtualAddress) hin
      rwa [Nat.ModEq, Nat.add_sub_cancel' h₁] at this
    case refine_2 =>
      refine ⟨by omega, lt_of_le_of_lt (Nat.mul_le_mul_right _ (Nat.div_le_div_right ?_)) hcov.right⟩
      omega
    case refine_3 => omega

end Table

section

variable {pf : Platform} {p : Nat} {desc : PgtDescriptor} {s : State} (hs : Setting pf p desc)
  (hz : ∀ k, pf.page k ≠ 0) {rs rest : List MemoryRegionDescriptor} {r : MemoryRegionDescriptor}

include hs hz

theorem create_rejects (hl : r.length ≠ 0) (hr : Rejects pf desc r) :
    valPgtCreate pf fuel (r :: rest) desc s = some ⟨acsStatusErr, r, desc, Setting.rootState pf s⟩ := by
  rw [hs.valPgtCreate_eq (hz _), List.headD_cons, Setting.createFrom_rejects hr hl]

theorem create_granule (hl : r.length ≠ 0) (hr : ¬Rejects pf desc r) (htg : desc.tcr.tgSizeLog2.toNat ≠ p) :
    valPgtCreate pf fuel (r :: rest) desc s =
      some ⟨acsStatusErr, truncateInput desc.ias r, desc, Setting.rootState pf s⟩ := by
  rw [hs.valPgtCreate_eq (hz _), List.headD_cons, Setting.createFrom_granule hr hl htg]

theorem handled_terminates (hl : ∀ r ∈ rs, r.length ≠ 0) (hh : Handled pf p desc rs)
    (hd : (∃ r ∈ rs, Rejects pf desc r) ∨ rs.Pairwise Disjoint) :
    ∃ fuel res, valPgtCreate pf fuel rs desc s = some res := by
  cases rs
  case nil => exact ⟨0, _, hs.valPgtCreate_eq (hz _)⟩
  case cons r rest =>
    have hlen := hl r List.mem_cons_self
    by_cases hr : Rejects pf desc r
    case pos => exact ⟨0, _, create_rejects hs hz hlen hr⟩
    case neg =>
      rcases hh.resolve_left hr with ⟨htg, hrest, hm⟩ | ⟨htg, _⟩
      case inr => exact ⟨0, _, create_granule hs hz hlen hr htg⟩
      case inl =>
        have hacc : ¬∃ r' ∈ r :: rest, Rejects pf desc r' := by simpa [hr] using hrest
        have hmap := (hm <| hd.resolve_left hacc).left
        have hrun := run_of_straight hs hr hmap.straight hlen hmap.length
        obtain ⟨fuel, res, hc, _⟩ := create_ends (s := s) hs hl hz hr htg hrun
        exact ⟨fuel, res, hc⟩

variable (hf : PageAllocator pf p) (hp : p ≤ 25) (hl : ∀ r' ∈ r :: rest, r'.length ≠ 0)
  (hr : ¬Rejects pf desc r) (htg : desc.tcr.tgSizeLog2.toNat = p)
  (hc : valPgtCreate pf fuel (r :: rest) desc s = some res) (hlow : LowPages pf (s.allocs + 1) res.state.allocs)

include hf hp hl hr htg hc hlow

theorem mappable_translates (hm : Mappable p desc r) :
    Translates res.pgtDesc res.state.mem p r ∧
    ∀ r', r'.length ≠ 0 → (Translates res.pgtDesc res.state.mem p r' ↔ Aliases p desc r r') := by
  have hlen := hl r List.mem_cons_self
  have hspan := hm.length
  have htop := top_eq_of_span hs hlen hspan
  have hlin := linear_of_span hs hr hlen hspan hp
  have h0 := create_status hs hz htg hl hr hc
  have ⟨hd, _, hb⟩ := create_spanned hs hl hf hm.attributes hc h0 hlow (by omega)
  rw [hd]
  refine ⟨?_, fun r' hlen' => ?_⟩
  case refine_1 =>
    exact (translates_iff_held hs hr hm.straight hlen hspan hb hm.attributes hlin hm.lastPage).mpr hm.held
  case refine_2 => exact aliases_iff hs hr hm.straight hlen hspan hb hm.attributes hlin hm.held hlen'

theorem mappable_of_translates (ht : Translates res.pgtDesc res.state.mem p r) : Mappable p desc r := by
  have hlen := hl r List.mem_cons_self
  have h0 := create_status hs hz htg hl hr hc
  have ha : AttrBits r.attributes := walk_attrBits <| ht r.virtualAddress le_rfl (by omega)
  have hspan : r.length ≤ 2 ^ desc.ias := by
    -- The walk cannot tell the first address from the one that the table comes back to it with.
    by_contra hlong
    obtain ⟨_, _, _, s', _, rfl⟩ := (hs.valPgtCreate_success_iff hl).mp ⟨hc, h0⟩
    have h₁ := ht r.virtualAddress le_rfl (by omega)
    have h₂ := ht (r.virtualAddress + 2 ^ desc.ias) (Nat.le_add_right ..) (by omega)
    rw [translate_congr hs (Nat.add_mod_right ..), h₁] at h₂
    have := Nat.two_pow_pos desc.ias
    injection h₂
    omega
  have hlin := linear_of_span hs hr hlen hspan hp
  have htop := top_eq_of_span hs hlen hspan
  have hst := create_straight hs hl hf ha hc h0 hlow hspan hlin ht
  have ⟨hd, _, hb⟩ := create_spanned hs hl hf ha hc h0 hlow (by omega)
  rw [hd] at ht
  have hlast := lastPage_of_translates hs hr hst hlen hspan hb ha hlin ht
  exact ⟨ha, hspan, hlast, hst, (translates_iff_held hs hr hst hlen hspan hb ha hlin hlast).mp ht⟩

end

section

variable {pf : Platform} {p : Nat} {desc : PgtDescriptor} {s : State} (hs : Setting pf p desc)
  (hz : ∀ k, pf.page k ≠ 0) {rs : List MemoryRegionDescriptor} (hf : PageAllocator pf p) (hp : p ≤ 25)
  (hl : ∀ r ∈ rs, r.length ≠ 0) (hc : valPgtCreate pf fuel rs desc s = some res)
  (hlow : LowPages pf (s.allocs + 1) res.state.allocs)

include hs hz hf hp hl hc hlow

theorem handlesAll_iff_handled : HandlesAll pf p desc rs res ↔ Handled pf p desc rs := by
  cases rs
  case nil =>
    rw [hs.valPgtCreate_eq (hz _)] at hc
    cases hc
    exact ⟨fun _ => trivial, fun _ => ⟨by simp, fun _ _ => ⟨rfl, by simp⟩⟩⟩
  case cons r rest =>
    have hlen := hl r List.mem_cons_self
    by_cases hr : Rejects pf desc r
    case pos =>
      rw [create_rejects hs hz hlen hr] at hc
      cases hc
      exact ⟨fun _ => .inl hr, fun _ => ⟨fun _ => rfl, fun h => absurd hr (h r List.mem_cons_self)⟩⟩
    case neg =>
      have hall : (∀ r' ∈ r :: rest, ¬Rejects pf desc r') ↔ ∀ r' ∈ rest, ¬Rejects pf desc r' := by simp [hr]
      have hex : (∃ r' ∈ r :: rest, Rejects pf desc r') ↔ ∃ r' ∈ rest, Rejects pf desc r' := by simp [hr]
      rw [HandlesAll, Handled, hall, hex]
      by_cases htg : desc.tcr.tgSizeLog2.toNat = p
      case neg =>
        rw [create_granule hs hz hlen hr htg] at hc
        cases hc
        simp only [hr, htg, false_and, false_or, ne_eq, not_false_eq_true, true_and, implies_true, acsStatusErr_ne_zero,
          imp_false]
        rw [or_iff_not_imp_left]
        simp only [not_exists, not_and]
      case pos =>
        have h0 := create_status hs hz htg hl hr hc
        have hsound := mappable_translates hs hz hf hp hl hr htg hc hlow
        have hcomplete := mappable_of_translates hs hz hf hp hl hr htg hc hlow
        simp only [hr, htg, h0, true_and, false_or, not_true, ne_eq, false_and, or_false, acsStatusErr_ne_zero.symm,
          imp_false, not_exists, not_and]
        refine and_congr_right fun hrest => ?_
        rw [forall_prop_of_true hrest]
        refine imp_congr_right fun _ => ⟨fun ht => ?_, fun ⟨hm, hal⟩ => ?_⟩
        case refine_1 =>
          have hm := hcomplete <| ht r List.mem_cons_self
          refine ⟨hm, fun r' hmem => ?_⟩
          have hmem := List.mem_cons_of_mem r hmem
          exact ((hsound hm).right r' <| hl r' hmem).mp <| ht r' hmem
        case refine_2 =>
          intro r' hmem
          cases hmem
          case head => exact (hsound hm).left
          case tail hmem => exact ((hsound hm).right r' <| hl r' <| List.mem_cons_of_mem r hmem).mpr <| hal r' hmem

end

-- A call handles its list exactly when the list is empty, or its first descriptor fails a check, or the
-- others pass the checks too and the table of the first region maps them all. (If the granule is not
-- the page size, every list is refused.) Blocks of level 2 lie in the address field of a descriptor as
-- long as `p` is at most 25; the granules of the architecture have 12, 14 and 16.
theorem create_handles_all_iff (pf : Platform) (p : Nat) (desc : PgtDescriptor)
    (rs : List MemoryRegionDescriptor) (s : State) (hs : Setting pf p desc) (hp : p ≤ 25)
    (hf : PageAllocator pf p) (hz : ∀ k, pf.page k ≠ 0) (hl : ∀ r ∈ rs, r.length ≠ 0) :
    (Handled pf p desc rs → (∃ r ∈ rs, Rejects pf desc r) ∨ rs.Pairwise Disjoint →
      ∃ fuel res, valPgtCreate pf fuel rs desc s = some res) ∧
    ∀ fuel res, valPgtCreate pf fuel rs desc s = some res → LowPages pf (s.allocs + 1) res.state.allocs →
      (HandlesAll pf p desc rs res ↔ Handled pf p desc rs) :=
  ⟨handled_terminates hs hz hl, fun _ _ hc hlow => handlesAll_iff_handled hs hz hf hp hl hc hlow⟩

-- Two pages that are far apart.
def farApart : List MemoryRegionDescriptor :=
  [⟨0x80000000, 0x200000, 0x1000, 0x400⟩, ⟨0x80010000, 0x400000, 0x1000, 0x400⟩]

-- The call returns 0 with the second page unmapped, and it does so too when the second address is
-- not aligned.
theorem create_far_apart : farApart.Pairwise Disjoint ∧
    (∀ r ∈ farApart, ¬Rejects linearPlatform (smallDesc 32) r ∧ Fits (smallDesc 32) r) ∧
    (∃ res, valPgtCreate linearPlatform 20 farApart (smallDesc 32) emptyState = some res ∧
      res.status = 0 ∧ translate res.pgtDesc res.state.mem 12 0x400000 = .invalid 0 ∧
      ¬HandlesAll linearPlatform 12 (smallDesc 32) farApart res) ∧
    Rejects linearPlatform (smallDesc 32) ⟨0x80010001, 0x400000, 0x1000, 0x400⟩ ∧
    ∃ res, valPgtCreate linearPlatform 20 [⟨0x80000000, 0x200000, 0x1000, 0x400⟩,
      ⟨0x80010001, 0x400000, 0x1000, 0x400⟩] (smallDesc 32) emptyState = some res ∧
      res.status = 0 := by
  have hd : farApart.Pairwise Disjoint := by simp [farApart, Disjoint]
  have hr : ∀ r ∈ farApart, ¬Rejects linearPlatform (smallDesc 32) r := by decide
  refine ⟨hd, ?_, ⟨_, rfl, rfl, rfl, ?_⟩, by decide, _, rfl, rfl⟩
  case refine_1 =>
    intro r hm
    refine ⟨hr r hm, ?_⟩
    simp only [farApart, List.mem_cons, List.not_mem_nil, or_false] at hm
    rcases hm with rfl | rfl <;> exact ⟨by decide, by decide, by decide⟩
  case refine_2 =>
    intro hh
    have ht := (hh.right hr hd).right ⟨0x80010000, 0x400000, 0x1000, 0x400⟩ (by simp [farApart])
    exact absurd (ht 0x400000 (by decide) (by decide)) (by decide)

-- A region of 1 GB at 4 GB, with addresses of 39 and 48 bits. It becomes a single block.
def highBlock : MemoryRegionDescriptor :=
  ⟨0x100000000, 0, 0x40000000, 0x400⟩

def highDesc : PgtDescriptor :=
  { smallDesc 39 with oas := 48 }

theorem highBlock_mappable : Mappable 12 highDesc highBlock where
  attributes := by decide
  length     := by decide
  lastPage   := by decide
  straight   := .of_dvd (by decide)
  held       := by
    intro v h₁ h₂
    have hv : v / blockBytes 12 2 = 0 := Nat.div_eq_of_lt (h₂.trans_lt (by decide))
    rw [show rootHeight 12 highDesc.ias = 2 from rfl, Held, if_pos ⟨by rw [hv]; decide, by rw [hv]; decide⟩, hv]
    decide

-- The region is translated, above the addresses that a page descriptor can hold.
theorem create_handles_high_block :
    ∃ fuel res, valPgtCreate linearPlatform fuel [highBlock] highDesc emptyState = some res ∧
      res.status = 0 ∧ Translates res.pgtDesc res.state.mem 12 highBlock := by
  have hs : Setting linearPlatform 12 highDesc :=
    ⟨rfl, le_rfl, by decide, show 12 < 39 by decide, show 39 < 64 by decide, show 48 < 64 by decide⟩
  have hr : ∀ r ∈ [highBlock], ¬Rejects linearPlatform highDesc r := by decide
  have hh : Handled linearPlatform 12 highDesc [highBlock] :=
    .inr <| .inl ⟨rfl, by simp, fun _ => ⟨highBlock_mappable, by simp⟩⟩
  obtain ⟨_, hiff⟩ := create_handles_all_iff linearPlatform 12 highDesc [highBlock] emptyState hs (by decide)
    linearPlatform_allocator linearPlatform_page_ne_zero (by decide)
  have hall := (hiff 20 _ rfl fun k h₁ h₂ => absurd (show k < 1 from h₂) (by omega)).mpr hh
  obtain ⟨h0, ht⟩ := hall.right hr (by simp)
  exact ⟨20, _, rfl, h0, ht highBlock (by simp)⟩

end Pgt
