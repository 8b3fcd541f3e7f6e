import BsaAcs.Pgt.Theorems.Crossing
import BsaAcs.Pgt.Theorems.Root

namespace Pgt

-- What `val_pgt_create` maps.

-- The region fits into the input and output addresses, and its output addresses into the 32 bits
-- that a page descriptor keeps.
structure Fits (desc : PgtDescriptor) (md : MemoryRegionDescriptor) : Prop where
  input  : md.virtualAddress + md.length ≤ 2 ^ desc.ias
  output : md.physicalAddress + md.length ≤ 2 ^ desc.oas
  low    : md.physicalAddress + md.length ≤ 2 ^ 32

-- The table translates the addresses of the region as its descriptor says.
def Translates (desc : PgtDescriptor) (mem : Memory) (p : Nat) (md : MemoryRegionDescriptor) : Prop :=
  ∀ v, md.virtualAddress ≤ v → v < md.virtualAddress + md.length →
    translate desc mem p v =
      .mapped (md.physicalAddress + (v - md.virtualAddress)) md.attributes

-- It translates nothing else.
def MapsExactly (desc : PgtDescriptor) (mem : Memory) (p : Nat) (md : MemoryRegionDescriptor) : Prop :=
  Translates desc mem p md ∧
  ∀ v < 2 ^ desc.ias, ¬(md.virtualAddress ≤ v ∧ v < md.virtualAddress + md.length) →
    translate desc mem p v = .invalid 0

theorem walk_attrBits (hw : walk mem p h base nbits va = .mapped o a) : AttrBits a := by
  induction h generalizing base nbits
  case zero =>
    rw [walk] at hw
    split at hw
    case isTrue => contradiction
    case isFalse =>
      split at hw
      case isTrue =>
        cases hw
        exact pgtDescAttributes_idem
      case isFalse => contradiction
  case succ h ih =>
    rw [walk] at hw
    split at hw
    case isTrue => contradiction
    case isFalse =>
      split at hw
      case isTrue => exact ih hw
      case isFalse =>
        split at hw
        case isTrue =>
          cases hw
          exact pgtDescAttributes_idem
        case isFalse => contradiction

-- The walk depends on the address bits that the table has indices for.
theorem walk_congr (hv : v % (2 ^ nbits * blockBytes p h) = w % (2 ^ nbits * blockBytes p h)) :
    walk mem p h base nbits v = walk mem p h base nbits w := by
  have hidx : slotIndex p h nbits v = slotIndex p h nbits w := by
    rw [slotIndex, slotIndex, ←Nat.mod_mul_right_div_self, ←Nat.mod_mul_right_div_self, Nat.mul_comm, hv]
  have hmod : v % blockBytes p h = w % blockBytes p h := Nat.ModEq.of_mul_left _ hv
  induction h generalizing base nbits
  case zero =>
    rw [blockBytes_zero] at hmod
    simp only [walk, hidx, hmod]
  case succ h ih =>
    have hnext : ∀ base, walk mem p h base (p - 3) v = walk mem p h base (p - 3) w := by
      intro base
      have hm := hmod
      rw [blockBytes_succ] at hm
      refine ih hm ?_ (Nat.ModEq.of_mul_left _ hm)
      rw [slotIndex, slotIndex, ←Nat.mod_mul_right_div_self, ←Nat.mod_mul_right_div_self, Nat.mul_comm, hm]
    simp only [walk, hidx, hmod, hnext]

section Passes

variable {pf : Platform} {g : Globals} {tt : TtDescriptor} {md : MemoryRegionDescriptor}

theorem Passes.mono (hp : Passes pf g fuel tt md n s s') (hle : fuel ≤ fuel') :
    Passes pf g fuel' tt md n s s' := by
  induction hp
  case done => exact .done
  case pass hf _ ih => exact .pass (fillFrom_mono hf hle) ih

theorem Passes.exists (hf : ∀ s, ∃ fuel s', fillTranslationTable pf g fuel tt md s = some (0, s')) :
    ∃ fuel s', Passes pf g fuel tt md n s s' := by
  induction n generalizing s
  case zero => exact ⟨0, s, .done⟩
  case succ n ih =>
    obtain ⟨f₁, s₁, hf⟩ := hf s
    obtain ⟨f₂, s', hp⟩ := ih (s := s₁)
    exact ⟨max f₁ f₂, s', .pass (fillFrom_mono hf (Nat.le_max_left ..))
      (hp.mono (Nat.le_max_right ..))⟩

theorem Passes.allocs_le (hp : Passes pf g fuel tt md n s s') : s.allocs ≤ s'.allocs := by
  induction hp
  case done => exact le_rfl
  case pass hf _ ih => exact (fillFrom_allocs_le hf).trans ih

-- A state that a pass does not change is not changed by more of them.
theorem Passes.eq_of_fixed (hp : Passes pf g fuel tt md n s s')
    (hf : ∀ s', fillTranslationTable pf g fuel tt md s = some (0, s') → s' = s) : s' = s := by
  induction hp
  case done => rfl
  case pass hf' _ ih =>
    have := hf _ hf'
    subst this
    exact ih hf

end Passes

-- The region as the passes see it: its first address and its last one.
def regionStart (desc : PgtDescriptor) (md : MemoryRegionDescriptor) : Nat :=
  md.virtualAddress % 2 ^ desc.ias

def regionTop (desc : PgtDescriptor) (md : MemoryRegionDescriptor) : Nat :=
  (regionStart desc md + md.length + 2 ^ 64 - 1) % 2 ^ 64

theorem regionStart_truncateInput : regionStart desc (truncateInput desc.ias r) = regionStart desc r := by
  simp [regionStart, Setting.truncateInput_eq]

theorem regionTop_truncateInput : regionTop desc (truncateInput desc.ias r) = regionTop desc r := by
  rw [regionTop, regionTop, regionStart_truncateInput, Setting.truncateInput_eq]

-- The slots of the root once the table is built.
def RootBuilt (pf : Platform) (p : Nat) (desc : PgtDescriptor) (md : MemoryRegionDescriptor)
    (base : Nat) (s : State) : Prop :=
  TableBuilt p (SlotBuilt (createGlobals pf) p md.attributes
    (outputOf (regionStart desc md) md.physicalAddress) (rootHeight p desc.ias)) (rootHeight p desc.ias)
    (rootBits p desc.ias) (regionStart desc md) (regionTop desc md)
    (readTree s.mem p (rootHeight p desc.ias) base)

theorem rootBuilt_truncateInput :
    RootBuilt pf p desc (truncateInput desc.ias r) base s ↔ RootBuilt pf p desc r base s := by
  rw [RootBuilt, RootBuilt, regionStart_truncateInput, regionTop_truncateInput, Setting.truncateInput_eq]

theorem regionStart_lt (hi : desc.ias < 64) : regionStart desc md < 2 ^ 64 :=
  (Nat.mod_lt _ (Nat.two_pow_pos _)).trans (Nat.pow_lt_pow_right (by omega) hi)

namespace Setting

variable {pf : Platform} {p : Nat} {desc : PgtDescriptor} (hs : Setting pf p desc)

include hs

theorem rootState_empty :
    readTree (rootState pf s).mem p h (pf.page s.allocs) = fun _ => .empty := by
  have := hs.lo
  exact readTree_of_zero (by omega) fun a ha => Memory.set_mem ha.left (hs.pageSize ▸ ha.right)

theorem rootState_owned (hz : pf.page s.allocs ≠ 0) :
    Owned pf p (rootState pf s) h (pf.page s.allocs) := by
  refine ⟨?_, ⟨s.allocs, Nat.lt_succ_self _, rfl, hz⟩, ?_, ?_⟩ <;>
    simp [hs.rootState_empty, tablePages_empty]

-- What the walk finds in the table of a straight region. No other stop of the loop uses the slot of `v`.
theorem root_walk (hb : RootBuilt pf p desc md base s) (ha : AttrBits md.attributes)
    (hl : Linear p (regionStart desc md) md.physicalAddress (regionTop desc md))
    (hst : Straight p (rootHeight p desc.ias) (regionStart desc md) (regionTop desc md))
    (hu : ∀ x, Visits p (rootHeight p desc.ias) (regionStart desc md) (regionTop desc md) x →
      slotIndex p (rootHeight p desc.ias) (rootBits p desc.ias) v =
        slotIndex p (rootHeight p desc.ias) (rootBits p desc.ias) x →
      v / blockBytes p (rootHeight p desc.ias) = x / blockBytes p (rootHeight p desc.ias)) :
    Finds p md.attributes (outputOf (regionStart desc md) md.physicalAddress) (regionStart desc md)
      (regionTop desc md) (rootHeight p desc.ias) v (translate { desc with pgtBase := base } s.mem p v) := by
  rw [translate, walk_eq_tree_walk hs.rootBits_le]
  refine hb.walk hs.lo hs.rootBits_le hst hl.input hu fun hsb hx hs' hv => ?_
  exact hsb.walk hs.createGranule.toGranule ha hl hx.le (hx.dvd page_dvd_blockBytes hl.input) hx.lt hs' hv

-- The table of a region that is not straight translates some address of it wrongly.
theorem root_not_walk (hb : RootBuilt pf p desc md base s) (ha : AttrBits md.attributes)
    (hl : Linear p (regionStart desc md) md.physicalAddress (regionTop desc md))
    (hst : ¬Straight p (rootHeight p desc.ias) (regionStart desc md) (regionTop desc md))
    (hlt : regionStart desc md < regionTop desc md)
    (hk : regionTop desc md < regionStart desc md + 2 ^ desc.ias) :
    ∃ v, regionStart desc md ≤ v ∧ v ≤ regionTop desc md ∧
      ∀ a, translate { desc with pgtBase := base } s.mem p v ≠
        .mapped (outputOf (regionStart desc md) md.physicalAddress v) a := by
  have hbits : 1 ≤ rootBits p desc.ias := by
    have := hs.height_bounds
    rw [rootBits]
    omega
  obtain ⟨v, hv₁, hv₂, hv⟩ := hb.not_walk hs.createGranule.toGranule ha hl hs.rootBits_le hbits hst hl.input le_rfl
    hlt (hs.rootBits_span.symm ▸ hk)
  refine ⟨v, hv₁, hv₂, fun a => ?_⟩
  rw [translate, walk_eq_tree_walk hs.rootBits_le]
  exact hv a

section Region

variable {md : MemoryRegionDescriptor} (hr : ¬Rejects pf desc md)

include hr

theorem aligned : 2 ^ p ∣ md.virtualAddress ∧ 2 ^ p ∣ md.physicalAddress :=
  hs.misaligned_iff.mp <| by simpa [Rejects] using (not_or.mp hr).left

omit hs in
theorem output_lt : md.physicalAddress < 2 ^ desc.oas := by
  have := (not_or.mp hr).right
  simpa [outOfRange, Nat.one_shiftLeft] using this

-- A pass starts at the address of the region, as far as the input size allows.
theorem pass_eq : fillTranslationTable pf (createGlobals pf) fuel
    (rootTtDescriptor (createGlobals pf) p base desc md) md s =
    fillFrom pf (createGlobals pf) md fuel (rootTtDescriptor (createGlobals pf) p base desc md)
      (md.virtualAddress % 2 ^ desc.ias)
      (outputOf (md.virtualAddress % 2 ^ desc.ias) md.physicalAddress
        (md.virtualAddress % 2 ^ desc.ias)) s := by
  have ho := output_lt hr
  have : 2 ^ desc.oas ≤ 2 ^ 64 := Nat.pow_le_pow_right (by omega) hs.output.le
  rw [fillTranslationTable]
  congr 1
  · simp only [rootTtDescriptor, Nat.one_shiftLeft, Nat.and_two_pow_sub_one_eq_mod]
  · simp only [rootTtDescriptor, Nat.one_shiftLeft, Nat.and_two_pow_sub_one_eq_mod, outputOf,
      Nat.sub_self, Nat.add_zero]
    rw [Nat.mod_eq_of_lt ho, Nat.mod_eq_of_lt (by omega)]

theorem pass_run (hp : fillTranslationTable pf (createGlobals pf) fuel
    (rootTtDescriptor (createGlobals pf) p base desc md) md s = some (0, s')) :
    Run p (rootHeight p desc.ias) (regionStart desc md) (regionStart desc md) (regionTop desc md) :=
  run_of_success (hs.pass_eq hr ▸ hp) hs.rootTt_at (regionStart_lt hs.input_lt)

theorem first_pass_built (hf : PageAllocator pf p) (ha : md.attributes.testBit 1 = false)
    (hz : pf.page s.allocs ≠ 0) (hk : regionTop desc md ≤ regionStart desc md + 2 ^ desc.ias)
    (hp : fillTranslationTable pf (createGlobals pf) fuel (rootTtDescriptor (createGlobals pf) p
      (pf.page s.allocs) desc md) md (rootState pf s) = some (0, s₁))
    (hl : LowPages pf (s.allocs + 1) s₁.allocs) :
    RootBuilt pf p desc md (pf.page s.allocs) s₁ := by
  have hrun := hs.pass_run hr hp
  rw [hs.pass_eq hr] at hp
  have hb := fillFrom_filled hs.createGranule hf ha hp hs.rootTt_at hrun
    (hs.rootBits_span.symm ▸ hk) (hs.rootState_owned hz) hl fun _ _ => by rw [hs.rootState_empty]
  rw [hs.rootState_empty] at hb
  exact hb.tableBuilt

theorem built_fixed (hb : RootBuilt pf p desc md base s)
    (hk : regionTop desc md ≤ regionStart desc md + 2 ^ desc.ias)
    (hp : fillTranslationTable pf (createGlobals pf) fuel
      (rootTtDescriptor (createGlobals pf) p base desc md) md s = some (0, s')) : s' = s := by
  have hrun := hs.pass_run hr hp
  rw [hs.pass_eq hr] at hp
  refine fillFrom_of_built hs.createGranule hp hs.rootTt_at hrun fun x hx => ?_
  exact hb.visited (hs.rootBits_span.symm ▸ hk) hs.rootBits_le hx

-- The passes after the first find everything in place.
theorem passes_built (hf : PageAllocator pf p) (ha : md.attributes.testBit 1 = false)
    (hz : pf.page s.allocs ≠ 0) (hk : regionTop desc md ≤ regionStart desc md + 2 ^ desc.ias)
    (hp : Passes pf (createGlobals pf) fuel (rootTtDescriptor (createGlobals pf) p
      (pf.page s.allocs) desc md) md (n + 1) (rootState pf s) s')
    (hl : LowPages pf (s.allocs + 1) s'.allocs) :
    RootBuilt pf p desc md (pf.page s.allocs) s' ∧
    fillTranslationTable pf (createGlobals pf) fuel (rootTtDescriptor (createGlobals pf) p
      (pf.page s.allocs) desc md) md (rootState pf s) = some (0, s') := by
  cases hp
  case pass s₁ hfill hp =>
    have hle : s₁.allocs ≤ s'.allocs := hp.allocs_le
    have hb := hs.first_pass_built hr hf ha hz hk hfill (hl.mono le_rfl hle)
    have := hp.eq_of_fixed fun _ => hs.built_fixed hr hb hk
    subst this
    exact ⟨hb, hfill⟩

theorem pass_terminates (hz : ∀ k, pf.page k ≠ 0)
    (hrun : Run p (rootHeight p desc.ias) (regionStart desc md) (regionStart desc md)
      (regionTop desc md)) :
    ∃ fuel s', fillTranslationTable pf (createGlobals pf) fuel
      (rootTtDescriptor (createGlobals pf) p base desc md) md s = some (0, s') := by
  simp only [hs.pass_eq hr]
  exact fillFrom_terminates hs.createGranule hz hs.rootTt_at hrun

end Region

end Setting

section Fits

variable {pf : Platform} {p : Nat} {desc : PgtDescriptor} {md : MemoryRegionDescriptor}
  (hs : Setting pf p desc) (hfit : Fits desc md) (hlen : md.length ≠ 0)

include hfit hlen

theorem Fits.start_eq : regionStart desc md = md.virtualAddress := by
  have := hfit.input
  exact Nat.mod_eq_of_lt (by omega)

include hs

theorem Fits.top_eq : regionTop desc md = md.virtualAddress + md.length - 1 := by
  have hi := hfit.input
  have : 2 ^ desc.ias < 2 ^ 64 := Nat.pow_lt_pow_right (by omega) hs.input_lt
  rw [regionTop, hfit.start_eq hlen]
  omega

theorem Fits.span : regionTop desc md ≤ regionStart desc md + 2 ^ desc.ias := by
  have := hfit.input
  rw [hfit.top_eq hs hlen, hfit.start_eq hlen]
  omega

theorem Fits.run : Run p (rootHeight p desc.ias) (regionStart desc md) (regionStart desc md)
    (regionTop desc md) := by
  have hi := hfit.input
  have h63 : 2 ^ desc.ias ≤ 2 ^ 63 := Nat.pow_le_pow_right (by omega) (by have := hs.input_lt; omega)
  have hb : blockBytes p (rootHeight p desc.ias) ≤ 2 ^ desc.ias :=
    hs.rootBits_span ▸ Nat.le_mul_of_pos_left _ (Nat.two_pow_pos _)
  refine ⟨le_rfl, ?_⟩
  rw [hfit.top_eq hs hlen]
  omega

theorem Fits.linear (hr : ¬Rejects pf desc md) :
    Linear p (regionStart desc md) md.physicalAddress (regionTop desc md) := by
  have ⟨hv, hp⟩ := hs.aligned hr
  have hlow := hfit.low
  have hpage : 2 ^ p ≤ 2 ^ 32 := Nat.pow_le_pow_right (by omega) hs.hi.le
  rw [hfit.top_eq hs hlen, hfit.start_eq hlen]
  refine ⟨hv, hp, by omega, fun j _ hb => ?_⟩
  -- A block that fits into the region has at most 4 GB.
  have hb : 2 ^ (p + j * (p - 3)) ≤ 2 ^ 32 := hb.trans (by omega)
  have := (Nat.pow_le_pow_iff_right (by omega)).mp hb
  omega

-- Below 4 GB the descriptors hold every address, and there are only blocks that the architecture has.
theorem Fits.held (hr : ¬Rejects pf desc md)
    (hc : Covers p (regionStart desc md) (regionTop desc md) v) :
    Held p (outputOf (regionStart desc md) md.physicalAddress) (regionStart desc md) (regionTop desc md) h v := by
  have hl := hfit.linear hs hlen hr
  have hlow := hfit.low
  have hlo := hs.lo
  have htop : md.physicalAddress + (regionTop desc md - regionStart desc md) < 2 ^ 32 := by
    rw [hfit.top_eq hs hlen, hfit.start_eq hlen]
    omega
  obtain ⟨hle, hlt⟩ := hc
  induction h
  case zero =>
    have := Nat.two_pow_pos p
    rw [Held, hl.outputOf_eq (by omega)]
    omega
  case succ h ih =>
    rw [Held]
    split
    case isFalse => exact ih
    case isTrue hin =>
      obtain ⟨hstart, _, _, hend⟩ := hin
      have hpos := blockBytes_pos (p := p) (h := h + 1)
      have hb : 2 ^ (p + (h + 1) * (p - 3)) ≤ 2 ^ 32 := by
        change blockBytes p (h + 1) ≤ _
        omega
      have hu := (Nat.pow_le_pow_iff_right (by omega)).mp hb
      -- A block of at most 4 GB is a block of level 2, or of level 1 with the 4 KB granule.
      have hm : (h + 1) * 9 ≤ (h + 1) * (p - 3) := Nat.mul_le_mul_left _ (by omega)
      refine ⟨?_, ?_⟩
      case refine_1 =>
        rcases (by omega : h = 0 ∨ h = 1) with rfl | rfl
        case inl => rfl
        case inr =>
          have : p = 12 := by omega
          simp [blockAllowed, this]
      case refine_2 =>
        have := Nat.two_pow_pos p
        rw [hl.outputOf_eq (by omega)]
        omega

end Fits

-- A region that is no longer than the input addresses.
section Span

variable {pf : Platform} {p : Nat} {desc : PgtDescriptor} {md : MemoryRegionDescriptor} (hs : Setting pf p desc)
  (hlen : md.length ≠ 0) (hspan : md.length ≤ 2 ^ desc.ias)

include hs hlen hspan

theorem top_eq_of_span : regionTop desc md = regionStart desc md + md.length - 1 := by
  have hlt : regionStart desc md < 2 ^ desc.ias := Nat.mod_lt _ (Nat.two_pow_pos _)
  have : 2 ^ desc.ias ≤ 2 ^ 63 := Nat.pow_le_pow_right (by omega) (by have := hs.input_lt; omega)
  rw [regionTop]
  omega

omit hlen hspan in
theorem translate_congr (hv : v % 2 ^ desc.ias = w % 2 ^ desc.ias) :
    translate { desc with pgtBase := base } mem p v = translate { desc with pgtBase := base } mem p w := by
  rw [translate, translate]
  exact walk_congr (by rw [hs.rootBits_span, hv])

-- The walk sees an address of the region at its distance from the start.
omit hs hlen hspan in
theorem regionStart_add_modEq (hv : md.virtualAddress ≤ v) :
    (regionStart desc md + (v - md.virtualAddress)) % 2 ^ desc.ias = v % 2 ^ desc.ias := by
  rw [regionStart, Nat.mod_add_mod]
  congr 1
  omega

variable (hl : Linear p (regionStart desc md) md.physicalAddress (regionTop desc md))

include hl

-- What translating a region means for the addresses of the table.
theorem translates_iff : Translates { desc with pgtBase := base } mem p md ↔
    ∀ v, regionStart desc md ≤ v → v ≤ regionTop desc md →
      translate { desc with pgtBase := base } mem p v =
        .mapped (outputOf (regionStart desc md) md.physicalAddress v) md.attributes := by
  have htop := top_eq_of_span hs hlen hspan
  have hpos := Nat.two_pow_pos p
  constructor
  case mp =>
    intro ht v h₁ h₂
    have hv : md.virtualAddress + (v - regionStart desc md) < md.virtualAddress + md.length := by omega
    have ht := ht _ (Nat.le_add_right ..) hv
    have hmod : (regionStart desc md + (md.virtualAddress + (v - regionStart desc md) - md.virtualAddress)) % 2 ^ desc.ias =
        _ := regionStart_add_modEq (Nat.le_add_right ..)
    rw [Nat.add_sub_cancel_left] at ht hmod
    rw [hl.outputOf_eq (by omega), ←ht]
    apply translate_congr hs
    rw [←hmod, Nat.add_sub_cancel' h₁]
  case mpr =>
    intro ht v h₁ h₂
    rw [←translate_congr hs (regionStart_add_modEq h₁), ht _ (Nat.le_add_right ..) (by omega),
      hl.outputOf_eq (by omega), Nat.add_sub_cancel_left]

end Span

section Create

variable {pf : Platform} {p : Nat} {desc : PgtDescriptor} {r : MemoryRegionDescriptor}
  {rest : List MemoryRegionDescriptor} (hs : Setting pf p desc)
  (hl : ∀ it ∈ r :: rest, it.length ≠ 0)

include hs hl

-- If the allocations succeed, a call whose first descriptor is accepted returns 0, as long as the
-- loop over its region ends.
theorem create_ends (hz : ∀ k, pf.page k ≠ 0) (hr : ¬Rejects pf desc r) (htg : desc.tcr.tgSizeLog2.toNat = p)
    (hrun : Run p (rootHeight p desc.ias) (regionStart desc r) (regionStart desc r) (regionTop desc r)) :
    ∃ fuel res, valPgtCreate pf fuel (r :: rest) desc s = some res ∧ res.status = 0 := by
  rw [←regionStart_truncateInput, ←regionTop_truncateInput] at hrun
  have hr' := mt hs.rejects_truncateInput.mp hr
  obtain ⟨fuel, s', hp⟩ := Passes.exists (s := Setting.rootState pf s) (n := rest.length + 1)
    fun s₁ => hs.pass_terminates (s := s₁) hr' hz hrun
  exact ⟨fuel, _, (hs.valPgtCreate_success_iff hl).mpr ⟨hz _, hr, htg, s', hp, rfl⟩⟩

variable {fuel : Nat} {s : State} {res : CreateResult}

-- The table of a region that is not longer than the input addresses.
theorem create_spanned (hf : PageAllocator pf p) (ha : AttrBits r.attributes) (hc : valPgtCreate pf fuel (r :: rest) desc s = some res)
    (h0 : res.status = 0) (hlow : LowPages pf (s.allocs + 1) res.state.allocs)
    (hk : regionTop desc r ≤ regionStart desc r + 2 ^ desc.ias) :
    res.pgtDesc = { desc with pgtBase := pf.page s.allocs } ∧ ¬Rejects pf desc r ∧
    RootBuilt pf p desc r (pf.page s.allocs) res.state := by
  obtain ⟨hz, hr, _, s', hp, rfl⟩ := (hs.valPgtCreate_success_iff hl).mp ⟨hc, h0⟩
  rw [←regionStart_truncateInput, ←regionTop_truncateInput] at hk
  have ha' : (truncateInput desc.ias r).attributes.testBit 1 = false := by
    rw [Setting.truncateInput_eq]
    exact ha.testBit_one
  have hb := (hs.passes_built (mt hs.rejects_truncateInput.mp hr) hf ha' hz hk hp hlow).left
  exact ⟨rfl, hr, rootBuilt_truncateInput.mp hb⟩

-- A table that translates its region is straight.
theorem create_straight (hf : PageAllocator pf p) (ha : AttrBits r.attributes) (hc : valPgtCreate pf fuel (r :: rest) desc s = some res)
    (h0 : res.status = 0) (hlow : LowPages pf (s.allocs + 1) res.state.allocs) (hspan : r.length ≤ 2 ^ desc.ias)
    (hlin : Linear p (regionStart desc r) r.physicalAddress (regionTop desc r))
    (ht : Translates res.pgtDesc res.state.mem p r) :
    Straight p (rootHeight p desc.ias) (regionStart desc r) (regionTop desc r) := by
  have hlen := hl r List.mem_cons_self
  have htop := top_eq_of_span hs hlen hspan
  have ⟨hd, hr, hb⟩ := create_spanned hs hl hf ha hc h0 hlow (by omega)
  rw [hd] at ht
  by_cases hlt : regionStart desc r < regionTop desc r
  case neg =>
    -- A region of one byte is straight.
    have he : regionStart desc r = regionTop desc r := by omega
    exact fun _ _ _ => .inr (by rw [he])
  case pos =>
    by_contra hst
    obtain ⟨v, h₁, h₂, hv⟩ := hs.root_not_walk hb ha hlin hst hlt (by omega)
    exact hv _ <| (translates_iff hs hlen hspan hlin).mp ht v h₁ h₂

variable (hfit : Fits desc r)

include hfit

theorem create_succeeds (hz : ∀ k, pf.page k ≠ 0) (hr : ¬Rejects pf desc r)
    (htg : desc.tcr.tgSizeLog2.toNat = p) :
    ∃ fuel res, valPgtCreate pf fuel (r :: rest) desc s = some res ∧ res.status = 0 :=
  create_ends hs hl hz hr htg <| hfit.run hs (hl r List.mem_cons_self)

variable (hf : PageAllocator pf p) (hlow : LowPages pf s.allocs res.state.allocs) (ha : AttrBits r.attributes)
  (hc : valPgtCreate pf fuel (r :: rest) desc s = some res) (h0 : res.status = 0)

include hf hlow ha hc h0

theorem create_built : res.pgtDesc = { desc with pgtBase := pf.page s.allocs } ∧
    ¬Rejects pf desc r ∧ RootBuilt pf p desc r (pf.page s.allocs) res.state :=
  create_spanned hs hl hf ha hc h0 (hlow.mono (Nat.le_succ _) le_rfl) (hfit.span hs (hl r List.mem_cons_self))

-- What the walk should find for `v`.
def expected (p a va pa ia top v : Nat) : WalkResult :=
  if Covers p ia top v then .mapped (outputOf va pa v) a else .invalid 0

-- What the walk of the table finds below `2 ^ ias`, if the region is straight.
theorem create_translate (hst : Straight p (rootHeight p desc.ias) r.virtualAddress
    (r.virtualAddress + r.length - 1)) (hv : v < 2 ^ desc.ias) :
    translate res.pgtDesc res.state.mem p v = expected p r.attributes r.virtualAddress
      r.physicalAddress r.virtualAddress (r.virtualAddress + r.length - 1) v := by
  have ⟨hd, hr, hb⟩ := create_built hs hl hfit hf hlow ha hc h0
  have hlen := hl r List.mem_cons_self
  have hin := hfit.input
  have hheld := fun hcov => hfit.held hs hlen hr (v := v) hcov (h := rootHeight p desc.ias)
  have hstart := hfit.start_eq hlen
  have htop := hfit.top_eq hs hlen
  have hlin := hfit.linear hs hlen hr
  have hfind := hs.root_walk hb ha hlin (hstart.symm ▸ htop.symm ▸ hst) (v := v) fun x hx hi =>
    -- The root describes the addresses below `2 ^ ias` only once.
    div_eq_of_mod_eq (by
      have := hx.lt
      rw [hs.rootBits_span, Nat.div_eq_of_lt hv, Nat.div_eq_of_lt (by omega)]) hi
  rw [hd, expected]
  rw [hstart, htop] at hfind hheld
  split
  case isTrue hcov => exact (hfind.covered hcov).mpr (hheld hcov)
  case isFalse hcov => exact hfind.missed hcov

theorem create_not_translates (hst : ¬Straight p (rootHeight p desc.ias) r.virtualAddress
    (r.virtualAddress + r.length - 1)) : ¬Translates res.pgtDesc res.state.mem p r := by
  have hlen := hl r List.mem_cons_self
  have hr := (create_built hs hl hfit hf hlow ha hc h0).right.left
  have hin := hfit.input
  intro ht
  have := create_straight hs hl hf ha hc h0 (hlow.mono (Nat.le_succ _) le_rfl) (by omega) (hfit.linear hs hlen hr) ht
  rw [hfit.start_eq hlen, hfit.top_eq hs hlen] at this
  exact hst this

end Create

-- With no failed allocation, the outcome of a call depends on the checks only.
section Status

variable {pf : Platform} {desc : PgtDescriptor} (hs : Setting pf p desc) (hz : ∀ k, pf.page k ≠ 0)
  (htg : desc.tcr.tgSizeLog2.toNat = p)

include hs hz htg

theorem createFrom_status (hr : ¬Rejects pf desc md) (hl : ∀ it ∈ iter, it.length ≠ 0)
    (hc : createFrom pf (createGlobals pf) fuel p base desc iter md s = some res) :
    res.status = 0 := by
  induction iter generalizing md s
  case nil =>
    cases hc
    rfl
  case cons it iter ih =>
    rw [Setting.createFrom_accepts hr (hl it List.mem_cons_self) htg] at hc
    split at hc
    case h_1 => contradiction
    case h_2 status s₁ hf =>
      rw [fillFrom_status hz hf, if_neg (by simp)] at hc
      refine ih (mt hs.rejects_truncateInput.mp hr) ?_ hc
      exact fun it h => hl it (List.mem_cons_of_mem _ h)

theorem create_status (hl : ∀ it ∈ r :: rest, it.length ≠ 0) (hr : ¬Rejects pf desc r)
    (hc : valPgtCreate pf fuel (r :: rest) desc s = some res) : res.status = 0 := by
  rw [hs.valPgtCreate_eq (hz _), List.headD_cons] at hc
  exact createFrom_status hs hz htg hr hl hc

end Status

theorem covers_iff (hp : 12 ≤ p) (hd : 2 ^ p ∣ va) (hl : 2 ^ p ∣ len) :
    Covers p va (va + len - 1) v ↔ va ≤ v ∧ v < va + len := by
  refine and_congr_right fun hle => ⟨fun hlt => ?_, fun hlt => ?_⟩
  case refine_1 =>
    -- The page of `v` starts below the end of the region, and this is the end of a page.
    by_contra hc
    have := le_page_start ((Nat.dvd_add_right hd).mpr hl) (Nat.not_lt.mp hc)
    omega
  case refine_2 =>
    obtain ⟨m, hm⟩ : 2 ^ p ∣ va + len := (Nat.dvd_add_right hd).mpr hl
    have h2 := two_le_page hp
    have hq : v / 2 ^ p < m := (Nat.div_lt_iff_lt_mul (Nat.two_pow_pos _)).mpr <| by
      rw [Nat.mul_comm, ←hm]
      exact hlt
    have := Nat.mul_le_mul_right (2 ^ p) (show v / 2 ^ p + 1 ≤ m from hq)
    rw [Nat.add_mul, Nat.mul_comm m, ←hm] at this
    omega

-- A single region. The table maps the region and nothing else exactly when the attributes are
-- attribute bits and the region does not run over a block boundary that it does not start on.
theorem create_maps_exactly_iff (pf : Platform) (p : Nat) (desc : PgtDescriptor)
    (r : MemoryRegionDescriptor) (s : State) (hs : Setting pf p desc) (hf : PageAllocator pf p)
    (hz : ∀ k, pf.page k ≠ 0) (htg : desc.tcr.tgSizeLog2.toNat = p) (hv : 2 ^ p ∣ r.virtualAddress)
    (hp : 2 ^ p ∣ r.physicalAddress) (hl : 2 ^ p ∣ r.length) (hlen : r.length ≠ 0)
    (hfit : Fits desc r) :
    (∃ fuel res, valPgtCreate pf fuel [r] desc s = some res) ∧
    ∀ fuel res, valPgtCreate pf fuel [r] desc s = some res → LowPages pf s.allocs res.state.allocs →
      (res.status = 0 ∧ MapsExactly res.pgtDesc res.state.mem p r ↔
        AttrBits r.attributes ∧ Straight p (rootHeight p desc.ias) r.virtualAddress
          (r.virtualAddress + r.length - 1)) := by
  have hls : ∀ it ∈ [r], it.length ≠ 0 := by simpa using hlen
  have hr : ¬Rejects pf desc r := by
    have := hfit.output
    rw [Rejects, not_or, Bool.not_eq_true, hs.misaligned_iff]
    refine ⟨⟨hv, hp⟩, ?_⟩
    simp only [outOfRange, Nat.one_shiftLeft, ge_iff_le, decide_eq_true_eq]
    omega
  constructor
  case left =>
    obtain ⟨fuel, res, hc, _⟩ := create_succeeds (s := s) hs hls hfit hz hr htg
    exact ⟨fuel, res, hc⟩
  case right =>
    intro fuel res hc hlow
    have h0 := create_status hs hz htg hls hr hc
    constructor
    case mp =>
      rintro ⟨_, hm⟩
      have ha : AttrBits r.attributes := walk_attrBits <| hm.left r.virtualAddress le_rfl (by omega)
      refine ⟨ha, ?_⟩
      by_contra hst
      exact create_not_translates hs hls hfit hf hlow ha hc h0 hst hm.left
    case mpr =>
      rintro ⟨ha, hst⟩
      have hw := fun v => create_translate (v := v) hs hls hfit hf hlow ha hc h0 hst
      have hin := hfit.input
      have hout := hfit.low
      have hd := (create_built hs hls hfit hf hlow ha hc h0).left
      simp only [expected, covers_iff hs.lo hv hl] at hw
      refine ⟨h0, ?_, ?_⟩
      case refine_1 =>
        intro v h₁ h₂
        rw [hw v (by omega), if_pos ⟨h₁, h₂⟩, outputOf, Nat.mod_eq_of_lt (by omega)]
      case refine_2 =>
        intro v h₁ h₂
        rw [hd] at h₁
        rw [hw v h₁, if_neg h₂]

-- A platform with pages of 4 KB that hands them out in order.
def linearPlatform : Platform where
  pageSize := 0x1000
  page k   := 0x1000 * (k + 1)

def emptyState : State where
  mem _  := 0
  allocs := 0
  freed  := []

-- A stage 1 table of the 4 KB granule.
def smallDesc (ias : Nat) : PgtDescriptor where
  pgtBase := 0
  ias     := ias
  oas     := 32
  mair    := 0xff
  stage   := 1
  tcr     := ⟨0, 0, 0, 0, 0, 0, 0, 12⟩

theorem linearPlatform_setting (h₁ : 12 < ias) (h₂ : ias < 64) :
    Setting linearPlatform 12 (smallDesc ias) :=
  ⟨rfl, le_rfl, by decide, h₁, h₂, show 32 < 64 by decide⟩

theorem linearPlatform_allocator : PageAllocator linearPlatform 12 where
  aligned k := ⟨k + 1, rfl⟩
  fresh     := by
    intro j k h _
    simp only [linearPlatform] at h
    omega

theorem linearPlatform_page_ne_zero : ∀ k, linearPlatform.page k ≠ 0 := by
  intro k
  simp [linearPlatform]

-- Two pages on both sides of a 2 MB boundary.
def straddling : MemoryRegionDescriptor where
  physicalAddress := 0x80000000
  virtualAddress  := 0x1ff000
  length          := 0x2000
  attributes      := 0x400

-- The second page is entered into the table of the first one, at the slot of address 0.
theorem create_straddling : Setting linearPlatform 12 (smallDesc 32) ∧
    PageAllocator linearPlatform 12 ∧ (∀ k, linearPlatform.page k ≠ 0) ∧
    Fits (smallDesc 32) straddling ∧ AttrBits straddling.attributes ∧
    ∃ res, valPgtCreate linearPlatform 20 [straddling] (smallDesc 32) emptyState = some res ∧
      res.status = 0 ∧ LowPages linearPlatform 0 res.state.allocs ∧
      translate res.pgtDesc res.state.mem 12 0 = .mapped 0x80001000 0x400 ∧
      translate res.pgtDesc res.state.mem 12 0x200000 = .invalid 0 ∧
      ¬MapsExactly res.pgtDesc res.state.mem 12 straddling := by
  refine ⟨linearPlatform_setting (by decide) (by decide), linearPlatform_allocator,
    linearPlatform_page_ne_zero, ⟨by decide, by decide, by decide⟩, by decide, _, rfl, rfl, ?_, rfl, rfl,
    ?_⟩
  case refine_1 =>
    intro k _ hk
    have hk : k < 3 := hk
    simp only [linearPlatform]
    omega
  case refine_2 =>
    intro hm
    have := hm.left 0x200000 (by decide) (by decide)
    exact absurd this (by decide)

-- A region of 2 MB and one page that starts on a 2 MB boundary is mapped.
theorem create_maps_exactly_block :
    (∃ fuel res, valPgtCreate linearPlatform fuel [⟨0x80000000, 0x200000, 0x201000, 0x400⟩]
      (smallDesc 32) emptyState = some res) ∧
    ∀ fuel res, valPgtCreate linearPlatform fuel [⟨0x80000000, 0x200000, 0x201000, 0x400⟩]
        (smallDesc 32) emptyState = some res → LowPages linearPlatform 0 res.state.allocs →
      (res.status = 0 ∧ MapsExactly res.pgtDesc res.state.mem 12
          ⟨0x80000000, 0x200000, 0x201000, 0x400⟩ ↔
        AttrBits 0x400 ∧ Straight 12 2 0x200000 0x400fff) :=
  create_maps_exactly_iff linearPlatform 12 (smallDesc 32) ⟨0x80000000, 0x200000, 0x201000, 0x400⟩
    emptyState (linearPlatform_setting (by decide) (by decide)) linearPlatform_allocator
    linearPlatform_page_ne_zero rfl (by decide) (by decide) (by decide) (by decide)
    ⟨by decide, by decide, by decide⟩

end Pgt
