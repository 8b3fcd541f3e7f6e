import BsaAcs.Pgt.Theorems.Built

namespace Pgt

-- The root table of `val_pgt_create`, and the passes that the function makes over it.

theorem log2PageSize_go (hf : p < fuel) : log2PageSize.go fuel (2 ^ p) bit = bit + p := by
  induction p generalizing fuel bit
  case zero =>
    obtain ⟨fuel, rfl⟩ : ∃ n, fuel = n + 1 := ⟨fuel - 1, by omega⟩
    simp [log2PageSize.go]
  case succ p ih =>
    obtain ⟨fuel, rfl⟩ : ∃ n, fuel = n + 1 := ⟨fuel - 1, by omega⟩
    have he : 2 ^ (p + 1) &&& 1 = 0 := by
      rw [Nat.and_one_is_mod, Nat.pow_succ]
      omega
    have hh : 2 ^ (p + 1) >>> 1 = 2 ^ p := by
      rw [Nat.shiftRight_one, Nat.pow_succ]
      omega
    simp only [log2PageSize.go, he, hh]
    rw [if_neg (Nat.two_pow_pos _).ne', if_neg (by simp), ih (by omega)]
    omega

theorem log2PageSize_two_pow (hp : p < 64) : log2PageSize (2 ^ p) = p := by
  rw [log2PageSize, log2PageSize_go hp, Nat.zero_add]

-- The pages of the table are at level 3.
theorem rootLevel_add (hh : h < 64) : (rootLevel (h + 1) + h) % 2 ^ 32 = 3 := by
  rw [rootLevel, sub32]
  omega

-- The platform and the page table descriptor that a table is made for.
structure Setting (pf : Platform) (p : Nat) (desc : PgtDescriptor) : Prop where
  pageSize : pf.pageSize = 2 ^ p
  lo       : 12 ≤ p
  hi       : p < 32
  input    : p < desc.ias
  input_lt : desc.ias < 64
  output   : desc.oas < 64

namespace Setting

variable {pf : Platform} {p : Nat} {desc : PgtDescriptor} (hs : Setting pf p desc)

include hs

theorem log2PageSize_eq : log2PageSize pf.pageSize = p := by
  rw [hs.pageSize, log2PageSize_two_pow (by have := hs.hi; omega)]

theorem createGranule : CreateGranule (createGlobals pf) p where
  pageSize := hs.pageSize
  bits     := by
    have := hs.lo
    have := hs.hi
    simp only [createGlobals, hs.log2PageSize_eq]
    exact sub32_eq (by omega) (by omega)
  lo       := hs.lo
  hi       := hs.hi
  mask     := by
    intro w
    have := hs.hi
    simp only [createGlobals, hs.log2PageSize_eq, Nat.one_shiftLeft, Bits.slice]
    rw [show 48 - p = 47 - p + 1 by omega]

-- The number of levels is one more than the height of the root.
theorem levels : rootHeight p desc.ias + 1 = (desc.ias - p + (p - 3) - 1) / (p - 3) := by
  have := hs.lo
  have := hs.input
  have : 1 ≤ (desc.ias - p + (p - 3) - 1) / (p - 3) := (Nat.one_le_div_iff (by omega)).mpr (by omega)
  rw [rootHeight]
  omega

theorem levels_eq : numPgtLevels desc.ias p (p - 3) = rootHeight p desc.ias + 1 := by
  have := hs.lo
  have := hs.input
  have := hs.input_lt
  rw [hs.levels, numPgtLevels, sub32_eq (a := desc.ias) (b := p) (by omega) (by omega),
    sub32_eq (by omega) (by omega)]

theorem height_bounds : rootHeight p desc.ias * (p - 3) + p < desc.ias ∧
    desc.ias ≤ rootHeight p desc.ias * (p - 3) + p + (p - 3) := by
  have := hs.lo
  have := hs.input
  have hl := hs.levels
  have hm := Nat.div_add_mod (desc.ias - p + (p - 3) - 1) (p - 3)
  have hlt := Nat.mod_lt (desc.ias - p + (p - 3) - 1) (show 0 < p - 3 by omega)
  rw [←hl, Nat.mul_add, Nat.mul_comm] at hm
  omega

theorem rootHeight_lt : rootHeight p desc.ias < 64 := by
  have := hs.height_bounds
  have := hs.input_lt
  have := hs.lo
  have := Nat.mul_le_mul_left (rootHeight p desc.ias) (show 1 ≤ p - 3 by omega)
  omega

theorem rootSizeLog2_eq :
    rootSizeLog2 (rootHeight p desc.ias + 1) p (p - 3) = p + rootHeight p desc.ias * (p - 3) := by
  have := hs.height_bounds
  have := hs.input_lt
  have hh := hs.rootHeight_lt
  rw [rootSizeLog2, sub32_eq (by omega) (by omega), Nat.add_sub_cancel, Nat.mod_eq_of_lt (by omega),
    Nat.add_comm]

theorem rootBits_eq : sub32 desc.ias (p + rootHeight p desc.ias * (p - 3)) = rootBits p desc.ias := by
  have := hs.height_bounds
  have := hs.input_lt
  rw [rootBits, sub32_eq (by omega) (by omega)]

theorem rootBits_le : rootBits p desc.ias ≤ p - 3 := by
  have := hs.height_bounds
  rw [rootBits]
  omega

-- The root table covers the input addresses.
theorem rootBits_span : 2 ^ rootBits p desc.ias * blockBytes p (rootHeight p desc.ias) = 2 ^ desc.ias := by
  have := hs.height_bounds
  rw [rootBits, blockBytes, ←Nat.pow_add]
  congr 1
  omega

-- The top of the region as `val_pgt_create` computes it.
theorem rootTt_at : (rootTtDescriptor (createGlobals pf) p base desc md).At p (rootHeight p desc.ias)
    (rootBits p desc.ias) base ((md.virtualAddress % 2 ^ desc.ias + md.length + 2 ^ 64 - 1) % 2 ^ 64) := by
  have hb := hs.height_bounds
  have := hs.input_lt
  have := hs.lo
  have hh := hs.rootHeight_lt
  have hbits := hs.createGranule.bits
  constructor
  case base_eq => rfl
  case top_eq =>
    simp only [rootTtDescriptor, Nat.one_shiftLeft, Nat.and_two_pow_sub_one_eq_mod]
  case sizeLog2 => simp only [rootTtDescriptor, hbits, hs.levels_eq, hs.rootSizeLog2_eq]
  case size_lt => omega
  case nbits_eq =>
    simp only [rootTtDescriptor, hbits, hs.levels_eq, hs.rootSizeLog2_eq]
    exact hs.rootBits_eq
  case nbits_le => exact hs.rootBits_le
  case level =>
    simp only [rootTtDescriptor, hbits, hs.levels_eq, rootLevel, sub32]
    omega
  case level_lt =>
    simp only [rootTtDescriptor, rootLevel, sub32]
    omega

end Setting

section

variable {pf : Platform} {g : Globals} {md : MemoryRegionDescriptor}

-- If no allocation fails, a fill that ends returns 0.
theorem fillFrom_status (hz : ∀ k, pf.page k ≠ 0)
    (hf : fillFrom pf g md fuel tt ia oa s = some (status, s')) : status = 0 := by
  induction fuel generalizing tt ia oa s s' status
  case zero => simp [fillFrom] at hf
  case succ fuel ih =>
    simp only [fillFrom] at hf
    split at hf
    case isFalse =>
      cases hf
      rfl
    case isTrue =>
      split at hf
      case isTrue => exact ih hf
      case isFalse =>
        split at hf
        case isTrue => exact ih hf
        case isFalse =>
          obtain ⟨q, s₁, hn⟩ := nextTable_some hz (s := s) (w := s.mem (tt.tableDesc ia)) (g := g)
          simp only [hn] at hf
          split at hf
          case h_1 => contradiction
          case h_2 status' s₂ hf' =>
            have := ih hf'
            simp only [this, ne_eq, not_true, if_false] at hf
            exact ih hf

-- A loop that would have to leave the 64-bit range does not end: its input address stays below the
-- top for ever.
theorem run_of_success (hf : fillFrom pf g md fuel tt ia oa s = some (0, s'))
    (ht : tt.At p h nbits base top) (hia : ia < 2 ^ 64) : Run p h ia ia top := by
  refine ⟨le_rfl, ?_⟩
  by_contra hb
  obtain ⟨m, hm⟩ : blockBytes p h ∣ 2 ^ 64 := Nat.pow_dvd_pow 2 ht.size_lt.le
  have stays : ∀ x, x < 2 ^ 64 → x % blockBytes p h = ia % blockBytes p h → x < top := by
    intro x hx he
    have hd := Nat.div_add_mod x (blockBytes p h)
    rw [hm] at hx hb
    have hq : blockBytes p h * (x / blockBytes p h) < blockBytes p h * m := by omega
    have := Nat.mul_le_mul_left (blockBytes p h) (show _ + 1 ≤ m from Nat.lt_of_mul_lt_mul_left hq)
    rw [Nat.mul_add] at this
    omega
  have never : ∀ fuel x oa s, x < 2 ^ 64 → x % blockBytes p h = ia % blockBytes p h →
      fillFrom pf g md fuel tt x oa s ≠ some (0, s') := by
    intro fuel
    induction fuel
    case zero => simp [fillFrom]
    case succ fuel ih =>
      intro x oa s hx he hf
      rcases fillFrom_success_iff.mp hf with ⟨hge, _⟩ | ⟨_, s₁, _, hr⟩
      case inl => exact hge <| ht.top_eq ▸ stays x hx he
      case inr =>
        refine ih _ _ _ (Nat.mod_lt _ (by decide)) ?_ hr
        rw [ht.blockSize_eq, Nat.mod_mod_of_dvd _ ⟨m, hm⟩, Nat.add_mod_right, he]
  exact never fuel ia oa s hia rfl hf

end

-- Successful passes over the table, one for each descriptor of the list.
inductive Passes (pf : Platform) (g : Globals) (fuel : Nat) (tt : TtDescriptor)
    (md : MemoryRegionDescriptor) : Nat → State → State → Prop
  | done : Passes pf g fuel tt md 0 s s
  | pass (hf : fillTranslationTable pf g fuel tt md s = some (0, s₁))
    (hp : Passes pf g fuel tt md n s₁ s') : Passes pf g fuel tt md (n + 1) s s'

-- The checks of `val_pgt_create` on a descriptor.
def Rejects (pf : Platform) (desc : PgtDescriptor) (md : MemoryRegionDescriptor) : Prop :=
  misaligned pf.pageSize md = true ∨ outOfRange desc.oas md = true

instance : Decidable (Rejects pf desc md) :=
  inferInstanceAs (Decidable (_ ∨ _))

namespace Setting

variable {pf : Platform} {p : Nat} {desc : PgtDescriptor} (hs : Setting pf p desc)

theorem truncateInput_eq :
    truncateInput ias md = { md with virtualAddress := md.virtualAddress % 2 ^ ias } := by
  simp only [truncateInput, Nat.one_shiftLeft, Nat.and_two_pow_sub_one_eq_mod]
  split
  case isTrue => rfl
  case isFalse h => rw [Nat.mod_eq_of_lt (Nat.not_le.mp h)]

theorem truncateInput_idem : truncateInput ias (truncateInput ias md) = truncateInput ias md := by
  simp [truncateInput_eq]

include hs

theorem misaligned_iff : misaligned pf.pageSize md = false ↔
    2 ^ p ∣ md.virtualAddress ∧ 2 ^ p ∣ md.physicalAddress := by
  simp [misaligned, hs.pageSize, Nat.and_two_pow_sub_one_eq_mod, Nat.dvd_iff_mod_eq_zero]

theorem rejects_truncateInput : Rejects pf desc (truncateInput desc.ias md) ↔ Rejects pf desc md := by
  have hv : 2 ^ p ∣ md.virtualAddress % 2 ^ desc.ias ↔ 2 ^ p ∣ md.virtualAddress :=
    Nat.dvd_mod_iff <| Nat.pow_dvd_pow 2 hs.input.le
  have hm : misaligned pf.pageSize (truncateInput desc.ias md) = misaligned pf.pageSize md := by
    apply Bool.eq_iff_iff.mpr
    apply not_iff_not.mp
    simp only [Bool.not_eq_true, hs.misaligned_iff, truncateInput_eq, hv]
  have ho : outOfRange desc.oas (truncateInput desc.ias md) = outOfRange desc.oas md := by
    simp only [truncateInput_eq, outOfRange]
  rw [Rejects, Rejects, hm, ho]

omit hs in
theorem createFrom_rejects (hr : Rejects pf desc md) (hl : it.length ≠ 0) :
    createFrom pf (createGlobals pf) fuel p base desc (it :: iter) md s =
    some ⟨acsStatusErr, md, desc, s⟩ := by
  rw [createFrom, if_neg hl]
  cases hr
  case inl h => rw [if_pos (show misaligned (createGlobals pf).pageSize md = true from h)]
  case inr h => rw [if_pos h, ite_self]

-- So does a granule that is not the page size.
omit hs in
theorem createFrom_granule (hr : ¬Rejects pf desc md) (hl : it.length ≠ 0) (htg : desc.tcr.tgSizeLog2.toNat ≠ p) :
    createFrom pf (createGlobals pf) fuel p base desc (it :: iter) md s =
    some ⟨acsStatusErr, truncateInput desc.ias md, desc, s⟩ := by
  simp only [Rejects, not_or] at hr
  rw [createFrom, if_neg hl, if_neg (show ¬misaligned (createGlobals pf).pageSize md = true from hr.left),
    if_neg hr.right]
  exact if_pos htg

-- A turn of the loop on an accepted descriptor is a pass over the table.
omit hs in
theorem createFrom_accepts (hr : ¬Rejects pf desc md) (hl : it.length ≠ 0)
    (htg : desc.tcr.tgSizeLog2.toNat = p) :
    createFrom pf (createGlobals pf) fuel p base desc (it :: iter) md s =
    match fillTranslationTable pf (createGlobals pf) fuel (rootTtDescriptor (createGlobals pf) p base
      desc (truncateInput desc.ias md)) (truncateInput desc.ias md) s with
    | none => none
    | some (status, s) =>
      if status ≠ 0 then some ⟨acsStatusErr, truncateInput desc.ias md, desc, s.valMemoryFreePages base⟩
      else createFrom pf (createGlobals pf) fuel p base desc iter (truncateInput desc.ias md) s := by
  simp only [Rejects, not_or] at hr
  rw [createFrom, if_neg hl, if_neg (show ¬misaligned (createGlobals pf).pageSize md = true from hr.left),
    if_neg hr.right]
  exact if_neg (not_not.mpr htg)

omit hs in
theorem createFrom_success_iff (hm : truncateInput desc.ias md = md) (hr : ¬Rejects pf desc md)
    (htg : desc.tcr.tgSizeLog2.toNat = p) (hl : ∀ it ∈ iter, it.length ≠ 0) :
    (createFrom pf (createGlobals pf) fuel p base desc iter md s = some res ∧ res.status = 0) ↔
    ∃ s', Passes pf (createGlobals pf) fuel (rootTtDescriptor (createGlobals pf) p base desc md) md
      iter.length s s' ∧ res = ⟨0, md, { desc with pgtBase := base }, s'⟩ := by
  induction iter generalizing s
  case nil =>
    constructor
    case mp =>
      rintro ⟨h, _⟩
      simp only [createFrom, Option.some.injEq] at h
      exact ⟨s, .done, h.symm⟩
    case mpr =>
      rintro ⟨s', hp, rfl⟩
      cases hp
      exact ⟨rfl, rfl⟩
  case cons it iter ih =>
    have ih := fun s => ih (s := s) fun it h => hl it (List.mem_cons_of_mem _ h)
    rw [createFrom_accepts hr (hl it List.mem_cons_self) htg, hm]
    constructor
    case mp =>
      rintro ⟨h, h0⟩
      split at h
      case h_1 => contradiction
      case h_2 status s₁ hf =>
        split at h
        case isTrue =>
          cases h
          exact absurd h0 acsStatusErr_ne_zero
        case isFalse hst =>
          simp only [ne_eq, not_not] at hst
          obtain ⟨s', hp, hres⟩ := (ih s₁).mp ⟨h, h0⟩
          exact ⟨s', .pass (hst ▸ hf) hp, hres⟩
    case mpr =>
      rintro ⟨s', hp, hres⟩
      cases hp
      case pass s₁ hf hp =>
        simp only [hf, ne_eq, not_true, if_false]
        exact (ih s₁).mpr ⟨s', hp, hres⟩

-- The state in which the first pass starts: the root is a zeroed page.
def rootState (pf : Platform) (s : State) : State :=
  { s with mem := s.mem.set (pf.page s.allocs) pf.pageSize 0, allocs := s.allocs + 1 }

theorem valPgtCreate_eq (hz : pf.page s.allocs ≠ 0) : valPgtCreate pf fuel rs desc s =
    createFrom pf (createGlobals pf) fuel p (pf.page s.allocs) desc rs (rs.headD terminator)
      (rootState pf s) := by
  simp only [valPgtCreate, State.valMemoryAllocPages, hz, if_false, hs.log2PageSize_eq]
  rfl

-- What a successful call does: it accepts the first descriptor and makes one pass over its region
-- for each descriptor of the list.
theorem valPgtCreate_success_iff (hl : ∀ it ∈ r :: rest, it.length ≠ 0) :
    (valPgtCreate pf fuel (r :: rest) desc s = some res ∧ res.status = 0) ↔
    pf.page s.allocs ≠ 0 ∧ ¬Rejects pf desc r ∧ desc.tcr.tgSizeLog2.toNat = p ∧
    ∃ s', Passes pf (createGlobals pf) fuel (rootTtDescriptor (createGlobals pf) p
        (pf.page s.allocs) desc (truncateInput desc.ias r)) (truncateInput desc.ias r)
        (rest.length + 1) (rootState pf s) s' ∧
      res = ⟨0, truncateInput desc.ias r, { desc with pgtBase := pf.page s.allocs }, s'⟩ := by
  by_cases hz : pf.page s.allocs = 0
  case pos =>
    simp only [valPgtCreate, State.valMemoryAllocPages, hz, if_true, ne_eq, not_true, false_and,
      iff_false, not_and]
    rintro h
    cases h
    exact acsStatusErr_ne_zero
  case neg =>
    rw [hs.valPgtCreate_eq hz]
    by_cases hr : Rejects pf desc r
    case pos =>
      rw [List.headD_cons, createFrom_rejects hr (hl r List.mem_cons_self)]
      simp only [hr, not_true, false_and, and_false, iff_false, not_and]
      intro h
      cases h
      exact acsStatusErr_ne_zero
    case neg =>
      by_cases htg : desc.tcr.tgSizeLog2.toNat = p
      case neg =>
        rw [List.headD_cons, createFrom_granule hr (hl r List.mem_cons_self) htg]
        simp only [htg, false_and, and_false, iff_false, not_and]
        intro h
        cases h
        exact acsStatusErr_ne_zero
      case pos =>
        have hr' := mt hs.rejects_truncateInput.mp hr
        rw [List.headD_cons, createFrom_accepts hr (hl r List.mem_cons_self) htg,
          ←truncateInput_idem, ←createFrom_accepts hr' (hl r List.mem_cons_self) htg,
          createFrom_success_iff truncateInput_idem hr' htg hl]
        simp [hz, hr, htg, truncateInput_idem]

end Setting

end Pgt
