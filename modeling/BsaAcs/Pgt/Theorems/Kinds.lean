import BsaAcs.Pgt.Theorems.Failure
import BsaAcs.Pgt.Writes

-- At which levels the pages, blocks and tables are that `fill_translation_table` writes.

namespace Pgt

-- A write that one turn of the loop makes, or leads to.
inductive Turn (pf : Platform) (g : Globals) (md : MemoryRegionDescriptor) (fuel : Nat) (tt : TtDescriptor)
    (ia oa : Nat) (w : Written) : Prop
  | page (hl : tt.level = 3) (hk : w.kind = .page) (hw : w.level = tt.level)
  | block (hl : tt.level ≠ 3) (he : tt.blockEligible ia oa = true) (hk : w.kind = .block) (hw : w.level = tt.level)
  | table (hl : tt.level ≠ 3) (hk : w.kind = .table) (hw : w.level = tt.level)
  | nested (hl : tt.level ≠ 3) (hw : w ∈ (fillWrites pf g md fuel (tt.nextLevel g q ia oa) ia oa s).1)
  | later (hw : w ∈ (fillWrites pf g md fuel tt (nextAddress tt ia) (nextAddress tt oa) s).1)

section

variable {pf : Platform} {g : Globals} {md : MemoryRegionDescriptor} {fuel : Nat} {tt : TtDescriptor}
variable {ia oa : Nat} {s : State} {w : Written}

theorem fillWrites_cases (h : w ∈ (fillWrites pf g md (fuel + 1) tt ia oa s).1) :
    ia < tt.inputTop ∧ Turn pf g md fuel tt ia oa w := by
  simp only [fillWrites] at h
  split at h
  case isFalse => cases h
  case isTrue hlt =>
    refine ⟨hlt, ?_⟩
    split at h
    case isTrue hl =>
      cases h
      case head         => exact .page hl rfl rfl
      case tail hlate   => exact .later hlate
    case isFalse hl =>
      split at h
      case isTrue he =>
        cases h
        case head         => exact .block hl he rfl rfl
        case tail hlate   => exact .later hlate
      case isFalse he =>
        split at h
        case h_1 => cases h
        case h_2 q s₁ _ =>
          have hn : w ∈ (fillWrites pf g md fuel (tt.nextLevel g q ia oa) ia oa s₁).1 → Turn pf g md fuel tt ia oa w :=
            .nested hl
          split at h
          case h_1 hf => exact hn (hf ▸ h)
          case h_2 hf =>
            split at h
            case isTrue => exact hn (hf ▸ h)
            case isFalse =>
              rcases List.mem_append.mp h with h | h
              case inl => exact hn (hf ▸ h)
              case inr =>
                cases h
                case head         => exact .table hl rfl rfl
                case tail hlate   => exact .later hlate

theorem block_mem_fillWrites (hlt : ia < tt.inputTop) (hl : tt.level ≠ 3) (he : tt.blockEligible ia oa = true) :
    ⟨.block, tt.level, tt.tableDesc ia, blockDescriptor tt oa md.attributes⟩ ∈
      (fillWrites pf g md (fuel + 1) tt ia oa s).1 := by
  simp only [fillWrites, if_pos hlt, if_neg hl, if_pos he]
  exact List.mem_cons_self ..

theorem nested_mem_fillWrites {q : Nat} {s₁ : State} (hlt : ia < tt.inputTop) (hl : tt.level ≠ 3)
    (he : tt.blockEligible ia oa = false) (hn : s.nextTable pf g (s.mem (tt.tableDesc ia)) = (some q, s₁))
    (hw : w ∈ (fillWrites pf g md fuel (tt.nextLevel g q ia oa) ia oa s₁).1) :
    w ∈ (fillWrites pf g md (fuel + 1) tt ia oa s).1 := by
  have hf : ¬tt.blockEligible ia oa = true := by simp [he]
  simp only [fillWrites, if_pos hlt, if_neg hl, if_neg hf, hn]
  split
  case h_1 hc => exact hc ▸ hw
  case h_2 hc =>
    have hw := hc ▸ hw
    split
    case isTrue  => exact hw
    case isFalse => exact List.mem_append_left _ hw

end

-- Blocks are allowed below this height, which depends on the granule.
def blockLimit (p : Nat) : Nat :=
  if p = 12 then 3 else 2

-- What the architecture allows at a level.
def Written.Legal (p : Nat) (w : Written) : Prop :=
  match w.kind with
  | .page  => w.level = 3
  | .block => w.level < 3 ∧ blockAllowed p (3 - w.level) = true
  | .table => w.level < 3

-- No block that is too large starts here, or at an address that the loop comes to later.
def Small (p h ia oa top : Nat) : Prop :=
  blockLimit p ≤ h → blockBytes p (blockLimit p) ∣ ia → blockBytes p (blockLimit p) ∣ oa →
    top + 1 < ia + blockBytes p (blockLimit p) ∧ top < 2 ^ 63

theorem blockLimit_pos (p : Nat) : 2 ≤ blockLimit p := by
  rw [blockLimit]
  split <;> decide

theorem blockAllowed_iff (hh : h ≠ 0) : blockAllowed p h = true ↔ h < blockLimit p := by
  simp only [blockAllowed, blockLimit, Bool.or_eq_true, Bool.and_eq_true, beq_iff_eq]
  split <;> omega

namespace TtDescriptor.At

variable {tt : TtDescriptor} {p h nbits base top ia oa : Nat} (ht : tt.At p h nbits base top)

include ht

theorem level_eq (hh : h ≤ 3) : tt.level = 3 - h := by
  have := ht.level
  have := ht.level_lt
  omega

theorem small_next (hs : Small p h ia oa top) (hlt : ia < top) :
    Small p h (nextAddress tt ia) (nextAddress tt oa) top := by
  intro hl hia hoa
  have hsize := ht.size_lt
  have hb : blockBytes p h ≤ 2 ^ 63 := Nat.pow_le_pow_right two_pos (by omega)
  have hd : blockBytes p (blockLimit p) ∣ blockBytes p h := blockBytes_dvd hl
  have hw : blockBytes p (blockLimit p) ∣ 2 ^ 64 := hd.trans (Nat.pow_dvd_pow 2 hsize.le)
  rw [ht.nextAddress_eq, nextStop] at hia hoa ⊢
  rw [Nat.dvd_mod_iff hw, Nat.dvd_add_left hd] at hia hoa
  obtain ⟨h₁, h₂⟩ := hs hl hia hoa
  rw [Nat.mod_eq_of_lt (by omega)]
  omega

omit ht in
theorem small_nested (hs : Small p (h + 1) ia oa top) : Small p h ia oa (min top n) := by
  intro hl hia hoa
  have ⟨h₁, h₂⟩ := hs (by omega) hia hoa
  omega

theorem block_height (hlo : 12 ≤ p) (hs : Small p h ia oa top) (hlt : ia < top) (hl : tt.level ≠ 3)
    (he : tt.blockEligible ia oa = true) : h ≠ 0 ∧ h < blockLimit p := by
  refine ⟨mt (ht.level_eq_three_iff hlo).mpr hl, ?_⟩
  by_contra hc
  have hle : blockLimit p ≤ h := by omega
  have hd : blockBytes p (blockLimit p) ∣ blockBytes p h := blockBytes_dvd hle
  have ⟨hia, hoa, htop⟩ := ht.writesBlock_iff.mp he
  have ⟨h₁, h₂⟩ := hs hle (hd.trans hia) (hd.trans hoa)
  have hsize := ht.size_lt
  have hb : blockBytes p h ≤ 2 ^ 63 := Nat.pow_le_pow_right two_pos (by omega)
  have := Nat.le_of_dvd blockBytes_pos hd
  rw [Nat.mod_eq_of_lt (by omega)] at htop
  omega

end TtDescriptor.At

section

variable {pf : Platform} {g : Globals} {md : MemoryRegionDescriptor} {fuel p h nbits base top ia oa : Nat}
variable {tt : TtDescriptor} {s : State} {w : Written} (hg : Granule g p)

include hg

theorem turn_legal (ht : tt.At p h nbits base top) (hh : h ≤ 3) (hs : Small p h ia oa top) (hlt : ia < top)
    (ih : ∀ {tt h nbits base top ia oa s}, tt.At p h nbits base top → h ≤ 3 → Small p h ia oa top →
      w ∈ (fillWrites pf g md fuel tt ia oa s).1 → w.Legal p)
    (hturn : Turn pf g md fuel tt ia oa w) : w.Legal p := by
  have hlevel := ht.level_eq hh
  cases hturn
  case page hl hk hw => simp only [Written.Legal, hk, hw, hl]
  case block hl he hk hw =>
    have ⟨h₀, hlim⟩ := ht.block_height hg.lo hs hlt hl he
    have h3 : 3 - w.level = h := by omega
    simp only [Written.Legal, hk]
    refine ⟨by omega, ?_⟩
    rw [h3, blockAllowed_iff h₀]
    exact hlim
  case table hl hk hw =>
    simp only [Written.Legal, hk]
    omega
  case nested hl hw =>
    obtain ⟨n, rfl⟩ := ht.exists_height hg.lo hl
    exact ih (ht.nextLevel hg) (by omega) (TtDescriptor.At.small_nested hs) hw
  case later hw => exact ih ht hh (ht.small_next hs hlt) hw

theorem fillWrites_legal (ht : tt.At p h nbits base top) (hh : h ≤ 3) (hs : Small p h ia oa top)
    (hw : w ∈ (fillWrites pf g md fuel tt ia oa s).1) : w.Legal p := by
  induction fuel generalizing tt h nbits base top ia oa s
  case zero => cases hw
  case succ fuel ih =>
    have ⟨hlt, hturn⟩ := fillWrites_cases hw
    exact turn_legal hg ht hh hs (ht.top_eq ▸ hlt) ih hturn

omit hg in
-- A block of this height is too large, and it is written if it starts at the first address.
theorem block_not_legal (ht : tt.At p h nbits base top) (hh : h ≤ 3) (hl : blockLimit p ≤ h) (hlt : ia < top)
    (he : tt.blockEligible ia oa = true) : ∃ w ∈ (fillWrites pf g md (fuel + 1) tt ia oa s).1, ¬w.Legal p := by
  have hlevel := ht.level_eq hh
  have hlim := blockLimit_pos p
  have hl₃ : tt.level ≠ 3 := by omega
  refine ⟨_, block_mem_fillWrites (ht.top_eq ▸ hlt) hl₃ he, ?_⟩
  intro ⟨_, ha⟩
  have h3 : 3 - tt.level = h := by omega
  have := (blockAllowed_iff (by omega)).mp (h3 ▸ ha)
  omega

omit hg in
theorem limit_eligible (ht : tt.At p (blockLimit p) nbits base top) (hia : blockBytes p (blockLimit p) ∣ ia)
    (hoa : blockBytes p (blockLimit p) ∣ oa) (htop : ia + blockBytes p (blockLimit p) ≤ top + 1) (hlt : ia < 2 ^ 63) :
    tt.blockEligible ia oa = true := by
  have hsize := ht.size_lt
  have hb : blockBytes p (blockLimit p) ≤ 2 ^ 63 := Nat.pow_le_pow_right two_pos (by omega)
  have hpos : 0 < blockBytes p (blockLimit p) := blockBytes_pos
  refine ht.writesBlock_iff.mpr ⟨hia, hoa, ?_⟩
  rw [Nat.mod_eq_of_lt (by omega)]
  omega

-- If a block that is too large starts at the first address, then one is written there.
theorem fillWrites_large (hz : ∀ k, pf.page k ≠ 0) (ht : tt.At p h nbits base top) (hh : h ≤ 3)
    (hl : blockLimit p ≤ h) (hia : blockBytes p (blockLimit p) ∣ ia) (hoa : blockBytes p (blockLimit p) ∣ oa)
    (htop : ia + blockBytes p (blockLimit p) ≤ top + 1) (hlt : ia < 2 ^ 63) (hf : h ≤ fuel + blockLimit p) :
    ∃ w ∈ (fillWrites pf g md (fuel + 1) tt ia oa s).1, ¬w.Legal p := by
  have hpos : 1 < blockBytes p (blockLimit p) := Nat.one_lt_two_pow (by have := hg.lo; omega)
  induction fuel generalizing tt h nbits base top s
  case zero =>
    obtain rfl : h = blockLimit p := by omega
    exact block_not_legal ht hh hl (by omega) (limit_eligible ht hia hoa htop hlt)
  case succ fuel ih =>
    cases he : tt.blockEligible ia oa
    case true  => exact block_not_legal ht hh hl (by omega) he
    case false =>
      have hne : h ≠ blockLimit p := by
        rintro rfl
        simp [limit_eligible ht hia hoa htop hlt] at he
      have hl₃ : tt.level ≠ 3 := by
        have := ht.level_eq hh
        have := blockLimit_pos p
        omega
      obtain ⟨n, rfl⟩ := ht.exists_height hg.lo hl₃
      obtain ⟨q, s₁, hn⟩ := nextTable_some hz (s := s) (w := s.mem (tt.tableDesc ia)) (g := g)
      have hsize := ht.size_lt
      have hb : blockBytes p (n + 1) ≤ 2 ^ 63 := Nat.pow_le_pow_right two_pos (by omega)
      have hle := Nat.le_of_dvd blockBytes_pos (blockBytes_dvd (p := p) hl)
      have htop' : ia + blockBytes p (blockLimit p) ≤ min top ((ia + blockBytes p (n + 1) - 1) % 2 ^ 64) + 1 := by
        rw [Nat.mod_eq_of_lt (by omega)]
        omega
      obtain ⟨w, hw, hill⟩ : ∃ w ∈ (fillWrites pf g md (fuel + 1) (tt.nextLevel g q ia oa) ia oa s₁).1, ¬w.Legal p :=
        ih (ht.nextLevel hg) (by omega) (by omega) htop' (by omega)
      exact ⟨w, nested_mem_fillWrites (ht.top_eq ▸ (by omega)) hl₃ he hn hw, hill⟩

end

-- The passes of `val_pgt_create` over the table.

-- The last input address of a region, as `val_pgt_create` computes it.
def lastInput (ias : Nat) (md : MemoryRegionDescriptor) : Nat :=
  (md.virtualAddress % 2 ^ ias + md.length + 2 ^ 64 - 1) % 2 ^ 64

-- The region starts with a block that is too large, if the table goes up to such blocks.
def StartsLarge (p ias : Nat) (md : MemoryRegionDescriptor) : Prop :=
  blockLimit p ≤ rootHeight p ias ∧ blockBytes p (blockLimit p) ∣ md.virtualAddress % 2 ^ ias ∧
    blockBytes p (blockLimit p) ∣ md.physicalAddress ∧
    md.virtualAddress % 2 ^ ias + blockBytes p (blockLimit p) ≤ lastInput ias md + 1

-- The descriptor passes the checks, so that its region is filled in.
def Passed (p : Nat) (desc : PgtDescriptor) (md : MemoryRegionDescriptor) : Prop :=
  misaligned (2 ^ p) md = false ∧ outOfRange desc.oas md = false ∧ desc.tcr.tgSizeLog2.toNat = p

section

variable {pf : Platform} {p base fuel : Nat} {desc : PgtDescriptor} {md r : MemoryRegionDescriptor}
variable {iter : List MemoryRegionDescriptor} {s : State} {w : Written}
-- The output size does not matter for the shape of the table.
variable (hs : Setting pf p { desc with oas := 0 })

include hs

theorem rootTt_at_any : (rootTtDescriptor (createGlobals pf) p base desc md).At p (rootHeight p desc.ias)
    (rootBits p desc.ias) base (lastInput desc.ias md) := by
  have h : (rootTtDescriptor (createGlobals pf) p base { desc with oas := 0 } md).At _ _ _ _ _ := hs.rootTt_at
  exact ⟨h.base_eq, h.top_eq, h.sizeLog2, h.size_lt, h.nbits_eq, h.nbits_le, h.level, h.level_lt⟩

theorem small_of_not_startsLarge (hi : desc.ias ≤ 52) (hn : ¬StartsLarge p desc.ias md) :
    Small p (rootHeight p desc.ias) (md.virtualAddress % 2 ^ desc.ias) md.physicalAddress (lastInput desc.ias md) := by
  intro hl hia hoa
  have hlt : md.virtualAddress % 2 ^ desc.ias < 2 ^ desc.ias := Nat.mod_lt _ (Nat.two_pow_pos _)
  have hb : blockBytes p (blockLimit p) ≤ 2 ^ desc.ias := by
    have := Nat.mul_le_mul_right (p - 3) hl
    have := hs.height_bounds
    exact Nat.pow_le_pow_right two_pos (by simp only at this; omega)
  have h52 : 2 ^ desc.ias ≤ 2 ^ 52 := Nat.pow_le_pow_right two_pos hi
  have htop : ¬md.virtualAddress % 2 ^ desc.ias + blockBytes p (blockLimit p) ≤ lastInput desc.ias md + 1 :=
    fun h => hn ⟨hl, hia, hoa, h⟩
  omega

omit hs in
theorem output_eq (ho : outOfRange desc.oas md = false) :
    md.physicalAddress &&& ((0x1 <<< desc.oas) - 1) = md.physicalAddress := by
  rw [outOfRange, decide_eq_false_iff_not, Nat.one_shiftLeft] at ho
  rw [Nat.one_shiftLeft, Nat.and_two_pow_sub_one_eq_mod, Nat.mod_eq_of_lt (by omega)]

theorem passed_truncateInput : Passed p desc (truncateInput desc.ias md) ↔ Passed p desc md := by
  have hd : 2 ^ p ∣ 2 ^ desc.ias := Nat.pow_dvd_pow 2 hs.input.le
  have hv : 2 ^ p ∣ md.virtualAddress % 2 ^ desc.ias ↔ 2 ^ p ∣ md.virtualAddress := Nat.dvd_mod_iff hd
  have hm : misaligned (2 ^ p) (truncateInput desc.ias md) = false ↔ misaligned (2 ^ p) md = false := by
    rw [← hs.pageSize, hs.misaligned_iff, hs.misaligned_iff, Setting.truncateInput_eq, hv]
  rw [Passed, Passed, hm, Setting.truncateInput_eq]
  exact Iff.rfl

omit hs in
theorem startsLarge_truncateInput : StartsLarge p ias (truncateInput ias md) ↔ StartsLarge p ias md := by
  simp only [StartsLarge, lastInput, Setting.truncateInput_eq, Nat.mod_mod]

theorem fill_legal (hi : desc.ias ≤ 52) (hh : rootHeight p desc.ias ≤ 3) (hp : Passed p desc md)
    (hn : ¬StartsLarge p desc.ias md)
    (hw : w ∈ (fillWrites pf (createGlobals pf) md fuel (rootTtDescriptor (createGlobals pf) p base desc md)
      (rootTtDescriptor (createGlobals pf) p base desc md).inputBase
      (rootTtDescriptor (createGlobals pf) p base desc md).outputBase s).1) : w.Legal p := by
  have hia : (rootTtDescriptor (createGlobals pf) p base desc md).inputBase = md.virtualAddress % 2 ^ desc.ias := by
    simp only [rootTtDescriptor, Nat.one_shiftLeft, Nat.and_two_pow_sub_one_eq_mod]
  have hoa : (rootTtDescriptor (createGlobals pf) p base desc md).outputBase = md.physicalAddress :=
    output_eq hp.2.1
  rw [hia, hoa] at hw
  exact fillWrites_legal hs.createGranule.toGranule (rootTt_at_any hs) hh (small_of_not_startsLarge hs hi hn) hw

theorem createWritesFrom_legal (hi : desc.ias ≤ 52) (hh : rootHeight p desc.ias ≤ 3)
    (hn : Passed p desc md → ¬StartsLarge p desc.ias md)
    (hw : w ∈ (createWritesFrom pf (createGlobals pf) fuel p base desc iter md s).1) : w.Legal p := by
  induction iter generalizing md s
  case nil => cases hw
  case cons it iter ih =>
    simp only [createWritesFrom] at hw
    split at hw
    case isTrue => cases hw
    case isFalse =>
      split at hw
      case isTrue => cases hw
      case isFalse hm =>
        split at hw
        case isTrue => cases hw
        case isFalse ho =>
          split at hw
          case isTrue => cases hw
          case isFalse ht =>
            have hp : Passed p desc md := by
              refine ⟨?_, by simpa using ho, not_not.mp ht⟩
              rw [← hs.pageSize]
              exact Bool.eq_false_of_not_eq_true hm
            have hp' := (passed_truncateInput hs).mpr hp
            have hn' : ¬StartsLarge p desc.ias (truncateInput desc.ias md) := mt startsLarge_truncateInput.mp (hn hp)
            have hfill {w : Written} (hw : w ∈ (fillWrites pf (createGlobals pf) _ fuel
                (rootTtDescriptor (createGlobals pf) p base desc (truncateInput desc.ias md)) _ _ s).1) : w.Legal p :=
              fill_legal hs hi hh hp' hn' hw
            split at hw
            case h_1 he => exact hfill (he ▸ hw)
            case h_2 he =>
              split at hw
              case isTrue => exact hfill (he ▸ hw)
              case isFalse =>
                rcases List.mem_append.mp hw with hw | hw
                case inl => exact hfill (he ▸ hw)
                case inr => exact ih (fun _ => hn') hw

theorem createWrites_legal {rs : List MemoryRegionDescriptor} (hi : desc.ias ≤ 52) (hh : rootHeight p desc.ias ≤ 3)
    (hn : ∀ r, rs.head? = some r → r.length ≠ 0 → Passed p desc r → ¬StartsLarge p desc.ias r)
    (hw : w ∈ (createWrites pf fuel rs desc s).1) : w.Legal p := by
  simp only [createWrites] at hw
  split at hw
  case isTrue => cases hw
  case isFalse =>
    have hlog : log2PageSize pf.pageSize = p := hs.log2PageSize_eq
    rw [hlog] at hw
    cases rs
    case nil => cases hw
    case cons r rest =>
      by_cases hl : r.length = 0
      case pos =>
        rw [createWritesFrom, if_pos hl] at hw
        cases hw
      case neg => exact createWritesFrom_legal hs hi hh (hn r rfl hl) hw

-- The writes of the first pass.
theorem mem_createWrites {rest : List MemoryRegionDescriptor} (hz : pf.page s.allocs ≠ 0) (hl : r.length ≠ 0)
    (hp : Passed p desc r)
    (hw : w ∈ (fillWrites pf (createGlobals pf) (truncateInput desc.ias r) fuel
      (rootTtDescriptor (createGlobals pf) p (pf.page s.allocs) desc (truncateInput desc.ias r))
      (r.virtualAddress % 2 ^ desc.ias) r.physicalAddress (Setting.rootState pf s)).1) :
    w ∈ (createWrites pf fuel (r :: rest) desc s).1 := by
  have ⟨hm, ho, ht⟩ := hp
  have hlog : log2PageSize pf.pageSize = p := hs.log2PageSize_eq
  have hm : ¬misaligned (createGlobals pf).pageSize r = true := by
    rw [show (createGlobals pf).pageSize = 2 ^ p from hs.pageSize, hm]
    exact Bool.false_ne_true
  have ho : ¬outOfRange desc.oas r = true := by simp [ho]
  have hia : (rootTtDescriptor (createGlobals pf) p (pf.page s.allocs) desc (truncateInput desc.ias r)).inputBase =
      r.virtualAddress % 2 ^ desc.ias := by
    simp only [rootTtDescriptor, Nat.one_shiftLeft, Nat.and_two_pow_sub_one_eq_mod, Setting.truncateInput_eq, Nat.mod_mod]
  have hoa : (rootTtDescriptor (createGlobals pf) p (pf.page s.allocs) desc (truncateInput desc.ias r)).outputBase =
      r.physicalAddress := by
    rw [Setting.truncateInput_eq]
    exact output_eq hp.2.1
  have hc : createWrites pf fuel (r :: rest) desc s = createWritesFrom pf (createGlobals pf) fuel p (pf.page s.allocs)
      desc (r :: rest) r (Setting.rootState pf s) := by
    simp only [createWrites, State.valMemoryAllocPages, if_neg hz, hlog]
    rfl
  rw [hc, createWritesFrom, if_neg hl, if_neg hm, if_neg ho]
  simp only [ht, ne_eq, not_true, if_false, hia, hoa]
  split
  case h_1 he =>
    rw [he] at hw
    exact hw
  case h_2 he =>
    rw [he] at hw
    split
    case isTrue  => exact hw
    case isFalse => exact List.mem_append_left _ hw

theorem createWrites_large {rest : List MemoryRegionDescriptor} (hi : desc.ias ≤ 52) (hh : rootHeight p desc.ias ≤ 3)
    (hz : ∀ k, pf.page k ≠ 0) (hl : r.length ≠ 0) (hp : Passed p desc r) (hn : StartsLarge p desc.ias r) :
    ∃ w ∈ (createWrites pf 4 (r :: rest) desc s).1, ¬w.Legal p := by
  have ⟨hlim, hia, hoa, htop⟩ := hn
  have hlt : r.virtualAddress % 2 ^ desc.ias < 2 ^ 63 :=
    (Nat.mod_lt _ (Nat.two_pow_pos _)).trans_le (Nat.pow_le_pow_right two_pos (by omega))
  have ht : (rootTtDescriptor (createGlobals pf) p (pf.page s.allocs) desc (truncateInput desc.ias r)).At p
      (rootHeight p desc.ias) (rootBits p desc.ias) (pf.page s.allocs) (lastInput desc.ias r) := by
    have h : (rootTtDescriptor (createGlobals pf) p (pf.page s.allocs) desc (truncateInput desc.ias r)).At _ _ _ _ _ :=
      rootTt_at_any hs
    simpa only [lastInput, Setting.truncateInput_eq, Nat.mod_mod] using h
  obtain ⟨w, hw, hill⟩ : ∃ w ∈ (fillWrites pf (createGlobals pf) (truncateInput desc.ias r) (3 + 1)
      (rootTtDescriptor (createGlobals pf) p (pf.page s.allocs) desc (truncateInput desc.ias r))
      (r.virtualAddress % 2 ^ desc.ias) r.physicalAddress (Setting.rootState pf s)).1, ¬w.Legal p :=
    fillWrites_large hs.createGranule.toGranule hz ht hh hlim hia hoa htop hlt (by omega)
  exact ⟨w, mem_createWrites hs (hz _) hl hp hw, hill⟩

end

-- Pages of `2 ^ p` bytes from an allocator that never fails.
def pagesOf (p : Nat) : Platform where
  pageSize := 2 ^ p
  page k   := 2 ^ p * (k + 1)

-- The root table starts at one of the four levels and fits into its page, and every descriptor that is
-- written belongs at its level.
def KindsRight (p : Nat) (desc : PgtDescriptor) (rs : List MemoryRegionDescriptor) : Prop :=
  let numLevels := numPgtLevels desc.ias p (p - 3)
  rootLevel numLevels ≤ 3 ∧ 8 * 2 ^ sub32 desc.ias (rootSizeLog2 numLevels p (p - 3)) ≤ 2 ^ p ∧
    ∀ pf fuel s, pf.pageSize = 2 ^ p → ∀ w ∈ (createWrites pf fuel rs desc s).1, w.Legal p

def KindsFit (p : Nat) (desc : PgtDescriptor) (rs : List MemoryRegionDescriptor) : Prop :=
  p < desc.ias ∧ desc.ias ≤ p + 4 * (p - 3) ∧
    ∀ r, rs.head? = some r → r.length ≠ 0 → Passed p desc r → ¬StartsLarge p desc.ias r

section

variable {p : Nat} {desc : PgtDescriptor} {rs : List MemoryRegionDescriptor}

theorem rootLevel_le_iff (hp : p = 12 ∨ p = 14 ∨ p = 16) (hlo : 12 < desc.ias) (hhi : desc.ias ≤ 52) :
    rootLevel (numPgtLevels desc.ias p (p - 3)) ≤ 3 ↔ p < desc.ias ∧ desc.ias ≤ p + 4 * (p - 3) := by
  simp only [rootLevel, numPgtLevels, sub32]
  rcases hp with rfl | rfl | rfl <;> omega

theorem setting_of {pf : Platform} (hpf : pf.pageSize = 2 ^ p) (hp : p = 12 ∨ p = 14 ∨ p = 16) (hi : p < desc.ias)
    (hhi : desc.ias ≤ 52) : Setting pf p { desc with oas := 0 } :=
  ⟨hpf, by omega, by omega, hi, Nat.lt_of_le_of_lt hhi (by decide), show 0 < 64 by decide⟩

theorem rootHeight_le {pf : Platform} (hs : Setting pf p { desc with oas := 0 }) (hmax : desc.ias ≤ p + 4 * (p - 3)) :
    rootHeight p desc.ias ≤ 3 := by
  have hb := hs.height_bounds.1
  have hlo := hs.lo
  by_contra hc
  have := Nat.mul_le_mul_right (p - 3) (show 4 ≤ rootHeight p desc.ias by omega)
  simp only at hb
  omega

theorem kinds_right_iff (hp : p = 12 ∨ p = 14 ∨ p = 16) (hlo : 12 < desc.ias) (hhi : desc.ias ≤ 52) :
    KindsRight p desc rs ↔ KindsFit p desc rs := by
  have hlevel := rootLevel_le_iff hp hlo hhi
  constructor
  case mp =>
    intro ⟨hl, _, hw⟩
    have ⟨hi, hmax⟩ := hlevel.mp hl
    refine ⟨hi, hmax, ?_⟩
    intro r hr hlen hpass hlarge
    obtain ⟨rest, rfl⟩ : ∃ rest, rs = r :: rest := List.head?_eq_some_iff.mp hr
    have hz (k : Nat) : (pagesOf p).page k ≠ 0 := (Nat.mul_pos (Nat.two_pow_pos p) (Nat.succ_pos k)).ne'
    have hs : Setting (pagesOf p) p { desc with oas := 0 } := setting_of rfl hp hi hhi
    obtain ⟨w, hmem, hill⟩ : ∃ w ∈ (createWrites (pagesOf p) 4 (r :: rest) desc emptyState).1, ¬w.Legal p :=
      createWrites_large hs hhi (rootHeight_le hs hmax) hz hlen hpass hlarge
    exact hill (hw _ _ _ rfl w hmem)
  case mpr =>
    intro ⟨hi, hmax, hn⟩
    have hs : Setting (pagesOf p) p { desc with oas := 0 } := setting_of rfl hp hi hhi
    refine ⟨hlevel.mpr ⟨hi, hmax⟩, ?_, ?_⟩
    · have hlevels : numPgtLevels desc.ias p (p - 3) = rootHeight p desc.ias + 1 := hs.levels_eq
      have hsize : rootSizeLog2 (rootHeight p desc.ias + 1) p (p - 3) = p + rootHeight p desc.ias * (p - 3) :=
        hs.rootSizeLog2_eq
      have hbits : sub32 desc.ias (p + rootHeight p desc.ias * (p - 3)) = rootBits p desc.ias := hs.rootBits_eq
      have hle : 2 ^ rootBits p desc.ias ≤ 2 ^ (p - 3) := Nat.pow_le_pow_right two_pos hs.rootBits_le
      have hpage : 8 * 2 ^ (p - 3) = 2 ^ p := by
        rw [show 8 = 2 ^ 3 from rfl, ← Nat.pow_add, Nat.add_sub_cancel' (by omega)]
      rw [hlevels, hsize, hbits]
      omega
    · intro pf fuel s hpf w hw
      have hs := setting_of hpf hp hi hhi
      exact createWrites_legal hs hhi (rootHeight_le hs hmax) hn hw

end

-- Two megabytes at 2 GB.
theorem kinds_right_small : KindsRight 12 (smallDesc 48) [⟨0x80000000, 0, 0x200000, 0x400⟩] := by
  refine (kinds_right_iff (.inl rfl) (by decide) (by decide)).mpr ⟨by decide, by decide, ?_⟩
  rintro r ⟨⟩ _ _ ⟨_, _, hoa, _⟩
  revert hoa
  decide

-- A region of 512 GB becomes a block at level 0, and a table for 52 bits starts at level -1.
theorem kinds_wrong_large :
    (∃ word, (createWrites (pagesOf 12) 4 [⟨0, 0, 2 ^ 39, 0x400⟩] { smallDesc 48 with oas := 48 } emptyState).1 =
      [⟨.block, 0, 0x1000, word⟩]) ∧
    ¬KindsRight 12 { smallDesc 48 with oas := 48 } [⟨0, 0, 2 ^ 39, 0x400⟩] ∧
    rootLevel (numPgtLevels 52 12 9) = 2 ^ 32 - 1 ∧ ¬KindsRight 12 (smallDesc 52) [] := by
  have hw : (createWrites (pagesOf 12) 4 [⟨0, 0, 2 ^ 39, 0x400⟩] { smallDesc 48 with oas := 48 } emptyState).1 =
      [⟨.block, 0, 0x1000, 0x401⟩] := by
    decide +kernel
  refine ⟨⟨_, hw⟩, ?_, by decide, ?_⟩
  · intro ⟨_, _, h⟩
    have hl : Written.Legal 12 ⟨.block, 0, 0x1000, 0x401⟩ :=
      h (pagesOf 12) 4 emptyState rfl _ (hw ▸ List.mem_cons_self ..)
    exact absurd hl.2 (by decide)
  · intro ⟨h, _⟩
    revert h
    decide

end Pgt
