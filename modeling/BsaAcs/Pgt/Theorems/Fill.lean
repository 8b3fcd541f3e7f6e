import BsaAcs.Pgt.Theorems.Words

namespace Pgt

theorem sub32_eq (h : b ≤ a) (ha : a < 2 ^ 32) : sub32 a b = a - b := by
  simp only [sub32]
  omega

theorem State.write_mem_same {s : State} : (s.write a v).mem a = v :=
  Memory.write_same

theorem State.write_mem_ne {s : State} (h : x ≠ a) : (s.write a v).mem x = s.mem x :=
  Memory.write_ne h

-- The descriptor `tt` stands for a table at `base` with `h` levels below it.
structure TtDescriptor.At (tt : TtDescriptor) (p h nbits base top : Nat) : Prop where
  base_eq  : tt.ttBase = base
  top_eq   : tt.inputTop = top
  sizeLog2 : tt.sizeLog2 = p + h * (p - 3)
  size_lt  : p + h * (p - 3) < 64
  nbits_eq : tt.nbits = nbits
  nbits_le : nbits ≤ p - 3
  level    : (tt.level + h) % 2 ^ 32 = 3
  level_lt : tt.level < 2 ^ 32

-- The next addresses of the loop.
def nextAddress (tt : TtDescriptor) (address : Nat) : Nat :=
  (address + tt.blockSize) % 2 ^ 64

-- One turn of the loop of `fill_translation_table` that does not fail.
inductive Visit (pf : Platform) (g : Globals) (md : MemoryRegionDescriptor) (fuel : Nat)
    (tt : TtDescriptor) (ia oa : Nat) (s : State) : State → Prop
  | page (hl : tt.level = 3) :
    Visit pf g md fuel tt ia oa s (s.write (tt.tableDesc ia) (pageDescriptor g oa md.attributes))
  | block (hl : tt.level ≠ 3) (he : tt.blockEligible ia oa = true) :
    Visit pf g md fuel tt ia oa s (s.write (tt.tableDesc ia) (blockDescriptor tt oa md.attributes))
  | table (hl : tt.level ≠ 3) (he : tt.blockEligible ia oa = false)
    (hn : s.nextTable pf g (s.mem (tt.tableDesc ia)) = (some base, s₁))
    (hf : fillFrom pf g md fuel (tt.nextLevel g base ia oa) ia oa s₁ = some (0, s₂)) :
    Visit pf g md fuel tt ia oa s (s₂.write (tt.tableDesc ia) (tableDescriptor g base))

theorem acsStatusErr_ne_zero : acsStatusErr ≠ 0 := by
  decide

section

variable {pf : Platform} {g : Globals} {md : MemoryRegionDescriptor}

-- A call succeeds if it has nothing to do, or if a turn of the loop and the rest of it succeed.
theorem fillFrom_success_iff :
    fillFrom pf g md (fuel + 1) tt ia oa s = some (0, s') ↔
    (¬(ia < tt.inputTop) ∧ s' = s) ∨ (ia < tt.inputTop ∧ ∃ s₁, Visit pf g md fuel tt ia oa s s₁ ∧
      fillFrom pf g md fuel tt (nextAddress tt ia) (nextAddress tt oa) s₁ = some (0, s')) := by
  by_cases hlt : ia < tt.inputTop
  case neg => simp [fillFrom, hlt, eq_comm]
  case pos =>
    constructor
    case mp =>
      intro hf
      simp only [fillFrom, hlt, if_true] at hf
      refine .inr ⟨hlt, ?_⟩
      split at hf
      case isTrue hl => exact ⟨_, .page hl, hf⟩
      case isFalse hl =>
        split at hf
        case isTrue he => exact ⟨_, .block hl he, hf⟩
        case isFalse he =>
          split at hf
          case h_1 => exact absurd (congrArg Prod.fst <| Option.some.inj hf) acsStatusErr_ne_zero
          case h_2 hn =>
            split at hf
            case h_1 => contradiction
            case h_2 status s₂ hn' =>
              split at hf
              case isTrue => exact absurd (congrArg Prod.fst <| Option.some.inj hf) acsStatusErr_ne_zero
              case isFalse hs =>
                simp only [ne_eq, not_not] at hs
                exact ⟨_, .table hl (by simpa using he) hn (hs ▸ hn'), hf⟩
    case mpr =>
      rintro (⟨hc, _⟩ | ⟨_, s₁, hv, hf⟩)
      case inl => contradiction
      case inr =>
        cases hv
        case page hl =>
          simp only [fillFrom, hlt, hl, if_true]
          exact hf
        case block hl he =>
          simp only [fillFrom, hlt, hl, he, if_true, if_false]
          exact hf
        case table base s₁ s₂ hl he hn hf' =>
          simp only [fillFrom, hlt, hl, he, hn, if_true, if_false, Bool.false_eq_true]
          have hf' : fillFrom pf g md fuel (tt.nextLevel g base ia oa)
            (tt.nextLevel g base ia oa).inputBase (tt.nextLevel g base ia oa).outputBase s₁ =
            some (0, s₂) := hf'
          rw [hf']
          exact hf

-- More fuel does not change the outcome of a successful call.
theorem fillFrom_mono (hf : fillFrom pf g md fuel tt ia oa s = some (0, s')) (hle : fuel ≤ fuel') :
    fillFrom pf g md fuel' tt ia oa s = some (0, s') := by
  induction fuel generalizing fuel' tt ia oa s s'
  case zero => simp [fillFrom] at hf
  case succ fuel ih =>
    obtain ⟨n, rfl⟩ : ∃ n, fuel' = n + 1 := ⟨fuel' - 1, by omega⟩
    rw [fillFrom_success_iff] at hf ⊢
    refine hf.imp id ?_
    rintro ⟨hlt, s₁, hv, hr⟩
    refine ⟨hlt, s₁, ?_, ih hr (by omega)⟩
    cases hv
    case page hl => exact .page hl
    case block hl he => exact .block hl he
    case table hl he hn hf' => exact .table hl he hn (ih hf' (by omega))

theorem Visit.mono (hv : Visit pf g md fuel tt ia oa s s') (hle : fuel ≤ fuel') :
    Visit pf g md fuel' tt ia oa s s' := by
  cases hv
  case page hl => exact .page hl
  case block hl he => exact .block hl he
  case table hl he hn hf => exact .table hl he hn (fillFrom_mono hf hle)

end

namespace TtDescriptor.At

variable {tt : TtDescriptor} {p h nbits base top ia oa : Nat} (ht : tt.At p h nbits base top)

include ht

theorem blockSize_eq : tt.blockSize = blockBytes p h := by
  rw [blockSize, ht.sizeLog2, Nat.one_shiftLeft, blockBytes]

theorem tableIndex_eq : tt.tableIndex ia = slotIndex p h nbits ia := by
  rw [tableIndex, ht.sizeLog2, ht.nbits_eq, Nat.one_shiftLeft, Nat.and_two_pow_sub_one_eq_mod,
    Nat.shiftRight_eq_div_pow, slotIndex, blockBytes]

theorem tableDesc_eq : tt.tableDesc ia = base + 8 * slotIndex p h nbits ia := by
  rw [tableDesc, ht.tableIndex_eq, ht.base_eq]

theorem slotIndex_lt : slotIndex p h nbits ia < 2 ^ (p - 3) :=
  lt_of_lt_of_le Pgt.slotIndex_lt <| Nat.pow_le_pow_right (by omega) ht.nbits_le

theorem height_lt (hl : 12 ≤ p) : h < 64 := by
  have := ht.size_lt
  by_contra hc
  have : 64 * 9 ≤ h * (p - 3) := Nat.mul_le_mul (by omega) (by omega)
  omega

theorem level_eq_three_iff (hl : 12 ≤ p) : tt.level = 3 ↔ h = 0 := by
  have := ht.level
  have := ht.level_lt
  have := ht.height_lt hl
  omega

theorem exists_height (hl : 12 ≤ p) (h3 : tt.level ≠ 3) : ∃ n, h = n + 1 := by
  have := mt (ht.level_eq_three_iff hl).mpr h3
  exact ⟨h - 1, by omega⟩

theorem blockEligible_iff : tt.blockEligible ia oa = true ↔
    blockBytes p h ∣ ia ∧ blockBytes p h ∣ oa ∧ (ia + blockBytes p h - 1) % 2 ^ 64 ≤ top := by
  simp only [blockEligible, Nat.and_two_pow_sub_one_eq_mod, Bool.and_eq_true, beq_iff_eq,
    decide_eq_true_eq, ge_iff_le, ht.top_eq, and_assoc, ht.blockSize_eq, blockBytes,
    Nat.dvd_iff_mod_eq_zero]

end TtDescriptor.At

theorem TtDescriptor.At.nextLevel {tt : TtDescriptor} {nbits base top : Nat}
    (ht : tt.At p (h + 1) nbits base top) (hg : Granule g p) :
    (tt.nextLevel g q ia oa).At p h (p - 3) q
      (min top ((ia + blockBytes p (h + 1) - 1) % 2 ^ 64)) where
  base_eq  := rfl
  top_eq   := by simp [TtDescriptor.nextLevel, ht.top_eq, ht.blockSize_eq]
  sizeLog2 := by
    have hs := ht.size_lt
    have := hg.lo
    simp only [TtDescriptor.nextLevel, ht.sizeLog2, hg.bits]
    rw [Nat.add_mul, Nat.one_mul] at hs ⊢
    rw [sub32_eq (by omega) (by omega)]
    omega
  size_lt  := by
    have := ht.size_lt
    rw [Nat.add_mul] at this
    omega
  nbits_eq := hg.bits
  nbits_le := le_rfl
  level    := by
    have := ht.level
    simp only [TtDescriptor.nextLevel]
    omega
  level_lt := Nat.mod_lt _ (by decide)

end Pgt
