import BsaAcs.Info.Theorems.Madt
import BsaAcs.Lib.Bits
import BsaAcs.Lib.MixedRadix
import BsaAcs.Pe.Stack

namespace Pe

open Madt

section Field

variable {shift x y : Nat}

theorem mask_eq : x &&& 0xFF <<< shift = x / 2 ^ shift % 2 ^ 8 * 2 ^ shift := by
  have h := @Bits.slice_eq_mul (shift + 7) shift x
  have hw : shift + 7 - shift + 1 = 8 := by omega
  rw [Bits.slice, hw] at h
  exact h

theorem affinityField_eq : affinityField shift x = x / 2 ^ shift % 2 ^ 8 := by
  rw [affinityField, mask_eq, Nat.shiftRight_eq_div_pow, Nat.mul_div_cancel _ (Nat.two_pow_pos shift)]

theorem affinityField_lt : affinityField shift x < 2 ^ 8 := by
  rw [affinityField_eq]
  exact Nat.mod_lt _ (by decide)

-- The larger one of a field that has been kept and the field of a register.
theorem updateAffMax_field {g : Nat} (hg : g < 2 ^ 8) :
    updateAffMax (g * 2 ^ shift) x (0xFF <<< shift) = max (affinityField shift x) g * 2 ^ shift := by
  have hkept : g * 2 ^ shift / 2 ^ shift % 2 ^ 8 = g := by
    rw [Nat.mul_div_cancel _ (Nat.two_pow_pos shift), Nat.mod_eq_of_lt hg]
  rw [updateAffMax, mask_eq, mask_eq, hkept, ← affinityField_eq]
  by_cases hle : affinityField shift x ≤ g
  case pos => rw [if_neg (Nat.not_lt.mpr (Nat.mul_le_mul_right _ hle)), Nat.max_eq_right hle]
  case neg =>
    have hlt : g < affinityField shift x := Nat.lt_of_not_le hle
    rw [if_pos (Nat.mul_lt_mul_of_pos_right hlt (Nat.two_pow_pos shift)), Nat.max_eq_left (Nat.le_of_lt hlt)]

end Field

-- The largest affinities are those of the entries, field by field.
structure Maxes (t : PeTable) (g₀ g₁ g₂ g₃ : Nat) : Prop where
  lt    : g₀ < 2 ^ 8 ∧ g₁ < 2 ^ 8 ∧ g₂ < 2 ^ 8 ∧ g₃ < 2 ^ 8
  kept  : t.mpidrAff0Max = g₀ * 2 ^ 0 ∧ t.mpidrAff1Max = g₁ * 2 ^ 8 ∧ t.mpidrAff2Max = g₂ * 2 ^ 16 ∧
    t.mpidrAff3Max = g₃ * 2 ^ 32
  bound : ∀ e ∈ t.peInfo, aff0 e.mpidr ≤ g₀ ∧ aff1 e.mpidr ≤ g₁ ∧ aff2 e.mpidr ≤ g₂ ∧ aff3 e.mpidr ≤ g₃

theorem Maxes.empty : Maxes .empty 0 0 0 0 where
  lt    := by decide
  kept  := by decide
  bound := fun _ he => absurd he List.not_mem_nil

theorem Maxes.fill {madt : Iovirt.Bytes} {entry : Nat} {t : PeTable} (h : ∃ g₀ g₁ g₂ g₃, Maxes t g₀ g₁ g₂ g₃) :
    ∃ g₀ g₁ g₂ g₃, Maxes (peFill madt entry t) g₀ g₁ g₂ g₃ := by
  rw [peFill]
  split
  case isFalse => exact h
  case isTrue =>
    obtain ⟨g₀, g₁, g₂, g₃, ⟨l₀, l₁, l₂, l₃⟩, ⟨k₀, k₁, k₂, k₃⟩, bound⟩ := h
    refine ⟨max (aff0 (mpidr madt entry)) g₀, max (aff1 (mpidr madt entry)) g₁, max (aff2 (mpidr madt entry)) g₂,
      max (aff3 (mpidr madt entry)) g₃, ?lt, ?kept, ?bound⟩
    case lt =>
      exact ⟨max_lt affinityField_lt l₀, max_lt affinityField_lt l₁, max_lt affinityField_lt l₂,
        max_lt affinityField_lt l₃⟩
    case kept =>
      rw [k₀, k₁, k₂, k₃]
      exact ⟨updateAffMax_field l₀, updateAffMax_field l₁, updateAffMax_field l₂, updateAffMax_field l₃⟩
    case bound =>
      intro e he
      cases List.mem_append.mp he
      case inl he =>
        obtain ⟨b₀, b₁, b₂, b₃⟩ := bound e he
        exact ⟨b₀.trans (le_max_right _ _), b₁.trans (le_max_right _ _), b₂.trans (le_max_right _ _),
          b₃.trans (le_max_right _ _)⟩
      case inr he =>
        obtain rfl := List.mem_singleton.mp he
        exact ⟨le_max_left _ _, le_max_left _ _, le_max_left _ _, le_max_left _ _⟩

theorem peWalk_maxes {madt : Iovirt.Bytes} {fuel : Nat} {w : Walk PeTable} (h : peWalk madt fuel = some w) :
    ∃ g₀ g₁ g₂ g₃, Maxes w.filled g₀ g₁ g₂ g₃ := by
  obtain ⟨n, _, hl⟩ := Loop.Leaves.of_run h
  have hstep {w w' : Walk PeTable} (hw : ∃ g₀ g₁ g₂ g₃, Maxes w.filled g₀ g₁ g₂ g₃)
      (he : step madt (peFill madt) w = .inl w' ∨ step madt (peFill madt) w = .inr w') :
      ∃ g₀ g₁ g₂ g₃, Maxes w'.filled g₀ g₁ g₂ g₃ := by
    by_cases hlt : (w.length + entryLength madt w.entry) % 2 ^ 32 < tableLength madt
    case pos =>
      rw [step_inl _ hlt] at he
      obtain he | he := he
      · cases he
        exact Maxes.fill hw
      · cases he
    case neg =>
      rw [step_inr (Nat.le_of_not_lt hlt)] at he
      obtain he | he := he
      · cases he
      · cases he
        exact Maxes.fill hw
  exact hl.invariant (I := fun w => ∃ g₀ g₁ g₂ g₃, Maxes w.filled g₀ g₁ g₂ g₃)
    (Q := fun w => ∃ g₀ g₁ g₂ g₃, Maxes w.filled g₀ g₁ g₂ g₃) (fun hw he => hstep hw (.inl he))
    (fun hw he => hstep hw (.inr he)) ⟨0, 0, 0, 0, .empty⟩

theorem or_fields {g₀ g₁ g₂ g₃ : Nat} (l₀ : g₀ < 2 ^ 8) (l₁ : g₁ < 2 ^ 8) (l₂ : g₂ < 2 ^ 8) :
    g₀ * 2 ^ 0 ||| g₁ * 2 ^ 8 ||| g₂ * 2 ^ 16 ||| g₃ * 2 ^ 32 = g₀ + 2 ^ 8 * g₁ + 2 ^ 16 * g₂ + 2 ^ 32 * g₃ := by
  have h₁ : 2 ^ 8 * g₁ + g₀ = 2 ^ 8 * g₁ ||| g₀ := Nat.two_pow_add_eq_or_of_lt l₀ g₁
  have h₂ : 2 ^ 16 * g₂ + (2 ^ 8 * g₁ + g₀) = 2 ^ 16 * g₂ ||| (2 ^ 8 * g₁ + g₀) :=
    Nat.two_pow_add_eq_or_of_lt (by omega) g₂
  have h₃ : 2 ^ 32 * g₃ + (2 ^ 16 * g₂ + (2 ^ 8 * g₁ + g₀)) = 2 ^ 32 * g₃ ||| (2 ^ 16 * g₂ + (2 ^ 8 * g₁ + g₀)) :=
    Nat.two_pow_add_eq_or_of_lt (by omega) g₃
  calc g₀ * 2 ^ 0 ||| g₁ * 2 ^ 8 ||| g₂ * 2 ^ 16 ||| g₃ * 2 ^ 32
      = 2 ^ 32 * g₃ ||| (2 ^ 16 * g₂ ||| (2 ^ 8 * g₁ ||| g₀)) := by
        rw [Nat.pow_zero, Nat.mul_one, Nat.mul_comm g₁, Nat.mul_comm g₂, Nat.mul_comm g₃, Nat.or_comm g₀,
          Nat.or_comm _ (2 ^ 16 * g₂), Nat.or_comm _ (2 ^ 32 * g₃)]
    _ = g₀ + 2 ^ 8 * g₁ + 2 ^ 16 * g₂ + 2 ^ 32 * g₃ := by
        rw [← h₁, ← h₂, ← h₃]
        omega

-- The affinity fields of a PE, and how many values each of them may have.
def digits (mpidr : Nat) : List Nat :=
  [aff0 mpidr, aff1 mpidr, aff2 mpidr, aff3 mpidr]

def radices (mpidrMax : Nat) : List Nat :=
  [aff0 mpidrMax + 1, aff1 mpidrMax + 1, aff2 mpidrMax + 1, aff3 mpidrMax + 1]

theorem corePos_eq {mpidr mpidrMax : Nat} : corePos mpidr mpidrMax = mixedRadix (radices mpidrMax) (digits mpidr) := by
  simp only [corePos, radices, digits, mixedRadix]
  ring

theorem numPe_eq {mpidrMax : Nat} : numPe mpidrMax = (radices mpidrMax).prod := by
  simp only [numPe, radices, List.prod_cons, List.prod_nil]
  ring

theorem numPe_le {mpidrMax : Nat} : numPe mpidrMax ≤ 2 ^ 32 := by
  have h {shift : Nat} : affinityField shift mpidrMax + 1 ≤ 2 ^ 8 := affinityField_lt
  calc numPe mpidrMax ≤ 2 ^ 8 * 2 ^ 8 * 2 ^ 8 * 2 ^ 8 := Nat.mul_le_mul (Nat.mul_le_mul (Nat.mul_le_mul h h) h) h
    _ = 2 ^ 32 := by norm_num

section Table

variable {madt : Iovirt.Bytes} {fuel : Nat} {entries : List Madt.PeInfoEntry} {mpidrMax : Nat} {e e₁ e₂ : Madt.PeInfoEntry}

-- Every PE of the table has its position below the number of the positions.
theorem valid_digits (h : palPeCreateInfoTable madt fuel = some (entries, mpidrMax)) (he : e ∈ entries) :
    MixedRadix.Valid (radices mpidrMax) (digits e.mpidr) := by
  obtain ⟨w, hw, heq⟩ := Option.map_eq_some_iff.mp h
  obtain ⟨rfl, rfl⟩ := Prod.mk.inj heq
  obtain ⟨g₀, g₁, g₂, g₃, ⟨l₀, l₁, l₂, l₃⟩, ⟨k₀, k₁, k₂, k₃⟩, bound⟩ := peWalk_maxes hw
  obtain ⟨b₀, b₁, b₂, b₃⟩ := bound e he
  rw [k₀, k₁, k₂, k₃, or_fields l₀ l₁ l₂]
  have f₀ : aff0 (g₀ + 2 ^ 8 * g₁ + 2 ^ 16 * g₂ + 2 ^ 32 * g₃) = g₀ := by
    rw [aff0, affinityField_eq]
    omega
  have f₁ : aff1 (g₀ + 2 ^ 8 * g₁ + 2 ^ 16 * g₂ + 2 ^ 32 * g₃) = g₁ := by
    rw [aff1, affinityField_eq]
    omega
  have f₂ : aff2 (g₀ + 2 ^ 8 * g₁ + 2 ^ 16 * g₂ + 2 ^ 32 * g₃) = g₂ := by
    rw [aff2, affinityField_eq]
    omega
  have f₃ : aff3 (g₀ + 2 ^ 8 * g₁ + 2 ^ 16 * g₂ + 2 ^ 32 * g₃) = g₃ := by
    rw [aff3, affinityField_eq]
    omega
  rw [radices, digits, f₀, f₁, f₂, f₃]
  exact .cons (Nat.lt_succ_of_le b₀) (.cons (Nat.lt_succ_of_le b₁) (.cons (Nat.lt_succ_of_le b₂)
    (.cons (Nat.lt_succ_of_le b₃) .nil)))

theorem corePos_lt (h : palPeCreateInfoTable madt fuel = some (entries, mpidrMax)) (he : e ∈ entries) :
    corePos e.mpidr mpidrMax < numPe mpidrMax := by
  rw [corePos_eq, numPe_eq]
  exact MixedRadix.lt_prod (valid_digits h he)

end Table

section Stack

variable {mpidr mpidr' mpidrMax base : Nat}

theorem moduleEntryPoint_eq (hb : base < 2 ^ 63) (hc : corePos mpidr mpidrMax < 2 ^ 32) :
    moduleEntryPoint mpidr mpidrMax base = base + 0x100 * corePos mpidr mpidrMax := by
  rw [moduleEntryPoint, sizeStackSecondaryPe, Nat.mod_eq_of_lt (by omega)]

theorem mem_stack (hb : base < 2 ^ 63) (hc : corePos mpidr mpidrMax < 2 ^ 32) {addr : Nat} :
    addr ∈ stack mpidr mpidrMax base ↔
      base + 0x100 * corePos mpidr mpidrMax - 0x100 ≤ addr ∧ addr < base + 0x100 * corePos mpidr mpidrMax := by
  rw [stack, moduleEntryPoint_eq hb hc]
  rfl

end Stack

-- The stacks of two PEs of the table do not overlap unless the PEs have the same affinity. The stack of a PE lies
-- below its position: it is inside of what has been allocated unless the affinity is 0, or the position is behind
-- the part of the size that 32 bits hold.
theorem secondary_stacks {madt : Iovirt.Bytes} {fuel : Nat} {entries : List Madt.PeInfoEntry} {mpidrMax base size : Nat}
    (h : palPeCreateInfoTable madt fuel = some (entries, mpidrMax))
    (hs : palAllocateSecondaryStack 0 mpidrMax = some size) (hb : 0x100 ≤ base ∧ base < 2 ^ 63) :
    (∀ e₁ ∈ entries, ∀ e₂ ∈ entries, digits e₁.mpidr ≠ digits e₂.mpidr →
      ∀ addr ∈ stack e₁.mpidr mpidrMax base, addr ∉ stack e₂.mpidr mpidrMax base) ∧
    ∀ e ∈ entries, stack e.mpidr mpidrMax base ⊆ Set.Ico base (base + size) ↔
      (∃ d ∈ digits e.mpidr, d ≠ 0) ∧ corePos e.mpidr mpidrMax ≤ numPe mpidrMax % 2 ^ 24 := by
  have hlt {e : Madt.PeInfoEntry} (he : e ∈ entries) : corePos e.mpidr mpidrMax < 2 ^ 32 :=
    (corePos_lt h he).trans_le numPe_le
  refine ⟨?disjoint, ?inside⟩
  case disjoint =>
    intro e₁ h₁ e₂ h₂ hne
    have hpos : corePos e₁.mpidr mpidrMax ≠ corePos e₂.mpidr mpidrMax := by
      rw [corePos_eq, corePos_eq]
      exact fun hc => hne (MixedRadix.injective (valid_digits h h₁) (valid_digits h h₂) hc)
    intro addr ha₁ ha₂
    rw [mem_stack hb.right (hlt h₁)] at ha₁
    rw [mem_stack hb.right (hlt h₂)] at ha₂
    omega
  case inside =>
    intro e he
    have hsize : size = 0x100 * (numPe mpidrMax % 2 ^ 24) := by
      rw [palAllocateSecondaryStack, if_pos rfl, sizeStackSecondaryPe] at hs
      have hs' := Option.some.inj hs
      omega
    have hzero : corePos e.mpidr mpidrMax ≠ 0 ↔ ∃ d ∈ digits e.mpidr, d ≠ 0 := by
      rw [corePos_eq, ne_eq, MixedRadix.eq_zero_iff (valid_digits h he)]
      push Not
      rfl
    rw [← hzero]
    constructor
    · intro hsub
      have hmem {addr : Nat} (ha : base + 0x100 * corePos e.mpidr mpidrMax - 0x100 ≤ addr ∧
          addr < base + 0x100 * corePos e.mpidr mpidrMax) : base ≤ addr ∧ addr < base + size :=
        hsub ((mem_stack hb.right (hlt he)).mpr ha)
      have hlow := @hmem (base + 0x100 * corePos e.mpidr mpidrMax - 0x100) (by omega)
      have hhigh := @hmem (base + 0x100 * corePos e.mpidr mpidrMax - 1) (by omega)
      omega
    · rintro ⟨hne, hle⟩ addr ha
      rw [mem_stack hb.right (hlt he)] at ha
      change base ≤ addr ∧ addr < base + size
      omega

-- A MADT of two PEs, of which the first one has the affinity 0.
def twoPes : Iovirt.Bytes := fun a =>
  if a = 4 then 204 else if a = 44 ∨ a = 124 then 0x0B else if a = 45 ∨ a = 125 then 80 else if a = 192 then 1 else 0

theorem twoPes_table : palPeCreateInfoTable twoPes 2 = some ([⟨0, 0, 0⟩, ⟨1, 1, 0⟩], 1) := by
  decide

theorem two_pes_stacks : (∀ addr ∈ stack 0 1 0x10000, addr ∉ stack 1 1 0x10000) ∧
    stack 1 1 0x10000 ⊆ Set.Ico 0x10000 0x10200 ∧ ¬stack 0 1 0x10000 ⊆ Set.Ico 0x10000 0x10200 := by
  obtain ⟨hd, hi⟩ := @secondary_stacks twoPes 2 _ 1 0x10000 0x200 twoPes_table rfl ⟨by decide, by decide⟩
  refine ⟨hd ⟨0, 0, 0⟩ (by decide) ⟨1, 1, 0⟩ (by decide) (by decide), ?_, ?_⟩
  · exact (hi ⟨1, 1, 0⟩ (by decide)).mpr ⟨by decide, by decide⟩
  · exact fun hc => absurd ((hi ⟨0, 0, 0⟩ (by decide)).mp hc).left (by decide)

end Pe
