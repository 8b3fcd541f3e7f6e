import BsaAcs.Dt.Timer
import BsaAcs.Dt.Theorems.Fdt

namespace Dt

-- What a specifier of three cells stands for: the interrupt if it is of the type, and otherwise none.
def specifierAt (type : BitVec 32) (offset : Nat) (intr : Nat → BitVec 32) (i : Nat) : Nat :=
  if intr i = type then addOffset (intr (i + 1)) offset else 0

-- The interrupt of the `k`-th specifier of the timers of the PE.
def archInterruptAt (interruptCell : Int) (intr : Nat → BitVec 32) (k : Nat) : Nat :=
  if interruptCell = 3 then specifierAt gicPpi ppiOffset intr (3 * k)
  else (intr (interruptCell.toNat * k)).toNat

-- The interrupts of a frame with one or two specifiers.
def frameInterruptsAt (interruptCell : Int) (intr : Property) : Nat × Nat :=
  let at' (k : Nat) :=
    if interruptCell = 3 then specifierAt gicSpi spiOffset intr.cells (3 * k)
    else (intr.cells (interruptCell.toNat * k)).toNat
  (at' 0, if intr.len = 4 * interruptCell.toNat then 0 else at' 1)

-- Where the cursor of the code stands for the `k`-th specifier.
def archCursor (intr : Nat → BitVec 32) : Nat → Nat
  | 0     => 0
  | k + 1 => archCursor intr k + if intr (archCursor intr k) = gicPpi then 3 else 2

section Arch

variable {intr : Nat → BitVec 32} {interruptCell : Int}

theorem archSpecifier_eq (index : Nat) :
    archSpecifier intr index =
      (specifierAt gicPpi ppiOffset intr index, index + if intr index = gicPpi then 3 else 2) := by
  rw [archSpecifier, specifierAt]
  split <;> rfl

theorem archInterrupts_three :
    archInterrupts 3 intr =
      (specifierAt gicPpi ppiOffset intr (archCursor intr 0), specifierAt gicPpi ppiOffset intr (archCursor intr 1),
        specifierAt gicPpi ppiOffset intr (archCursor intr 2), specifierAt gicPpi ppiOffset intr (archCursor intr 3)) := by
  simp only [archInterrupts, archSpecifier_eq, archCursor, if_true]
  rfl

-- The four timers of the PE each have the interrupt of their own specifier.
def ArchRight (interruptCell : Int) (intr : Nat → BitVec 32) : Nat × Nat × Nat × Nat → Prop
  | (sEl1, nsEl1, virtual, el2) =>
    sEl1 = archInterruptAt interruptCell intr 0 ∧ nsEl1 = archInterruptAt interruptCell intr 1 ∧
      virtual = archInterruptAt interruptCell intr 2 ∧ el2 = archInterruptAt interruptCell intr 3

-- The cursor stands where the specifiers are, or on words that stand for the same.
def ArchAligned (interruptCell : Int) (intr : Nat → BitVec 32) : Prop :=
  interruptCell = 3 → ∀ k < 4,
    specifierAt gicPpi ppiOffset intr (archCursor intr k) = specifierAt gicPpi ppiOffset intr (3 * k)

theorem archRight_iff (hl : 1 ≤ interruptCell) (hu : interruptCell ≤ 3) :
    ArchRight interruptCell intr (archInterrupts interruptCell intr) ↔ ArchAligned interruptCell intr := by
  by_cases h3 : interruptCell = 3
  case pos =>
    subst h3
    simp only [archInterrupts_three, ArchRight, ArchAligned, archInterruptAt, if_true, true_implies]
    constructor
    case mp =>
      intro ⟨h0, h1, h2, h3⟩ k hk
      interval_cases k
      · exact h0
      · exact h1
      · exact h2
      · exact h3
    case mpr => exact fun h => ⟨h 0 (by decide), h 1 (by decide), h 2 (by decide), h 3 (by decide)⟩
  case neg =>
    refine iff_of_true ?_ fun h => absurd h h3
    have hskip : 1 + (interruptCell - 1).toNat = interruptCell.toNat := by omega
    simp only [archInterrupts, if_neg h3, ArchRight, archInterruptAt, hskip]
    refine ⟨rfl, ?_, ?_, ?_⟩
    · rw [Nat.mul_one]
    · rw [Nat.mul_two]
    · rw [show 3 = 2 + 1 from rfl, Nat.mul_succ, Nat.mul_two]

end Arch

section Frame

variable {intr : Property} {interruptCell : Int}

-- The second specifier is read where it is, or there is none.
def FrameAligned (interruptCell : Int) (intr : Property) : Prop :=
  interruptCell = 3 → intr.len ≠ 12 → intr.cells 0 ≠ gicSpi →
    specifierAt gicSpi spiOffset intr.cells 2 = specifierAt gicSpi spiOffset intr.cells 3

theorem frameInterrupts_three (hlen : intr.len = 12 ∨ intr.len = 24) :
    frameInterrupts 3 intr =
      (specifierAt gicSpi spiOffset intr.cells 0,
        if intr.len = 12 then 0
        else specifierAt gicSpi spiOffset intr.cells (if intr.cells 0 = gicSpi then 3 else 2)) := by
  have hone : ((intr.len / 4 : Nat) : Int) > 3 ↔ intr.len ≠ 12 := by omega
  simp only [frameInterrupts, if_true, hone, specifierAt]
  by_cases h0 : intr.cells 0 = gicSpi <;> by_cases hl : intr.len = 12 <;> simp [h0, hl]

theorem frameRight_iff (hl : 1 ≤ interruptCell) (hu : interruptCell ≤ 3)
    (hlen : intr.len = 4 * interruptCell.toNat ∨ intr.len = 8 * interruptCell.toNat) :
    frameInterrupts interruptCell intr = frameInterruptsAt interruptCell intr ↔
      FrameAligned interruptCell intr := by
  by_cases h3 : interruptCell = 3
  case pos =>
    subst h3
    rw [frameInterrupts_three hlen, frameInterruptsAt, FrameAligned]
    by_cases h12 : intr.len = 12
    case pos => simp [h12]
    case neg =>
      by_cases h0 : intr.cells 0 = gicSpi
      case pos => simp [h12, h0]
      case neg => simp [h12, h0]
  case neg =>
    refine iff_of_true ?_ fun h => absurd h h3
    have hskip : 1 + (interruptCell - 1).toNat = interruptCell.toNat := by omega
    have hone : ((intr.len / 4 : Nat) : Int) > interruptCell ↔ ¬intr.len = 4 * interruptCell.toNat := by omega
    simp only [frameInterrupts, frameInterruptsAt, if_neg h3, hskip, hone, Nat.mul_zero, Nat.mul_one, ite_not]

end Frame

section Types

-- Specifiers of three cells, by their types, numbers and flags.
def specifiers (types numbers flags : Nat → BitVec 32) (i : Nat) : BitVec 32 :=
  if i % 3 = 0 then types (i / 3) else if i % 3 = 1 then numbers (i / 3) else flags (i / 3)

variable {types : Nat → BitVec 32}

theorem addOffset_eq_zero_iff {number : BitVec 32} {offset : Nat} (ho : 0 < offset) (hl : offset < 2 ^ 32) :
    addOffset number offset = 0 ↔ number.toNat = 2 ^ 32 - offset := by
  have := number.isLt
  rw [addOffset]
  omega

section Arch

variable {numbers flags : Nat → BitVec 32}

-- The cursor goes on by a whole specifier if the word there is the type, and else it stops at the flags.
theorem archCursor_succ_of_eq {intr : Nat → BitVec 32} {k i : Nat} (hi : archCursor intr k = i) (h : intr i = gicPpi) :
    archCursor intr (k + 1) = i + 3 := by
  rw [archCursor, hi, if_pos h]

theorem archCursor_succ_of_ne {intr : Nat → BitVec 32} {k i : Nat} (hi : archCursor intr k = i) (h : intr i ≠ gicPpi) :
    archCursor intr (k + 1) = i + 2 := by
  rw [archCursor, hi, if_neg h]

theorem archCursor_one (h : types 0 = gicPpi) : archCursor (specifiers types numbers flags) 1 = 3 :=
  archCursor_succ_of_eq rfl h

theorem archCursor_two (h0 : types 0 = gicPpi) (h1 : types 1 = gicPpi) :
    archCursor (specifiers types numbers flags) 2 = 6 :=
  archCursor_succ_of_eq (archCursor_one h0) h1

theorem archCursor_three (h0 : types 0 = gicPpi) (h1 : types 1 = gicPpi) :
    archCursor (specifiers types numbers flags) 3 = if types 2 = gicPpi then 9 else 8 := by
  split
  case isTrue h2  => exact archCursor_succ_of_eq (archCursor_two h0 h1) h2
  case isFalse h2 => exact archCursor_succ_of_ne (archCursor_two h0 h1) h2

end Arch

-- A cursor on the number 5 of a PPI, for a specifier with the number 0.
theorem not_aligned_of_cursor {intr : Nat → BitVec 32} {k i : Nat} (hk : k < 4) (hcursor : archCursor intr k = i)
    (htype : intr i = gicPpi) (hread : intr (i + 1) = 5) (hnumber : intr (3 * k + 1) = 0) : ¬ArchAligned 3 intr := by
  intro ha
  have he := ha rfl k hk
  rw [hcursor, specifierAt, if_pos htype, hread, specifierAt, hnumber] at he
  split at he
  case isTrue  => exact absurd he (by decide)
  case isFalse => exact absurd he (by decide)

-- A first specifier of another type: the flags of the first one and the number of the second one are taken
-- for the types of the second and the third one.
theorem not_aligned_first (h : types 0 ≠ gicPpi) :
    ¬ArchAligned 3 (specifiers types (fun k => if k = 1 then 1 else 0) (fun k => if k = 1 then 5 else 0)) := by
  let intr := specifiers types (fun k => if k = 1 then 1 else 0) (fun k => if k = 1 then 5 else 0)
  have hflags : intr 2 ≠ gicPpi := show (0 : BitVec 32) ≠ gicPpi by decide
  have hcursor : archCursor intr 2 = 4 := archCursor_succ_of_ne (archCursor_succ_of_ne rfl h) hflags
  exact not_aligned_of_cursor (by decide) hcursor rfl rfl rfl

theorem not_aligned_second (h0 : types 0 = gicPpi) (h : types 1 ≠ gicPpi) :
    ¬ArchAligned 3 (specifiers types (fun k => if k = 2 then 1 else 0) (fun k => if k = 2 then 5 else 0)) := by
  let intr := specifiers types (fun k => if k = 2 then 1 else 0) (fun k => if k = 2 then 5 else 0)
  have hflags : intr 5 ≠ gicPpi := show (0 : BitVec 32) ≠ gicPpi by decide
  have hcursor : archCursor intr 3 = 7 :=
    archCursor_succ_of_ne (archCursor_succ_of_ne (archCursor_one h0) h) hflags
  exact not_aligned_of_cursor (by decide) hcursor rfl rfl rfl

theorem not_aligned_third (h0 : types 0 = gicPpi) (h1 : types 1 = gicPpi) (h : types 2 ≠ gicPpi)
    (h3 : (types 3).toNat ≠ 2 ^ 32 - ppiOffset) :
    ¬ArchAligned 3 (specifiers types (fun _ => 0) (fun _ => gicPpi)) := by
  intro ha
  have he := ha rfl 3 (by decide)
  rw [archCursor_three h0 h1, if_neg h] at he
  simp only [specifierAt, specifiers] at he
  norm_num at he
  by_cases ht : types 3 = gicPpi
  case pos => simp [ht, addOffset, gicPpi, ppiOffset] at he
  case neg =>
    rw [if_neg ht] at he
    exact h3 ((addOffset_eq_zero_iff (by decide) (by decide)).mp he)

-- All timers of the PE are right for these types, whatever the numbers and the flags are.
theorem arch_types_iff :
    (∀ numbers flags, ArchAligned 3 (specifiers types numbers flags)) ↔
      types 0 = gicPpi ∧ types 1 = gicPpi ∧ (types 2 = gicPpi ∨ (types 3).toNat = 2 ^ 32 - ppiOffset) := by
  constructor
  case mp =>
    intro h
    have h0 : types 0 = gicPpi := by
      by_contra h0
      exact not_aligned_first h0 (h _ _)
    have h1 : types 1 = gicPpi := by
      by_contra h1
      exact not_aligned_second h0 h1 (h _ _)
    refine ⟨h0, h1, ?_⟩
    by_contra hc
    have ⟨h2, h3⟩ := not_or.mp hc
    exact not_aligned_third h0 h1 h2 h3 (h _ _)
  case mpr =>
    intro ⟨h0, h1, h2⟩ numbers flags _ k hk
    interval_cases k
    · rfl
    · rw [archCursor_one h0]
    · rw [archCursor_two h0 h1]
    · rw [archCursor_three h0 h1]
      split
      case isTrue => rfl
      case isFalse hn =>
        have h3 := h2.resolve_left hn
        have ht : types 3 ≠ gicPpi := by
          intro ht
          rw [ht] at h3
          exact absurd h3 (by decide)
        simp only [specifierAt, specifiers]
        norm_num
        rw [if_neg ht, (addOffset_eq_zero_iff (by decide) (by decide)).mpr h3, ite_self]

theorem frame_types_iff :
    (∀ numbers flags, FrameAligned 3 ⟨24, specifiers types numbers flags⟩) ↔
      types 0 = gicSpi ∨ (types 1).toNat = 2 ^ 32 - spiOffset := by
  constructor
  case mp =>
    intro h
    by_contra hc
    have ⟨h0, h1⟩ := not_or.mp hc
    have he := h (fun _ => 1) (fun _ => gicSpi) rfl (show 24 ≠ 12 by decide) h0
    simp only [specifierAt, specifiers] at he
    norm_num at he
    by_cases ht : types 1 = gicSpi
    case pos => simp [ht, addOffset, gicSpi, spiOffset] at he
    case neg =>
      rw [if_neg ht] at he
      exact h1 ((addOffset_eq_zero_iff (by decide) (by decide)).mp he)
  case mpr =>
    intro h numbers flags _ _ h0
    have h1 := h.resolve_left h0
    have ht : types 1 ≠ gicSpi := by
      intro ht
      rw [ht] at h1
      exact absurd h1 (by decide)
    simp only [specifierAt, specifiers]
    norm_num
    rw [if_neg ht, (addOffset_eq_zero_iff (by decide) (by decide)).mpr h1, ite_self]

end Types

-- What the function reads of the interrupts of a frame.
structure FrameData where
  interruptCell : Int
  intr          : Property

-- One or two specifiers.
structure FrameData.Specified (data : FrameData) : Prop where
  cells : 1 ≤ data.interruptCell ∧ data.interruptCell ≤ 3
  len   : data.intr.len = 4 * data.interruptCell.toNat ∨ data.intr.len = 8 * data.interruptCell.toNat

def frameData (fdt : Libfdt) (node : Nat) : Option FrameData :=
  match fdtInterruptCells fdt node, fdt.getprop node "interrupts" with
  | some interruptCell, some intr => some ⟨interruptCell, intr⟩
  | _, _                          => none

def TimerHeader.gsivs (header : TimerHeader) : Nat × Nat × Nat × Nat :=
  (header.sEl1TimerGsiv, header.nsEl1TimerGsiv, header.virtualTimerGsiv, header.el2TimerGsiv)

-- A timer of the PE with four specifiers or more, and the frames of the memory mapped timer if there is one.
structure TimerTree (fdt : Libfdt) (arch : FrameData) (frames : List Nat) : Prop where
  found      : 0 ≤ systimerOffset fdt
  data       : frameData fdt (systimerOffset fdt).toNat = some arch
  cells      : 1 ≤ arch.interruptCell ∧ arch.interruptCell ≤ 3
  specifiers : 16 * arch.interruptCell.toNat ≤ arch.intr.len
  absent     : memtimerOffset fdt < 0 → frames = []
  first      : 0 ≤ memtimerOffset fdt → fdt.subnodeOffset (memtimerOffset fdt) "frame" = Libfdt.first frames
  next       : ∀ pre (node : Nat) post, frames = pre ++ node :: post → fdt.nextSubnode node = Libfdt.first post
  inside     : frames.length ≤ fdt.totalsize
  frame      : ∀ node ∈ frames, ∃ data, frameData fdt node = some data ∧ data.Specified

-- The timers of the PE and all frames have the interrupts of their own specifiers.
def TimerRight (fdt : Libfdt) (arch : FrameData) (frames : List Nat) (result : Option TimerTable) : Prop :=
  ∃ table, result = some table ∧ ArchRight arch.interruptCell arch.intr.cells table.header.gsivs ∧
    table.header.numPlatformTimer = frames.length ∧
    ∀ j (hj : j < frames.length), ∀ data ∈ frameData fdt frames[j],
      (table.gtInfo.gsiv j, table.gtInfo.virtGsiv j) = frameInterruptsAt data.interruptCell data.intr

-- The cells and the address of the memory mapped timer are those that the function takes.
structure MemTimerReadable (fdt : Libfdt) : Prop where
  parentSizeCells    : 0 ≤ fdt.sizeCells (fdt.parentOffset (memtimerOffset fdt))
  parentAddressCells : 1 ≤ fdt.addressCells (fdt.parentOffset (memtimerOffset fdt)) ∧
    fdt.addressCells (fdt.parentOffset (memtimerOffset fdt)) ≤ 2
  reg                : (fdt.getprop (memtimerOffset fdt) "reg").isSome
  sizeCells          : 0 ≤ fdt.sizeCells (memtimerOffset fdt)
  addressCells       : 1 ≤ fdt.addressCells (memtimerOffset fdt) ∧ fdt.addressCells (memtimerOffset fdt) ≤ 2

-- The frames are all reached and there are entries for them, and the cursor stands where the specifiers are.
structure TimerAligned (fdt : Libfdt) (arch : FrameData) (frames : List Nat) : Prop where
  arch     : ArchAligned arch.interruptCell arch.intr.cells
  readable : frames ≠ [] → MemTimerReadable fdt
  count    : frames.length ≤ blockFrames
  reg      : ∀ node ∈ frames, (fdt.getprop node "reg").isSome
  frames   : ∀ node ∈ frames, ∀ data ∈ frameData fdt node, FrameAligned data.interruptCell data.intr

-- What one frame does to the table.
structure FrameFilled (table table' : TimerTable) (interrupts : Nat × Nat) : Prop where
  space    : table.gtInfo.timerCount < blockFrames
  header   : table'.header = table.header
  count    : table'.gtInfo.timerCount = table.gtInfo.timerCount + 1
  gsiv     : table'.gtInfo.gsiv = Function.update table.gtInfo.gsiv table.gtInfo.timerCount interrupts.fst
  virtGsiv : table'.gtInfo.virtGsiv = Function.update table.gtInfo.virtGsiv table.gtInfo.timerCount interrupts.snd

section

variable {fdt : Libfdt} {node : Nat} {addrCell : Int} {table table' : TimerTable} {data : FrameData}

theorem frameData_eq_some (h : frameData fdt node = some data) :
    fdtInterruptCells fdt node = some data.interruptCell ∧ fdt.getprop node "interrupts" = some data.intr := by
  rw [frameData] at h
  split at h
  case h_1 hc hi =>
    cases h
    exact ⟨hc, hi⟩
  case h_2 => cases h

theorem frameNode_ok (hd : frameData fdt node = some data) (h : frameNode fdt addrCell table node = .ok table') :
    (fdt.getprop node "reg").isSome ∧
      FrameFilled table table' (frameInterrupts data.interruptCell data.intr) := by
  have ⟨hc, hi⟩ := frameData_eq_some hd
  rw [frameNode, hc, hi] at h
  split at h
  case h_2 => cases h
  case h_1 hreg hintr =>
    cases hintr
    dsimp only at h
    split at h
    · cases h
    · split at h
      · cases h
      case isFalse hspace =>
        cases h
        exact ⟨hreg ▸ rfl, Nat.lt_of_not_le hspace, rfl, rfl, rfl, rfl⟩

theorem frameNode_isOk (hd : frameData fdt node = some data) (hs : data.Specified)
    (hreg : (fdt.getprop node "reg").isSome) (hspace : table.gtInfo.timerCount < blockFrames) :
    ∃ table', frameNode fdt addrCell table node = .ok table' := by
  have ⟨hc, hi⟩ := frameData_eq_some hd
  have ⟨reg, hreg⟩ := Option.isSome_iff_exists.mp hreg
  have := hs.cells
  rw [frameNode, hreg, hc, hi]
  dsimp only
  rw [if_neg (by omega), if_neg (by omega)]
  exact ⟨_, rfl⟩

-- A node that the function returns at leaves the table as it is.
theorem frameNode_error {offset : Int} (h : frameNode fdt addrCell table offset = .error (some table')) :
    table' = table := by
  rw [frameNode] at h
  split at h
  case h_2 => cases h; rfl
  case h_1 =>
    split at h
    · cases h
    · split at h
      · cases h; rfl
      · split at h <;> cases h

theorem frameNode_header {offset : Int} (h : frameNode fdt addrCell table offset = .ok table') :
    table'.header = table.header := by
  rw [frameNode] at h
  split at h
  case h_2 => cases h
  case h_1 =>
    split at h
    · cases h
    · split at h
      · cases h
      · split at h
        · cases h
        · cases h; rfl

theorem frameLoop_error {fuel : Nat} {offset : Int}
    (h : frameLoop fdt addrCell fuel offset table = .error (some table')) : table'.header = table.header := by
  induction fuel generalizing offset table
  case zero => cases h
  case succ fuel hi =>
    rw [frameLoop] at h
    split at h
    · cases h
    · split at h
      case h_1 he =>
        cases h
        rw [frameNode_error he]
      case h_2 hn => exact (hi h).trans (frameNode_header hn)

-- The loop goes over the frames in their order.
theorem frameLoop_eq {pre nodes : List Nat} {fuel : Nat} (hf : nodes.length < fuel)
    (hnext : ∀ pre' (node : Nat) post, pre ++ nodes = pre' ++ node :: post → fdt.nextSubnode node = Libfdt.first post) :
    frameLoop fdt addrCell fuel (Libfdt.first nodes) table =
      nodes.foldlM (fun table (node : Nat) => frameNode fdt addrCell table node) table := by
  induction nodes generalizing pre fuel table
  case nil =>
    cases fuel
    case zero      => omega
    case succ fuel => rfl
  case cons node nodes hi =>
    cases fuel
    case zero => omega
    case succ fuel =>
      rw [frameLoop, if_neg Libfdt.first_cons_ne, Libfdt.first_cons, hnext pre node nodes rfl, List.foldlM_cons]
      cases frameNode fdt addrCell table node
      case error e   => rfl
      case ok table' =>
        apply hi (by simpa using hf)
        exact List.append_cons pre node nodes ▸ hnext

end

-- What the frames do to the table.
structure FramesFilled (fdt : Libfdt) (table table' : TimerTable) (nodes : List Nat) : Prop where
  header : table'.header = table.header
  count  : table'.gtInfo.timerCount = table.gtInfo.timerCount + nodes.length
  space  : nodes ≠ [] → table'.gtInfo.timerCount ≤ blockFrames
  reg    : ∀ node ∈ nodes, (fdt.getprop node "reg").isSome
  keep   : ∀ k < table.gtInfo.timerCount,
    table'.gtInfo.gsiv k = table.gtInfo.gsiv k ∧ table'.gtInfo.virtGsiv k = table.gtInfo.virtGsiv k
  entry  : ∀ j (hj : j < nodes.length), ∀ data ∈ frameData fdt nodes[j],
    (table'.gtInfo.gsiv (table.gtInfo.timerCount + j), table'.gtInfo.virtGsiv (table.gtInfo.timerCount + j)) =
      frameInterrupts data.interruptCell data.intr

section

variable {fdt : Libfdt} {addrCell : Int} {table table' : TimerTable} {nodes : List Nat}

theorem FramesFilled.nil : FramesFilled fdt table table [] where
  header := rfl
  count  := rfl
  space  := fun h => absurd rfl h
  reg    := fun _ h => absurd h List.not_mem_nil
  keep   := fun _ _ => ⟨rfl, rfl⟩
  entry  := fun _ hj => absurd hj (Nat.not_lt_zero _)

-- One frame in front of the others.
theorem FramesFilled.cons {node : Nat} {data : FrameData} {table'' : TimerTable}
    (hd : frameData fdt node = some data) (hr : (fdt.getprop node "reg").isSome)
    (hf : FrameFilled table table' (frameInterrupts data.interruptCell data.intr))
    (h : FramesFilled fdt table' table'' nodes) : FramesFilled fdt table table'' (node :: nodes) where
  header := h.header.trans hf.header
  count  := by
    rw [h.count, hf.count, List.length_cons]
    omega
  space  := by
    intro _
    cases nodes
    case nil  =>
      rw [h.count, hf.count]
      exact hf.space
    case cons => exact h.space (List.cons_ne_nil _ _)
  reg    := List.forall_mem_cons.mpr ⟨hr, h.reg⟩
  keep   := by
    intro k hk
    have ⟨hg, hv⟩ := h.keep k (by rw [hf.count]; omega)
    rw [hg, hv, hf.gsiv, hf.virtGsiv]
    exact ⟨Function.update_of_ne hk.ne .., Function.update_of_ne hk.ne ..⟩
  entry  := by
    intro j hj data' hd'
    cases j
    case zero =>
      have ⟨hg, hv⟩ := h.keep table.gtInfo.timerCount (by rw [hf.count]; omega)
      obtain rfl := Option.some.inj (hd.symm.trans hd')
      rw [Nat.add_zero, hg, hv, hf.gsiv, hf.virtGsiv, Function.update_self, Function.update_self]
    case succ j =>
      have he := h.entry j (by simpa using hj) data' hd'
      rwa [hf.count, Nat.add_assoc, Nat.add_comm 1 j] at he

theorem foldlM_frameNode_ok (hd : ∀ node ∈ nodes, ∃ data, frameData fdt node = some data)
    (h : nodes.foldlM (fun table (node : Nat) => frameNode fdt addrCell table node) table = .ok table') :
    FramesFilled fdt table table' nodes := by
  induction nodes generalizing table
  case nil =>
    cases h
    exact .nil
  case cons node nodes hi =>
    rw [List.foldlM_cons] at h
    have ⟨data, hdata⟩ := hd node List.mem_cons_self
    cases hn : frameNode fdt addrCell table node
    case error e =>
      rw [hn] at h
      cases h
    case ok table₁ =>
      rw [hn] at h
      have ⟨hreg, hfill⟩ := frameNode_ok hdata hn
      exact .cons hdata hreg hfill (hi (fun n hm => hd n (List.mem_cons_of_mem _ hm)) h)

theorem foldlM_frameNode_isOk (hd : ∀ node ∈ nodes, ∃ data, frameData fdt node = some data ∧ data.Specified)
    (hreg : ∀ node ∈ nodes, (fdt.getprop node "reg").isSome)
    (hspace : table.gtInfo.timerCount + nodes.length ≤ blockFrames) :
    ∃ table', nodes.foldlM (fun table (node : Nat) => frameNode fdt addrCell table node) table = .ok table' := by
  induction nodes generalizing table
  case nil => exact ⟨table, rfl⟩
  case cons node nodes hi =>
    rw [List.length_cons] at hspace
    have ⟨data, hdata, hs⟩ := hd node List.mem_cons_self
    have ⟨table₁, hn⟩ : ∃ table₁, frameNode fdt addrCell table node = .ok table₁ :=
      frameNode_isOk hdata hs (hreg node List.mem_cons_self) (by omega)
    have hcount := (frameNode_ok hdata hn).right.count
    rw [List.foldlM_cons, hn]
    apply hi (fun n hm => hd n (List.mem_cons_of_mem _ hm)) (fun n hm => hreg n (List.mem_cons_of_mem _ hm))
    omega

end

section

variable {fdt : Libfdt} {arch : FrameData} {frames : List Nat} {table table' : TimerTable}

-- The table at the first frame: the block has its type and its address.
def TimerTable.atFrames (table : TimerTable) (addrCell : Int) (reg : Property) : TimerTable :=
  { table with
    gtInfo := { table.gtInfo with
      type          := timerTypeSysTimer
      blockCntlBase := readAddress addrCell reg.cells 0 } }

def TimerTable.withCount (table : TimerTable) : TimerTable :=
  { table with header := { table.header with numPlatformTimer := table.gtInfo.timerCount } }

-- The function gets to the frames, or it returns with the timers of the PE as they are.
theorem memTimer_cases (fdt : Libfdt) (table : TimerTable) :
    (0 ≤ memtimerOffset fdt ∧ MemTimerReadable fdt ∧ 0 ≤ fdt.subnodeOffset (memtimerOffset fdt) "frame" ∧
      ∃ addrCell reg, memTimer fdt table =
        (frameLoop fdt (fdt.addressCells (memtimerOffset fdt)) (fdt.totalsize + 1)
          (fdt.subnodeOffset (memtimerOffset fdt) "frame") (table.atFrames addrCell reg)).map TimerTable.withCount) ∨
    (¬(0 ≤ memtimerOffset fdt ∧ MemTimerReadable fdt ∧ 0 ≤ fdt.subnodeOffset (memtimerOffset fdt) "frame") ∧
      ∃ table', memTimer fdt table = .error (some table') ∧ table'.header = table.header) := by
  generalize hr : memTimer fdt table = r
  rw [memTimer] at hr
  dsimp only at hr
  split at hr
  case isTrue h => exact .inr ⟨fun ⟨h', _⟩ => by omega, table, hr.symm, rfl⟩
  case isFalse hfound =>
    split at hr
    case isTrue h => exact .inr ⟨fun ⟨_, h', _⟩ => absurd h'.parentSizeCells (by omega), table, hr.symm, rfl⟩
    case isFalse hs =>
      split at hr
      case isTrue h => exact .inr ⟨fun ⟨_, h', _⟩ => absurd h'.parentAddressCells (by omega), table, hr.symm, rfl⟩
      case isFalse ha =>
        split at hr
        case h_1 h => exact .inr ⟨fun ⟨_, h', _⟩ => absurd h'.reg (by simp [h]), table, hr.symm, rfl⟩
        case h_2 reg hreg =>
          split at hr
          case isTrue h => exact .inr ⟨fun ⟨_, h', _⟩ => absurd h'.sizeCells (by omega), _, hr.symm, rfl⟩
          case isFalse hs' =>
            split at hr
            case isTrue h => exact .inr ⟨fun ⟨_, h', _⟩ => absurd h'.addressCells (by omega), _, hr.symm, rfl⟩
            case isFalse ha' =>
              split at hr
              case isTrue h => exact .inr ⟨fun ⟨_, _, h'⟩ => by omega, _, hr.symm, rfl⟩
              case isFalse hsub =>
                refine .inl ⟨by omega, ⟨by omega, by omega, hreg ▸ rfl, by omega, by omega⟩, by omega,
                  fdt.addressCells (fdt.parentOffset (memtimerOffset fdt)), reg, ?_⟩
                rw [←hr, TimerTable.atFrames]
                cases frameLoop fdt (fdt.addressCells (memtimerOffset fdt)) (fdt.totalsize + 1) _ _ <;> rfl

-- What is in the table when the function returns.
def tableOf : Except (Option TimerTable) TimerTable → Option TimerTable
  | .error result => result
  | .ok table     => some table

-- All frames are reached, and there are entries for them.
structure FramesReached (fdt : Libfdt) (frames : List Nat) : Prop where
  readable : frames ≠ [] → MemTimerReadable fdt
  count    : frames.length ≤ blockFrames
  reg      : ∀ node ∈ frames, (fdt.getprop node "reg").isSome

theorem FramesReached.nil : FramesReached fdt [] where
  readable := fun h => absurd rfl h
  count    := Nat.zero_le _
  reg      := fun _ h => absurd h List.not_mem_nil

theorem TimerTree.frameLoop_eq {addrCell : Int} (h : TimerTree fdt arch frames) (hf : 0 ≤ memtimerOffset fdt) :
    frameLoop fdt addrCell (fdt.totalsize + 1) (fdt.subnodeOffset (memtimerOffset fdt) "frame") table =
      frames.foldlM (fun table (node : Nat) => frameNode fdt addrCell table node) table := by
  have hnext : ∀ pre' (node : Nat) post, [] ++ frames = pre' ++ node :: post →
      fdt.nextSubnode node = Libfdt.first post := h.next
  rw [h.first hf]
  exact Dt.frameLoop_eq (Nat.lt_succ_of_le h.inside) hnext

theorem TimerTree.exists_data (h : TimerTree fdt arch frames) : ∀ node ∈ frames, ∃ data, frameData fdt node = some data :=
  fun node hm => let ⟨data, hd, _⟩ := h.frame node hm; ⟨data, hd⟩

theorem TimerTree.subnode_nonneg_iff (h : TimerTree fdt arch frames) (hf : 0 ≤ memtimerOffset fdt) :
    0 ≤ fdt.subnodeOffset (memtimerOffset fdt) "frame" ↔ frames ≠ [] := by
  rw [h.first hf, Libfdt.first_nonneg_iff]

theorem memTimer_of_reached (h : TimerTree fdt arch frames) (hr : FramesReached fdt frames)
    (hc : table.gtInfo.timerCount = 0) (hn : table.header.numPlatformTimer = 0) :
    ∃ table', tableOf (memTimer fdt table) = some table' ∧ table'.header.gsivs = table.header.gsivs ∧
      table'.header.numPlatformTimer = frames.length ∧
      ∀ j (hj : j < frames.length), ∀ data ∈ frameData fdt frames[j],
        (table'.gtInfo.gsiv j, table'.gtInfo.virtGsiv j) = frameInterrupts data.interruptCell data.intr := by
  rcases memTimer_cases fdt table with ⟨hf, _, _, a, reg, hm⟩ | ⟨hnot, table', hm, hh⟩
  case inl =>
    rw [h.frameLoop_eq hf] at hm
    have ⟨table', hok⟩ : ∃ table', frames.foldlM (fun table (node : Nat) =>
        frameNode fdt (fdt.addressCells (memtimerOffset fdt)) table node) (table.atFrames a reg) = .ok table' := by
      apply foldlM_frameNode_isOk h.frame hr.reg
      exact (congrArg (· + frames.length) hc).trans_le (by simpa using hr.count)
    have hfill := foldlM_frameNode_ok h.exists_data hok
    have hcount : table'.gtInfo.timerCount = frames.length :=
      hfill.count.trans ((congrArg (· + frames.length) hc).trans (Nat.zero_add _))
    rw [hm, hok]
    have hgsivs : table'.header.gsivs = table.header.gsivs := congrArg TimerHeader.gsivs hfill.header
    refine ⟨table'.withCount, rfl, hgsivs, hcount, fun j hj data hd => ?_⟩
    have he := hfill.entry j hj data hd
    rwa [show (table.atFrames a reg).gtInfo.timerCount = 0 from hc, Nat.zero_add] at he
  case inr =>
    have hnil : frames = [] := by
      by_contra hne
      have hf : 0 ≤ memtimerOffset fdt := by
        by_contra hneg
        exact hne (h.absent (by omega))
      exact hnot ⟨hf, hr.readable hne, (h.subnode_nonneg_iff hf).mpr hne⟩
    subst hnil
    rw [hm]
    exact ⟨table', rfl, congrArg TimerHeader.gsivs hh, hh ▸ hn, fun j hj => absurd hj (Nat.not_lt_zero j)⟩

theorem reached_of_memTimer (h : TimerTree fdt arch frames) (hc : table.gtInfo.timerCount = 0)
    (hn : table.header.numPlatformTimer = 0) (ht : tableOf (memTimer fdt table) = some table')
    (hl : table'.header.numPlatformTimer = frames.length) : FramesReached fdt frames := by
  by_cases hne : frames = []
  case pos => exact hne ▸ .nil
  case neg =>
    have hpos : frames.length ≠ 0 := fun h0 => hne (List.length_eq_zero_iff.mp h0)
    rcases memTimer_cases fdt table with ⟨hf, hread, _, a, reg, hm⟩ | ⟨_, table'', hm, hh⟩
    case inr =>
      rw [hm] at ht
      obtain rfl := Option.some.inj ht
      rw [hh, hn] at hl
      exact absurd hl.symm hpos
    case inl =>
      rw [hm] at ht
      cases hloop : frameLoop fdt (fdt.addressCells (memtimerOffset fdt)) (fdt.totalsize + 1)
        (fdt.subnodeOffset (memtimerOffset fdt) "frame") (table.atFrames a reg)
      case error e =>
        rw [hloop] at ht
        obtain rfl : e = some table' := ht
        rw [frameLoop_error hloop] at hl
        exact absurd (hl.symm.trans hn) hpos
      case ok result =>
        rw [h.frameLoop_eq hf] at hloop
        have hfill := foldlM_frameNode_ok h.exists_data hloop
        have hcount : result.gtInfo.timerCount = frames.length :=
          hfill.count.trans ((congrArg (· + frames.length) hc).trans (Nat.zero_add _))
        exact ⟨fun _ => hread, hcount ▸ hfill.space hne, hfill.reg⟩

-- The timers of the PE are read first.
theorem archTimer_of_tree (table : TimerTable) (h : TimerTree fdt arch frames) :
    ∃ table', archTimer fdt (resetTable table) = .ok table' ∧
      table'.header.gsivs = archInterrupts arch.interruptCell arch.intr.cells ∧
      table'.header.numPlatformTimer = 0 ∧ table'.gtInfo.timerCount = 0 := by
  have ⟨hc, hi⟩ := frameData_eq_some h.data
  have hf := h.found
  have := h.cells
  rw [Int.toNat_of_nonneg hf] at hc hi
  rw [archTimer]
  dsimp only
  rw [if_neg (by omega), hc]
  dsimp only
  rw [if_neg (by omega), hi]
  dsimp only
  cases fdt.getprop (systimerOffset fdt) "always-on"
  case none   => exact ⟨_, rfl, rfl, rfl, rfl⟩
  case some _ => exact ⟨_, rfl, rfl, rfl, rfl⟩

theorem timer_right_iff (h : TimerTree fdt arch frames) :
    TimerRight fdt arch frames (palTimerCreateInfoTableDt fdt table) ↔ TimerAligned fdt arch frames := by
  have ⟨table₀, harch, hgsivs, hnum, hcount⟩ := archTimer_of_tree table h
  have hres : palTimerCreateInfoTableDt fdt table = tableOf (memTimer fdt table₀) := by
    rw [palTimerCreateInfoTableDt, harch]
    rfl
  have hcells := h.cells
  rw [hres]
  constructor
  case mp =>
    intro ⟨table', ht, ha, hl, hframes⟩
    have hr := reached_of_memTimer h hcount hnum ht hl
    have ⟨table'', ht', hg, _, hread⟩ := memTimer_of_reached h hr hcount hnum
    obtain rfl := Option.some.inj (ht.symm.trans ht')
    rw [hg, hgsivs] at ha
    refine ⟨(archRight_iff hcells.left hcells.right).mp ha, hr.readable, hr.count, hr.reg, fun node hm data hd => ?_⟩
    have ⟨j, hj, he⟩ := List.mem_iff_getElem.mp hm
    have ⟨data', hd', hs⟩ := h.frame node hm
    obtain rfl := Option.some.inj (hd.symm.trans hd')
    subst he
    exact (frameRight_iff hs.cells.left hs.cells.right hs.len).mp ((hread j hj data hd).symm.trans (hframes j hj data hd))
  case mpr =>
    intro ha
    have ⟨table', ht, hg, hl, hread⟩ := memTimer_of_reached h ⟨ha.readable, ha.count, ha.reg⟩ hcount hnum
    refine ⟨table', ht, ?_, hl, fun j hj data hd => ?_⟩
    · rw [hg, hgsivs]
      exact (archRight_iff hcells.left hcells.right).mpr ha.arch
    · have ⟨data', hd', hs⟩ := h.frame _ (List.getElem_mem hj)
      obtain rfl := Option.some.inj (hd.symm.trans hd')
      rw [hread j hj data hd]
      exact (frameRight_iff hs.cells.left hs.cells.right hs.len).mpr (ha.frames _ (List.getElem_mem hj) data hd)

end

-- The timers are right if and only if the cursor is where the specifiers are. With specifiers of three cells
-- that is so for all numbers and flags if the first three timers of the PE have PPIs and the first interrupt of
-- a frame is an SPI.
theorem timer_table_iff (fdt : Libfdt) (arch : FrameData) (frames : List Nat) (table : TimerTable)
    (types : Nat → BitVec 32) (h : TimerTree fdt arch frames) :
    (TimerRight fdt arch frames (palTimerCreateInfoTableDt fdt table) ↔ TimerAligned fdt arch frames) ∧
    ((∀ numbers flags, ArchAligned 3 (specifiers types numbers flags)) ↔
      types 0 = gicPpi ∧ types 1 = gicPpi ∧ (types 2 = gicPpi ∨ (types 3).toNat = 2 ^ 32 - ppiOffset)) ∧
    ((∀ numbers flags, FrameAligned 3 ⟨24, specifiers types numbers flags⟩) ↔
      types 0 = gicSpi ∨ (types 1).toNat = 2 ^ 32 - spiOffset) :=
  ⟨timer_right_iff h, arch_types_iff, frame_types_iff⟩

-- A timer of the PE and a memory mapped one with one frame, with interrupts of three cells.
def timers (arch frame : List (BitVec 32)) : Libfdt where
  totalsize              := 1024
  nodeOffsetByCompatible := fun start compatible =>
    if compatible = "arm,armv8-timer" then Libfdt.search [64] start
    else if compatible = "arm,armv7-timer-mem" then Libfdt.search [128] start
    else -fdtErrNotfound
  nodeOffsetByPhandle    := fun _ => -fdtErrNotfound
  parentOffset           := fun nodeoffset =>
    if nodeoffset = 0 then -fdtErrNotfound else if nodeoffset = 192 then 128 else 0
  subnodeOffset          := fun nodeoffset name =>
    if nodeoffset = 128 ∧ name = "frame" then 192 else -fdtErrNotfound
  nextSubnode            := fun _ => -fdtErrNotfound
  sizeCells              := fun _ => 1
  addressCells           := fun _ => 1
  getprop                := fun nodeoffset name =>
    if name = "#interrupt-cells" ∧ nodeoffset = 0 then some ⟨4, fun _ => 3⟩
    else if name = "interrupts" ∧ nodeoffset = 64 then some ⟨4 * arch.length, fun i => arch.getD i 0⟩
    else if name = "interrupts" ∧ nodeoffset = 192 then some ⟨4 * frame.length, fun i => frame.getD i 0⟩
    else if name = "reg" ∧ (nodeoffset = 128 ∨ nodeoffset = 192) then some ⟨8, fun i => [0x2a810000, 0x10000].getD i 0⟩
    else none

theorem timers_tree {arch frame : List (BitVec 32)} (ha : 12 ≤ arch.length)
    (hf : frame.length = 3 ∨ frame.length = 6) :
    TimerTree (timers arch frame) ⟨3, 4 * arch.length, fun i => arch.getD i 0⟩ [192] := by
  have hroot : interruptCellsStep (timers arch frame) 0 = .inr 3 := rfl
  have harch : fdtInterruptCells (timers arch frame) 64 = some 3 :=
    (Loop.Leaves.next (show interruptCellsStep (timers arch frame) 64 = .inl 0 from rfl) (.now hroot)).run
      (show 2 ≤ 1024 by decide)
  have hframe : fdtInterruptCells (timers arch frame) 192 = some 3 :=
    (Loop.Leaves.next (show interruptCellsStep (timers arch frame) 192 = .inl 128 from rfl)
      (.next (show interruptCellsStep (timers arch frame) 128 = .inl 0 from rfl) (.now hroot))).run
      (show 3 ≤ 1024 by decide)
  exact {
    found      := show (0 : Int) ≤ 64 by decide
    data       := by
      rw [show (systimerOffset (timers arch frame)).toNat = 64 from rfl, frameData, Nat.cast_ofNat, harch]
      rfl
    cells      := ⟨show (1 : Int) ≤ 3 by decide, le_refl _⟩
    specifiers := show 48 ≤ 4 * arch.length by omega
    absent     := fun h => absurd h (show ¬(128 : Int) < 0 by decide)
    first      := fun _ => rfl
    next       := by
      intro pre node post h
      have hpost : post = [] := by
        cases pre
        case nil      => exact (List.cons.inj h).right.symm
        case cons _ p => cases p <;> simp at h
      rw [hpost]
      rfl
    inside     := show 1 ≤ 1024 by decide
    frame      := by
      intro node hm
      obtain rfl := List.mem_singleton.mp hm
      refine ⟨⟨3, 4 * frame.length, fun i => frame.getD i 0⟩, ?_, ⟨⟨show (1 : Int) ≤ 3 by decide, le_refl _⟩, ?_⟩⟩
      · rw [frameData, Nat.cast_ofNat, hframe]
        rfl
      · show 4 * frame.length = 12 ∨ 4 * frame.length = 24
        omega
  }

def emptyTable : TimerTable where
  header := ⟨0, 0, 0, 0, 0, 0, 0, 0, 0, 0, 0⟩
  gtInfo := ⟨0, 0, 0, fun _ => 0, fun _ => 0, fun _ => 0, fun _ => 0, fun _ => 0, fun _ => 0⟩

def ppis : List (BitVec 32) := [1, 13, 4, 1, 14, 4, 1, 11, 4, 1, 10, 4]

-- Only PPIs and only SPIs.
theorem timers_aligned :
    TimerRight (timers ppis [0, 26, 4, 0, 27, 4]) ⟨3, 48, fun i => ppis.getD i 0⟩ [192]
      (palTimerCreateInfoTableDt (timers ppis [0, 26, 4, 0, 27, 4]) emptyTable) :=
  (timer_table_iff _ _ _ emptyTable (fun _ => gicPpi) (timers_tree (by decide) (by decide))).left.mpr {
    arch     := by
      intro _ k hk
      interval_cases k <;> rfl
    readable := fun _ => ⟨by decide, by decide, rfl, by decide, by decide⟩
    count    := by decide
    reg      := fun node hm => by
      obtain rfl := List.mem_singleton.mp hm
      rfl
    frames   := fun node hm data hd _ _ h0 => by
      obtain rfl := List.mem_singleton.mp hm
      have hi := (frameData_eq_some hd).right
      rw [←Option.some.inj hi] at h0
      exact absurd rfl h0
  }

-- An SPI in front of the timers of the PE, and a PPI in front of the second interrupt of a frame.
theorem other_type_shifts :
    let fdt := timers ([0, 13, 4] ++ ppis.drop 3) [1, 26, 4, 0, 27, 4]
    let arch : FrameData := ⟨3, 48, fun i => ([0, 13, 4] ++ ppis.drop 3).getD i 0⟩
    let result := palTimerCreateInfoTableDt fdt emptyTable
    TimerTree fdt arch [192] ∧
    (result.map fun table => table.header.gsivs) = some (0, 0, 0, 27) ∧
    (List.range 4).map (archInterruptAt 3 arch.intr.cells) = [0, 30, 27, 26] ∧
    (result.map fun table => (table.gtInfo.gsiv 0, table.gtInfo.virtGsiv 0)) = some (0, 0) ∧
    (frameData fdt 192).map (fun data => frameInterruptsAt data.interruptCell data.intr) = some (0, 59) ∧
    ¬TimerRight fdt arch [192] result := by
  intro fdt arch result
  have hres : (result.map fun table => table.header.gsivs) = some (0, 0, 0, 27) := by decide +kernel
  refine ⟨timers_tree (by decide) (by decide), hres, by decide +kernel, by decide +kernel, by decide +kernel, ?_⟩
  intro ⟨table, ht, ha, _⟩
  rw [ht] at hres
  rw [show table.header.gsivs = (0, 0, 0, 27) from Option.some.inj hres] at ha
  exact absurd ha.right.left (by decide)

end Dt
