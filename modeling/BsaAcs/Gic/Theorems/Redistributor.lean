import BsaAcs.Gic.Redistributor
import BsaAcs.Lib.Bits
import Mathlib.Tactic

namespace Gic

-- The redistributors that a table describes, in table order.

def frameSize : Nat := 0x20000

def framesFrom (size : Nat) : Nat → Nat → List Nat
  | 0, _ => []
  | n + 1, base => base :: framesFrom size n (base + size)

def GicInfoEntry.IsRd (entry : GicInfoEntry) : Prop :=
  entry.type = entryTypeGicrGicrd ∨ entry.type = entryTypeGiccGicrd

instance : DecidablePred GicInfoEntry.IsRd :=
  fun _ => inferInstanceAs (Decidable (_ ∨ _))

-- A range that the GICR structure gives, or the one frame that the GICC structure gives.
def GicInfoEntry.frames (entry : GicInfoEntry) : List Nat :=
  if entry.type = entryTypeGicrGicrd ∧ entry.length ≠ 0 then
    framesFrom frameSize (entry.length / frameSize) entry.base
  else [entry.base]

def rdEntries (table : List GicInfoEntry) : List GicInfoEntry :=
  (table.takeWhile (·.type ≠ entryTypeEnd)).filter (·.IsRd)

def rdFrames (table : List GicInfoEntry) : List Nat :=
  (rdEntries table).flatMap (·.frames)

-- GICR_TYPER.Affinity_Value of a frame, and the affinity of the current PE in the same format.
def affinityValue (m : Machine) (frame : Nat) : Nat :=
  mmioRead32 m (frame + 0x8 + 0x4)

def cpuAffinity (m : Machine) : Nat :=
  (m.mpidr &&& 0xFFFFFF) ||| ((m.mpidr >>> 32 &&& 0xFF) <<< 24)

def firstFrame (m : Machine) (affinity : Nat) (frames : List Nat) : Nat :=
  (frames.find? (affinityValue m · = affinity)).getD 0

def cpuRedistributor (m : Machine) (table : List GicInfoEntry) : Nat :=
  firstFrame m (cpuAffinity m) (rdFrames table)

-- Redistributors do not lie at address 0; a discovery range is a 32-bit number of frames' bytes.
def WellFormed (table : List GicInfoEntry) : Prop :=
  ∀ entry ∈ rdEntries table,
    entry.base ≠ 0 ∧ frameSize ∣ entry.length ∧ entry.length < 2 ^ 32

-- Both drivers work with the first redistributor of the current PE, the VAL asks only frames of the
-- table, and it leaves the interrupts of a PE without a redistributor alone.
structure Agrees (edk2 : Edk2) (m : Machine) (table : List GicInfoEntry) : Prop where
  val   : (valRdBase m table).1 = cpuRedistributor m table
  pal   : (palGicItsInfo edk2 m table).gicRdBase = cpuRedistributor m table
  asked : ∀ frame ∈ (valRdBase m table).2, frame ∈ rdFrames table
  idle  : cpuRedistributor m table = 0 → ∀ intId, isSpi intId = false →
    v3DisableInterruptSource m table intId = [] ∧ v3EnableInterruptSource m table intId = []

variable {m : Machine} {table : List GicInfoEntry}

section Affinity

theorem valCpuAffinity_eq (m : Machine) : valCpuAffinity m = m.mpidr &&& 0xFF := by
  have h₁ : peAff0 ||| peAff1 ||| peAff2 = 0xFF := by decide
  have h₃ : peAff3 = 0 := by decide
  rw [valCpuAffinity, h₁, h₃]
  simp

theorem palCpuAffinity_eq (m : Machine) :
    palCpuAffinity Edk2.architectural m = cpuAffinity m := by
  have h : (0xFFFFFF : Nat) = 2 ^ 24 - 1 := by decide
  have h' : (0xFF : Nat) = 2 ^ 8 - 1 := by decide
  have ho : (2 ^ 8 - 1 ||| (2 ^ 8 - 1) <<< 8 ||| (2 ^ 8 - 1) <<< 16 : Nat) = 2 ^ 24 - 1 := by decide
  apply Nat.eq_of_testBit_eq
  intro i
  simp only [palCpuAffinity, cpuAffinity, Edk2.architectural, h, h', ho, Nat.testBit_mod_two_pow,
    Nat.testBit_or, Nat.testBit_and, Nat.testBit_shiftRight, Nat.testBit_shiftLeft,
    Nat.testBit_two_pow_sub_one]
  by_cases h₁ : i < 24
  case pos => simp [h₁, show i < 32 by omega, show ¬32 ≤ 8 + i by omega, show ¬24 ≤ i by omega]
  case neg =>
    by_cases h₂ : i < 32
    case pos =>
      simp [h₁, h₂, show 24 ≤ i by omega, show i - 24 < 8 by omega,
        show 8 + i = 32 + (i - 24) by omega]
    case neg => simp [h₁, h₂, show ¬i - 24 < 8 by omega]

theorem valAffinity_eq (m : Machine) (frame : Nat) :
    (mmioRead64 m (frame + gicrTyper) &&& gicrTyperAff) >>> 32 = affinityValue m frame := by
  have hlo := (m.mmio (frame + gicrTyper)).isLt
  have hhi := (m.mmio (frame + gicrTyper + 4)).isLt
  have hd : ((m.mmio (frame + gicrTyper)).toNat +
      2 ^ 32 * (m.mmio (frame + gicrTyper + 4)).toNat) / 2 ^ 32 =
      (m.mmio (frame + gicrTyper + 4)).toNat := by omega
  rw [gicrTyperAff, Nat.shiftRight_and_distrib, Nat.shiftLeft_shiftRight, mmioRead64, mmioRead32,
    mmioRead32, Nat.shiftRight_eq_div_pow, hd, show (0xFFFFFFFF : Nat) = 2 ^ 32 - 1 by decide,
    Nat.and_two_pow_sub_one_eq_mod, Nat.mod_eq_of_lt hhi]
  rfl

end Affinity

section Search

@[simp]
theorem firstFrame_nil : firstFrame m a [] = 0 := rfl

theorem firstFrame_cons :
    firstFrame m a (f :: l) = if affinityValue m f = a then f else firstFrame m a l := by
  by_cases h : affinityValue m f = a <;> simp [firstFrame, h]

theorem firstFrame_append (l l' : List Nat) (h : ∀ f ∈ l, f ≠ 0) :
    firstFrame m a (l ++ l') =
      if firstFrame m a l = 0 then firstFrame m a l' else firstFrame m a l := by
  induction l
  case nil => simp
  case cons f l hi =>
    rw [List.cons_append, firstFrame_cons, firstFrame_cons]
    split
    · simp [h f (by simp)]
    · exact hi fun f hf => h f (by simp [hf])

theorem firstFrame_eq_zero_iff {l : List Nat} (h : ∀ f ∈ l, f ≠ 0) :
    firstFrame m a l = 0 ↔ ∀ f ∈ l, affinityValue m f ≠ a := by
  induction l
  case nil => simp
  case cons f l hi =>
    rw [firstFrame_cons, List.forall_mem_cons]
    split
    case isTrue ha => simp [ha, h f (by simp)]
    case isFalse ha => simp [ha, hi fun f hf => h f (by simp [hf])]

-- What is found has the affinity that was searched for.
theorem affinityValue_firstFrame {l : List Nat} (h : firstFrame m a l ≠ 0) :
    affinityValue m (firstFrame m a l) = a := by
  induction l
  case nil => simp at h
  case cons f l hi =>
    rw [firstFrame_cons] at h ⊢
    split
    case isTrue ha => exact ha
    case isFalse ha =>
      rw [if_neg ha] at h
      exact hi h

theorem rdLoop_spec (size : Nat) (hs : 0 < size) (fuel n base : Nat) (hf : n ≤ fuel) :
    (rdLoop (affinityValue m) a size (base + size * n) fuel base).1 =
      firstFrame m a (framesFrom size n base) ∧
    ∀ f ∈ (rdLoop (affinityValue m) a size (base + size * n) fuel base).2,
      f ∈ framesFrom size n base := by
  induction fuel generalizing n base
  case zero =>
    obtain rfl : n = 0 := by omega
    simp [rdLoop, framesFrom]
  case succ fuel hi =>
    cases n
    case zero => simp [rdLoop, framesFrom]
    case succ n =>
      have hl : base < base + size * (n + 1) := by
        have := Nat.mul_pos hs (show 0 < n + 1 by omega)
        omega
      have he : base + size * (n + 1) = base + size + size * n := by ring
      have ⟨h₁, h₂⟩ := hi n (base + size) (by omega)
      rw [rdLoop, if_pos hl, framesFrom, firstFrame_cons]
      split
      case isTrue => simp
      case isFalse =>
        rw [he]
        refine ⟨h₁, ?_⟩
        intro f hf
        rcases List.mem_cons.mp hf with rfl | hf
        · exact List.mem_cons_self
        · exact List.mem_cons_of_mem _ (h₂ f hf)

theorem rdSearch_spec {entry : GicInfoEntry} (hd : frameSize ∣ entry.length) :
    (rdSearch (affinityValue m) a frameSize entry.base
        (if entry.type = entryTypeGicrGicrd then entry.length else 0)).1 =
      firstFrame m a entry.frames ∧
    ∀ f ∈ (rdSearch (affinityValue m) a frameSize entry.base
        (if entry.type = entryTypeGicrGicrd then entry.length else 0)).2, f ∈ entry.frames := by
  rw [GicInfoEntry.frames]
  by_cases ht : entry.type = entryTypeGicrGicrd
  case neg => simp [ht, rdSearch, firstFrame_cons]
  case pos =>
    by_cases hl : entry.length = 0
    case pos => simp [ht, hl, rdSearch, firstFrame_cons]
    case neg =>
      have hm : frameSize * (entry.length / frameSize) = entry.length := Nat.mul_div_cancel' hd
      have hs := rdLoop_spec (m := m) (a := a) frameSize (by decide) entry.length
        (entry.length / frameSize) entry.base (Nat.div_le_self ..)
      rw [hm] at hs
      simpa [ht, hl, rdSearch] using hs

end Search

section Table

theorem rdEntries_cons (entry : GicInfoEntry) (rest : List GicInfoEntry) :
    rdEntries (entry :: rest) =
      if entry.type = entryTypeEnd then []
      else if entry.IsRd then entry :: rdEntries rest else rdEntries rest := by
  by_cases he : entry.type = entryTypeEnd
  case pos => simp [rdEntries, he]
  case neg => by_cases hr : entry.IsRd <;> simp [rdEntries, he, hr]

theorem mem_framesFrom_le (h : f ∈ framesFrom size n base) : base ≤ f := by
  induction n generalizing base
  case zero => cases h
  case succ n hi =>
    rcases List.mem_cons.mp h with rfl | h
    · exact le_rfl
    · exact (Nat.le_add_right ..).trans (hi h)

theorem WellFormed.frame_ne_zero (h : WellFormed table) (he : entry ∈ rdEntries table)
    (hf : f ∈ entry.frames) : f ≠ 0 := by
  have ⟨hb, _, _⟩ := h entry he
  rw [GicInfoEntry.frames] at hf
  split at hf
  case isTrue =>
    have := mem_framesFrom_le hf
    omega
  case isFalse => simp_all

theorem WellFormed.rdFrames_ne_zero (h : WellFormed table) : ∀ f ∈ rdFrames table, f ≠ 0 := by
  intro f hf
  have ⟨entry, he, hf⟩ := List.mem_flatMap.mp hf
  exact h.frame_ne_zero he hf

-- The VAL looks no further than the first redistributor entry.
theorem valGetGicrBase_eq (h : WellFormed table) :
    valGetGicrBase table = match rdEntries table with
      | [] => (0, 0)
      | entry :: _ => (entry.base, if entry.type = entryTypeGicrGicrd then entry.length else 0) := by
  induction table
  case nil => rfl
  case cons entry rest hi =>
    rw [valGetGicrBase]
    by_cases he : entry.type = entryTypeEnd
    case pos => simp [rdEntries_cons, he]
    case neg =>
      by_cases hr : entry.IsRd
      case pos =>
        have hl : entry.length < 2 ^ 32 := (h entry (by simp [rdEntries_cons, he, hr])).right.right
        rcases hr with ht | ht
        · rw [if_neg he, if_pos ht, Nat.mod_eq_of_lt hl]
          simp [rdEntries_cons, GicInfoEntry.IsRd, ht, entryTypeEnd, entryTypeGicrGicrd]
        · simp [rdEntries_cons, GicInfoEntry.IsRd, ht, entryTypeEnd, entryTypeGicrGicrd,
            entryTypeGiccGicrd]
      case neg =>
        have hrest : rdEntries (entry :: rest) = rdEntries rest := by
          simp [rdEntries_cons, he, hr]
        have hw : WellFormed rest := fun e hm => h e (hrest ▸ hm)
        simp only [GicInfoEntry.IsRd, not_or] at hr
        simp [he, hr, hi hw, hrest]

theorem valRdBase_nil (h : WellFormed table) (hn : rdEntries table = []) :
    valRdBase m table = (0, [0]) := by
  simp [valRdBase, valGetGicrBase_eq h, hn, currentCpuRDBase, rdSearch]

theorem valRdBase_cons (h : WellFormed table) (hn : rdEntries table = entry :: rest) :
    (valRdBase m table).1 = firstFrame m (m.mpidr &&& 0xFF) entry.frames ∧
    ∀ f ∈ (valRdBase m table).2, f ∈ entry.frames := by
  have ⟨_, hd, _⟩ := h entry (by simp [hn])
  have hs := rdSearch_spec (m := m) (a := m.mpidr &&& 0xFF) hd
  have he : valRdBase m table = rdSearch (affinityValue m) (m.mpidr &&& 0xFF) frameSize entry.base
      (if entry.type = entryTypeGicrGicrd then entry.length else 0) := by
    simp only [valRdBase, valGetGicrBase_eq h, hn, currentCpuRDBase, valCpuAffinity_eq]
    congr
    funext frame
    exact valAffinity_eq m frame
  rwa [he]

-- The PAL keeps the first redistributor that it finds.
theorem gicItsEntry_gicRdBase {entry : GicInfoEntry} {info : GicItsInfo}
    (hl : entry.IsRd → frameSize ∣ entry.length ∧ entry.length < 2 ^ 32) :
    (gicItsEntry Edk2.architectural m entry info).gicRdBase =
      if entry.IsRd ∧ info.gicRdBase = 0 then firstFrame m (cpuAffinity m) entry.frames
      else info.gicRdBase := by
  by_cases hr : entry.IsRd
  case neg =>
    have hr' := hr
    simp only [GicInfoEntry.IsRd] at hr'
    simp only [gicItsEntry, hr, hr', if_false, false_and]
    split
    · rfl
    · split <;> rfl
  case pos =>
    have ⟨hd, hlt⟩ := hl hr
    have hs := (rdSearch_spec (m := m) (a := cpuAffinity m) hd).left
    have hg : ∀ len, (getCurrentCpuRDBase Edk2.architectural m entry.base len).1 =
        (rdSearch (affinityValue m) (cpuAffinity m) frameSize entry.base (len % 2 ^ 32)).1 := by
      intro len
      rw [getCurrentCpuRDBase, palCpuAffinity_eq]
      rfl
    have hd : entry.type ≠ entryTypeGicd := by
      rcases hr with ht | ht <;> rw [ht] <;> decide
    have hr' := hr
    simp only [GicInfoEntry.IsRd] at hr'
    by_cases hb : info.gicRdBase = 0
    case neg => rw [gicItsEntry, if_neg hd, if_pos hr', if_neg hb, if_neg (by simp [hb])]
    case pos =>
      by_cases ht : entry.type = entryTypeGicrGicrd
      case pos =>
        rw [if_pos ht, ←Nat.mod_eq_of_lt hlt, ←hg] at hs
        rw [gicItsEntry, if_neg hd, if_pos hr', if_pos hb, if_pos ht, if_pos ⟨hr, hb⟩]
        exact hs
      case neg =>
        rw [if_neg ht, ←Nat.zero_mod (2 ^ 32), ←hg] at hs
        rw [gicItsEntry, if_neg hd, if_pos hr', if_pos hb, if_neg ht, if_pos ⟨hr, hb⟩]
        exact hs

theorem gicItsWalk_gicRdBase (h : WellFormed table) (info : GicItsInfo) :
    (gicItsWalk Edk2.architectural m table info).gicRdBase =
      if info.gicRdBase = 0 then cpuRedistributor m table else info.gicRdBase := by
  induction table generalizing info
  case nil =>
    simp only [gicItsWalk, cpuRedistributor, rdFrames, rdEntries]
    split <;> simp_all
  case cons entry rest hi =>
    rw [gicItsWalk]
    by_cases he : entry.type = entryTypeEnd
    case pos =>
      rw [if_pos he, cpuRedistributor, rdFrames, rdEntries_cons, if_pos he]
      split <;> simp_all
    case neg =>
      by_cases hr : entry.IsRd
      case pos =>
        have hcons : rdEntries (entry :: rest) = entry :: rdEntries rest := by
          simp [rdEntries_cons, he, hr]
        have hw : WellFormed rest := fun e hm => h e (hcons ▸ List.mem_cons_of_mem _ hm)
        have hmem : entry ∈ rdEntries (entry :: rest) := hcons ▸ List.mem_cons_self
        rw [if_neg he, hi hw, gicItsEntry_gicRdBase fun _ => (h entry hmem).right]
        have hc : cpuRedistributor m (entry :: rest) =
            if firstFrame m (cpuAffinity m) entry.frames = 0 then cpuRedistributor m rest
            else firstFrame m (cpuAffinity m) entry.frames := by
          rw [cpuRedistributor, rdFrames, hcons, List.flatMap_cons]
          exact firstFrame_append _ _ fun f hf => h.frame_ne_zero hmem hf
        rw [hc]
        by_cases hb : info.gicRdBase = 0 <;> simp [hr, hb]
      case neg =>
        have hrest : rdEntries (entry :: rest) = rdEntries rest := by
          simp [rdEntries_cons, he, hr]
        have hw : WellFormed rest := fun e hm => h e (hrest ▸ hm)
        rw [if_neg he, hi hw, gicItsEntry_gicRdBase fun h => absurd h hr]
        simp [hr, cpuRedistributor, rdFrames, hrest]

theorem palGicItsInfo_gicRdBase (h : WellFormed table) :
    (palGicItsInfo Edk2.architectural m table).gicRdBase = cpuRedistributor m table := by
  rw [palGicItsInfo, gicItsWalk_gicRdBase h, if_pos rfl]

end Table

-- The first redistributor entry decides: it holds the redistributor of the PE, and the affinity of
-- the PE has no levels above 0, or neither it nor the table has anything to be found.
def Located (m : Machine) (table : List GicInfoEntry) : Prop :=
  ∃ entry rest, rdEntries table = entry :: rest ∧
    ((cpuAffinity m = m.mpidr &&& 0xFF ∧ ∃ f ∈ entry.frames, affinityValue m f = cpuAffinity m) ∨
      ((∀ f ∈ rdFrames table, affinityValue m f ≠ cpuAffinity m) ∧
        ∀ f ∈ entry.frames, affinityValue m f ≠ m.mpidr &&& 0xFF))

theorem idle_of_val (hv : (valRdBase m table).1 = 0) (intId : Nat) (hi : isSpi intId = false) :
    v3DisableInterruptSource m table intId = [] ∧ v3EnableInterruptSource m table intId = [] := by
  simp [v3DisableInterruptSource, v3EnableInterruptSource, writeInterruptSource, hi, hv]

theorem redistributors_agree_iff (he : edk2 = Edk2.architectural) (h : WellFormed table) :
    Agrees edk2 m table ↔ Located m table := by
  subst he
  cases hn : rdEntries table
  case nil =>
    refine iff_of_false (fun ha => ?_) (fun ⟨entry, rest, hc, _⟩ => by simp [hn] at hc)
    have hf := ha.asked 0 (by simp [valRdBase_nil h hn])
    exact h.rdFrames_ne_zero 0 hf rfl
  case cons entry rest =>
    have hmem : entry ∈ rdEntries table := by simp [hn]
    have hne : ∀ f ∈ entry.frames, f ≠ 0 := fun f hf => h.frame_ne_zero hmem hf
    have ⟨hv, hasked⟩ := valRdBase_cons (m := m) h hn
    have hsub : ∀ f ∈ entry.frames, f ∈ rdFrames table :=
      fun f hf => List.mem_flatMap.mpr ⟨entry, hmem, hf⟩
    have hcpu : cpuRedistributor m table =
        if firstFrame m (cpuAffinity m) entry.frames = 0 then
          firstFrame m (cpuAffinity m) (rest.flatMap (·.frames))
        else firstFrame m (cpuAffinity m) entry.frames := by
      rw [cpuRedistributor, rdFrames, hn, List.flatMap_cons]
      exact firstFrame_append _ _ hne
    have hzero : cpuRedistributor m table = 0 ↔
        ∀ f ∈ rdFrames table, affinityValue m f ≠ cpuAffinity m :=
      firstFrame_eq_zero_iff h.rdFrames_ne_zero
    have hagree : Agrees Edk2.architectural m table ↔
        (valRdBase m table).1 = cpuRedistributor m table := by
      refine ⟨fun ha => ha.val, fun hval => ?_⟩
      exact ⟨hval, palGicItsInfo_gicRdBase h, fun f hf => hsub f (hasked f hf),
        fun hz => idle_of_val (hval.trans hz)⟩
    rw [hagree, hv]
    constructor
    case mp =>
      intro heq
      refine ⟨entry, rest, hn, ?_⟩
      by_cases hz : cpuRedistributor m table = 0
      case pos =>
        refine .inr ⟨hzero.mp hz, ?_⟩
        rw [hz] at heq
        exact (firstFrame_eq_zero_iff hne).mp heq
      case neg =>
        -- One frame has both affinities, so they are the same.
        have h₁ : affinityValue m (cpuRedistributor m table) = cpuAffinity m :=
          affinityValue_firstFrame hz
        have hnz : firstFrame m (m.mpidr &&& 0xFF) entry.frames ≠ 0 := heq ▸ hz
        have h₂ := affinityValue_firstFrame hnz
        rw [heq, h₁] at h₂
        refine .inl ⟨h₂, ?_⟩
        by_contra hc
        push Not at hc
        rw [h₂] at hc
        exact hnz ((firstFrame_eq_zero_iff hne).mpr hc)
    case mpr =>
      rintro ⟨entry', rest', hn', hcase⟩
      obtain ⟨rfl, rfl⟩ : entry = entry' ∧ rest = rest' := by simpa [hn] using hn'
      rcases hcase with ⟨ha, f, hf, hm⟩ | ⟨hall, hfirst⟩
      case inl =>
        have hnz : firstFrame m (cpuAffinity m) entry.frames ≠ 0 := by
          rw [Ne, firstFrame_eq_zero_iff hne]
          exact fun hc => hc f hf hm
        rw [hcpu, if_neg hnz, ha]
      case inr => rw [hzero.mpr hall, (firstFrame_eq_zero_iff hne).mpr hfirst]

-- A PE of cluster 1 and its redistributor, the only one of the table.
def clusterOne : Machine where
  mpidr     := 0x100
  mmio addr := if addr = 0x8010000C then 0x100#32 else 0

def oneRedistributor : List GicInfoEntry :=
  [{ type := entryTypeGicrGicrd, base := 0x80100000, entryId := 0, length := 0x20000 },
    { type := entryTypeEnd, base := 0, entryId := 0, length := 0 }]

theorem oneRedistributor_wellFormed : WellFormed oneRedistributor := by
  intro entry hm
  simp [rdEntries, oneRedistributor, entryTypeGicrGicrd, entryTypeEnd, GicInfoEntry.IsRd] at hm
  subst hm
  decide

theorem cluster_one_not_found :
    WellFormed oneRedistributor ∧ cpuRedistributor clusterOne oneRedistributor = 0x80100000 ∧
    (valRdBase clusterOne oneRedistributor).1 = 0 ∧
    ¬Agrees Edk2.architectural clusterOne oneRedistributor := by
  have hc : cpuRedistributor clusterOne oneRedistributor = 0x80100000 := by decide
  have hv : (valRdBase clusterOne oneRedistributor).1 = 0 := by decide
  refine ⟨oneRedistributor_wellFormed, hc, hv, fun ha => ?_⟩
  have := ha.val
  rw [hc, hv] at this
  cases this

def clusterZero : Machine where
  mpidr     := 0x1
  mmio addr := if addr = 0x8010000C then 0x1#32 else 0

theorem cluster_zero_found : Agrees Edk2.architectural clusterZero oneRedistributor := by
  refine (redistributors_agree_iff rfl oneRedistributor_wellFormed).mpr ⟨_, [], rfl, .inl ?_⟩
  exact ⟨by decide, 0x80100000, by decide, by decide⟩

end Gic
