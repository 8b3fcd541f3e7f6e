import BsaAcs.Gic.Isr
import BsaAcs.Gic.Theorems.Redistributor

namespace Gic

-- The bit of an interrupt in a bank of registers with one bit for each interrupt. Shared interrupts have it in
-- the distributor and private ones in the redistributor of the current PE. Other interrupts do not have it.
def interruptBit (distributor redistributor : Nat) (m : Machine) (table : List GicInfoEntry) (intId : Nat) :
    List (Nat × Nat) :=
  if 32 ≤ intId ∧ intId < 1020 then [(valGetGicdBase table + distributor + 4 * (intId / 32), 2 ^ (intId % 32))]
  else if intId < 32 ∧ cpuRedistributor m table ≠ 0 then
    [(cpuRedistributor m table + gicrCtlrFrameSize + redistributor, 2 ^ intId)]
  else []

-- Nothing is touched but the entry of the table and the bits of the interrupt.
def IsrEffect.Confined (m : Machine) (table : List GicInfoEntry) (intId : Nat) : IsrEffect → Prop
  | disable addr value => (addr, value) ∈ interruptBit gicdIcenabler gicrIcenabler m table intId
  | handler index => index < numArmMaxInterrupt
  | enable addr value => (addr, value) ∈ interruptBit gicdIsenabler gicrIsenabler m table intId

-- No frame of the first redistributor entry has the level-0 affinity of the PE as its affinity.
def NoFrame (m : Machine) (table : List GicInfoEntry) : Prop :=
  ∀ entry rest, rdEntries table = entry :: rest → ∀ f ∈ entry.frames, affinityValue m f ≠ m.mpidr &&& 0xFF

variable {m : Machine} {table : List GicInfoEntry} {intId : Nat}

theorem valRdBase_eq_zero_iff (h : WellFormed table) : (valRdBase m table).1 = 0 ↔ NoFrame m table := by
  cases hn : rdEntries table
  case nil =>
    refine iff_of_true ?_ fun _ _ hc => ?_
    · rw [valRdBase_nil h hn]
    · rw [hn] at hc
      cases hc
  case cons entry rest =>
    have hne : ∀ f ∈ entry.frames, f ≠ 0 := fun f hf => h.frame_ne_zero (by simp [hn]) hf
    rw [(valRdBase_cons h hn).1, firstFrame_eq_zero_iff hne]
    constructor
    · intro hall entry' rest' he
      rw [hn] at he
      cases he
      exact hall
    · intro hall
      exact hall entry rest hn

-- The frame that the driver finds is that of the PE if the PE has no affinity above level 0.
theorem valRdBase_eq_cpu_iff (h : WellFormed table) (hf : (valRdBase m table).1 ≠ 0) :
    (valRdBase m table).1 = cpuRedistributor m table ↔ cpuAffinity m = m.mpidr &&& 0xFF := by
  cases hn : rdEntries table
  case nil => exact absurd (by rw [valRdBase_nil h hn]) hf
  case cons entry rest =>
    have hne : ∀ f ∈ entry.frames, f ≠ 0 := fun f hf => h.frame_ne_zero (by simp [hn]) hf
    have hv := (valRdBase_cons (m := m) h hn).1
    rw [hv] at hf ⊢
    have haff := affinityValue_firstFrame hf
    constructor
    · intro he
      rw [he] at hf haff
      rw [← haff]
      exact (affinityValue_firstFrame hf).symm
    · intro he
      rw [cpuRedistributor, rdFrames, hn, List.flatMap_cons, firstFrame_append _ _ hne, he, if_neg hf]

-- The steps find the bit of the interrupt, or write nothing: a shared interrupt is in the distributor, and any
-- other is taken for a private one of the PE that has the level-0 affinity alone.
def Addressed (m : Machine) (table : List GicInfoEntry) (intId : Nat) : Prop :=
  isSpi intId = true ∨ NoFrame m table ∨ (intId < 32 ∧ cpuAffinity m = m.mpidr &&& 0xFF)

section Bank

variable {distributor redistributor : Nat}

theorem writeInterruptSource_spi (hs : isSpi intId = true) :
    writeInterruptSource distributor redistributor m table intId =
      interruptBit distributor redistributor m table intId := by
  have hr : 32 ≤ intId ∧ intId < 1020 := by simpa [isSpi] using hs
  simp only [writeInterruptSource, interruptBit, hs, if_true, if_pos hr, Nat.one_shiftLeft]

theorem writeInterruptSource_noFrame (h : WellFormed table) (hs : isSpi intId = false) (hf : NoFrame m table) :
    writeInterruptSource distributor redistributor m table intId = [] := by
  have hz := (valRdBase_eq_zero_iff h).mpr hf
  simp [writeInterruptSource, hs, hz]

theorem writeInterruptSource_frame (h : WellFormed table) (hs : isSpi intId = false) (hf : ¬NoFrame m table) :
    writeInterruptSource distributor redistributor m table intId =
      [((valRdBase m table).1 + gicrCtlrFrameSize + redistributor + 4 * (intId / 32), 2 ^ (intId % 32))] := by
  have hz : (valRdBase m table).1 ≠ 0 := fun hz => hf ((valRdBase_eq_zero_iff h).mp hz)
  simp [writeInterruptSource, hs, hz, Nat.one_shiftLeft]

-- The write of a step, for the bank of registers that the step writes to.
theorem writeInterruptSource_subset_iff (h : WellFormed table) :
    (∀ w ∈ writeInterruptSource distributor redistributor m table intId,
        w ∈ interruptBit distributor redistributor m table intId) ↔ Addressed m table intId := by
  cases hs : isSpi intId
  case true =>
    rw [writeInterruptSource_spi hs]
    exact iff_of_true (fun _ hw => hw) (.inl hs)
  case false =>
    by_cases hf : NoFrame m table
    case pos =>
      rw [writeInterruptSource_noFrame h hs hf]
      exact iff_of_true (fun _ hw => by cases hw) (.inr (.inl hf))
    case neg =>
      have hz : (valRdBase m table).1 ≠ 0 := fun hz => hf ((valRdBase_eq_zero_iff h).mp hz)
      have hr : ¬(32 ≤ intId ∧ intId < 1020) := by simpa [isSpi] using hs
      have ha : Addressed m table intId ↔ intId < 32 ∧ (valRdBase m table).1 = cpuRedistributor m table := by
        rw [Addressed, valRdBase_eq_cpu_iff h hz]
        simp [hs, hf]
      rw [writeInterruptSource_frame h hs hf, List.forall_mem_singleton, ha, interruptBit, if_neg hr]
      constructor
      · intro hm
        split at hm
        case isTrue hp =>
          have he : (valRdBase m table).1 + gicrCtlrFrameSize + redistributor + 4 * (intId / 32) =
              cpuRedistributor m table + gicrCtlrFrameSize + redistributor :=
            congrArg Prod.fst (List.mem_singleton.mp hm)
          refine ⟨hp.left, ?_⟩
          omega
        case isFalse => cases hm
      · intro ⟨hp, he⟩
        rw [if_pos ⟨hp, he ▸ hz⟩, he, Nat.div_eq_of_lt hp, Nat.mod_eq_of_lt hp]
        exact List.mem_singleton_self _

end Bank

-- The steps of an installation, one by one.
theorem valGicBsaInstallIsr_forall {p : IsrEffect → Prop} :
    (∀ e ∈ valGicBsaInstallIsr m table intId, p e) ↔
      (∀ w ∈ v3DisableInterruptSource m table intId, p (.disable w.1 w.2)) ∧ p (.handler intId) ∧
        ∀ w ∈ v3EnableInterruptSource m table intId, p (.enable w.1 w.2) := by
  simp only [valGicBsaInstallIsr, List.forall_mem_append, List.forall_mem_map, List.forall_mem_singleton, and_assoc]

variable {maxLpiId iar : Nat}

theorem install_isr_confined_iff (h : WellFormed table) (ha : isrAccepts m table maxLpiId intId = true) :
    ((∀ e ∈ (valGicInstallIsr m table maxLpiId intId).2, e.Confined m table intId) ∧
        defaultIrqHandler iar < numArmMaxInterrupt) ↔
      (intId < 16384 ∧ Addressed m table intId) ∧ iar &&& 0xFFFFFF < 16384 := by
  have hd : (∀ w ∈ v3DisableInterruptSource m table intId, IsrEffect.Confined m table intId (.disable w.1 w.2)) ↔
      Addressed m table intId :=
    writeInterruptSource_subset_iff h
  have he : (∀ w ∈ v3EnableInterruptSource m table intId, IsrEffect.Confined m table intId (.enable w.1 w.2)) ↔
      Addressed m table intId :=
    writeInterruptSource_subset_iff h
  have hn : IsrEffect.Confined m table intId (.handler intId) ↔ intId < 16384 := Iff.rfl
  have hi : defaultIrqHandler iar < numArmMaxInterrupt ↔ iar &&& 0xFFFFFF < 16384 := Iff.rfl
  rw [valGicInstallIsr, if_pos ha, valGicBsaInstallIsr_forall, hd, he, hn, hi]
  apply and_congr_left
  intro _
  constructor
  · intro ⟨ha, hn, _⟩
    exact ⟨hn, ha⟩
  · intro ⟨hn, ha⟩
    exact ⟨ha, hn, ha⟩

-- The private timer of a PE of cluster 0.
theorem timer_isr_confined :
    (WellFormed oneRedistributor ∧ isrAccepts clusterZero oneRedistributor 0 30 = true) ∧
    (∀ e ∈ (valGicInstallIsr clusterZero oneRedistributor 0 30).2, e.Confined clusterZero oneRedistributor 30) ∧
    defaultIrqHandler 30 < numArmMaxInterrupt :=
  ⟨⟨oneRedistributor_wellFormed, by decide⟩,
    (install_isr_confined_iff oneRedistributor_wellFormed (by decide)).mpr
      ⟨⟨by decide, .inr (.inr ⟨by decide, by decide⟩)⟩, by decide⟩⟩

-- An ITS with 16 bits of interrupt ids has LPIs that the table has no entry for. The last step writes for this
-- one to GICR_ICFGR0 of the redistributor.
theorem lpi_isr_not_confined :
    (WellFormed oneRedistributor ∧ isrAccepts clusterZero oneRedistributor 65535 22528 = true) ∧
    (valGicInstallIsr clusterZero oneRedistributor 65535 22528).2 =
      [.disable 0x80110C80 1, .handler 22528, .enable 0x80110C00 1] ∧
    ¬(∀ e ∈ (valGicInstallIsr clusterZero oneRedistributor 65535 22528).2,
        e.Confined clusterZero oneRedistributor 22528) ∧
    ¬defaultIrqHandler 22528 < numArmMaxInterrupt := by
  have he : (valGicInstallIsr clusterZero oneRedistributor 65535 22528).2 =
      [.disable 0x80110C80 1, .handler 22528, .enable 0x80110C00 1] := by decide
  refine ⟨⟨oneRedistributor_wellFormed, by decide⟩, he, fun hc => ?_, by decide⟩
  have hn : 22528 < numArmMaxInterrupt := hc (.handler 22528) (by rw [he]; simp)
  exact absurd hn (by decide)

end Gic
