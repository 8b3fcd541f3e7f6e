import BsaAcs.Pcie.BitfieldTable
import BsaAcs.Pcie.Theorems.Bitfield

namespace Pcie

-- The bits that can be written hold what they held before, but for those that are exempt.
def Keeps (attr : Nat → Attr) (exempt : Nat → Nat → Prop) (regs regs' : Regs) : Prop :=
  ∀ a i, (attr a).rw.getLsbD i = true → (regs' a).getLsbD i = (regs a).getLsbD i ∨ exempt a i

namespace Keeps

variable {attr : Nat → Attr} {exempt exempt' : Nat → Nat → Prop} {regs regs' regs'' : Regs}

theorem refl (regs : Regs) : Keeps attr exempt regs regs :=
  fun _ _ _ => .inl rfl

theorem trans (h : Keeps attr exempt regs regs') (h' : Keeps attr exempt regs' regs'') :
    Keeps attr exempt regs regs'' := by
  intro a i hi
  cases h' a i hi
  case inl h' => exact h'.symm ▸ h a i hi
  case inr h' => exact .inr h'

theorem mono (h : Keeps attr exempt regs regs') (he : ∀ a i, exempt a i → exempt' a i) :
    Keeps attr exempt' regs regs' :=
  fun a i hi => (h a i hi).imp_right (he a i)

end Keeps

namespace Attr

variable {attr : Attr} {old data data' : BitVec 32} {i : Nat}

-- A bit that can be written takes what is written to it.
theorem getLsbD_write_rw (hi : attr.rw.getLsbD i = true) : (attr.write old data).getLsbD i = data.getLsbD i := by
  have hd := attr.disjoint_bit i
  rw [hi, Bool.true_and] at hd
  simp [getLsbD_write (BitVec.lt_of_getLsbD hi), hi, hd]

theorem write_and_rw : attr.write old data &&& attr.rw = data &&& attr.rw := by
  apply BitVec.eq_of_getLsbD_eq
  intro i _
  simp only [BitVec.getLsbD_and]
  cases hi : attr.rw.getLsbD i
  case false => simp
  case true  => rw [getLsbD_write_rw hi]

theorem cleared_and_rw (w : BitVec 32) : w &&& ~~~attr.w1c &&& attr.rw = w &&& attr.rw := by
  rw [← write_read, write_and_rw]

end Attr

namespace PcieCfgregBitfieldEntry

variable (bfEntry : PcieCfgregBitfieldEntry)

-- The bits of the word that the macros pick, which are those of the field unless it ends in the last bit.
def fieldMask : BitVec 32 :=
  lsl (regMask bfEntry.endBit bfEntry.start) (regShift (bfEntry.regOffset % 4) bfEntry.start)

-- The test for the expected value.
def Matches (w : BitVec 32) : Prop :=
  lsr w (regShift (bfEntry.regOffset % 4) bfEntry.start) &&& regMask bfEntry.endBit bfEntry.start = bfEntry.cfgValue

instance (w : BitVec 32) : Decidable (bfEntry.Matches w) :=
  inferInstanceAs (Decidable (_ = _))

-- A field that is tested for being read-only has no bit that can be written, and one whose bits are
-- reserved and zero none that is set.
def Restores (attr : Attr) (w : BitVec 32) : Prop :=
  let cleared := w &&& ~~~attr.w1c
  bfEntry.Matches cleared →
    match bfEntry.attr with
    | .hwInit | .readOnly | .stickyRo          => bfEntry.fieldMask &&& attr.rw = 0
    | .rsvdzRo                                 => cleared &&& bfEntry.fieldMask &&& attr.rw = 0
    | .rsvdpRo | .readWrite | .stickyRw | .other _ => True

-- What the last write to the register is.
def lastWrite (attr : Attr) (w : BitVec 32) : BitVec 32 :=
  let cleared := w &&& ~~~attr.w1c
  if bfEntry.Matches cleared then
    match bfEntry.attr with
    | .hwInit | .readOnly | .stickyRo => cleared ^^^ bfEntry.fieldMask
    | .rsvdzRo                        => cleared &&& ~~~bfEntry.fieldMask
    | .rsvdpRo | .readWrite | .stickyRw => cleared
    | .other _                        => w
  else w

end PcieCfgregBitfieldEntry

section Word

variable {w m rw : BitVec 32}

theorem xor_and_eq_iff : (w ^^^ m) &&& rw = w &&& rw ↔ m &&& rw = 0 := by
  refine Attr.eq_iff_bits fun i _ => ?_
  simp only [BitVec.getLsbD_and, BitVec.getLsbD_xor]
  cases w.getLsbD i <;> cases m.getLsbD i <;> cases rw.getLsbD i <;> simp

theorem and_not_and_eq_iff : w &&& ~~~m &&& rw = w &&& rw ↔ w &&& m &&& rw = 0 := by
  refine Attr.eq_iff_bits fun i hi => ?_
  simp only [BitVec.getLsbD_and, BitVec.getLsbD_not, hi, decide_true, Bool.true_and]
  cases w.getLsbD i <;> cases m.getLsbD i <;> cases rw.getLsbD i <;> simp

theorem and_eq_and_iff {w' : BitVec 32} :
    w' &&& rw = w &&& rw ↔ ∀ i, rw.getLsbD i = true → w'.getLsbD i = w.getLsbD i := by
  constructor
  · intro h i hi
    simpa [hi] using congrArg (BitVec.getLsbD · i) h
  · intro h
    apply BitVec.eq_of_getLsbD_eq
    intro i _
    simp only [BitVec.getLsbD_and]
    cases hi : rw.getLsbD i
    case false => simp
    case true  => rw [h i hi]

end Word

namespace PcieCfgregBitfieldEntry

variable {bfEntry : PcieCfgregBitfieldEntry} {attr : Attr}

-- The last write has the old value of the bits that can be written exactly if the entry restores them.
theorem lastWrite_and_rw_iff (w : BitVec 32) :
    bfEntry.lastWrite attr w &&& attr.rw = w &&& attr.rw ↔ bfEntry.Restores attr w := by
  by_cases hm : bfEntry.Matches (w &&& ~~~attr.w1c)
  case neg => simp [lastWrite, Restores, hm]
  case pos =>
    have hclear := @Attr.cleared_and_rw attr w
    simp only [lastWrite, Restores, hm, if_true, true_imp_iff]
    rw [← hclear]
    cases bfEntry.attr
    case hwInit | readOnly | stickyRo => exact xor_and_eq_iff
    case rsvdzRo                      => exact and_not_and_eq_iff
    case other                        => simp [hclear]
    case rsvdpRo | readWrite | stickyRw => simp

end PcieCfgregBitfieldEntry

-- The address of the register, if the check gets to one.
def bitfieldRegister {S : Type} (hw : Mmio S) (table : PcieInfoTable) (s : S) (unset : BitfieldUnset) (bdf : Nat)
    (bfEntry : PcieCfgregBitfieldEntry) : Option Nat :=
  match bitfieldCapBase hw table s unset bdf bfEntry with
  | none => none
  | some (status, capBase) =>
    if status ≠ pcieSuccess then none
    else configAddr table bdf ((capBase + (bfEntry.regOffset - bfEntry.regOffset % 4)) % 2 ^ 32)

section Check

variable {table : PcieInfoTable} {attr : Nat → Attr} {regs regs' : Regs} {unset : BitfieldUnset}
  {bdf offset a status : Nat} {bfEntry : PcieCfgregBitfieldEntry}

-- A function that has no mapping is left alone.
theorem bitfieldCheckAt_unmapped {alignmentByteCnt : Nat} (hm : configAddr table bdf offset = none) :
    (bitfieldCheckAt (configSpace attr) table regs unset bdf offset alignmentByteCnt bfEntry).2 = regs := by
  have hwrite : ∀ data, valPcieWriteCfg (configSpace attr) table regs bdf offset data = regs := by
    simp [valPcieWriteCfg, hm]
  simp only [bitfieldCheckAt, hwrite]
  split_ifs
  case pos => rfl
  case neg =>
    cases bfEntry.attr <;>
      simp only [bitfieldAttrCheck, hwrite, apply_ite Prod.snd, ite_self]

-- The check leaves what its last write makes of the register, and all other registers as they were.
theorem bitfieldCheckAt_regs (hm : configAddr table bdf offset = some a) (ha : a % 4 = 0) :
    ∃ old, (bitfieldCheckAt (configSpace attr) table regs unset bdf offset (bfEntry.regOffset % 4) bfEntry).2 =
      Function.update regs a ((attr a).write old (bfEntry.lastWrite (attr a) (regs a))) := by
  have hread : ∀ regs, valPcieReadCfg (configSpace attr) table regs bdf offset = some (regs a) :=
    fun _ => configSpace_read hm ha
  have hcleared := (attr a).write_read (regs a)
  simp only [bitfieldCheckAt, hread, configSpace_write hm, Option.getD_some, Function.update_self, hcleared]
  by_cases hv : bfEntry.Matches (regs a &&& ~~~(attr a).w1c)
  case neg =>
    refine ⟨regs a, ?_⟩
    rw [PcieCfgregBitfieldEntry.lastWrite, if_neg hv, hcleared]
    simp only [PcieCfgregBitfieldEntry.Matches] at hv
    rw [if_pos hv]
  case pos =>
    simp only [PcieCfgregBitfieldEntry.lastWrite, hv, if_true]
    simp only [PcieCfgregBitfieldEntry.Matches] at hv
    simp only [ne_eq, hv, not_true_eq_false, if_false]
    cases bfEntry.attr <;>
      simp only [bitfieldAttrCheck, hread, configSpace_write hm, Option.getD_some, Function.update_self,
        Function.update_idem, apply_ite Prod.snd, ite_self]
    case other => exact ⟨regs a, by rw [hcleared]⟩
    all_goals exact ⟨_, rfl⟩

theorem valPcieBitfieldCheck_regs
    (h : valPcieBitfieldCheck (configSpace attr) table regs unset bdf bfEntry = some (status, regs'))
    (ha : ∀ a, bitfieldRegister (configSpace attr) table regs unset bdf bfEntry = some a → a % 4 = 0) :
    (regs' = regs ∧ bitfieldRegister (configSpace attr) table regs unset bdf bfEntry = none) ∨
      ∃ a old, bitfieldRegister (configSpace attr) table regs unset bdf bfEntry = some a ∧
        regs' = Function.update regs a ((attr a).write old (bfEntry.lastWrite (attr a) (regs a))) := by
  have halign : bfEntry.regOffset &&& wordAlignMask = bfEntry.regOffset % 4 :=
    Nat.and_two_pow_sub_one_eq_mod _ 2
  simp only [valPcieBitfieldCheck, halign] at h
  simp only [bitfieldRegister] at ha ⊢
  cases hb : bitfieldCapBase (configSpace attr) table regs unset bdf bfEntry
  case none => simp [hb] at h
  case some result =>
    have ⟨capStatus, capBase⟩ := result
    simp only [hb] at h ha ⊢
    by_cases hs : capStatus = pcieSuccess
    case neg =>
      rw [if_pos hs] at h
      cases h
      exact .inl ⟨rfl, if_pos hs⟩
    case pos =>
      simp only [hs, ne_eq, not_true_eq_false, if_false, Option.some.injEq] at h ha ⊢
      cases hm : configAddr table bdf ((capBase + (bfEntry.regOffset - bfEntry.regOffset % 4)) % 2 ^ 32)
      case none =>
        refine .inl ⟨?_, rfl⟩
        have := congrArg Prod.snd h
        rw [bitfieldCheckAt_unmapped hm] at this
        exact this.symm
      case some a =>
        have ⟨old, hregs⟩ := @bitfieldCheckAt_regs table attr regs unset bdf _ a bfEntry hm (ha a hm)
        exact .inr ⟨a, old, rfl, (congrArg Prod.snd h).symm.trans hregs⟩

theorem bitfieldCheck_restores_iff
    (h : valPcieBitfieldCheck (configSpace attr) table regs unset bdf bfEntry = some (status, regs'))
    (ha : ∀ a, bitfieldRegister (configSpace attr) table regs unset bdf bfEntry = some a → a % 4 = 0) :
    (∀ a i, (attr a).rw.getLsbD i = true → (regs' a).getLsbD i = (regs a).getLsbD i) ↔
      ∀ a, bitfieldRegister (configSpace attr) table regs unset bdf bfEntry = some a →
        bfEntry.Restores (attr a) (regs a) := by
  cases valPcieBitfieldCheck_regs h ha
  case inl h =>
    have ⟨hregs, hr⟩ := h
    simp [hregs, hr]
  case inr h =>
    have ⟨r, old, hr, hregs⟩ := h
    have hrw : regs' r &&& (attr r).rw = regs r &&& (attr r).rw ↔ bfEntry.Restores (attr r) (regs r) := by
      rw [hregs, Function.update_self, Attr.write_and_rw]
      exact PcieCfgregBitfieldEntry.lastWrite_and_rw_iff _
    simp only [hr, Option.some.injEq, forall_eq']
    rw [← hrw, and_eq_and_iff]
    constructor
    · intro hk
      exact hk r
    · intro hk a i hi
      by_cases he : a = r
      case pos =>
        subst he
        exact hk i hi
      case neg => rw [hregs, Function.update_of_ne he]

end Check

-- A function with its registers at word addresses from `addr` on, whose capability list leads to the
-- PCI Express capability.
structure PciecsAt (table : PcieInfoTable) (regs : Regs) (bdf addr pciecs : Nat) : Prop where
  mapped  : ∀ offset < 4096, configAddr table bdf offset = some (addr + offset)
  aligned : addr % 4 = 0
  chain   : CapChain (fun offset => regs (addr + offset)) pciecs (regs (addr + type01Cpr) &&& 0xFF).toNat

-- System error reporting in Command, and the four kinds of error reporting in Device Control.
def ErrorReporting (table : PcieInfoTable) (regs : Regs) (bdf a i : Nat) : Prop :=
  ∃ addr pciecs, PciecsAt table regs bdf addr pciecs ∧
    (a = addr + type01Cr ∧ i = crSerreShift ∨
      a = addr + (pciecs + dctlrOffset) ∧ dctlrCereShift ≤ i ∧ i ≤ dctlrUrreShift)

section Eru

variable {table : PcieInfoTable} {attr : Nat → Attr} {regs regs' : Regs} {bdf addr pciecs : Nat}

-- Clearing bits of a word touches no other bit that can be written.
theorem update_clear_keeps {a : Nat} {old m : BitVec 32} {exempt : Nat → Nat → Prop}
    (he : ∀ i, m.getLsbD i = true → exempt a i) :
    Keeps attr exempt regs (Function.update regs a ((attr a).write old (regs a &&& ~~~m))) := by
  intro x i hi
  by_cases hx : x = a
  case neg => exact .inl (by rw [Function.update_of_ne hx])
  case pos =>
    subst hx
    rw [Function.update_self, Attr.getLsbD_write_rw hi]
    cases hm : m.getLsbD i
    case true  => exact .inr (he i hm)
    case false =>
      refine .inl ?_
      rw [BitVec.getLsbD_and, BitVec.getLsbD_not, hm]
      simp [BitVec.lt_of_getLsbD hi]

theorem disableEru_keeps {unset : Nat} (h : PciecsAt table regs bdf addr pciecs)
    (hrun : valPcieDisableEru (configSpace attr) table regs unset bdf = some regs') :
    Keeps attr (ErrorReporting table regs bdf) regs regs' := by
  have haligned := h.aligned
  have hlt := h.chain.lt (and_0xff_lt _)
  have hle := h.chain.le
  have hoff : (pciecs + dctlrOffset) % 2 ^ 32 = pciecs + dctlrOffset := by
    simp only [dctlrOffset]
    omega
  have hcommand := h.mapped type01Cr (by decide)
  have hdevice := h.mapped (pciecs + dctlrOffset) (by simp only [dctlrOffset]; omega)
  simp only [valPcieDisableEru, configSpace_readModifyWrite hcommand (by simp only [type01Cr]; omega)] at hrun
  rw [h.chain.pciecsBase_eq h.mapped h.aligned] at hrun
  · simp only [Option.map_some, Option.some.injEq, hoff,
      configSpace_readModifyWrite hdevice (by simp only [dctlrOffset]; omega)] at hrun
    rw [← hrun]
    refine (update_clear_keeps ?_).trans (update_clear_keeps ?_)
    · intro i hi
      have hbit : ∀ i < 32, (1#32 <<< crSerreShift).getLsbD i = true → i = crSerreShift := by decide
      exact ⟨addr, pciecs, h, .inl ⟨rfl, hbit i (BitVec.lt_of_getLsbD hi) hi⟩⟩
    · intro i hi
      have hbit : ∀ i < 32, (1#32 <<< dctlrCereShift ||| 1#32 <<< dctlrNfereShift ||| 1#32 <<< dctlrFereShift |||
          1#32 <<< dctlrUrreShift).getLsbD i = true → dctlrCereShift ≤ i ∧ i ≤ dctlrUrreShift := by decide
      exact ⟨addr, pciecs, h, .inr ⟨rfl, hbit i (BitVec.lt_of_getLsbD hi) hi⟩⟩
  · intro offset ho
    simp only [type01Cpr] at ho
    exact Function.update_of_ne (by simp [type01Cr]; omega) ..

theorem disableEru_unmapped {unset : Nat} (hm : ∀ offset, configAddr table bdf offset = none) :
    valPcieDisableEru (configSpace attr) table regs unset bdf = some regs := by
  simp [valPcieDisableEru, readModifyWrite, pciecsBase, valPcieFindCapability, valPcieReadCfg, hm]

end Eru

section Run

variable {S : Type} (hw : Mmio S) (table : PcieInfoTable) (unset : Unset) (bitfieldUnset : BitfieldUnset)

-- What a step makes of the state that it starts in.
inductive BitfieldStep.Leads : BitfieldStep S → S → S → Prop
  | disableEru {s s' : S} {bdf : Nat} :
    (valPcieDisableEru hw table s (unset.pciecsBase bdf) bdf = some s') → Leads (.disableEru s bdf) s s'
  | check {s s' : S} {bdf status : Nat} {bfEntry : PcieCfgregBitfieldEntry} :
    (valPcieBitfieldCheck hw table s bitfieldUnset bdf bfEntry = some (status, s')) →
    Leads (.check s bdf bfEntry) s s'

-- The steps lead from one state to the other.
inductive BitfieldSteps (s : S) : List (BitfieldStep S) → S → Prop
  | refl : BitfieldSteps s [] s
  | step {steps s₁ s₂ e} : (BitfieldSteps s steps s₁) → (e.Leads hw table unset bitfieldUnset s₁ s₂) →
    BitfieldSteps s (steps ++ [e]) s₂

variable {hw table unset bitfieldUnset} {s : S} {run run' : BitfieldRun S}

theorem entryLoop_steps {bdf dpType : Nat} {entries : List BitfieldTableEntry}
    (h : entryLoop hw table bitfieldUnset bdf dpType entries run = some run')
    (hs : BitfieldSteps hw table unset bitfieldUnset s run.steps run.s) :
    BitfieldSteps hw table unset bitfieldUnset s run'.steps run'.s := by
  induction entries generalizing run
  case nil =>
    cases h
    exact hs
  case cons bfEntry rest ih =>
    simp only [entryLoop] at h
    split at h
    case isTrue => exact ih h hs
    case isFalse =>
      split at h
      case h_1 => cases h
      case h_2 status s₂ hc =>
        have hs := hs.step (.check hc)
        split at h
        case isTrue  => exact ih h hs
        case isFalse => exact ih h hs

theorem deviceLoop_steps {entries : List BitfieldTableEntry} {devices : List PcieDeviceAttr}
    (h : deviceLoop hw table unset bitfieldUnset entries devices run = some run')
    (hs : BitfieldSteps hw table unset bitfieldUnset s run.steps run.s) :
    BitfieldSteps hw table unset bitfieldUnset s run'.steps run'.s := by
  induction devices generalizing run
  case nil =>
    cases h
    exact hs
  case cons device rest ih =>
    simp only [deviceLoop] at h
    split at h
    case h_1 => cases h
    case h_2 s₂ hd =>
      split at h
      case h_1 => cases h
      case h_2 dpType _ =>
        split at h
        case h_1 => cases h
        case h_2 run₂ he => exact ih h (entryLoop_steps he (hs.step (.disableEru hd)))

theorem registerBitfieldsCheck_steps {devices : List PcieDeviceAttr} {entries : List BitfieldTableEntry} {status : Nat}
    (h : valPcieRegisterBitfieldsCheck hw table unset bitfieldUnset devices entries s = some (status, run)) :
    BitfieldSteps hw table unset bitfieldUnset s run.steps run.s := by
  simp only [valPcieRegisterBitfieldsCheck, Option.map_eq_some_iff, Prod.mk.injEq] at h
  have ⟨_, hd, _, he⟩ := h
  subst he
  exact deviceLoop_steps hd .refl

end Run

namespace BitfieldStep

def state {S : Type} : BitfieldStep S → S
  | disableEru s _ => s
  | check s _ _    => s

-- Error reporting is disabled for a function without mapping or one that has the capability, and a
-- check restores a register at a word address.
def Restores (attr : Nat → Attr) (table : PcieInfoTable) (unset : BitfieldUnset) : BitfieldStep Regs → Prop
  | disableEru regs bdf =>
    (∀ offset, configAddr table bdf offset = none) ∨ ∃ addr pciecs, PciecsAt table regs bdf addr pciecs
  | check regs bdf bfEntry =>
    ∀ a, bitfieldRegister (configSpace attr) table regs unset bdf bfEntry = some a →
      a % 4 = 0 ∧ bfEntry.Restores (attr a) (regs a)

-- The enables that the steps disable on purpose.
def Disables (table : PcieInfoTable) (steps : List (BitfieldStep Regs)) (a i : Nat) : Prop :=
  ∃ regs bdf, .disableEru regs bdf ∈ steps ∧ ErrorReporting table regs bdf a i

variable {attr : Nat → Attr} {table : PcieInfoTable} {unset : Unset} {bitfieldUnset : BitfieldUnset}
  {steps : List (BitfieldStep Regs)} {regs regs' : Regs} {e : BitfieldStep Regs}

theorem Disables.mono {steps' : List (BitfieldStep Regs)} (h : steps ⊆ steps') {a i : Nat} :
    Disables table steps a i → Disables table steps' a i :=
  fun ⟨regs, bdf, hm, he⟩ => ⟨regs, bdf, h hm, he⟩

theorem Leads.keeps (h : e.Leads (configSpace attr) table unset bitfieldUnset regs regs')
    (hr : e.Restores attr table bitfieldUnset) : Keeps attr (Disables table [e]) regs regs' := by
  cases h
  case disableEru bdf h =>
    cases hr
    case inl hm =>
      rw [disableEru_unmapped hm, Option.some.injEq] at h
      exact h ▸ .refl _
    case inr hp =>
      have ⟨_, _, hp⟩ := hp
      exact (disableEru_keeps hp h).mono fun a i he => ⟨regs, bdf, by simp, he⟩
  case check bdf status bfEntry h =>
    have hk := (bitfieldCheck_restores_iff h fun a ha => (hr a ha).left).mpr fun a ha => (hr a ha).right
    exact fun a i hi => .inl (hk a i hi)

-- Where every step restores, the bits are kept in the states before each step and in the last one.
theorem steps_keep (h : BitfieldSteps (configSpace attr) table unset bitfieldUnset regs steps regs')
    (hr : ∀ e ∈ steps, e.Restores attr table bitfieldUnset) :
    (∀ e ∈ steps, Keeps attr (Disables table steps) regs e.state) ∧ Keeps attr (Disables table steps) regs regs' := by
  induction h
  case refl => exact ⟨by simp, .refl _⟩
  case step steps s₁ s₂ e _ he ih =>
    have ⟨hstates, hlast⟩ := ih fun e' hm => hr e' (List.mem_append_left _ hm)
    have hmono : ∀ {s}, Keeps attr (Disables table steps) regs s → Keeps attr (Disables table (steps ++ [e])) regs s :=
      fun hk => hk.mono fun _ _ => Disables.mono (List.subset_append_left _ _)
    have hstep := (he.keeps (hr e (by simp))).mono
      fun _ _ => Disables.mono (List.subset_append_right steps [e])
    refine ⟨?_, (hmono hlast).trans hstep⟩
    intro e' hm
    cases List.mem_append.mp hm
    case inl hm => exact hmono (hstates e' hm)
    case inr hm =>
      have hstate : e.state = s₁ := by cases he <;> rfl
      rw [List.mem_singleton.mp hm, hstate]
      exact hmono hlast

end BitfieldStep

-- A check leaves every bit that can be written as it was exactly if its entry restores the register. In
-- a run whose steps all do so, these bits are kept but for the enables of error reporting.
theorem bitfield_checks_restore (attr : Nat → Attr) (table : PcieInfoTable) (unset : Unset)
    (bitfieldUnset : BitfieldUnset) :
    (∀ regs bdf bfEntry status regs',
      valPcieBitfieldCheck (configSpace attr) table regs bitfieldUnset bdf bfEntry = some (status, regs') →
      (∀ a, bitfieldRegister (configSpace attr) table regs bitfieldUnset bdf bfEntry = some a → a % 4 = 0) →
      ((∀ a i, (attr a).rw.getLsbD i = true → (regs' a).getLsbD i = (regs a).getLsbD i) ↔
        ∀ a, bitfieldRegister (configSpace attr) table regs bitfieldUnset bdf bfEntry = some a →
          bfEntry.Restores (attr a) (regs a))) ∧
    (∀ devices entries regs status run,
      valPcieRegisterBitfieldsCheck (configSpace attr) table unset bitfieldUnset devices entries regs =
        some (status, run) →
      (∀ e ∈ run.steps, e.Restores attr table bitfieldUnset) →
      (∀ e ∈ run.steps, Keeps attr (BitfieldStep.Disables table run.steps) regs e.state) ∧
        Keeps attr (BitfieldStep.Disables table run.steps) regs run.s) := by
  constructor
  · intro regs bdf bfEntry status regs' h ha
    exact bitfieldCheck_restores_iff h ha
  · intro devices entries regs status run h hr
    exact BitfieldStep.steps_keep (registerBitfieldsCheck_steps h) hr

section MinGnt

theorem minGnt_register (attr : Nat → Attr) (regs : Regs) (unset : BitfieldUnset) :
    bitfieldRegister (configSpace attr) abortTable regs unset 0 minGnt = some 0x4000003C :=
  rfl

theorem minGnt_restores (unset : BitfieldUnset) (regs : Regs) :
    ∀ a, bitfieldRegister (configSpace abortAttr) abortTable regs unset 0 minGnt = some a →
      a % 4 = 0 ∧ minGnt.Restores (abortAttr a) (regs a) := by
  intro a ha
  cases (minGnt_register abortAttr regs unset).symm.trans ha
  refine ⟨by decide, ?_⟩
  intro _
  simp [minGnt, abortAttr, bar]

theorem abort_pciecsAt : PciecsAt abortTable abortRegs 0 0x40000000 0x40 where
  mapped  := abortFunction.mapped
  aligned := abortFunction.aligned
  chain   := abortFunction_chain

-- The root port with the pending abort has a Min Gnt that is read-only.
theorem min_gnt_left_alone :
    (∃ regs', valPcieBitfieldCheck (configSpace abortAttr) abortTable abortRegs ⟨0, 0⟩ 0 minGnt = some (0, regs') ∧
      ∀ a i, (abortAttr a).rw.getLsbD i = true → (regs' a).getLsbD i = (abortRegs a).getLsbD i) ∧
    ∃ run, valPcieRegisterBitfieldsCheck (configSpace abortAttr) abortTable ⟨0, fun _ => 0⟩ ⟨0, 0⟩
        [{ bdf := 0, rpBdf := none }] [{ minGnt with devPortBitmask := 0xFFFF }] abortRegs = some (0, run) ∧
      (∀ e ∈ run.steps, e.Restores abortAttr abortTable ⟨0, 0⟩) ∧
      Keeps abortAttr (BitfieldStep.Disables abortTable run.steps) abortRegs run.s := by
  have ⟨hcheck, hrun⟩ := bitfield_checks_restore abortAttr abortTable ⟨0, fun _ => 0⟩ ⟨0, 0⟩
  have hsteps : ∃ s run, valPcieRegisterBitfieldsCheck (configSpace abortAttr) abortTable ⟨0, fun _ => 0⟩ ⟨0, 0⟩
        [{ bdf := 0, rpBdf := none }] [{ minGnt with devPortBitmask := 0xFFFF }] abortRegs = some (0, run) ∧
      run.steps = [.disableEru abortRegs 0, .check s 0 minGnt] :=
    ⟨_, _, rfl, rfl⟩
  have ⟨s, run, hr, hs⟩ := hsteps
  have hrestores : ∀ e ∈ run.steps, e.Restores abortAttr abortTable ⟨0, 0⟩ := by
    rw [hs]
    intro e he
    cases he
    case head => exact .inr ⟨_, _, abort_pciecsAt⟩
    case tail he =>
      cases List.mem_singleton.mp he
      exact minGnt_restores _ _
  refine ⟨⟨_, rfl, (hcheck abortRegs 0 minGnt 0 _ rfl ?_).mpr ?_⟩, run, hr, hrestores, (hrun _ _ _ _ _ hr hrestores).right⟩
  · exact fun a ha => (minGnt_restores _ _ a ha).left
  · exact fun a ha => (minGnt_restores _ _ a ha).right

-- A Min Gnt that can be written, against its description, is left with all its bits toggled.
theorem min_gnt_left_toggled :
    ¬∀ (attr : Nat → Attr) (table : PcieInfoTable) (regs : Regs) (unset : BitfieldUnset) (bdf : Nat)
      (bfEntry : PcieCfgregBitfieldEntry) (status : Nat) (regs' : Regs),
      (∀ a, bitfieldRegister (configSpace attr) table regs unset bdf bfEntry = some a → a % 4 = 0) →
      valPcieBitfieldCheck (configSpace attr) table regs unset bdf bfEntry = some (status, regs') →
      ∀ a i, (attr a).rw.getLsbD i = true → (regs' a).getLsbD i = (regs a).getLsbD i := by
  intro hc
  have haligned : ∀ a, bitfieldRegister (configSpace fun _ => readWriteBits) abortTable (fun _ => 0) ⟨0, 0⟩ 0 minGnt =
      some a → a % 4 = 0 := by
    intro a ha
    cases (minGnt_register _ _ _).symm.trans ha
    decide
  have := hc (fun _ => readWriteBits) abortTable (fun _ => 0) ⟨0, 0⟩ 0 minGnt 1 _ haligned rfl 0x4000003C 16 (by decide)
  revert this
  decide

end MinGnt

end Pcie
