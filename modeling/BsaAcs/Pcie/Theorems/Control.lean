import BsaAcs.Pcie.Control
import BsaAcs.Pcie.Theorems.Capability

namespace Pcie

namespace Attr

variable {attr : Attr} {w m : BitVec 32} {i : Nat}

theorem disjoint_bit (attr : Attr) (i : Nat) :
    (attr.rw.getLsbD i && attr.w1c.getLsbD i) = false := by
  simpa using congrArg (BitVec.getLsbD · i) attr.disjoint

theorem subset_bit {m mask : BitVec 32} (h : m &&& ~~~mask = 0) (hi : i < 32) :
    m.getLsbD i = true → mask.getLsbD i = true := by
  have := congrArg (BitVec.getLsbD · i) h
  simp [hi] at this
  exact this

-- Two words are compared bit by bit. The bits of the word, of the two masks and of the named bits are
-- all that the equations below depend on.
theorem eq_iff_bits {v v' u u' : BitVec 32}
    (h : ∀ i, i < 32 → (v.getLsbD i = v'.getLsbD i ↔ u.getLsbD i = u'.getLsbD i)) :
    v = v' ↔ u = u' := by
  constructor
  · intro he
    exact BitVec.eq_of_getLsbD_eq fun i hi => (h i hi).mp (he ▸ rfl)
  · intro he
    exact BitVec.eq_of_getLsbD_eq fun i hi => (h i hi).mpr (he ▸ rfl)

theorem getLsbD_write {d : BitVec 32} (hi : i < 32) :
    (attr.write w d).getLsbD i = (d.getLsbD i && attr.rw.getLsbD i ||
      w.getLsbD i && !d.getLsbD i && attr.w1c.getLsbD i ||
      w.getLsbD i && !(attr.rw.getLsbD i || attr.w1c.getLsbD i)) := by
  simp [Attr.write, hi]

-- Writing back the word with control bits cleared clears the status bits that are set.
theorem write_clear_iff (hm : m &&& ~~~attr.rw = 0) :
    attr.write w (w &&& ~~~m) = w &&& ~~~m ↔ w &&& attr.w1c = 0 := by
  refine eq_iff_bits fun i hi => ?_
  have hd := attr.disjoint_bit i
  have hs := subset_bit hm hi
  simp only [getLsbD_write hi, BitVec.getLsbD_and, BitVec.getLsbD_not, hi, decide_true, Bool.true_and]
  revert hd hs
  cases w.getLsbD i <;> cases m.getLsbD i <;> cases attr.rw.getLsbD i <;> cases attr.w1c.getLsbD i <;> simp

theorem write_set_iff (hm : m &&& ~~~attr.rw = 0) :
    attr.write w (w ||| m) = w ||| m ↔ w &&& attr.w1c = 0 := by
  refine eq_iff_bits fun i hi => ?_
  have hd := attr.disjoint_bit i
  have hs := subset_bit hm hi
  simp only [getLsbD_write hi, BitVec.getLsbD_or, BitVec.getLsbD_and]
  revert hd hs
  cases w.getLsbD i <;> cases m.getLsbD i <;> cases attr.rw.getLsbD i <;> cases attr.w1c.getLsbD i <;> simp

-- A second write of this kind does not bring a status bit back.
theorem write_write_clear {m' : BitVec 32} (hm : m &&& ~~~attr.rw = 0)
    (h : attr.write (attr.write w (w &&& ~~~m)) (attr.write w (w &&& ~~~m) &&& ~~~m') = w &&& ~~~m) :
    w &&& attr.w1c = 0 := by
  refine BitVec.eq_of_getLsbD_eq fun i hi => ?_
  have hd := attr.disjoint_bit i
  have hs := subset_bit hm hi
  have hb := congrArg (BitVec.getLsbD · i) h
  simp only [getLsbD_write hi, BitVec.getLsbD_and, BitVec.getLsbD_not, hi, decide_true, Bool.true_and] at hb
  simp only [BitVec.getLsbD_and]
  revert hd hs hb
  cases w.getLsbD i <;> cases m.getLsbD i <;> cases m'.getLsbD i <;> cases attr.rw.getLsbD i <;>
    cases attr.w1c.getLsbD i <;> simp

-- Writing back the word with status bits set clears these and all others that are set.
theorem write_back_iff (hm : m &&& ~~~attr.w1c = 0) :
    attr.write w (w ||| m) = w &&& ~~~m ↔ w &&& (attr.w1c &&& ~~~m) = 0 := by
  refine eq_iff_bits fun i hi => ?_
  have hd := attr.disjoint_bit i
  have hs := subset_bit hm hi
  simp only [getLsbD_write hi, BitVec.getLsbD_or, BitVec.getLsbD_and, BitVec.getLsbD_not, hi,
    decide_true, Bool.true_and]
  revert hd hs
  cases w.getLsbD i <;> cases m.getLsbD i <;> cases attr.rw.getLsbD i <;> cases attr.w1c.getLsbD i <;> simp

-- Writing the status bits alone clears the control bits.
theorem write_only_iff (hm : m &&& ~~~attr.w1c = 0) :
    attr.write w m = w &&& ~~~m ↔ w &&& attr.rw = 0 := by
  refine eq_iff_bits fun i hi => ?_
  have hd := attr.disjoint_bit i
  have hs := subset_bit hm hi
  simp only [getLsbD_write hi, BitVec.getLsbD_and, BitVec.getLsbD_not, hi, decide_true, Bool.true_and]
  revert hd hs
  cases w.getLsbD i <;> cases m.getLsbD i <;> cases attr.rw.getLsbD i <;> cases attr.w1c.getLsbD i <;> simp

-- A base address register keeps its value if the bits are set already or cannot be written.
theorem write_bar_iff {mask : BitVec 32} :
    (bar mask).write w (w ||| m) = w ↔ m &&& mask &&& ~~~w = 0 := by
  refine eq_iff_bits fun i hi => ?_
  simp only [getLsbD_write hi, bar, BitVec.getLsbD_or, BitVec.getLsbD_and, BitVec.getLsbD_not, hi,
    decide_true, Bool.true_and]
  cases w.getLsbD i <;> cases m.getLsbD i <;> cases mask.getLsbD i <;> simp

theorem single_bit_iff {mask : BitVec 32} {k : Nat} (hk : k < 32) :
    (1#32 <<< k) &&& mask &&& ~~~w = 0 ↔ (mask.getLsbD k = true → w.getLsbD k = true) := by
  constructor
  · intro he hb
    have := congrArg (BitVec.getLsbD · k) he
    simpa [hk, hb] using this
  · intro hb
    refine BitVec.eq_of_getLsbD_eq fun i hi => ?_
    by_cases he : i = k
    case pos =>
      subst he
      cases hm : mask.getLsbD i
      case false => simp [hm]
      case true  => simp [hb hm]
    case neg =>
      have : i < k ∨ 0 < i - k := by omega
      cases this
      case inl h => simp [h]
      case inr h => simp [BitVec.getLsbD_one, show i - k ≠ 0 by omega]

end Attr

namespace CapChain

variable {read read' : Nat → BitVec 32} {p q : Nat}

theorem le (h : CapChain read q p) : 0x40 ≤ q ∧ q % 4 = 0 := by
  induction h
  case here h₁ h₂ _   => exact ⟨h₁, h₂⟩
  case next _ _ _ _ hi => exact hi

theorem lt (h : CapChain read q p) (hp : p < 256) : q < 256 := by
  induction h
  case here            => exact hp
  case next _ _ hs _ hi => exact hi (capStep_inl_lt hs)

theorem aligned (h : CapChain read q p) : p % 4 = 0 := by
  cases h <;> assumption

-- The list is found again where the words outside of the header read the same.
theorem congr (h : CapChain read q p) (hp : p < 256)
    (hr : ∀ o, 0x40 ≤ o → o < 256 → o % 4 = 0 → read' o = read o) : CapChain read' q p := by
  induction h
  case here h₁ h₂ hs => exact .here h₁ h₂ (capStep_congr (hr _ h₁ hp h₂) ▸ hs)
  case next h₁ h₂ hs _ hi =>
    exact .next h₁ h₂ (capStep_congr (hr _ h₁ hp h₂) ▸ hs) (hi (capStep_inl_lt hs))

theorem leaves (h : CapChain read q p) :
    ∃ n, Loop.Leaves (capStep capLayout read cidPciecs) n p (some q) := by
  induction h
  case here _ _ hs => exact ⟨1, .now hs⟩
  case next _ _ hs _ hi =>
    have ⟨n, hl⟩ := hi
    exact ⟨n + 1, .next hs hl⟩

theorem loop_eq (h : CapChain read q p) (hp : p < 256) :
    loop (capStep capLayout read cidPciecs) 256 p = some (some q) := by
  have ⟨_, hl⟩ := h.leaves
  exact search_of_leaves hl hp

end CapChain

section ConfigSpace

variable {table : PcieInfoTable} {attr : Nat → Attr} {regs : Regs} {bdf offset a : Nat}

theorem configSpace_read (hm : configAddr table bdf offset = some a) (ha : a % 4 = 0) :
    valPcieReadCfg (configSpace attr) table regs bdf offset = some (regs a) := by
  simp [valPcieReadCfg, hm, palMmioRead, configSpace, ha]

theorem configSpace_write (hm : configAddr table bdf offset = some a) (data : BitVec 32) :
    valPcieWriteCfg (configSpace attr) table regs bdf offset data =
      Function.update regs a ((attr a).write (regs a) data) := by
  simp [valPcieWriteCfg, hm, palMmioWrite, configSpace]

theorem configSpace_readModifyWrite (hm : configAddr table bdf offset = some a) (ha : a % 4 = 0)
    (f : BitVec 32 → BitVec 32) :
    readModifyWrite (configSpace attr) table regs bdf offset f =
      Function.update regs a ((attr a).write (regs a) (f (regs a))) := by
  simp [readModifyWrite, configSpace_read hm ha, configSpace_write hm]

-- The capability that the list leads to is found, also after a write to the header.
theorem CapChain.pciecsBase_eq {regs' : Regs} {addr pciecs : Nat}
    (h : CapChain (fun offset => regs (addr + offset)) pciecs (regs (addr + type01Cpr) &&& 0xFF).toNat)
    (hm : ∀ offset < 4096, configAddr table bdf offset = some (addr + offset)) (ha : addr % 4 = 0)
    (hr : ∀ offset, type01Cpr ≤ offset → regs' (addr + offset) = regs (addr + offset)) (unset : Nat) :
    pciecsBase (configSpace attr) table regs' unset bdf = some pciecs := by
  have hread : ∀ offset < 4096, offset % 4 = 0 →
      valPcieReadCfg (configSpace attr) table regs' bdf offset = some (regs' (addr + offset)) := by
    intro offset ho h4
    exact configSpace_read (hm offset ho) (by omega)
  have hc := hr type01Cpr le_rfl
  -- The pointer to the first capability is a multiple of 4, so the register is not all ones.
  have hne : regs (addr + type01Cpr) ≠ pcieUnknownResponse := by
    intro he
    have := h.aligned
    simp [he, pcieUnknownResponse] at this
  have hl : CapChain (valPcieReadCfg (configSpace attr) table regs' bdf · |>.getD 0) pciecs
      (regs (addr + type01Cpr) &&& 0xFF).toNat := by
    refine h.congr (and_0xff_lt _) fun o h₁ h₂ h₃ => ?_
    simp only [hread o (by omega) h₃, Option.getD_some]
    exact hr o (le_trans (by decide) h₁)
  simp only [pciecsBase, valPcieFindCapability, hread type01Cpr (by decide) (by decide), hc, hne, if_false,
    hl.loop_eq (and_0xff_lt _), Option.map_some, Option.getD_some]

-- Every offset leads to an address, also those beyond the config space of the function.
theorem configAddr_offset (h : configAddr table bdf 0 = some a) (offset : Nat) :
    configAddr table bdf offset = some ((a + offset) % 2 ^ 64) := by
  simp only [configAddr, Nat.add_zero] at h ⊢
  split at h
  case isTrue => cases h
  case isFalse hf =>
    split at h
    case isTrue => cases h
    case isFalse hb =>
      rw [if_neg hf, if_neg hb, ← Option.some.inj h, Nat.mod_add_mod]

end ConfigSpace

-- A helper that writes one word does what it should if that word ends up as it should.
theorem update_eq_iff {f g : Regs} {a : Nat} {v : BitVec 32} :
    Function.update f a v = g ↔ v = g a ∧ ∀ x, x ≠ a → g x = f x := by
  constructor
  · rintro rfl
    exact ⟨by rw [Function.update_self], fun x hx => Function.update_of_ne hx ..⟩
  · intro ⟨hv, hg⟩
    funext x
    by_cases hx : x = a
    case pos => rw [hx, Function.update_self, hv]
    case neg => rw [Function.update_of_ne hx, hg x hx]

theorem and_not_eq_self_iff {w m : BitVec 32} : w &&& ~~~m = w ↔ w &&& m = 0 := by
  refine Attr.eq_iff_bits fun i hi => ?_
  simp only [BitVec.getLsbD_and, BitVec.getLsbD_not, hi, decide_true, Bool.true_and]
  cases w.getLsbD i <;> cases m.getLsbD i <;> simp

namespace PcieFunction

variable {table : PcieInfoTable} {attr : Nat → Attr} (fn : PcieFunction table attr) {regs : Regs} {offset unset : Nat}

theorem read (offset : Nat) :
    valPcieReadCfg (configSpace attr) table regs fn.bdf offset =
      some (regs ((fn.addr + offset) % 2 ^ 64 - (fn.addr + offset) % 2 ^ 64 % 4)) := by
  rw [valPcieReadCfg, configAddr_offset (fn.mapped 0 (by decide))]
  rfl

theorem write (offset : Nat) (data : BitVec 32) :
    valPcieWriteCfg (configSpace attr) table regs fn.bdf offset data =
      Function.update regs ((fn.addr + offset) % 2 ^ 64) ((attr ((fn.addr + offset) % 2 ^ 64)).write
        (regs ((fn.addr + offset) % 2 ^ 64)) data) :=
  configSpace_write (configAddr_offset (fn.mapped 0 (by decide)) offset) data

-- The config space of the function does not run over the end of the address space.
theorem addr_mod (ho : offset < 4096) : (fn.addr + offset) % 2 ^ 64 = fn.addr + offset :=
  Option.some.inj ((configAddr_offset (fn.mapped 0 (by decide)) offset).symm.trans (fn.mapped offset ho))

theorem read_word (ho : offset < 4096) :
    valPcieReadCfg (configSpace attr) table regs fn.bdf offset = some (regs (fn.addr + (offset - offset % 4))) := by
  have := fn.aligned
  rw [fn.read, fn.addr_mod ho]
  congr 2
  omega

theorem readModifyWrite_eq (ho : offset < 4096) (ha : offset % 4 = 0) (f : BitVec 32 → BitVec 32) :
    readModifyWrite (configSpace attr) table regs fn.bdf offset f =
      Function.update regs (fn.addr + offset)
        ((attr (fn.addr + offset)).write (regs (fn.addr + offset)) (f (regs (fn.addr + offset)))) := by
  have := fn.aligned
  exact configSpace_readModifyWrite (fn.mapped offset ho) (by omega) f

section Words

variable {h : Helper} {a d : Nat}

theorem mem_deviceAddr : fn.deviceAddr = some d ↔ ∃ q ∈ fn.pciecs, fn.addr + (q + dctlrOffset) = d := by
  simp [deviceAddr]

-- The three words lie apart from each other.
theorem device_ne (hd : fn.deviceAddr = some d) :
    d ≠ fn.addr + type01Cr ∧ d ≠ fn.addr + type1SecSta ∧ d % 4 = 0 ∧ attr d = deviceControlStatus := by
  obtain ⟨q, hq, rfl⟩ := fn.mem_deviceAddr.mp hd
  have ⟨_, _, _⟩ := fn.outside q hq
  have := fn.aligned
  refine ⟨?_, ?_, ?_, fn.device q hq⟩ <;> simp only [type01Cr, type1SecSta, dctlrOffset] <;> omega

theorem bits_command : fn.bits h (fn.addr + type01Cr) = h.commandBits := by
  simp [bits]

theorem bits_secondary : fn.bits h (fn.addr + type1SecSta) = h.secondaryBits fn.header := by
  simp [bits, type1SecSta, type01Cr]

theorem bits_device (hd : fn.deviceAddr = some d) : fn.bits h d = h.deviceBits := by
  have ⟨h₁, h₂, _⟩ := fn.device_ne hd
  simp [bits, h₁, h₂, hd]

theorem bits_other (h₁ : a ≠ fn.addr + type01Cr) (h₂ : a ≠ fn.addr + type1SecSta) (h₃ : fn.deviceAddr ≠ some a) :
    fn.bits h a = 0 := by
  simp [bits, h₁, h₂, h₃]

theorem intended_of_bits_eq_zero (hb : fn.bits h a = 0) : fn.intended regs h a = regs a := by
  simp only [intended, hb]
  split
  case isTrue  => exact BitVec.or_zero
  case isFalse => exact BitVec.and_allOnes

theorem bits_eq_zero (h₁ : a ≠ fn.addr + type01Cr) (hsec : h.secondaryBits fn.header = 0) (hdev : h.deviceBits = 0) :
    fn.bits h a = 0 := by
  by_cases h₂ : a = fn.addr + type1SecSta
  case pos => rw [h₂, bits_secondary, hsec]
  case neg =>
    by_cases h₃ : fn.deviceAddr = some a
    case pos => rw [fn.bits_device h₃, hdev]
    case neg => exact fn.bits_other h₁ h₂ h₃

-- The helpers for one control bit. The word they write back clears the status bits that are set.
theorem command_iff {m : BitVec 32} {f : BitVec 32 → BitVec 32} (hm : h.commandBits = m)
    (hsec : h.secondaryBits fn.header = 0) (hdev : h.deviceBits = 0) (hrw : m &&& ~~~0x0000FFFF = 0)
    (hf : f = fun w => if h.sets then w ||| m else w &&& ~~~m) :
    readModifyWrite (configSpace attr) table regs fn.bdf type01Cr f = fn.intended regs h ↔
      regs (fn.addr + type01Cr) &&& 0xF9000000 = 0 := by
  rw [fn.readModifyWrite_eq (by decide) (by decide), fn.command, update_eq_iff,
    and_iff_left fun x hx => fn.intended_of_bits_eq_zero (fn.bits_eq_zero hx hsec hdev)]
  simp only [intended, bits_command, hm, hf]
  split
  case isTrue  => exact Attr.write_set_iff hrw
  case isFalse => exact Attr.write_clear_iff hrw

theorem clearSigTargetAbort_iff :
    valPcieClearSigTargetAbort (configSpace attr) table regs fn.bdf =
      fn.intended regs .clearSigTargetAbort ↔ fn.Quiet regs unset .clearSigTargetAbort := by
  have hne : fn.addr + type1SecSta ≠ fn.addr + type01Cr := by simp [type1SecSta, type01Cr]
  have hother : ∀ x, x ≠ fn.addr + type1SecSta → fn.intended regs .clearSigTargetAbort x =
      Function.update regs (fn.addr + type01Cr) (fn.intended regs .clearSigTargetAbort (fn.addr + type01Cr)) x := by
    intro x h₂
    by_cases h₁ : x = fn.addr + type01Cr
    case pos => rw [h₁, Function.update_self]
    case neg =>
      rw [Function.update_of_ne h₁]
      refine fn.intended_of_bits_eq_zero ?_
      by_cases h₃ : fn.deviceAddr = some x
      case pos =>
        rw [fn.bits_device h₃]
        rfl
      case neg => exact fn.bits_other h₁ h₂ h₃
  simp only [valPcieClearSigTargetAbort, fn.readModifyWrite_eq (show type01Cr < 4096 by decide) (by decide),
    fn.readModifyWrite_eq (show type1SecSta < 4096 by decide) (by decide), fn.command, fn.secondary,
    Function.update_of_ne hne]
  have hcommand {v : BitVec 32} : (∀ x, x ≠ fn.addr + type1SecSta → fn.intended regs .clearSigTargetAbort x =
      Function.update regs (fn.addr + type01Cr) v x) ↔ v = fn.intended regs .clearSigTargetAbort (fn.addr + type01Cr) := by
    constructor
    · intro hx
      rw [hx _ hne.symm, Function.update_self]
    · rintro rfl
      exact hother
  rw [update_eq_iff, hcommand, and_comm]
  simp only [intended, bits_command, bits_secondary, Helper.sets, Helper.commandBits, Quiet]
  refine and_congr (Attr.write_back_iff (by decide)) ?_
  cases hh : fn.header
  case type1 => exact Attr.write_back_iff (by decide)
  case type0 barMask =>
    have hw {w : BitVec 32} : w &&& ~~~0 = w := BitVec.and_allOnes
    simp only [Bool.false_eq_true, if_false, Helper.secondaryBits, hw, Header.secondary]
    exact Attr.write_bar_iff.trans (Attr.single_bit_iff (by decide))

end Words

section Search

-- The search of the helpers, round by round.
theorem pciecsBase_eq_some_iff {base : Nat} :
    pciecsBase (configSpace attr) table regs unset fn.bdf = some base ↔
      ∃ found, fn.Finds regs found ∧ found.getD unset = base := by
  have hcpr : valPcieReadCfg (configSpace attr) table regs fn.bdf type01Cpr = some (regs (fn.addr + type01Cpr)) :=
    fn.read_word (show type01Cpr < 4096 by decide)
  simp only [pciecsBase, valPcieFindCapability, hcpr, Finds]
  split
  case isTrue => simp
  case isFalse =>
    have hstep {p : Nat} (hp : p < 256) :
        capStep capLayout (valPcieReadCfg (configSpace attr) table regs fn.bdf · |>.getD 0) cidPciecs p =
          capStep capLayout (fun offset => regs (fn.addr + (offset - offset % 4))) cidPciecs p :=
      capStep_congr (by rw [fn.read_word (by omega), Option.getD_some])
    have hrun {found : Option Nat} :
        loop (capStep capLayout (valPcieReadCfg (configSpace attr) table regs fn.bdf · |>.getD 0) cidPciecs) 256
            (regs (fn.addr + type01Cpr) &&& 0xFF).toNat = some found ↔
          ∃ n, Loop.Leaves (capStep capLayout (fun offset => regs (fn.addr + (offset - offset % 4))) cidPciecs) n
            (regs (fn.addr + type01Cpr) &&& 0xFF).toNat found := by
      constructor
      · intro hl
        have ⟨n, _, hn⟩ := Loop.Leaves.of_run hl
        exact ⟨n, hn.congr (fun _ => capStep_inl_lt) (fun hp => (hstep hp).symm) (and_0xff_lt _)⟩
      · intro ⟨n, hn⟩
        exact search_of_leaves (hn.congr (fun _ => capStep_inl_lt) hstep (and_0xff_lt _)) (and_0xff_lt _)
    simp only [← hrun]
    generalize loop _ 256 _ = r
    cases r
    case none => simp
    case some found => cases found <;> simp

-- The registers with the named bits of Device Control and Status cleared.
def deviceCleared (h : Helper) (regs : Regs) : Regs :=
  fun a => if fn.deviceAddr = some a then regs a &&& ~~~h.deviceBits else regs a

variable {h : Helper} {a : Nat}

-- The write at the end of a search.
theorem update_eq_deviceCleared_iff (hh : h = .disableEru ∨ h = .clearUrd ∨ h = .clearDeviceStatusError) :
    Function.update regs a ((attr a).write (regs a) (h.deviceData (regs (a - a % 4)))) = fn.deviceCleared h regs ↔
      if fn.deviceAddr = some a then h.DeviceQuiet (regs a)
      else (attr a).write (regs a) (h.deviceData (regs (a - a % 4))) = regs a ∧
        ∀ d ∈ fn.deviceAddr, regs d &&& h.deviceBits = 0 := by
  rw [update_eq_iff]
  split
  case isTrue hd =>
    have ⟨_, _, halign, hattr⟩ := fn.device_ne hd
    have hother : ∀ x, x ≠ a → fn.deviceCleared h regs x = regs x := by
      intro x hx
      rw [deviceCleared, if_neg fun hc => hx (Option.some.inj (hc.symm.trans hd))]
    rw [and_iff_left hother, deviceCleared, if_pos hd, halign, Nat.sub_zero, hattr]
    rcases hh with rfl | rfl | rfl
    · exact Attr.write_clear_iff (by decide)
    · exact Attr.write_only_iff (show 1#32 <<< 19 &&& ~~~deviceControlStatus.w1c = 0 by decide)
    · simp only [Helper.deviceData, Helper.deviceBits, Helper.DeviceQuiet, iff_true]
      exact (Attr.write_back_iff (by decide)).mpr (by simp [deviceControlStatus])
  case isFalse hd =>
    refine and_congr (by rw [deviceCleared, if_neg hd]) ⟨fun hx d hmem => ?_, fun hx x _ => ?_⟩
    · have hmem : fn.deviceAddr = some d := hmem
      have hne : d ≠ a := by
        rintro rfl
        exact hd hmem
      have hclear := hx d hne
      rw [deviceCleared, if_pos hmem] at hclear
      exact and_not_eq_self_iff.mp hclear
    · rw [deviceCleared]
      split
      case isTrue hmem => exact and_not_eq_self_iff.mpr (hx x hmem)
      case isFalse     => rfl

-- A search and the write at its end.
theorem searchQuiet_iff (hh : h = .disableEru ∨ h = .clearUrd ∨ h = .clearDeviceStatusError) :
    ((pciecsBase (configSpace attr) table regs unset fn.bdf).map fun base =>
      let a := (fn.addr + (base + dctlrOffset) % 2 ^ 32) % 2 ^ 64
      Function.update regs a ((attr a).write (regs a) (h.deviceData (regs (a - a % 4))))) =
        some (fn.deviceCleared h regs) ↔ fn.SearchQuiet regs unset h := by
  simp only [Option.map_eq_some_iff, pciecsBase_eq_some_iff, SearchQuiet, ← fn.update_eq_deviceCleared_iff hh]
  constructor
  · rintro ⟨_, ⟨found, hf, rfl⟩, he⟩
    exact ⟨found, hf, he⟩
  · rintro ⟨found, hf, he⟩
    exact ⟨_, ⟨found, hf, rfl⟩, he⟩

-- Two of the helpers name bits of Device Status only.
theorem intended_eq_deviceCleared (hc : h.commandBits = 0) (hs : h.secondaryBits fn.header = 0) (hset : h.sets = false) :
    fn.intended regs h = fn.deviceCleared h regs := by
  funext x
  rw [deviceCleared]
  split
  case isTrue hd =>
    rw [intended, hset, fn.bits_device hd]
    rfl
  case isFalse hd =>
    refine fn.intended_of_bits_eq_zero ?_
    by_cases h₁ : x = fn.addr + type01Cr
    case pos => rw [h₁, bits_command, hc]
    case neg =>
      by_cases h₂ : x = fn.addr + type1SecSta
      case pos => rw [h₂, bits_secondary, hs]
      case neg => exact fn.bits_other h₁ h₂ hd

theorem clearUrd_iff :
    valPcieClearUrd (configSpace attr) table regs unset fn.bdf = some (fn.intended regs .clearUrd) ↔
      fn.SearchQuiet regs unset .clearUrd := by
  rw [fn.intended_eq_deviceCleared rfl (by simp [Helper.secondaryBits]) rfl, ← fn.searchQuiet_iff (.inr (.inl rfl))]
  simp only [valPcieClearUrd, fn.write]
  rfl

theorem readModifyWrite_at (f : BitVec 32 → BitVec 32) :
    readModifyWrite (configSpace attr) table regs fn.bdf offset f =
      Function.update regs ((fn.addr + offset) % 2 ^ 64) ((attr ((fn.addr + offset) % 2 ^ 64)).write
        (regs ((fn.addr + offset) % 2 ^ 64))
        (f (regs ((fn.addr + offset) % 2 ^ 64 - (fn.addr + offset) % 2 ^ 64 % 4)))) := by
  simp only [readModifyWrite, fn.read, fn.write]

theorem clearDeviceStatusError_iff :
    valPcieClearDeviceStatusError (configSpace attr) table regs unset fn.bdf =
      some (fn.intended regs .clearDeviceStatusError) ↔ fn.SearchQuiet regs unset .clearDeviceStatusError := by
  rw [fn.intended_eq_deviceCleared rfl (by simp [Helper.secondaryBits]) rfl, ← fn.searchQuiet_iff (.inr (.inr rfl))]
  simp only [valPcieClearDeviceStatusError, fn.readModifyWrite_at]
  rfl

-- The third one clears a bit of Command before it searches.
theorem disableEru_intended :
    fn.intended regs .disableEru = fn.deviceCleared .disableEru
      (Function.update regs (fn.addr + type01Cr) (regs (fn.addr + type01Cr) &&& ~~~(1#32 <<< 8))) := by
  funext x
  by_cases h₁ : x = fn.addr + type01Cr
  case pos =>
    have hd : fn.deviceAddr ≠ some (fn.addr + type01Cr) := fun hd => (fn.device_ne hd).1 rfl
    rw [h₁, deviceCleared, if_neg hd, Function.update_self, intended, bits_command]
    rfl
  case neg =>
    rw [deviceCleared, Function.update_of_ne h₁]
    split
    case isTrue hd =>
      rw [intended, fn.bits_device hd]
      rfl
    case isFalse hd =>
      refine fn.intended_of_bits_eq_zero ?_
      by_cases h₂ : x = fn.addr + type1SecSta
      case pos =>
        rw [h₂, bits_secondary]
        simp [Helper.secondaryBits]
      case neg => exact fn.bits_other h₁ h₂ hd

theorem disableEru_iff :
    valPcieDisableEru (configSpace attr) table regs unset fn.bdf = some (fn.intended regs .disableEru) ↔
      fn.Quiet regs unset .disableEru := by
  have hcr : (fn.addr + type01Cr) % 4 = 0 := by
    have := fn.aligned
    simp only [type01Cr]
    omega
  rw [disableEru_intended, Quiet, ← fn.searchQuiet_iff (.inl rfl)]
  simp only [valPcieDisableEru, fn.readModifyWrite_eq (show type01Cr < 4096 by decide) (by decide), fn.command,
    fn.readModifyWrite_at]
  have hiff : commandStatus.write (regs (fn.addr + type01Cr)) (regs (fn.addr + type01Cr) &&& ~~~(1#32 <<< 8)) =
      regs (fn.addr + type01Cr) &&& ~~~(1#32 <<< 8) ↔ regs (fn.addr + type01Cr) &&& commandStatus.w1c = 0 :=
    Attr.write_clear_iff (by decide)
  by_cases hq : regs (fn.addr + type01Cr) &&& 0xF9000000 = 0
  case pos =>
    rw [show regs (fn.addr + type01Cr) &&& ~~~(1#32 <<< crSerreShift) = regs (fn.addr + type01Cr) &&& ~~~(1#32 <<< 8) from rfl,
      hiff.mpr hq, and_iff_right hq]
    rfl
  case neg =>
    refine iff_of_false (fun hc => hq ?_) fun hc => hq hc.1
    obtain ⟨base, _, he⟩ := Option.map_eq_some_iff.mp hc
    have hword := (update_eq_iff.mp he).2 (fn.addr + type01Cr)
    have hself := (update_eq_iff.mp he).1
    have hd : fn.deviceAddr ≠ some (fn.addr + type01Cr) := fun hd => (fn.device_ne hd).1 rfl
    rw [deviceCleared, if_neg hd, Function.update_self, Function.update_self] at hword
    -- The second write goes to the same word or to another one.
    by_cases ha : (fn.addr + (base + dctlrOffset) % 2 ^ 32) % 2 ^ 64 = fn.addr + type01Cr
    case neg => exact hiff.mp (hword (Ne.symm ha)).symm
    case pos =>
      rw [ha, hcr, Nat.sub_zero, deviceCleared, if_neg hd, Function.update_self, Function.update_self, fn.command] at hself
      exact Attr.write_write_clear (by decide) hself

end Search

-- Each helper changes the bits that its description names and no others exactly if it does not meet
-- a register whose other half it would disturb, and is not led astray by its search.
theorem helper_exact_iff (regs : Regs) (h : Helper) (unset : Nat) :
    h.run (configSpace attr) table regs unset fn.bdf = some (fn.intended regs h) ↔ fn.Quiet regs unset h := by
  cases h
  case enableBme | disableBme | enableMsa | disableMsa =>
    simp only [Helper.run, Option.some.injEq, Quiet]
    exact fn.command_iff rfl (by simp [Helper.secondaryBits]) rfl (by decide) rfl
  case disableEru => exact fn.disableEru_iff
  case clearUrd => exact fn.clearUrd_iff
  case clearDeviceStatusError => exact fn.clearDeviceStatusError_iff
  case clearSigTargetAbort =>
    simp only [Helper.run, Option.some.injEq]
    exact fn.clearSigTargetAbort_iff

end PcieFunction

-- A root port with a pending Received Master Abort, in a window at 1 GB.
def abortTable : PcieInfoTable :=
  [{ ecamBase := 0x40000000, segmentNum := 0, startBusNum := 0, endBusNum := 255 }]

def abortAttr : Nat → Attr
  | 0x40000004 => commandStatus
  | 0x4000001C => secondaryStatus
  | 0x40000048 => deviceControlStatus
  | _          => bar 0

def abortRegs : Regs
  | 0x40000004 => 0x20000000
  | 0x40000034 => 0x00000040
  | 0x40000040 => 0x00000010
  | _          => 0

def abortFunction : PcieFunction abortTable abortAttr where
  bdf       := 0
  addr      := 0x40000000
  pciecs    := some 0x40
  header    := .type1
  mapped    := by
    intro offset ho
    have : (0x40000000 + offset) % 2 ^ 64 = 0x40000000 + offset := Nat.mod_eq_of_lt (by omega)
    simpa [configAddr, ecamBase, abortTable, PcieInfoBlock.covers, pcieExtractBdfBus, pcieExtractBdfDev,
      pcieExtractBdfFunc, pcieExtractBdfSeg, pcieMaxBus, pcieMaxDev, pcieMaxFunc, cfgAddr] using this
  aligned   := by decide
  command   := rfl
  secondary := rfl
  outside   := by decide
  device    := by
    intro q hq
    cases hq
    rfl

theorem abortFunction_chain : CapChain (fun offset => abortRegs (0x40000000 + offset)) 0x40
    (abortRegs (0x40000000 + type01Cpr) &&& 0xFF).toNat :=
  .here (by decide) (by decide) (by decide)

-- Enabling the bus master clears the Received Master Abort.
theorem enable_bme_clears_abort :
    ¬∀ (table : PcieInfoTable) (attr : Nat → Attr) (fn : PcieFunction table attr) (regs : Regs)
      (h : Helper) (unset : Nat),
      h.run (configSpace attr) table regs unset fn.bdf = some (fn.intended regs h) := by
  intro hc
  have := hc _ _ abortFunction abortRegs .enableBme 0
  have := congrArg (·.map (· 0x40000004)) this
  revert this
  decide

end Pcie
