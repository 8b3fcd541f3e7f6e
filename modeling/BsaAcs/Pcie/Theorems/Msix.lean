import BsaAcs.Pcie.Msix
import BsaAcs.Pcie.Theorems.Bar
import BsaAcs.Pcie.Theorems.Control

namespace Pcie

-- Message Control below the list entry: the enable bit and the function mask can be written.
def messageControl : Attr where
  rw       := 0xC0000000
  w1c      := 0
  disjoint := by simp

def memoryWord : Attr where
  rw       := BitVec.allOnes 32
  w1c      := 0
  disjoint := by simp

-- A function with an MSI-X capability, and the table of its vectors in memory, behind a memory BAR.
structure MsixFunction (table : PcieInfoTable) (attr : Nat → Attr) (regs : Regs) where
  bdf         : Nat
  addr        : Nat
  caps        : List Nat
  cap         : Nat
  bir         : Nat
  tableOffset : Nat
  bar         : Bar
  base        : BitVec 64
  vectors     : Nat
  mapped      : ∀ offset < 4096, configAddr table bdf offset = some (addr + offset)
  aligned     : addr % 4 = 0
  pointer     : regs (addr + type01Cpr) ≠ pcieUnknownResponse
  list        : CapList (fun offset => regs (addr + offset)) (regs (addr + type01Cpr) &&& 0xFF).toNat caps
  outside     : ∀ p ∈ caps, 0x40 ≤ p ∧ p < 0x100 ∧ p % 4 = 0
  found       : caps.find? (isCap (fun offset => regs (addr + offset)) cidMsix) = some cap
  control     : attr (addr + cap) = messageControl
  birLt       : bir < 6
  offsetDvd   : 8 ∣ tableOffset
  offsetReg   : (regs (addr + (cap + msiXTorOffset))).toNat = tableOffset + bir
  slots       : ∀ i < bar.words.length, some (regs (addr + (type01Bar + (bir + i) * 4))) = bar.words[i]?
  memory      : bar.base = some base
  words       : ∀ i < vectors, ∀ k < 4, attr (base.toNat + tableOffset + 16 * i + 4 * k) = memoryWord
  apart       : ∀ i < vectors, ∀ k < 4, ∀ offset < 4096, base.toNat + tableOffset + 16 * i + 4 * k ≠ addr + offset
  -- What is behind a 32-bit BAR has an address of 32 bits.
  below       : ∀ address prefetchable, bar = .mem32 address prefetchable →
    base.toNat + tableOffset + 16 * vectors ≤ 2 ^ 32

namespace MsixFunction

variable {table : PcieInfoTable} {attr : Nat → Attr} {regs : Regs}

-- Where the PCI specification has a word of the entry of a vector.
def word (fn : MsixFunction table attr regs) (index k : Nat) : Nat :=
  fn.base.toNat + fn.tableOffset + 16 * index + 4 * k

-- The BAR is for 32 bits, and its flags make up for the offset of the table.
def Direct (fn : MsixFunction table attr regs) : Prop :=
  ∃ address prefetchable, fn.bar = .mem32 address prefetchable ∧ fn.tableOffset = if prefetchable then 8 else 0

-- The message address, the data and the vector control of a vector are written, and nothing else but Message
-- Control, in which the enable bit ends up as it is given, and the words of the header that are named.
structure Writes (fn : MsixFunction table attr regs) (index : Nat) (address data control : BitVec 32) (enable : Bool)
    (header : List Nat) (regs' : Regs) : Prop where
  address : regs' (fn.word index 0) = address
  data    : regs' (fn.word index 2) = data
  control : regs' (fn.word index 3) = control
  enable  : (regs' (fn.addr + fn.cap)).getLsbD 31 = enable
  vectors : ∀ i < fn.vectors, i ≠ index → ∀ k < 4, regs' (fn.word i k) = regs (fn.word i k)
  others  : ∀ a, a ≠ fn.word index 0 → a ≠ fn.word index 2 → a ≠ fn.word index 3 → a ≠ fn.addr + fn.cap →
    (∀ offset ∈ header, a ≠ fn.addr + offset) → regs' a = regs a

section Config

variable (fn : MsixFunction table attr regs) {regs' : Regs} {offset : Nat}

theorem read (ho : offset < 4096) (ha : offset % 4 = 0) :
    valPcieReadCfg (configSpace attr) table regs' fn.bdf offset = some (regs' (fn.addr + offset)) := by
  have := fn.aligned
  exact configSpace_read (fn.mapped offset ho) (by omega)

theorem readModifyWrite_eq (ho : offset < 4096) (ha : offset % 4 = 0) (f : BitVec 32 → BitVec 32) :
    readModifyWrite (configSpace attr) table regs' fn.bdf offset f =
      Function.update regs' (fn.addr + offset)
        ((attr (fn.addr + offset)).write (regs' (fn.addr + offset)) (f (regs' (fn.addr + offset)))) := by
  have := fn.aligned
  exact configSpace_readModifyWrite (fn.mapped offset ho) (by omega) f

theorem cap_outside : 0x40 ≤ fn.cap ∧ fn.cap < 0x100 ∧ fn.cap % 4 = 0 :=
  fn.outside fn.cap (List.mem_of_find?_eq_some fn.found)

-- The capability is found, also after a write to the header.
theorem msiCapOffset_eq (unset : MsixUnset)
    (hr : ∀ offset, type01Cpr ≤ offset → regs' (fn.addr + offset) = regs (fn.addr + offset)) :
    msiCapOffset (configSpace attr) table regs' unset fn.bdf = some fn.cap := by
  have hp : valPcieReadCfg (configSpace attr) table regs' fn.bdf type01Cpr = some (regs (fn.addr + type01Cpr)) := by
    rw [fn.read (by decide) (by decide), hr type01Cpr (Nat.le_refl _)]
  have hread : ∀ q ∈ fn.caps, (valPcieReadCfg (configSpace attr) table regs' fn.bdf q).getD 0 = regs (fn.addr + q) := by
    intro q hq
    have ⟨h₁, h₂, h₃⟩ := fn.outside q hq
    rw [fn.read (by omega) h₃, Option.getD_some, hr q (Nat.le_trans (by decide) h₁)]
  have hl := @CapList.search_eq _ cidMsix _ _ (fn.list.congr hread) (and_0xff_lt _)
  have hf : fn.caps.find? (isCap (fun q => (valPcieReadCfg (configSpace attr) table regs' fn.bdf q).getD 0) cidMsix) =
      some fn.cap := by
    rw [← fn.found]
    apply List.find?_congr
    intro q hq
    rw [isCap, isCap, hread q hq]
  rw [msiCapOffset, valPcieFindCapability]
  simp only [hp, fn.pointer, if_false, hl, hf, Option.map_some, Option.getD_some]

-- The register is found that holds the address of the table in the case at hand.
theorem msixTableAddress_eq (unset : MsixUnset)
    (hr : ∀ offset, offset ≠ type01Cr → offset ≠ fn.cap → regs' (fn.addr + offset) = regs (fn.addr + offset)) :
    msixTableAddress (configSpace attr) table regs' unset fn.bdf fn.cap =
      regs (fn.addr + (type01Bar + fn.bir * 4)) := by
  have ⟨h₁, h₂, h₃⟩ := fn.cap_outside
  have hb := fn.birLt
  have hm : (fn.cap + msiXTorOffset) % 2 ^ 32 = fn.cap + msiXTorOffset := Nat.mod_eq_of_lt (by rw [msiXTorOffset]; omega)
  have ht : valPcieReadCfg (configSpace attr) table regs' fn.bdf (fn.cap + msiXTorOffset) =
      some (regs (fn.addr + (fn.cap + msiXTorOffset))) := by
    rw [fn.read (by rw [msiXTorOffset]; omega) (by rw [msiXTorOffset]; omega),
      hr _ (by rw [msiXTorOffset, type01Cr]; omega) (by rw [msiXTorOffset]; omega)]
  have hbir : (regs (fn.addr + (fn.cap + msiXTorOffset)) &&& msiXTableBirMask).toNat = fn.bir := by
    have hd := fn.offsetDvd
    rw [BitVec.toNat_and, fn.offsetReg, show msiXTableBirMask.toNat = 2 ^ 3 - 1 by decide,
      Nat.and_two_pow_sub_one_eq_mod]
    omega
  simp only [msixTableAddress, hm, ht, Option.getD_some, hbir]
  rw [fn.read (by rw [type01Bar]; omega) (by rw [type01Bar]; omega), Option.getD_some,
    hr _ (by rw [type01Bar, type01Cr]; omega) (by rw [type01Bar]; omega)]

theorem toNat_memWord (address : BitVec 28) (flags : BitVec 4) :
    (Bar.memWord address flags).toNat = address.toNat * 16 + flags.toNat := by
  rw [Bar.memWord, BitVec.toNat_append, ← Nat.shiftLeft_add_eq_or_of_lt flags.isLt, Nat.shiftLeft_eq]

theorem Direct.low (h : fn.Direct) : (regs (fn.addr + (type01Bar + fn.bir * 4))).toNat = fn.word 0 0 := by
  have ⟨address, prefetchable, hb, ho⟩ := h
  have hs := fn.slots 0 fn.bar.words_length_pos
  rw [hb, Nat.add_zero] at hs
  have hs : regs (fn.addr + (type01Bar + fn.bir * 4)) = Bar.memWord address (Bar.memFlags prefetchable 0b00) :=
    Option.some.inj hs
  have hbase : fn.base = 0#32 ++ Bar.memWord address 0 := by
    have := fn.memory
    rw [hb] at this
    exact (Option.some.inj this).symm
  have hz : (0#32 ++ Bar.memWord address 0).toNat = address.toNat * 16 := by
    rw [BitVec.toNat_append, toNat_memWord]
    simp
  rw [hs, toNat_memWord, word, hbase, hz, ho]
  cases prefetchable <;> rfl

theorem memoryWord_write (old data : BitVec 32) : memoryWord.write old data = data := by
  simp only [Attr.write, memoryWord, BitVec.ofNat_eq_ofNat, BitVec.and_allOnes, BitVec.and_zero, BitVec.or_zero,
    BitVec.not_allOnes]

theorem word_ne {i j k l : Nat} (hk : k < 4) (hl : l < 4) (h : i ≠ j ∨ k ≠ l) : fn.word i k ≠ fn.word j l := by
  rw [word, word]
  omega

-- The words of an entry that lies below 4 GB.
theorem writeMsixEntry_eq {index : Nat} (h : fn.Direct) (hi : index < fn.vectors) (address data control : BitVec 32) :
    writeMsixEntry (configSpace attr) regs' (regs (fn.addr + (type01Bar + fn.bir * 4))) index address data control =
      Function.update (Function.update (Function.update regs' (fn.word index 0) address) (fn.word index 2) data)
        (fn.word index 3) control := by
  have hlow := h.low
  have ⟨a, p, hb, _⟩ := h
  have hlt := fn.below a p hb
  have hword : ∀ k < 4, ((regs (fn.addr + (type01Bar + fn.bir * 4))).toNat + index * msiXEntrySize + 4 * k) % 2 ^ 32 =
      fn.word index k := by
    intro k hk
    rw [hlow, word, word, msiXEntrySize]
    omega
  have hattr : ∀ k < 4, attr (fn.word index k) = memoryWord := fun k hk => fn.words index hi k hk
  have h₀ := hword 0 (by decide)
  have h₂ := hword 2 (by decide)
  have h₃ := hword 3 (by decide)
  simp only [writeMsixEntry, msiXMsgTblAddrOffset, msiXMsgTblDataOffset, msiXMsgTblMvcOffset, palMmioWrite, configSpace]
  simp only [Nat.mul_zero, Nat.reduceMul] at h₀ h₂ h₃
  rw [h₀, h₂, h₃, hattr 0 (by decide), hattr 2 (by decide), hattr 3 (by decide), memoryWord_write, memoryWord_write,
    memoryWord_write]

end Config

section Write

variable (fn : MsixFunction table attr regs) {regs₁ : Regs} {index : Nat} {f : BitVec 32 → BitVec 32}
  {address data control : BitVec 32} {enable : Bool} {header : List Nat}

-- The last steps of both functions, after the capability has been found.
theorem writes_of_found (h : fn.Direct) (hi : index < fn.vectors) (unset : MsixUnset)
    (hh : ∀ offset ∈ header, offset = type01Cr)
    (hr : ∀ a, (∀ offset ∈ header, a ≠ fn.addr + offset) → regs₁ a = regs a)
    (he : ∀ w, (messageControl.write w (f w)).getLsbD 31 = enable) :
    fn.Writes index address data control enable header
      (writeMsixEntry (configSpace attr) (readModifyWrite (configSpace attr) table regs₁ fn.bdf fn.cap f)
        (msixTableAddress (configSpace attr) table (readModifyWrite (configSpace attr) table regs₁ fn.bdf fn.cap f) unset
          fn.bdf fn.cap) index address data control) := by
  have ⟨h₁, h₂, h₃⟩ := fn.cap_outside
  have hcap : ∀ k < 4, fn.word index k ≠ fn.addr + fn.cap := fun k hk => fn.apart index hi k hk fn.cap (by omega)
  have hrmw := @readModifyWrite_eq _ _ _ fn regs₁ fn.cap (by omega) h₃ f
  rw [fn.control] at hrmw
  have hsame : ∀ a, a ≠ fn.addr + fn.cap → (∀ offset ∈ header, a ≠ fn.addr + offset) →
      readModifyWrite (configSpace attr) table regs₁ fn.bdf fn.cap f a = regs a := by
    intro a hc ha
    rw [hrmw, Function.update_of_ne hc, hr a ha]
  have haddr := @msixTableAddress_eq _ _ _ fn _ unset fun offset ho hc =>
    hsame (fn.addr + offset) (by omega) fun o hm => by
      rw [hh o hm]
      omega
  rw [haddr, fn.writeMsixEntry_eq h hi]
  have h02 := @word_ne _ _ _ fn index index 0 2 (by decide) (by decide) (.inr (by decide))
  have h03 := @word_ne _ _ _ fn index index 0 3 (by decide) (by decide) (.inr (by decide))
  have h23 := @word_ne _ _ _ fn index index 2 3 (by decide) (by decide) (.inr (by decide))
  have hout : ∀ a, a ≠ fn.word index 0 → a ≠ fn.word index 2 → a ≠ fn.word index 3 →
      Function.update (Function.update (Function.update (readModifyWrite (configSpace attr) table regs₁ fn.bdf fn.cap f)
        (fn.word index 0) address) (fn.word index 2) data) (fn.word index 3) control a =
      readModifyWrite (configSpace attr) table regs₁ fn.bdf fn.cap f a := by
    intro a h₀ h₂ h₃
    rw [Function.update_of_ne h₃, Function.update_of_ne h₂, Function.update_of_ne h₀]
  refine ⟨?_, ?_, ?_, ?_, ?_, ?_⟩
  · rw [Function.update_of_ne h03, Function.update_of_ne h02, Function.update_self]
  · rw [Function.update_of_ne h23, Function.update_self]
  · rw [Function.update_self]
  · rw [hout _ (hcap 0 (by decide)).symm (hcap 2 (by decide)).symm (hcap 3 (by decide)).symm, hrmw, Function.update_self]
    exact he _
  · intro i hiv hne k hk
    have hn : ∀ l < 4, fn.word i k ≠ fn.word index l := fun l hl => fn.word_ne hk hl (.inl hne)
    have hoff : ∀ offset < 4096, fn.word i k ≠ fn.addr + offset := fun offset ho => fn.apart i hiv k hk offset ho
    rw [hout _ (hn 0 (by decide)) (hn 2 (by decide)) (hn 3 (by decide))]
    apply hsame _ (hoff fn.cap (by omega))
    intro offset hm
    exact hoff offset (by rw [hh offset hm]; decide)
  · intro a h₀ h₂ h₃ hc ha
    rw [hout a h₀ h₂ h₃]
    exact hsame a hc ha

end Write

end MsixFunction

theorem messageControl_enable (w : BitVec 32) :
    (messageControl.write w (w ||| 1#32 <<< msiXEnableShift)).getLsbD 31 = true := by
  simp [Attr.write, messageControl, msiXEnableShift]

theorem messageControl_disable (w : BitVec 32) :
    (messageControl.write w (w &&& BitVec.ofNat 32 (2 ^ msiXEnableShift - 1))).getLsbD 31 = false := by
  simp [Attr.write, messageControl, msiXEnableShift]

variable {table : PcieInfoTable} {attr : Nat → Attr} {regs : Regs} {index : Nat}

theorem msi_x_vector_written (fn : MsixFunction table attr regs) (h : fn.Direct) (hi : index < fn.vectors)
    (unset : MsixUnset) (msiAddr msiData : BitVec 32) :
    (∃ regs', fillMsiXTable (configSpace attr) table regs unset fn.bdf index msiAddr msiData = some regs' ∧
      fn.Writes index msiAddr msiData 0 true [type01Cr] regs') ∧
    ∃ regs', clearMsiXTable (configSpace attr) table regs unset fn.bdf index = some regs' ∧
      fn.Writes index 0 0 1 false [] regs' := by
  constructor
  · have hcr := @MsixFunction.readModifyWrite_eq _ _ _ fn regs type01Cr (by decide) (by decide)
      (· ||| 1#32 <<< crMseShift ||| 1#32 <<< crBmeShift)
    have hr : ∀ a, (∀ offset ∈ [type01Cr], a ≠ fn.addr + offset) →
        readModifyWrite (configSpace attr) table regs fn.bdf type01Cr
          (· ||| 1#32 <<< crMseShift ||| 1#32 <<< crBmeShift) a = regs a := by
      intro a ha
      rw [hcr, Function.update_of_ne (ha type01Cr List.mem_cons_self)]
    refine ⟨_, ?_, fn.writes_of_found h hi unset (by simp) hr messageControl_enable⟩
    rw [fillMsiXTable]
    simp only
    rw [fn.msiCapOffset_eq unset fun offset ho => hr _ (by simp [type01Cr, type01Cpr] at ho ⊢; omega)]
  · refine ⟨_, ?_, fn.writes_of_found h hi unset (by simp) (fun _ _ => rfl) messageControl_disable⟩
    rw [clearMsiXTable, fn.msiCapOffset_eq unset fun _ _ => rfl]

-- A function with two vectors behind a BAR for 32 bits, of which the table is at the start of the memory.
def twoVectorRegs : Regs := fun a =>
  if a = 0x40000034 then 0x40
  else if a = 0x40000040 then 0x80010011
  else if a = 0x40000010 then 0x80000000
  else 0

def twoVectorAttr (a : Nat) : Attr :=
  if a = 0x40000040 then messageControl else memoryWord

theorem configAddr_firstBus {offset : Nat} (h : offset < 4096) :
    configAddr firstBus 0 offset = some (0x40000000 + offset) := by
  have hb : ecamBase firstBus (pcieExtractBdfSeg 0) (pcieExtractBdfBus 0) = 0x40000000 := by decide
  have hc : cfgAddr (pcieExtractBdfBus 0) (pcieExtractBdfDev 0) (pcieExtractBdfFunc 0) = 0 := by decide
  simp only [configAddr, hb, hc]
  rw [if_neg (by decide), if_neg (by decide), Nat.add_zero, Nat.mod_eq_of_lt (by omega)]

theorem twoVectors_aligned : 0x40000000 % 4 = 0 := rfl

def twoVectors : MsixFunction firstBus twoVectorAttr twoVectorRegs where
  bdf         := 0
  addr        := 0x40000000
  caps        := [0x40]
  cap         := 0x40
  bir         := 0
  tableOffset := 0
  bar         := .mem32 0x8000000 false
  base        := 0x80000000
  vectors     := 2
  mapped _ h  := configAddr_firstBus h
  aligned     := twoVectors_aligned
  pointer     := by decide
  list        := .cons (by decide) .nil
  outside     := by decide
  found       := by decide
  control     := rfl
  birLt       := by decide
  offsetDvd   := by decide
  offsetReg   := by decide
  slots       := by decide
  memory      := by decide
  words i hi k hk := if_neg (by simp; omega)
  apart i hi k hk offset ho := by simp; omega
  below _ _ _ := by decide

theorem two_vectors_written :
    (twoVectors.Direct ∧ 0 < twoVectors.vectors) ∧
    (∃ regs', fillMsiXTable (configSpace twoVectorAttr) firstBus twoVectorRegs ⟨0, 0, 0⟩ 0 0 0x8090040 8192 = some regs' ∧
      twoVectors.Writes 0 0x8090040 8192 0 true [type01Cr] regs') ∧
    ∃ regs', clearMsiXTable (configSpace twoVectorAttr) firstBus twoVectorRegs ⟨0, 0, 0⟩ 0 0 = some regs' ∧
      twoVectors.Writes 0 0 0 1 false [] regs' := by
  have hd : twoVectors.Direct := ⟨_, false, rfl, rfl⟩
  exact ⟨⟨hd, by decide⟩, msi_x_vector_written twoVectors hd (by decide) ⟨0, 0, 0⟩ 0x8090040 8192⟩

-- Clearing one of the vectors disables MSI-X, which the other one needs.
theorem clearing_disables :
    (twoVectorRegs (twoVectors.addr + twoVectors.cap)).getLsbD 31 = true ∧
    (clearMsiXTable (configSpace twoVectorAttr) firstBus twoVectorRegs ⟨0, 0, 0⟩ twoVectors.bdf 0).map
      (fun regs' => (regs' (twoVectors.addr + twoVectors.cap)).getLsbD 31) = some false := by
  decide

end Pcie
