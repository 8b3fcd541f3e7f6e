import BsaAcs.Info.Watchdog
import Mathlib.Tactic

namespace Wd

-- The revision that the control frame itself gives.
def ownRevision (table : WdInfoTable) (index : Nat) (m : Machine) : Nat :=
  architectureRevision (valMmioRead m (ctrlReg table index wdIidrOffset))

-- The offset register has one word in the first revision and two in the later ones.
structure Armed (table : WdInfoTable) (index revision ticks : Nat) (m : Machine) : Prop where
  enabled : m.mem (ctrlReg table index wdCsOffset) = 1
  offset  :
    (m.mem (ctrlReg table index wdOrOffset)).toNat +
      (if revision = 0 then 0 else 2 ^ 32 * (m.mem (ctrlReg table index wdOrUpperWordOffset)).toNat) = ticks

-- The watchdog is armed with this number of ticks if 0 is returned, and not touched otherwise.
def SetRight (table : WdInfoTable) (counterFreq index timeout : Nat) (m : Machine) : Prop :=
  let (status, m') := valWdSetWs0 table counterFreq index timeout m
  if status = 0 then Armed table index (ownRevision table index m) (counterFreq * timeout) m' else m' = m

-- Either the number is refused, or the frame that is probed and the one that is programmed go together.
def Programmable (table : WdInfoTable) (index ticks : Nat) (m : Machine) : Prop :=
  (probedRevision table index m = 0 ∧ 2 ^ 32 ≤ ticks % 2 ^ 64) ∨
  (ticks < 2 ^ 64 ∧
    if ownRevision table index m = 0 then ticks < 2 ^ 32
    else probedRevision table index m = 1 ∨
      (m.mem (ctrlReg table index wdOrUpperWordOffset)).toNat = ticks / 2 ^ 32)

instance (table : WdInfoTable) (index ticks : Nat) (m : Machine) : Decidable (Programmable table index ticks m) :=
  inferInstanceAs (Decidable (_ ∨ _))

section

variable {table : WdInfoTable} {counterFreq index timeout ticks revision : Nat} {m : Machine}

theorem ctrlReg_injective {a b : Nat} (ha : a < 2 ^ 64) (hb : b < 2 ^ 64)
    (h : ctrlReg table index a = ctrlReg table index b) : a = b := by
  rw [ctrlReg, ctrlReg] at h
  omega

theorem mem_valMmioWrite_ctrlReg {a b : Nat} {data : BitVec 32} (ha : a < 2 ^ 64) (hb : b < 2 ^ 64) (hn : b ≠ a) :
    (valMmioWrite (ctrlReg table index a) data m).mem (ctrlReg table index b) = m.mem (ctrlReg table index b) :=
  Function.update_of_ne (fun h => hn (ctrlReg_injective hb ha h)) ..

theorem mem_valMmioWrite_self {addr : Nat} {data : BitVec 32} : (valMmioWrite addr data m).mem addr = data :=
  Function.update_self ..

-- What the frame holds after a call that is not refused.
def programmed (table : WdInfoTable) (index ticks : Nat) (m : Machine) : Machine :=
  let m' := valMmioWrite (ctrlReg table index wdOrOffset) (BitVec.ofNat 32 ticks) m
  valWdEnable table index
    (if probedRevision table index m = 1 then
      valMmioWrite (ctrlReg table index wdOrUpperWordOffset) (BitVec.ofNat 32 (ticks >>> 32)) m'
    else m')

theorem valWdSetWs0_eq (ht : 0 < timeout) :
    valWdSetWs0 table counterFreq index timeout m =
      if probedRevision table index m = 0 ∧ 2 ^ 32 ≤ counterFreq * timeout % 2 ^ 64 then (1, m)
      else (0, programmed table index (counterFreq * timeout % 2 ^ 64) m) := by
  have hs (n : Nat) : n >>> 32 ≠ 0 ↔ 2 ^ 32 ≤ n := by
    rw [Nat.shiftRight_eq_div_pow]
    omega
  rw [valWdSetWs0, if_neg (by omega)]
  simp only [hs]
  rfl

theorem programmed_cs : (programmed table index ticks m).mem (ctrlReg table index wdCsOffset) = 1 :=
  mem_valMmioWrite_self

theorem programmed_low :
    (programmed table index ticks m).mem (ctrlReg table index wdOrOffset) = BitVec.ofNat 32 ticks := by
  rw [programmed, valWdEnable, mem_valMmioWrite_ctrlReg (by decide) (by decide) (by decide)]
  split
  · rw [mem_valMmioWrite_ctrlReg (by decide) (by decide) (by decide), mem_valMmioWrite_self]
  · exact mem_valMmioWrite_self

theorem programmed_high :
    (programmed table index ticks m).mem (ctrlReg table index wdOrUpperWordOffset) =
      if probedRevision table index m = 1 then BitVec.ofNat 32 (ticks >>> 32)
      else m.mem (ctrlReg table index wdOrUpperWordOffset) := by
  rw [programmed, valWdEnable, mem_valMmioWrite_ctrlReg (by decide) (by decide) (by decide)]
  split
  · exact mem_valMmioWrite_self
  · exact mem_valMmioWrite_ctrlReg (by decide) (by decide) (by decide)

-- The words that are written are those of the number as long as it has 64 bits, or 32 for the first revision.
theorem armed_programmed_iff :
    Armed table index revision ticks (programmed table index (ticks % 2 ^ 64) m) ↔
      ticks < 2 ^ 64 ∧
        if revision = 0 then ticks < 2 ^ 32
        else probedRevision table index m = 1 ∨
          (m.mem (ctrlReg table index wdOrUpperWordOffset)).toNat = ticks / 2 ^ 32 := by
  have hoff : Armed table index revision ticks (programmed table index (ticks % 2 ^ 64) m) ↔ _ :=
    ⟨Armed.offset, fun h => ⟨programmed_cs, h⟩⟩
  rw [hoff, programmed_low, programmed_high]
  have hold := (m.mem (ctrlReg table index wdOrUpperWordOffset)).isLt
  by_cases hr : revision = 0
  case pos =>
    simp only [hr, if_true, BitVec.toNat_ofNat]
    omega
  case neg =>
    by_cases hp : probedRevision table index m = 1
    case pos =>
      simp only [hr, hp, if_true, if_false, BitVec.toNat_ofNat, Nat.shiftRight_eq_div_pow, true_or, and_true]
      omega
    case neg =>
      simp only [hr, hp, if_false, BitVec.toNat_ofNat, false_or]
      omega

end

theorem set_ws0_iff (table : WdInfoTable) (counterFreq index timeout : Nat) (m : Machine) (ht : 0 < timeout) :
    SetRight table counterFreq index timeout m ↔ Programmable table index (counterFreq * timeout) m := by
  rw [SetRight, valWdSetWs0_eq ht, Programmable, ←armed_programmed_iff]
  by_cases hc : probedRevision table index m = 0 ∧ 2 ^ 32 ≤ counterFreq * timeout % 2 ^ 64
  case pos =>
    rw [if_pos hc]
    exact iff_of_true rfl (.inl hc)
  case neg =>
    rw [if_neg hc]
    simp only [if_true]
    exact (or_iff_right hc).symm

-- A frame below 4 GB of revision 1, and a number of more than 32 bits.
theorem set_ws0_revision_one :
    SetRight ⟨1, fun _ => ⟨0x2A440000, 0x2A450000, 91, 0⟩⟩ 1000000000 0 5
      ⟨fun addr => if addr = 0x2A440FCC then 0x10000 else 0, []⟩ :=
  (set_ws0_iff _ 1000000000 0 5 _ (by decide)).mpr (.inr ⟨by decide, .inl (by decide)⟩)

-- The same number for a later revision, whose upper word is not written, and for a frame above 4 GB of
-- revision 0, behind whose address cut down to 32 bits a word is read as revision 1.
theorem upper_word_missed :
    ¬SetRight ⟨1, fun _ => ⟨0x2A440000, 0x2A450000, 91, 0⟩⟩ 1000000000 0 5
      ⟨fun addr => if addr = 0x2A440FCC then 0x20000 else 0, []⟩ ∧
    ¬SetRight ⟨1, fun _ => ⟨0x12A440000, 0x12A450000, 91, 0⟩⟩ 1000000000 0 5
      ⟨fun addr => if addr = 0x2A440FCC then 0x10000 else 0, []⟩ := by
  constructor
  case left =>
    intro h
    rw [SetRight, valWdSetWs0_eq (by decide), if_neg (by decide)] at h
    exact absurd (armed_programmed_iff.mp h) (by decide)
  case right =>
    intro h
    rw [SetRight, valWdSetWs0_eq (by decide), if_neg (by decide)] at h
    exact absurd (armed_programmed_iff.mp h) (by decide)

end Wd
