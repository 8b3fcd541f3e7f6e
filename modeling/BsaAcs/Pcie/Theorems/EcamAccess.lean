import BsaAcs.Pcie.EcamAccess
import BsaAcs.Infra.Theorems.Status

namespace Pcie

-- A failure is that of a bus with the property, and of one of its devices.
def EcamVerdict.About (p : Nat → Prop) : EcamVerdict → Prop
  | .firstInvalid bus => p bus
  | .failedAt bus dev => p bus ∧ dev < pcieMaxDev
  | _                 => True

namespace EcamVerdict

variable {p q : Nat → Prop} {v : EcamVerdict}

theorem About.mono (h : v.About p) (hi : ∀ bus, p bus → q bus) : v.About q := by
  cases v
  case firstInvalid bus => exact hi bus h
  case failedAt bus dev => exact ⟨hi bus h.left, h.right⟩
  case skipped          => trivial
  case passed           => trivial

theorem About.bus (h : v.About p) {bus : Nat} (hb : bus ∈ v.bus?) : p bus := by
  cases v
  case firstInvalid b => exact Option.some.inj hb ▸ h
  case failedAt b dev => exact Option.some.inj hb ▸ h.left
  case skipped        => cases hb
  case passed         => cases hb

-- A code of 12 bits has room for a bus number of four.
theorem failedAt_le_iff {bus dev : Nat} (hd : dev < pcieMaxDev) :
    ((bus <<< 8) ||| dev) % 2 ^ 32 ≤ Infra.statusMask ↔ bus % 2 ^ 24 ≤ 15 := by
  have hd : dev < 32 := hd
  rw [←Nat.shiftLeft_add_eq_or_of_lt (show dev < 2 ^ 8 by omega), Nat.shiftLeft_eq, Infra.statusMask]
  omega

theorem status_le_iff (h : v.About p) :
    v.status ≤ Infra.statusMask ↔ ∀ bus ∈ v.bus?, bus % 2 ^ 24 ≤ 15 := by
  cases v
  case firstInvalid bus =>
    have he : ((bus <<< 8) ||| 0) % 2 ^ 32 ≤ Infra.statusMask ↔ bus % 2 ^ 24 ≤ 15 := failedAt_le_iff (by decide)
    simpa [status, bus?] using he
  case failedAt bus dev => simpa [status, bus?] using failedAt_le_iff h.right
  case skipped          => simp [status, bus?, Infra.statusMask]
  case passed           => simp [status, bus?, Infra.statusMask]

end EcamVerdict

-- What a loop that stops at an error ends with, if every round ends so.
theorem foldlM_error {α β ε : Type} {p : ε → Prop} {f : α → β → Except ε α} {l : List β} {a : α} {e : ε}
    (hf : ∀ b ∈ l, ∀ a e, f a b = .error e → p e) (h : l.foldlM f a = .error e) : p e := by
  induction l generalizing a
  case nil => cases h
  case cons b l hi =>
    rw [List.foldlM_cons] at h
    cases hb : f a b
    case error e' =>
      rw [hb] at h
      cases h
      exact hf b List.mem_cons_self a e hb
    case ok a' =>
      rw [hb] at h
      exact hi (fun b hm => hf b (List.mem_cons_of_mem _ hm)) h

section

variable {S : Type} {hw : Mmio S} {table : PcieInfoTable} {s : S} {data : BitVec 32} {v : EcamVerdict}
  {segment bus endBus dev numEcam : Nat} {p : Nat → Prop}

theorem ecamFuncLoop_error (h : ecamFuncLoop hw table s segment bus dev data = .error v) :
    v = .failedAt bus dev := by
  apply foldlM_error _ h
  intro func _ data e he
  split at he
  · exact (Except.error.inj he).symm
  · cases he

theorem ecamDevLoop_error (h : ecamDevLoop hw table s segment bus data = .error v) :
    ∃ dev < pcieMaxDev, v = .failedAt bus dev := by
  apply foldlM_error _ h
  intro dev hd data e he
  exact ⟨dev, List.mem_range.mp hd, ecamFuncLoop_error he⟩

theorem ecamBusLoop_error (h : ecamBusLoop hw table s segment bus endBus data = .error v) :
    v.About (· ≤ endBus) := by
  apply foldlM_error _ h
  intro bus hb data e he
  have ⟨dev, hd, hv⟩ := ecamDevLoop_error he
  have hb := List.mem_range'_1.mp hb
  exact hv ▸ ⟨by omega, hd⟩

-- The buses that a window begins and ends with are those of its block, or 0 past the end of the table.
theorem valPcieGetInfo_bus (h : ∀ block ∈ table, p block.startBusNum ∧ p block.endBusNum) (h0 : p 0) :
    p (valPcieGetInfo table .startBus numEcam) ∧ p (valPcieGetInfo table .endBus numEcam) := by
  simp only [valPcieGetInfo]
  cases hb : table[numEcam]?
  case none       => exact ⟨h0, h0⟩
  case some block => exact h block (List.mem_of_getElem? hb)

theorem ecamWindowLoop_about (h : ∀ block ∈ table, p block.startBusNum ∧ p block.endBusNum) (h0 : p 0)
    (hp : ∀ {a b}, a ≤ b → p b → p a) : (ecamWindowLoop hw table s numEcam data).About p := by
  induction numEcam generalizing data
  case zero => trivial
  case succ numEcam hi =>
    have hb : p (valPcieGetInfo table .startBus numEcam) ∧ p (valPcieGetInfo table .endBus numEcam) :=
      valPcieGetInfo_bus h h0
    rw [ecamWindowLoop]
    split
    · trivial
    · dsimp only
      split
      · exact hb.left
      · split
        next _ v he => exact (ecamBusLoop_error he).mono fun bus hl => hp hl hb.right
        next _ data _ => exact hi

theorem osP002Payload_about (h : ∀ block ∈ table, p block.startBusNum ∧ p block.endBusNum) (h0 : p 0)
    (hp : ∀ {a b}, a ≤ b → p b → p a) : (osP002Payload hw table s data).About p := by
  rw [osP002Payload]
  split
  · trivial
  · exact ecamWindowLoop_about h h0 hp

theorem osP002Payload_fits_iff :
    (osP002Payload hw table s data).status ≤ Infra.statusMask ↔
      ∀ bus ∈ (osP002Payload hw table s data).bus?, bus % 2 ^ 24 ≤ 15 :=
  EcamVerdict.status_le_iff (p := fun _ => True)
    (osP002Payload_about (fun _ _ => ⟨trivial, trivial⟩) trivial fun _ _ => trivial)

-- The first sixteen buses of a segment can be named in the word.
theorem osP002Payload_fits (h : ∀ block ∈ table, block.startBusNum ≤ 15 ∧ block.endBusNum ≤ 15) :
    (osP002Payload hw table s data).status ≤ Infra.statusMask := by
  apply osP002Payload_fits_iff.mpr
  intro bus hb
  have ha : (osP002Payload hw table s data).About (· ≤ 15) :=
    osP002Payload_about h (by decide) fun hl hp => hl.trans hp
  exact (Nat.mod_le ..).trans (ha.bus hb)

end

-- A word is read as it was made if and only if the code fits: that is every constant of the suite, a bus
-- and a device up to bus 15, and an answer of the firmware from `0x120 - 0xFFF` to `0x120`.
theorem result_decodes_iff (outcome : Infra.Outcome) (testNum status : Nat) {S : Type} (hw : Mmio S)
    (table : PcieInfoTable) (s : S) (data : BitVec 32) (arg0 : Int) (ht : testNum ≤ Infra.testNumMask)
    (hl : -2 ^ 31 ≤ arg0) (hu : arg0 < 2 ^ 31) :
    let v := osP002Payload hw table s data
    (Infra.Decodes outcome testNum status ↔ status ≤ Infra.statusMask) ∧
    (Infra.Decodes v.outcome osP002TestNum v.status ↔ ∀ bus ∈ v.bus?, bus % 2 ^ 24 ≤ 15) ∧
    ((∀ block ∈ table, block.startBusNum ≤ 15 ∧ block.endBusNum ≤ 15) →
      Infra.Decodes v.outcome osP002TestNum v.status) ∧
    (Infra.Decodes .fail 0 (Infra.executeStatus arg0) ↔
      0x120 - (Infra.statusMask : Int) ≤ arg0 ∧ arg0 ≤ 0x120) := by
  intro v
  have hv : Infra.Decodes v.outcome osP002TestNum v.status ↔ v.status ≤ Infra.statusMask :=
    Infra.decodes_iff (by decide)
  refine ⟨Infra.decodes_iff ht, hv.trans osP002Payload_fits_iff, fun h => hv.mpr (osP002Payload_fits h), ?_⟩
  exact (Infra.decodes_iff (Nat.zero_le _)).trans (Infra.executeStatus_le_iff hl hu)

-- The last device of the bus 15.
theorem result_decodes_bus_fifteen : Infra.Decodes .fail osP002TestNum (EcamVerdict.failedAt 15 31).status :=
  (result_decodes_iff .fail osP002TestNum _ (S := Unit) ⟨fun _ _ => 0, fun _ _ _ => ()⟩ [] () 0 0
    (by decide) (by decide) (by decide)).left.mpr (by decide)

-- A window of the bus 16 without a device: the bus is added to the number of the test, and is not in the
-- code. An answer above `0x120` leaves a word that is no result of a test at all.
theorem os_p002_bus_in_number :
    osP002Payload (S := Unit) ⟨fun _ _ => 0, fun _ _ _ => ()⟩ [⟨0x40000000, 0, 16, 16⟩] () 0 = .failedAt 16 0 ∧
    Infra.testNumOf (EcamVerdict.failedAt 16 0).word = osP002TestNum + 1 ∧
    Infra.statusOf (EcamVerdict.failedAt 16 0).word = 0 ∧
    ¬Infra.Decodes .fail osP002TestNum (EcamVerdict.failedAt 16 0).status ∧
    Infra.state (Infra.resultFail 0 (Infra.executeStatus 0x121)) = 0xF ∧
    ¬Infra.Decodes .fail 0 (Infra.executeStatus 0x121) := by
  refine ⟨by decide +kernel, by decide, by decide, ?_, by decide, ?_⟩
  · exact fun h => absurd ((Infra.decodes_iff (by decide)).mp h) (by decide)
  · exact fun h => absurd ((Infra.decodes_iff (by decide)).mp h) (by decide)

end Pcie
