import BsaAcs.Infra.Status
import BsaAcs.Infra.Theorems.Entries

namespace Infra

namespace Outcome

variable (outcome : Outcome) (testNum status : Nat)

theorem val_lt : outcome.val < 2 ^ 4 := by
  cases outcome <;> decide

theorem val_injective {o o' : Outcome} (h : o.val = o'.val) : o = o' := by
  cases o <;> cases o' <;> first | rfl | exact absurd h (by decide)

theorem val_ne_pending : outcome.val ≠ testPendingVal := by
  cases outcome <;> decide

theorem result_eq :
    outcome.result testNum status = (outcome.val <<< stateBit) ||| (testNum <<< testNumBit) ||| status := by
  cases outcome <;> rfl

end Outcome

-- The word is taken for this result of this test with this code, and for nothing else.
structure Decodes (outcome : Outcome) (testNum status : Nat) : Prop where
  state   : state (outcome.result testNum status) = outcome.val
  number  : testNumOf (outcome.result testNum status) = testNum
  code    : statusOf (outcome.result testNum status) = status
  pass    : isTestPass (outcome.result testNum status) ↔ outcome = .pass
  fail    : isTestFail (outcome.result testNum status) ↔ outcome = .fail
  skip    : isTestSkip (outcome.result testNum status) ↔ outcome = .skip
  pending : ¬isResultPending (outcome.result testNum status)

section Fields

variable {outcome : Outcome} {testNum status : Nat}

theorem statusOf_eq_mod (value : Nat) : statusOf value = value % 2 ^ 12 :=
  Nat.and_two_pow_sub_one_eq_mod value 12

theorem testNumOf_eq (value : Nat) : testNumOf value = value / 2 ^ 12 % 2 ^ 12 := by
  rw [testNumOf, testNumBit, Nat.shiftRight_eq_div_pow]
  exact Nat.and_two_pow_sub_one_eq_mod _ 12

-- The three fields of a word do not overlap if the number and the code fit.
theorem result_eq_add (ht : testNum ≤ testNumMask) (hs : status ≤ statusMask) :
    outcome.result testNum status = outcome.val * 2 ^ 28 + (testNum * 2 ^ 12 + status) := by
  rw [testNumMask] at ht
  rw [statusMask] at hs
  have hs : status < 2 ^ 12 := by omega
  have hn : testNum <<< 12 + status < 2 ^ 28 := by
    rw [Nat.shiftLeft_eq]
    omega
  rw [outcome.result_eq, stateBit, testNumBit, Nat.or_assoc, ←Nat.shiftLeft_add_eq_or_of_lt hs,
    ←Nat.shiftLeft_add_eq_or_of_lt hn, Nat.shiftLeft_eq, Nat.shiftLeft_eq]

theorem testNumOf_result (ht : testNum ≤ testNumMask) (hs : status ≤ statusMask) :
    testNumOf (outcome.result testNum status) = testNum := by
  rw [testNumOf_eq, result_eq_add ht hs]
  rw [testNumMask] at ht
  rw [statusMask] at hs
  omega

theorem statusOf_result (ht : testNum ≤ testNumMask) (hs : status ≤ statusMask) :
    statusOf (outcome.result testNum status) = status := by
  rw [statusOf_eq_mod, result_eq_add ht hs]
  rw [statusMask] at hs
  omega

theorem Outcome.state_result (ht : testNum ≤ testNumMask) (hs : status ≤ statusMask) :
    state (outcome.result testNum status) = outcome.val := by
  rw [outcome.result_eq]
  exact Infra.state_result _ _ outcome.val_lt ht (Nat.lt_succ_of_le hs)

theorem Outcome.state_result_eq_iff {o : Outcome} (ht : testNum ≤ testNumMask) (hs : status ≤ statusMask) :
    state (outcome.result testNum status) = o.val ↔ outcome = o := by
  rw [Outcome.state_result ht hs]
  exact ⟨Outcome.val_injective, congrArg _⟩

-- The code is read back with 12 bits, so that no larger one is.
theorem decodes_iff (ht : testNum ≤ testNumMask) : Decodes outcome testNum status ↔ status ≤ statusMask := by
  constructor
  case mp =>
    intro h
    rw [←h.code]
    exact Nat.and_le_right
  case mpr =>
    intro hs
    exact {
      state   := Outcome.state_result ht hs
      number  := testNumOf_result ht hs
      code    := statusOf_result ht hs
      pass    := beq_iff_eq.trans (Outcome.state_result_eq_iff (o := .pass) ht hs)
      fail    := beq_iff_eq.trans (Outcome.state_result_eq_iff (o := .fail) ht hs)
      skip    := beq_iff_eq.trans (Outcome.state_result_eq_iff (o := .skip) ht hs)
      pending := fun h => outcome.val_ne_pending ((Outcome.state_result ht hs).symm.trans (beq_iff_eq.mp h))
    }

-- The report of such a word is that of its result.
theorem Decodes.report (h : Decodes outcome testNum status) (index : Nat) :
    valReportStatus index (outcome.result testNum status) =
      match outcome with
      | .pass => [.pass]
      | .fail => [.failedOnPe index, .fail status]
      | .skip => [.skipped status] := by
  have hp := h.pass
  have hf := h.fail
  have hk := h.skip
  have hs := h.code
  cases outcome <;> simp_all [valReportStatus]

end Fields

-- The codes that are made of an answer of the firmware.
theorem executeStatus_le_iff {arg0 : Int} (hl : -2 ^ 31 ≤ arg0) (hu : arg0 < 2 ^ 31) :
    executeStatus arg0 ≤ statusMask ↔ 0x120 - (statusMask : Int) ≤ arg0 ∧ arg0 ≤ 0x120 := by
  rw [executeStatus, statusMask]
  omega

end Infra
