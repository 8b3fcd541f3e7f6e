import BsaAcs.Smmu.Master
import BsaAcs.Smmu.Theorems.Reset

namespace Smmu

-- No block is allocated or freed between `w` and `w'`.
structure World.SameBlocks (w w' : World) : Prop where
  live     : w'.heap.live = w.heap.live
  wild     : w'.heap.wild = w.heap.wild
  requests : w'.heap.requests = w.heap.requests
  faults   : w'.faults = w.faults

def World.Owns (w : World) (roots : List Nat) : Prop :=
  w.heap.Owns roots

namespace World

variable {w w₁ w₂ : World} {roots : List Nat}

theorem SameBlocks.refl : w.SameBlocks w :=
  ⟨rfl, rfl, rfl, rfl⟩

theorem SameBlocks.trans (h₁ : w.SameBlocks w₁) (h₂ : w₁.SameBlocks w₂) : w.SameBlocks w₂ :=
  ⟨h₂.live.trans h₁.live, h₂.wild.trans h₁.wild, h₂.requests.trans h₁.requests, h₂.faults.trans h₁.faults⟩

theorem SameBlocks.trans_eq (h : w.SameBlocks w₁) (he : w₁ = w₂) : w.SameBlocks w₂ :=
  he ▸ h

theorem SameBlocks.mem_live (h : w.SameBlocks w₁) : ∀ b ∈ w.heap.live, b ∈ w₁.heap.live := by
  intro b hb
  rwa [h.live]

theorem store_same {a v : Nat} : w.SameBlocks (w.store a v) :=
  ⟨rfl, rfl, rfl, rfl⟩

theorem memorySet_same {a size v : Nat} : w.SameBlocks (w.valMemorySet a size v) :=
  ⟨rfl, rfl, rfl, rfl⟩

theorem mmioRead_same {pf : Platform} {address : Nat} : w.SameBlocks (w.valMmioRead pf address).2 :=
  ⟨rfl, rfl, rfl, rfl⟩

theorem mmioWrite_same {address value : Nat} : w.SameBlocks (w.valMmioWrite address value) :=
  ⟨rfl, rfl, rfl, rfl⟩

theorem Owns.same (ho : w.Owns roots) (h : w.SameBlocks w₁) : w₁.Owns roots :=
  Heap.Owns.congr ho h.live h.wild

theorem Owns.of_perm {roots' : List Nat} (ho : w.Owns roots) (hp : roots.Perm roots') : w.Owns roots' :=
  Heap.Owns.of_perm ho hp

theorem Owns.alloc {pf : Platform} (ho : w.Owns roots) (hf : pf.alloc.Fresh) (size : Nat) :
    (w.valMemoryAlloc pf size).2.Owns ((w.valMemoryAlloc pf size).1 :: roots) :=
  Heap.Owns.alloc ho hf

theorem Owns.free {ptr : Nat} (ho : w.Owns (ptr :: roots)) : (w.valMemoryFree ptr).Owns roots :=
  Heap.Owns.free ho

theorem foldl_free_heap {ps : List Nat} :
    (ps.foldl (fun w p => w.valMemoryFree p) w).heap = ps.foldl (fun h p => h.free p) w.heap := by
  induction ps generalizing w
  case nil          => rfl
  case cons p ps hi => exact hi

theorem Owns.freeAll {ps : List Nat} (ho : w.Owns (ps ++ roots)) :
    (ps.foldl (fun w p => w.valMemoryFree p) w).Owns roots := by
  rw [Owns, foldl_free_heap]
  exact Heap.Owns.freeAll ho

end World

section

variable {pf : Platform} {w w' : World} {smmu smmu' : SmmuDev} {ok : Bool} {roots : List Nat}

-- What only writes to memory or accesses registers.

theorem writeSte_same {cfg : Option SteConfig} {ste : Nat} : w.SameBlocks (smmuStrtabWriteSte cfg ste w) := by
  simp only [smmuStrtabWriteSte]
  split <;> exact ⟨rfl, rfl, rfl, rfl⟩

theorem abortStes_same {ste n : Nat} {w : World} : w.SameBlocks (abortStes ste n w) := by
  induction n generalizing ste w
  case zero      => exact .refl
  case succ n hi => exact writeSte_same.trans hi

theorem emptyL1_same {strtab n : Nat} {w : World} : w.SameBlocks (emptyL1 strtab n w) := by
  induction n generalizing strtab w
  case zero      => exact .refl
  case succ n hi => exact World.store_same.trans hi

theorem writeCtxDesc_same {cdptr : Nat} {cd : CtxDesc} : w.SameBlocks (writeCtxDesc cdptr cd w) :=
  ⟨rfl, rfl, rfl, rfl⟩

theorem issueAll_same {base : Nat} {cmdq : CmdQueue} {opcodes : List Nat} {w : World}
    (ho : ∀ o ∈ opcodes, (smmuCmdqBuildCmd o).isSome) :
    w.SameBlocks (opcodes.foldl (fun w opcode => (smmuCmdqIssueCmd pf base cmdq opcode w).2) w) := by
  induction opcodes generalizing w
  case nil => exact .refl
  case cons o os hi =>
    have ⟨_, he⟩ := issue_eq pf base cmdq w (ho o (List.mem_cons_self ..))
    have h₁ : w.SameBlocks (smmuCmdqIssueCmd pf base cmdq o w).2 := by
      rw [he]
      exact ⟨rfl, rfl, rfl, rfl⟩
    exact h₁.trans (hi fun p hp => ho p (List.mem_cons_of_mem _ hp))

theorem readCons_same {base i : Nat} {w : World} : w.SameBlocks (w.readCons pf base i) := by
  induction i generalizing w
  case zero      => exact .refl
  case succ i hi => exact World.mmioRead_same.trans hi

theorem tlbiCfgi_same {base fuel : Nat} {cmdq : CmdQueue} {hyp timedOut : Bool}
    (h : smmuTlbiCfgi pf base cmdq hyp fuel w = some (timedOut, w')) : w.SameBlocks w' := by
  have ⟨_, i, hw, _⟩ := tlbiCfgi_some h
  have h₁ : w.SameBlocks (w.issued pf base cmdq hyp) := issueAll_same fun _ => buildCmd_invalidation
  have h₂ : w.SameBlocks (w.waiting pf base cmdq hyp) := (h₁.trans World.mmioRead_same).trans World.mmioRead_same
  rw [hw]
  exact h₂.trans readCons_same

theorem waitAck_same {val ackOff timeout : Nat} {w : World} :
    w.SameBlocks (waitAck pf smmu val ackOff timeout w).2 := by
  induction timeout generalizing w
  case zero => exact .refl
  case succ timeout hi =>
    simp only [waitAck]
    split
    case isTrue  => exact World.mmioRead_same
    case isFalse => exact World.mmioRead_same.trans hi

theorem regWriteSync_same {val regOff ackOff : Nat} : w.SameBlocks (smmuRegWriteSync pf smmu val regOff ackOff w).2 := by
  have h : (smmuRegWriteSync pf smmu val regOff ackOff w).2 =
      (waitAck pf smmu val ackOff smmuRegTimeout (w.valMmioWrite (smmu.base + regOff) val)).2 := by
    rw [smmuRegWriteSync]
    split <;> simp_all
  rw [h]
  exact World.mmioWrite_same.trans waitAck_same

theorem resetRegisters_same (smmu : SmmuDev) {w : World} : w.SameBlocks (resetRegisters smmu w) :=
  ⟨rfl, rfl, rfl, rfl⟩

theorem reset_same {fuel ret : Nat} (h : smmuReset pf smmu fuel w = some (ret, w')) : w.SameBlocks w' := by
  have step {val n : Nat} {w₁ w₂ : World}
      (he : smmuRegWriteSync pf smmu val cr0Offset cr0ackOffset w₁ = (n, w₂)) : w₁.SameBlocks w₂ := by
    have hs : w₁.SameBlocks (smmuRegWriteSync pf smmu val cr0Offset cr0ackOffset w₁).2 := regWriteSync_same
    rwa [he] at hs
  rw [smmuReset] at h
  split at h
  case h_1 h₁ =>
    cases h
    exact step h₁
  case h_2 h₁ =>
    have h₁ := (step h₁).trans (resetRegisters_same smmu)
    split at h
    case h_1 h₂ =>
      cases h
      exact h₁.trans (step h₂)
    case h_2 h₂ =>
      split at h
      case h_1 => cases h
      case h_2 h₃ =>
        have hs := (h₁.trans (step h₂)).trans (tlbiCfgi_same h₃)
        split at h
        all_goals
          rename_i h₄
          cases h
          exact hs.trans (step h₄)

theorem probe_same (h : smmuProbe pf smmu w = (ok, smmu', w')) : w.SameBlocks w' := by
  simp only [smmuProbe] at h
  split at h
  case h_1 => cases h; exact World.mmioRead_same
  case h_2 => split at h <;> cases h <;> exact ⟨rfl, rfl, rfl, rfl⟩

end

end Smmu
