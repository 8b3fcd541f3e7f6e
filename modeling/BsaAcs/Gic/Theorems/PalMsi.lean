import BsaAcs.Gic.PalMsi
import BsaAcs.Gic.Theorems.Msi
import BsaAcs.Gic.Theorems.Translation
import BsaAcs.Pcie.Theorems.Msix

namespace Gic

open Its Pcie

-- The functions of a device work on their own part of the state.

section Beside

variable {D : Type} {hw : Mmio D} {table : PcieInfoTable} {unset : MsixUnset} {d : D} {its : Its.State}
  {bdf offset index : Nat} {f : BitVec 32 → BitVec 32} {msiAddr msiData : BitVec 32}

theorem readModifyWrite_beside : readModifyWrite (besideIts hw) table (d, its) bdf offset f =
    (readModifyWrite hw table d bdf offset f, its) := by
  simp only [readModifyWrite, valPcieReadCfg, valPcieWriteCfg]
  cases configAddr table bdf offset
  case none      => rfl
  case some addr => rfl

theorem msiCapOffset_beside : msiCapOffset (besideIts hw) table (d, its) unset bdf =
    msiCapOffset hw table d unset bdf :=
  rfl

theorem writeMsixEntry_beside {address control : BitVec 32} :
    writeMsixEntry (besideIts hw) (d, its) address index msiAddr msiData control =
      (writeMsixEntry hw d address index msiAddr msiData control, its) :=
  rfl

theorem msixTableAddress_beside : msixTableAddress (besideIts hw) table (d, its) unset bdf offset =
    msixTableAddress hw table d unset bdf offset :=
  rfl

theorem fillMsiXTable_beside : fillMsiXTable (besideIts hw) table (d, its) unset bdf index msiAddr msiData =
    (fillMsiXTable hw table d unset bdf index msiAddr msiData).map (·, its) := by
  simp only [fillMsiXTable, readModifyWrite_beside, msiCapOffset_beside]
  cases msiCapOffset hw table _ unset bdf
  case none   => rfl
  case some o => simp only [msixTableAddress_beside, writeMsixEntry_beside, Option.map_some]

theorem clearMsiXTable_beside : clearMsiXTable (besideIts hw) table (d, its) unset bdf index =
    (clearMsiXTable hw table d unset bdf index).map (·, its) := by
  simp only [clearMsiXTable, msiCapOffset_beside]
  cases msiCapOffset hw table d unset bdf
  case none   => rfl
  case some o =>
    simp only [readModifyWrite_beside, msixTableAddress_beside, writeMsixEntry_beside, Option.map_some]

end Beside

-- Which ITS is meant.

section Index

variable {info : PalItsInfo} {env : Env} {itsId k : Nat}

theorem getItsIndex_of_le (hn : info.env.gicNumIts < itsNotFound) (h : getItsIndex info itsId ≤ info.env.gicNumIts) :
    getItsIndex info itsId < info.env.gicNumIts ∧ info.id (getItsIndex info itsId) = itsId ∧
      ∀ i < getItsIndex info itsId, info.id i ≠ itsId := by
  rw [getItsIndex] at h ⊢
  cases hf : (List.range info.env.gicNumIts).find? (info.id · = itsId)
  case none =>
    rw [hf, Option.getD_none] at h
    omega
  case some i =>
    rw [Option.getD_some]
    obtain ⟨hi, hlt, hfirst⟩ := List.find?_range_eq_some.mp hf
    refine ⟨List.mem_range.mp hlt, of_decide_eq_true hi, fun j hj he => ?_⟩
    have := hfirst j hj
    simp [he] at this

-- The number of ITSs has 32 bits, and is not the number that says that none has been found.
theorem palItsIndex_some (hn : info.env.gicNumIts < itsNotFound) (h : palItsIndex (some info) itsId = some (env, k)) :
    env = info.env ∧ k < info.env.gicNumIts ∧ info.id k = itsId ∧ ∀ i < k, info.id i ≠ itsId := by
  rw [palItsIndex] at h
  split at h
  case isTrue => cases h
  case isFalse hz =>
    by_cases hle : getItsIndex info itsId > info.env.gicNumIts
    case pos =>
      rw [if_pos hle] at h
      cases h
    case neg =>
      rw [if_neg hle] at h
      split at h
      case isTrue => cases h
      case isFalse =>
        simp only [Option.some.injEq, Prod.mk.injEq] at h
        obtain ⟨rfl, rfl⟩ := h
        exact ⟨rfl, getItsIndex_of_le hn (Nat.le_of_not_lt hle)⟩

end Index

-- What a call of the PAL has the ITSs do.
def PalOp.toOp (info : PalItsInfo) (op : PalOp) : Option Op :=
  match palItsIndex (some info) op.call.itsId, op with
  | none, _                        => none
  | some (_, its), .request call => some (.create its call.deviceId call.intId lpiPriority1)
  | some (_, its), .free call    => some (.clear its call.deviceId call.intId)

theorem palApply_eq {info : PalItsInfo} (hn : info.env.gicNumIts < itsNotFound) (op : PalOp) (s : Its.State) :
    op.apply (some info) s = (op.toOp info).elim s (Op.apply info.env · s) := by
  cases op
  case request call =>
    simp only [PalOp.apply, palGicRequestMsi, PalOp.toOp, PalOp.call]
    cases hk : palItsIndex (some info) call.itsId
    case none       => rfl
    case some found =>
      have he : found.1 = info.env := (palItsIndex_some hn hk).left
      rw [← he]
      rfl
  case free call =>
    simp only [PalOp.apply, palGicFreeMsi, PalOp.toOp, PalOp.call]
    cases hk : palItsIndex (some info) call.itsId
    case none       => rfl
    case some found =>
      have he : found.1 = info.env := (palItsIndex_some hn hk).left
      rw [← he]
      rfl

def opsOf (info : PalItsInfo) (calls : List PalOp) : List Op :=
  calls.filterMap (PalOp.toOp info)

theorem palRun_eq {info : PalItsInfo} (hn : info.env.gicNumIts < itsNotFound) (ops : List PalOp) (s : Its.State) :
    palRun (some info) ops s = Its.run info.env (opsOf info ops) s := by
  rw [opsOf]
  induction ops generalizing s
  case nil            => rfl
  case cons op ops hi =>
    rw [palRun, List.foldl_cons, ← palRun, hi, palApply_eq hn]
    cases ho : op.toOp info
    case none    => rw [List.filterMap_cons_none ho, Option.elim_none]
    case some op => rw [List.filterMap_cons_some ho, Option.elim_some, Its.run, Its.run, List.foldl_cons]

-- The address and the data that a function sends for a vector, if the capability is enabled and the vector is not
-- masked. The code does not write the upper half of the address.
def vectorMessage {table : PcieInfoTable} {attr : Nat → Attr} {regs : Regs} (fn : MsixFunction table attr regs)
    (regs' : Regs) (index : Nat) : Option (Nat × Nat) :=
  if (regs' (fn.addr + fn.cap)).getLsbD 31 && !(regs' (fn.word index 3)).getLsbD 0 then
    some ((regs' (fn.word index 1)).toNat * 2 ^ 32 + (regs' (fn.word index 0)).toNat, (regs' (fn.word index 2)).toNat)
  else none

-- The LPI and the redistributor to which a message of a device leads at an ITS.
def messageLeadsTo (env : Env) (its : Nat) (t : GitsTables) (s : Its.State) (writes : List Write) (deviceId : Nat)
    (message : Option (Nat × Nat)) : Option (Nat × Nat) := do
  let (addr, data) ← message
  guard (addr = armGicItsGetGITSTranslatorAddress env its)
  t.deliver s writes deviceId data

section Message

variable {table : PcieInfoTable} {attr : Nat → Attr} {regs regs' : Regs} {fn : MsixFunction table attr regs}
  {index its : Nat} {env : Env}

theorem vectorMessage_filled (hi : index < fn.vectors) {addr data : BitVec 32}
    (h : fn.Writes index addr data 0 true [type01Cr] regs') :
    vectorMessage fn regs' index = some ((regs (fn.word index 1)).toNat * 2 ^ 32 + addr.toNat, data.toNat) := by
  have hne {l : Nat} (hl : l < 4) (h : 1 ≠ l) : fn.word index 1 ≠ fn.word index l :=
    fn.word_ne (by decide) hl (.inr h)
  have happ {offset : Nat} (ho : offset < 4096) : fn.word index 1 ≠ fn.addr + offset :=
    fn.apart index hi 1 (by decide) offset ho
  have hupper : regs' (fn.word index 1) = regs (fn.word index 1) := by
    refine h.others _ (hne (by decide) (by decide)) (hne (by decide) (by decide)) (hne (by decide) (by decide))
      (happ ?_) ?_
    · have := fn.cap_outside
      omega
    · intro offset ho
      rw [List.mem_singleton.mp ho]
      exact happ (by decide)
  rw [vectorMessage, h.enable, h.control, h.address, h.data, hupper]
  rfl

theorem vectorMessage_cleared {addr data : BitVec 32} {header : List Nat}
    (h : fn.Writes index addr data 1 false header regs') : vectorMessage fn regs' index = none := by
  rw [vectorMessage, h.enable]
  rfl

-- The message reaches the ITS if the half that is left alone is that of its address.
theorem address_eq_iff (upper : BitVec 32) :
    upper.toNat * 2 ^ 32 + (BitVec.ofNat 32 (armGicItsGetGITSTranslatorAddress env its)).toNat =
        armGicItsGetGITSTranslatorAddress env its ↔
      upper.toNat = armGicItsGetGITSTranslatorAddress env its / 2 ^ 32 := by
  rw [BitVec.toNat_ofNat]
  omega

end Message

section Delivery

variable {info : PalItsInfo} {s₀ s : Its.State} {typer : Nat → Nat} {gicrTyper its : Nat}
  {pcie : PcieInfoTable} {attr : Nat → Attr} {regs : Regs} {iovirt : Option Iovirt.IovirtInfoTable}
  {intId index : Nat} {earlier : List PalOp} {unset : MsiUnset} {call : PalMsiCall}

theorem opsOf_append {calls : List PalOp} {op : PalOp} :
    opsOf info (calls ++ [op]) = opsOf info calls ++ (op.toOp info).toList := by
  rw [opsOf, List.filterMap_append, opsOf]
  cases ho : op.toOp info
  case none   => rw [List.filterMap_cons_none ho]; rfl
  case some o => rw [List.filterMap_cons_some ho]; rfl

theorem run_append {env : Env} {ops : List Op} {op : Op} : Its.run env (ops ++ [op]) s = op.apply env (Its.run env ops s) := by
  rw [Its.run, List.foldl_append, Its.run]
  rfl

theorem routes_create {bits devId priority : Nat} {ops : List Op} (h : armLpiMinid ≤ intId ∧ intId < 2 ^ (bits + 1)) :
    (routes its bits (ops ++ [.create its devId intId priority])).deliver devId intId = true := by
  simp [routes_append, Routes.apply, Op.its, Routes.onIts, h, Routes.deliver, Op.intId, Op.creates]

theorem routes_clear {bits k devId devId' : Nat} {ops : List Op} :
    (routes k bits (ops ++ [.clear its devId intId])).deliver devId' intId = false := by
  rw [Routes.deliver, routes_append, enabled_apply, Op.intId, Op.creates, Function.update_self, Bool.and_false]

-- A function asks for an interrupt, after any calls of the PAL for any devices.
theorem msi_request_delivers (h₀ : s₀.writes = []) (hc : armGicItsConfiguration info.env s₀ = (.success, s))
    (hu : Unstalled info.env)
    (ht : ∀ its k writes, info.env.read k writes (info.env.itsBase its + armGitsTyper) = typer its)
    (hg : ∀ k writes, info.env.read k writes (info.env.gicRdBase + armGicrTyper) = gicrTyper)
    (hn : info.env.gicNumIts < itsNotFound) (fn : MsixFunction pcie attr regs) (hd : fn.Direct)
    (hix : index < fn.vectors) (hcall : palMsiCall iovirt unset fn.bdf intId index = call)
    (hits : palItsIndex (some info) call.itsId = some (info.env, its))
    (hap : Apart info.env s (opsOf info (earlier ++ [.request call])))
    (hv : ∀ op ∈ opsOf info (earlier ++ [.request call]), op.Valid info.env)
    (hroom : ∀ k, used k (opsOf info (earlier ++ [.request call])) < queueSize / 8)
    (hitt : 2 ^ 16 ∣ s.ittBase its ∧ s.ittBase its < 2 ^ 52)
    (hint : armLpiMinid ≤ intId ∧ intId < 2 ^ (s.idBits its + 1)) :
    ∃ regs', valGicRequestMsi (besideIts (configSpace attr)) (palMsi (some info) Regs) pcie iovirt unset
        (regs, palRun (some info) earlier s) fn.bdf intId index =
          (call, some (0, (regs', palRun (some info) (earlier ++ [.request call]) s))) ∧
      ∀ t writes, writes = (palRun (some info) (earlier ++ [.request call]) s).writes →
        GitsReach info.env s its writes writes (handedOver info.env its writes) t →
        messageLeadsTo info.env its t s writes call.deviceId (vectorMessage fn regs' index) =
          if (regs (fn.word index 1)).toNat = armGicItsGetGITSTranslatorAddress info.env its / 2 ^ 32 ∧
            collectionOf (rdBaseFormat info.env (typer its) gicrTyper) = 1
          then some (intId, redistributorOf (rdBaseFormat info.env (typer its) gicrTyper)) else none := by
  obtain ⟨_, hi, _⟩ := palItsIndex_some hn hits
  have hint' : call.intId = intId := by
    rw [← hcall]
    rfl
  have hop : (PalOp.request call).toOp info = some (.create its call.deviceId call.intId lpiPriority1) := by
    simp only [PalOp.toOp, PalOp.call, hits]
  have hops : opsOf info (earlier ++ [.request call]) =
      opsOf info earlier ++ [.create its call.deviceId call.intId lpiPriority1] := by
    rw [opsOf_append, hop]
    rfl
  have hrun : palRun (some info) (earlier ++ [.request call]) s =
      armGicItsCreateLpiMap info.env its call.deviceId call.intId lpiPriority1 (palRun (some info) earlier s) := by
    rw [palRun_eq hn, hops, run_append, palRun_eq hn]
    rfl
  obtain ⟨⟨regs', hfill, hw⟩, _⟩ := msi_x_vector_written fn hd hix unset.msix
    (BitVec.ofNat 32 (armGicItsGetGITSTranslatorAddress info.env its)) (BitVec.ofNat 32 call.intId)
  refine ⟨regs', ?_, fun t writes he h => ?_⟩
  · simp only [valGicRequestMsi, hcall, palMsi, palGicRequestMsi, hits, fillMsiXTable_beside, hfill, Option.map_some,
      hrun]
    rfl
  · rw [palRun_eq hn] at he
    subst he
    have hdel := drained_delivers h₀ hc hu ht hg hap hv hroom hi hitt h call.deviceId intId
    have hroute : (routes its (s.idBits its) (opsOf info (earlier ++ [.request call]))).deliver call.deviceId intId =
        true := by
      rw [hops, hint']
      exact routes_create hint
    have hlt : intId < 2 ^ 32 := by
      have hb := (configuration_idBits hc).right its hi
      exact hint.right.trans_le (Nat.pow_le_pow_right (by decide) (by omega))
    have hdata : (BitVec.ofNat 32 call.intId).toNat = intId := by
      rw [hint', BitVec.toNat_ofNat, Nat.mod_eq_of_lt hlt]
    rw [vectorMessage_filled hix hw, messageLeadsTo, Option.bind_eq_bind, Option.bind_some, hdata]
    simp only [hdel, hroute, address_eq_iff, true_and]
    by_cases hup : (regs (fn.word index 1)).toNat = armGicItsGetGITSTranslatorAddress info.env its / 2 ^ 32
    case pos =>
      simp only [guard, hup, if_true, true_and]
      rfl
    case neg =>
      simp only [guard, hup, if_false, false_and]
      rfl

-- A function gives an interrupt back: its vector sends no more messages, and no ITS delivers the interrupt, whatever
-- device it is for.
theorem msi_free_silences (h₀ : s₀.writes = []) (hc : armGicItsConfiguration info.env s₀ = (.success, s))
    (hu : Unstalled info.env)
    (ht : ∀ its k writes, info.env.read k writes (info.env.itsBase its + armGitsTyper) = typer its)
    (hg : ∀ k writes, info.env.read k writes (info.env.gicRdBase + armGicrTyper) = gicrTyper)
    (hn : info.env.gicNumIts < itsNotFound) (fn : MsixFunction pcie attr regs) (hd : fn.Direct)
    (hix : index < fn.vectors) (hcall : palMsiCall iovirt unset fn.bdf intId index = call)
    (hits : palItsIndex (some info) call.itsId = some (info.env, its))
    (hap : Apart info.env s (opsOf info (earlier ++ [.free call])))
    (hv : ∀ op ∈ opsOf info (earlier ++ [.free call]), op.Valid info.env)
    (hroom : ∀ k, used k (opsOf info (earlier ++ [.free call])) < queueSize / 8)
    (hitt : ∀ k < info.env.gicNumIts, 2 ^ 16 ∣ s.ittBase k ∧ s.ittBase k < 2 ^ 52) :
    ∃ regs', valGicFreeMsi (besideIts (configSpace attr)) (palMsi (some info) Regs) pcie iovirt unset
        (regs, palRun (some info) earlier s) fn.bdf intId index =
          (call, some (regs', palRun (some info) (earlier ++ [.free call]) s)) ∧
      vectorMessage fn regs' index = none ∧
      ∀ k < info.env.gicNumIts, ∀ t writes, writes = (palRun (some info) (earlier ++ [.free call]) s).writes →
        GitsReach info.env s k writes writes (handedOver info.env k writes) t →
          ∀ deviceId, t.deliver s writes deviceId intId = none := by
  have hint' : call.intId = intId := by
    rw [← hcall]
    rfl
  have hop : (PalOp.free call).toOp info = some (.clear its call.deviceId call.intId) := by
    simp only [PalOp.toOp, PalOp.call, hits]
  have hops : opsOf info (earlier ++ [.free call]) =
      opsOf info earlier ++ [.clear its call.deviceId call.intId] := by
    rw [opsOf_append, hop]
    rfl
  have hrun : palRun (some info) (earlier ++ [.free call]) s =
      armGicItsClearLpiMappings info.env its call.deviceId call.intId (palRun (some info) earlier s) := by
    rw [palRun_eq hn, hops, run_append, palRun_eq hn]
    rfl
  obtain ⟨_, regs', hclear, hw⟩ := msi_x_vector_written fn hd hix unset.msix 0 0
  refine ⟨regs', ?_, vectorMessage_cleared hw, fun k hk t writes he h deviceId => ?_⟩
  · simp only [valGicFreeMsi, hcall, palMsi, palGicFreeMsi, hits, clearMsiXTable_beside, hclear, Option.map_some, hrun]
  · rw [palRun_eq hn] at he
    subst he
    have hroute : (routes k (s.idBits k) (opsOf info (earlier ++ [.free call]))).deliver deviceId intId = false := by
      rw [hops, hint']
      exact routes_clear
    rw [drained_delivers h₀ hc hu ht hg hap hv hroom hk (hitt k hk) h deviceId intId, hroute]
    simp

end Delivery

-- A function of which no table says anything, on a system with one ITS.

def oneItsInfo : PalItsInfo :=
  ⟨oneIts, fun _ => 5⟩

def oneCall : PalMsiCall :=
  ⟨5, 0, 8192, 0⟩

theorem oneCall_eq : palMsiCall none ⟨0, 0, 5, ⟨0, 0, 0⟩⟩ twoVectors.bdf 8192 0 = oneCall :=
  rfl

theorem oneItsInfo_index : palItsIndex (some oneItsInfo) oneCall.itsId = some (oneIts, 0) := by
  rfl

theorem opsOf_request : opsOf oneItsInfo ([] ++ [.request oneCall]) = [.create 0 0 8192 0x50] := by
  rfl

theorem opsOf_free : opsOf oneItsInfo ([] ++ [.free oneCall]) = [.clear 0 0 8192] := by
  rfl

theorem oneCall_valid {op : Op} (h : op = .create 0 0 8192 0x50 ∨ op = .clear 0 0 8192) :
    op.intId = 8192 ∧ op.Valid oneIts := by
  rcases h with rfl | rfl
  · exact ⟨rfl, by decide, by decide, by decide⟩
  · exact ⟨rfl, by decide, by decide, by decide⟩

theorem vector_delivered : ∃ regs' t writes,
    valGicRequestMsi (besideIts (configSpace twoVectorAttr)) (palMsi (some oneItsInfo) Regs) firstBus none
      ⟨0, 0, 5, ⟨0, 0, 0⟩⟩ (twoVectorRegs, configured) 0 8192 0 =
        (oneCall, some (0, (regs', palRun (some oneItsInfo) [.request oneCall] configured))) ∧
    GitsReach oneIts configured 0 writes writes (handedOver oneIts 0 writes) t ∧
    messageLeadsTo oneIts 0 t configured writes 0 (vectorMessage twoVectors regs' 0) = some (8192, 0) := by
  have hop : ∀ op ∈ opsOf oneItsInfo ([] ++ [.request oneCall]), op.intId = 8192 ∧ op.Valid oneIts := by
    intro op hm
    rw [opsOf_request, List.mem_singleton] at hm
    exact oneCall_valid (.inl hm)
  have hap := oneIts_apart fun op hm => (hop op hm).left
  have hv := fun op hm => (hop op hm).right
  have hroom (k : Nat) : used k (opsOf oneItsInfo ([] ++ [.request oneCall])) < queueSize / 8 := by
    rw [opsOf_request]
    exact used_oneOp _ k
  obtain ⟨regs', h, hdel⟩ := @msi_request_delivers oneItsInfo _ _ _ _ _ _ _ _ _ _ _ _ _ _ rfl configured_eq
    oneIts_unstalled oneIts_typer oneIts_gicrTyper (by decide) twoVectors ⟨_, false, rfl, rfl⟩ (by decide) oneCall_eq
    oneItsInfo_index hap hv hroom (by decide) (by decide)
  obtain ⟨t, hr⟩ := run_drains rfl configured_eq oneIts_unstalled oneIts_typer oneIts_gicrTyper hap hv hroom
    (show 0 < oneIts.gicNumIts by decide)
  refine ⟨regs', t, _, h, hr, ?_⟩
  exact (hdel t _ rfl hr).trans (by decide)

theorem vector_silenced : ∃ regs' t writes,
    valGicFreeMsi (besideIts (configSpace twoVectorAttr)) (palMsi (some oneItsInfo) Regs) firstBus none
      ⟨0, 0, 5, ⟨0, 0, 0⟩⟩ (twoVectorRegs, configured) 0 8192 0 =
        (oneCall, some (regs', palRun (some oneItsInfo) [.free oneCall] configured)) ∧
    vectorMessage twoVectors regs' 0 = none ∧
    GitsReach oneIts configured 0 writes writes (handedOver oneIts 0 writes) t ∧
    t.deliver configured writes 0 8192 = none := by
  have hop : ∀ op ∈ opsOf oneItsInfo ([] ++ [.free oneCall]), op.intId = 8192 ∧ op.Valid oneIts := by
    intro op hm
    rw [opsOf_free, List.mem_singleton] at hm
    exact oneCall_valid (.inr hm)
  have hap := oneIts_apart fun op hm => (hop op hm).left
  have hv := fun op hm => (hop op hm).right
  have hroom (k : Nat) : used k (opsOf oneItsInfo ([] ++ [.free oneCall])) < queueSize / 8 := by
    rw [opsOf_free]
    exact used_oneOp _ k
  have hitt : ∀ k < oneIts.gicNumIts, 2 ^ 16 ∣ configured.ittBase k ∧ configured.ittBase k < 2 ^ 52 := by
    decide
  obtain ⟨regs', h, hm, hdel⟩ := @msi_free_silences oneItsInfo _ _ _ _ _ _ _ _ _ _ _ _ _ _ rfl configured_eq
    oneIts_unstalled oneIts_typer oneIts_gicrTyper (by decide) twoVectors ⟨_, false, rfl, rfl⟩ (by decide) oneCall_eq
    oneItsInfo_index hap hv hroom hitt
  obtain ⟨t, hr⟩ := run_drains rfl configured_eq oneIts_unstalled oneIts_typer oneIts_gicrTyper hap hv hroom
    (show 0 < oneIts.gicNumIts by decide)
  exact ⟨regs', t, _, h, hm, hr, hdel 0 (by decide) t _ rfl hr 0⟩

end Gic
