import BsaAcs.Smmu.Run

namespace Smmu

-- What `smmu_master_at` can do: find a record, run out of memory, or add a new record to the list.
inductive Lookup (pf : Platform) (sid : Nat) (d : Driver) : Option (Nat × Master) → Driver → Prop
  | found {i n} :
    (d.masters[i]? = some n) → (n.master.sid = sid) → (∀ j < i, ∀ m, d.masters[j]? = some m → m.master.sid ≠ sid) →
    Lookup pf sid d (some (i, n.master)) d
  | noNode {w} :
    (∀ n ∈ d.masters, n.master.sid ≠ sid) → (d.world.valMemoryAlloc pf sizeofSmmuMasterNode = (0, w)) →
    Lookup pf sid d none { d with world := w }
  | noMaster {node w₁ w₂} :
    (∀ n ∈ d.masters, n.master.sid ≠ sid) → (d.world.valMemoryAlloc pf sizeofSmmuMasterNode = (node, w₁)) →
    (node ≠ 0) → (w₁.valMemoryAlloc pf sizeofSmmuMaster = (0, w₂)) →
    Lookup pf sid d none { d with world := w₂.valMemoryFree node }
  | created {node ptr w₁ w₂} :
    (∀ n ∈ d.masters, n.master.sid ≠ sid) → (d.world.valMemoryAlloc pf sizeofSmmuMasterNode = (node, w₁)) →
    (node ≠ 0) → (w₁.valMemoryAlloc pf sizeofSmmuMaster = (ptr, w₂)) → (ptr ≠ 0) →
    Lookup pf sid d (some (0, .zero)) { d with world := w₂, masters := ⟨node, ptr, .zero⟩ :: d.masters }

section

variable {pf : Platform} {d d' : Driver}

theorem masterAt_cases {sid : Nat} {r : Option (Nat × Master)} (h : smmuMasterAt pf sid d = (r, d')) :
    Lookup pf sid d r d' := by
  simp only [smmuMasterAt] at h
  split at h
  case h_1 i hi =>
    rw [List.findIdx?_eq_some_iff_getElem] at hi
    have ⟨hl, hs, hb⟩ := hi
    rw [List.getElem?_eq_getElem hl] at h
    cases h
    refine .found (List.getElem?_eq_getElem hl) (beq_iff_eq.mp hs) ?_
    intro j hj m hm
    have hjl : j < d.masters.length := by omega
    have hbj := hb j hj
    rw [List.getElem?_eq_getElem hjl] at hm
    cases hm
    simpa using hbj
  case h_2 hn =>
    have ha : ∀ n ∈ d.masters, n.master.sid ≠ sid := by
      intro n hm hs
      have := List.findIdx?_eq_none_iff.mp hn n hm
      simp [hs] at this
    split at h
    case isTrue hz =>
      cases h
      exact .noNode ha (Prod.ext hz rfl)
    case isFalse hz =>
      split at h
      case isTrue hp =>
        cases h
        exact .noMaster ha rfl hz (Prod.ext hp rfl)
      case isFalse hp =>
        cases h
        exact .created ha rfl hz rfl hp

-- A record that was found, or a new one.
theorem Lookup.record {sid i : Nat} {m : Master} (h : Lookup pf sid d (some (i, m)) d') :
    (d' = d ∧ m.sid = sid ∧ ∃ n, d.masters[i]? = some n ∧ n.master = m ∧
      ∀ j < i, ∀ k, d.masters[j]? = some k → k.master.sid ≠ sid) ∨
    (i = 0 ∧ m = .zero ∧ (∀ n ∈ d.masters, n.master.sid ≠ sid) ∧ ∃ node ptr w₁ w₂,
      d.world.valMemoryAlloc pf sizeofSmmuMasterNode = (node, w₁) ∧ node ≠ 0 ∧
      w₁.valMemoryAlloc pf sizeofSmmuMaster = (ptr, w₂) ∧ ptr ≠ 0 ∧
      d' = { d with world := w₂, masters := ⟨node, ptr, .zero⟩ :: d.masters }) := by
  generalize hr : some (i, m) = r at h
  cases h
  case found j n hi hs hb =>
    cases hr
    exact .inl ⟨rfl, hs, n, hi, rfl, hb⟩
  case noNode   => cases hr
  case noMaster => cases hr
  case created node ptr w₁ w₂ ha h₁ hn h₂ hp =>
    cases hr
    exact .inr ⟨rfl, rfl, ha, node, ptr, w₁, w₂, h₁, hn, h₂, hp, rfl⟩

-- No record was found, and there is no memory for a new one.
theorem Lookup.no_record {sid : Nat} (h : Lookup pf sid d none d') :
    (∀ n ∈ d.masters, n.master.sid ≠ sid) ∧ ∃ w, d' = { d with world := w } := by
  generalize hr : none = r at h
  cases h
  case found               => cases hr
  case noNode w ha _       => exact ⟨ha, w, rfl⟩
  case noMaster ha _ _ _   => exact ⟨ha, _, rfl⟩
  case created             => cases hr

-- The driver after `val_smmu_map` has gone through the tables.
def Driver.mapped (d : Driver) (index i : Nat) (smmu : SmmuDev) (master : Master) (w : World) : Driver :=
  { (d.setSmmu index smmu).setMaster i master with world := w }

-- The feature of the SMMU that a master is bound to.
def Driver.boundCd2l (d : Driver) (master : Master) (index : Nat) : Bool :=
  ((master.smmu.map d.smmus).getD (d.smmus index)).supported.cd2l

-- What a call of `val_smmu_map` that returns has done.
inductive Maps (pf : Platform) (attr : SmmuMasterAttributes) (pgt : PgtDescriptor) (d : Driver) : Nat → Driver → Prop
  | rejected :
    (d.gSmmu = 0 ∨ d.numSmmus ≤ attr.smmuIndex ∨ (d.smmus attr.smmuIndex).base = 0) → Maps pf attr pgt d 1 d
  | noRecord {d' : Driver} :
    (d.gSmmu ≠ 0) → (attr.smmuIndex < d.numSmmus) → ((d.smmus attr.smmuIndex).base ≠ 0) →
    (Lookup pf attr.streamid d none d') → Maps pf attr pgt d 1 d'
  | failed {i master d₁ smmu' master' w'} :
    (d.gSmmu ≠ 0) → (attr.smmuIndex < d.numSmmus) → ((d.smmus attr.smmuIndex).base ≠ 0) →
    (Lookup pf attr.streamid d (some (i, master)) d₁) →
    (mapMaster pf (d.smmus attr.smmuIndex) (d₁.boundCd2l (master.bind attr) attr.smmuIndex) attr pgt (master.bind attr)
      d₁.world = (false, smmu', master', w')) →
    Maps pf attr pgt d 1 (d₁.mapped attr.smmuIndex i smmu' master' w')
  | done {i master d₁ smmu' master' w₁ fuel timedOut w'} :
    (d.gSmmu ≠ 0) → (attr.smmuIndex < d.numSmmus) → ((d.smmus attr.smmuIndex).base ≠ 0) →
    (Lookup pf attr.streamid d (some (i, master)) d₁) →
    (mapMaster pf (d.smmus attr.smmuIndex) (d₁.boundCd2l (master.bind attr) attr.smmuIndex) attr pgt (master.bind attr)
      d₁.world = (true, smmu', master', w₁)) →
    (smmuTlbiCfgi pf smmu'.base smmu'.cmdq smmu'.supported.hyp fuel w₁ = some (timedOut, w')) →
    Maps pf attr pgt d 0 (d₁.mapped attr.smmuIndex i smmu' master' w')

theorem Lookup.smmus_eq {sid : Nat} {r : Option (Nat × Master)} (h : Lookup pf sid d r d') : d'.smmus = d.smmus := by
  cases h <;> rfl

theorem map_cases {fuel status : Nat} {attr : SmmuMasterAttributes} {pgt : PgtDescriptor}
    (h : valSmmuMap pf fuel attr pgt d = some (status, d')) : Maps pf attr pgt d status d' := by
  simp only [valSmmuMap] at h
  split at h
  case isTrue hg =>
    cases h
    exact .rejected (.inl hg)
  case isFalse hg =>
    split at h
    case isTrue hn =>
      cases h
      exact .rejected (.inr $ .inl hn)
    case isFalse hn =>
      split at h
      case isTrue hb =>
        cases h
        exact .rejected (.inr $ .inr hb)
      case isFalse hb =>
        have hn := Nat.lt_of_not_le hn
        split at h
        case h_1 hm =>
          cases h
          exact .noRecord hg hn hb (masterAt_cases hm)
        case h_2 i master d₁ hm =>
          have hl := masterAt_cases hm
          rw [hl.smmus_eq] at h
          rcases hmap : mapMaster pf (d.smmus attr.smmuIndex) (d₁.boundCd2l (master.bind attr) attr.smmuIndex) attr pgt
            (master.bind attr) d₁.world with ⟨ok, smmu', master', w₁⟩
          have hcd : d₁.boundCd2l (master.bind attr) attr.smmuIndex =
              (((master.bind attr).smmu.map d.smmus).getD (d.smmus attr.smmuIndex)).supported.cd2l := by
            rw [Driver.boundCd2l, hl.smmus_eq]
          rw [← hcd, hmap] at h
          cases ok
          case false =>
            cases h
            exact .failed hg hn hb hl hmap
          case true =>
            simp only [if_true] at h
            split at h
            case h_1 => cases h
            case h_2 ht =>
              cases h
              exact .done hg hn hb hl hmap ht

-- What a call of `val_smmu_unmap` that returns has done.
inductive Unmaps (pf : Platform) (attr : SmmuMasterAttributes) (d : Driver) : Driver → Prop
  | noRecord {d' : Driver} : (Lookup pf attr.streamid d none d') → Unmaps pf attr d d'
  | unused {i : Nat} {master : Master} {d' : Driver} :
    (Lookup pf attr.streamid d (some (i, master)) d') → (master.smmu = none) → Unmaps pf attr d d'
  | outOfRange {i : Nat} {master : Master} {k : Nat} {d' : Driver} :
    (Lookup pf attr.streamid d (some (i, master)) d') → (master.smmu = some k) →
    (sidInRange (d.smmus k) attr.streamid = false) → Unmaps pf attr d d'
  | done {i master k d₁ fuel timedOut w'} :
    (Lookup pf attr.streamid d (some (i, master)) d₁) → (master.smmu = some k) →
    (sidInRange (d.smmus k) attr.streamid = true) →
    (smmuTlbiCfgi pf (d.smmus k).base (d.smmus k).cmdq (d.smmus k).supported.hyp fuel
      (smmuCdtabFree (d.smmus k).supported.cd2l master.stage1
        (smmuStrtabWriteSte none
          ((d.smmus k).strtabCfg.strtab64 + attr.streamid * strtabSteDwords % 2 ^ 32 * 8) d₁.world)) =
      some (timedOut, w')) →
    Unmaps pf attr d { d₁.setMaster i .zero with world := w' }

theorem unmap_cases {fuel : Nat} {attr : SmmuMasterAttributes} (h : valSmmuUnmap pf fuel attr d = some d') :
    Unmaps pf attr d d' := by
  simp only [valSmmuUnmap] at h
  split at h
  case h_1 hm =>
    cases h
    exact .noRecord (masterAt_cases hm)
  case h_2 i master d₁ hm =>
    have hl := masterAt_cases hm
    split at h
    case h_1 hs =>
      cases h
      exact .unused hl hs
    case h_2 k hs =>
      rw [hl.smmus_eq] at h
      split at h
      case isTrue hr =>
        split at h
        case h_1 => cases h
        case h_2 ht =>
          cases h
          exact .done hl hs hr ht
      case isFalse hr =>
        cases h
        exact .outOfRange hl hs (Bool.eq_false_of_not_eq_true hr)

end

end Smmu
