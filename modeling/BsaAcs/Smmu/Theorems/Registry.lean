import BsaAcs.Smmu.Theorems.Step
import Mathlib.Data.Finset.Card

namespace Smmu

-- What the lookup of a master depends on.
def Master.key (m : Master) : Nat × Option Nat :=
  (m.sid, m.smmu)

def Driver.keys (d : Driver) : List (Nat × Option Nat) :=
  d.masters.map (·.master.key)

def Driver.sids (d : Driver) : List Nat :=
  d.masters.map (·.master.sid)

section

variable {pf : Platform} {smmu smmu' : SmmuDev} {cd2l ok : Bool} {attr : SmmuMasterAttributes} {pgt : PgtDescriptor}
variable {m m' : Master} {w w' : World} {d d' : Driver} {hist : History}

theorem Driver.sids_eq : d.sids = d.keys.map Prod.fst := by
  rw [sids, keys, List.map_map]
  rfl

theorem Driver.keys_setMaster {i : Nat} : (d.setMaster i m).keys = d.keys.set i m.key := by
  rw [keys, setMaster, keys]
  generalize d.masters = l
  induction l generalizing i
  case nil => simp
  case cons n l hi =>
    cases i
    case zero   => simp
    case succ i => simpa using hi

theorem selectStage_key (h : m.selectStage smmu attr = some m') : m'.key = m.key := by
  simp only [Master.selectStage] at h
  split at h <;> split at h <;> cases h <;> rfl

theorem mapTables_key (h : mapTables pf smmu cd2l pgt m w = (ok, smmu', m', w')) : m'.key = m.key := by
  simp only [mapTables] at h
  split at h
  case h_1 => cases h; rfl
  case h_2 => split at h <;> cases h <;> rfl

-- The tables of a master change, but not the SMMU it is bound to or its stream.
theorem mapMaster_key (h : mapMaster pf smmu cd2l attr pgt m w = (ok, smmu', m', w')) : m'.key = m.key := by
  simp only [mapMaster] at h
  split at h
  case h_1 => cases h; rfl
  case h_2 hs =>
    split at h
    case isTrue =>
      split at h
      all_goals
        rename_i ht
        cases h
        exact (mapTables_key ht).trans (selectStage_key hs)
    case isFalse =>
      cases h
      exact selectStage_key hs

theorem bind_key (h : m.sid = attr.streamid ∨ m.smmu = none) :
    (m.bind attr).key = (attr.streamid, some (m.smmu.getD attr.smmuIndex)) := by
  simp only [Master.bind]
  split
  case h_1 hs => simp_all [Master.key]
  case h_2 hs => simp [Master.key, hs]

-- What a call of `val_smmu_map` does to the list.
theorem Maps.keys {status : Nat} (h : Maps pf attr pgt d status d') :
    (status ≠ 0 ∧ d'.keys = d.keys) ∨
    (∃ i n, d.masters[i]? = some n ∧ n.master.sid = attr.streamid ∧
      d'.keys = d.keys.set i (attr.streamid, some (n.master.smmu.getD attr.smmuIndex))) ∨
    ((∀ n ∈ d.masters, n.master.sid ≠ attr.streamid) ∧ d'.keys = (attr.streamid, some attr.smmuIndex) :: d.keys) := by
  have record {i : Nat} {m m' : Master} {d₁ : Driver} (hl : Lookup pf attr.streamid d (some (i, m)) d₁)
      (hk : m'.key = (m.bind attr).key) (hd : d'.keys = d₁.keys.set i m'.key) :
      (∃ i n, d.masters[i]? = some n ∧ n.master.sid = attr.streamid ∧
        d'.keys = d.keys.set i (attr.streamid, some (n.master.smmu.getD attr.smmuIndex))) ∨
      ((∀ n ∈ d.masters, n.master.sid ≠ attr.streamid) ∧ d'.keys = (attr.streamid, some attr.smmuIndex) :: d.keys) := by
    rcases hl.record with ⟨rfl, hs, n, hi, rfl, _⟩ | ⟨rfl, rfl, ha, node, ptr, w₁, w₂, _, _, _, _, rfl⟩
    case inl =>
      refine .inl ⟨i, n, hi, hs, ?_⟩
      rw [hd, hk, bind_key (.inl hs)]
    case inr =>
      refine .inr ⟨ha, ?_⟩
      rw [hd, hk, bind_key (.inr rfl)]
      rfl
  cases h
  case rejected => exact .inl ⟨Nat.one_ne_zero, rfl⟩
  case noRecord hl =>
    have ⟨_, w, hd⟩ := hl.no_record
    exact .inl ⟨Nat.one_ne_zero, by rw [hd]; rfl⟩
  case failed hl hm => exact .inr $ record hl (mapMaster_key hm) Driver.keys_setMaster
  case done hl hm _ => exact .inr $ record hl (mapMaster_key hm) Driver.keys_setMaster

-- What a call of `val_smmu_unmap` does to the list, if the stream has a record.
theorem Unmaps.keys (h : Unmaps pf attr d d') (hr : ∃ n ∈ d.masters, n.master.sid = attr.streamid) :
    ∃ i n, d.masters[i]? = some n ∧ n.master.sid = attr.streamid ∧
      (d' = d ∨ n.master.smmu ≠ none ∧ d'.keys = d.keys.set i (0, none)) := by
  have ⟨n, hn, hs⟩ := hr
  have found {i : Nat} {m : Master} {d₁ : Driver} (hl : Lookup pf attr.streamid d (some (i, m)) d₁) :
      d₁ = d ∧ ∃ n, d.masters[i]? = some n ∧ n.master = m ∧ n.master.sid = attr.streamid := by
    rcases hl.record with ⟨rfl, hs, n, hi, rfl, _⟩ | ⟨_, _, ha, _⟩
    case inl => exact ⟨rfl, n, hi, rfl, hs⟩
    case inr => exact absurd hs (ha n hn)
  cases h
  case noRecord hl => exact absurd hs (hl.no_record.1 n hn)
  case unused _ hl =>
    have ⟨hd, n, hi, _, hs⟩ := found hl
    exact ⟨_, n, hi, hs, .inl hd⟩
  case outOfRange _ _ hl =>
    have ⟨hd, n, hi, _, hs⟩ := found hl
    exact ⟨_, n, hi, hs, .inl hd⟩
  case done hl hk _ _ =>
    have ⟨hd, n, hi, hm, hs⟩ := found hl
    subst hd
    exact ⟨_, n, hi, hs, .inr ⟨by rw [hm, hk]; simp, Driver.keys_setMaster⟩⟩

-- A stream without a record is mapped only if it was not unmapped before. A stream is unmapped only
-- if it has a record, which is unused if the stream was never mapped, and a stream other than stream
-- 0 only if no record carries the stream id 0.
def NoRecycling (hist : History) (d : Driver) : Call → Prop
  | .map attr _ => (∀ n ∈ d.masters, n.master.sid ≠ attr.streamid) → attr.streamid ∉ hist.unmapIds
  | .unmap attr =>
    (∃ n ∈ d.masters, n.master.sid = attr.streamid ∧
      (attr.streamid ∈ hist.mappedIds ∨ n.master.smmu = none)) ∧
    (attr.streamid ≠ 0 → ∀ n ∈ d.masters, n.master.sid ≠ 0)

-- At most one node records a stream id, a mapped stream is found and carries its own stream id, and
-- there are no more nodes than stream ids that were passed to `val_smmu_map`.
structure RegistryOk (pf : Platform) (hist : History) (d : Driver) : Prop where
  unique  : d.sids.Nodup
  found   : ∀ sid ∈ hist.current, ∃ i m, smmuMasterAt pf sid d = (some (i, m), d) ∧ m.sid = sid ∧ m.smmu ≠ none
  bounded : d.masters.length ≤ hist.mapIds.toFinset.card

-- The invariant behind it: every node was added for another stream id, which it still carries or
-- which was unmapped since.
structure Registered (hist : History) (keys : List (Nat × Option Nat)) : Prop where
  unique  : (keys.map Prod.fst).Nodup
  current : ∀ sid ∈ hist.current, ∃ k, (sid, some k) ∈ keys
  added   : ∃ ids : List Nat, ids.Nodup ∧ ids.length = keys.length ∧
    ∀ sid ∈ ids, sid ∈ hist.mapIds ∧ (sid ∈ keys.map Prod.fst ∨ sid ∈ hist.unmapIds)

variable {keys : List (Nat × Option Nat)} {sid i status : Nat}

theorem mem_sids_iff : sid ∈ d.keys.map Prod.fst ↔ ∃ n ∈ d.masters, n.master.sid = sid := by
  rw [← Driver.sids_eq, Driver.sids, List.mem_map]

theorem set_eq_self {α : Type} {l : List α} {a : α} (h : l[i]? = some a) : l.set i a = l := by
  have ⟨_, he⟩ := List.getElem?_eq_some_iff.mp h
  rw [← he, List.set_getElem_self]

theorem mem_set_of_ne {α : Type} {l : List α} {a b c : α} (hi : l[i]? = some a) (hm : b ∈ l) (hn : b ≠ a) :
    b ∈ l.set i c := by
  have ⟨j, hj⟩ := List.getElem?_of_mem hm
  refine List.mem_of_getElem? (i := j) ?_
  rw [List.getElem?_set_ne, hj]
  intro he
  rw [he, hj] at hi
  cases hi
  exact hn rfl

theorem mem_current_of_ne (h : sid ∈ History.current ((.map attr pgt, status) :: hist)) (hn : sid ≠ attr.streamid) :
    sid ∈ hist.current := by
  rw [History.current] at h
  split at h
  case isTrue  => exact List.mem_of_ne_of_mem hn h
  case isFalse => exact h

theorem getElem?_keys {n : Node} (h : d.masters[i]? = some n) : d.keys[i]? = some n.master.key := by
  rw [Driver.keys, List.getElem?_map, h]
  rfl

namespace Registered

-- A map that does not succeed, and leaves the list as it is.
theorem map_same (h : Registered hist keys) (hs : status ≠ 0) : Registered ((.map attr pgt, status) :: hist) keys := by
  refine ⟨h.unique, ?_, ?_⟩
  · rw [History.current, if_neg hs]
    exact h.current
  · have ⟨ids, hn, hl, hm⟩ := h.added
    exact ⟨ids, hn, hl, fun sid hsid => ⟨List.mem_cons_of_mem _ (hm sid hsid).1, (hm sid hsid).2⟩⟩

-- A map of a stream that has a record.
theorem map_found (h : Registered hist keys) {k : Option Nat} {k' : Nat}
    (hi : keys[i]? = some (attr.streamid, k)) :
    Registered ((.map attr pgt, status) :: hist) (keys.set i (attr.streamid, some k')) := by
  have hfst : (keys.set i (attr.streamid, some k')).map Prod.fst = keys.map Prod.fst := by
    rw [List.map_set]
    exact set_eq_self (by rw [List.getElem?_map, hi]; rfl)
  have hmem : (attr.streamid, some k') ∈ keys.set i (attr.streamid, some k') :=
    List.mem_set (List.getElem?_eq_some_iff.mp hi).1 _
  refine ⟨hfst ▸ h.unique, ?_, ?_⟩
  · intro sid hsid
    by_cases he : sid = attr.streamid
    case pos => exact ⟨k', he ▸ hmem⟩
    case neg =>
      have ⟨c, hc⟩ := h.current sid (mem_current_of_ne hsid he)
      exact ⟨c, mem_set_of_ne hi hc (by simp [he])⟩
  · have ⟨ids, hn, hl, hm⟩ := h.added
    refine ⟨ids, hn, by rw [List.length_set, hl], fun sid hsid => ⟨List.mem_cons_of_mem _ (hm sid hsid).1, ?_⟩⟩
    rw [hfst]
    exact (hm sid hsid).2

-- A map of a stream that gets a new record.
theorem map_added (h : Registered hist keys) (ha : attr.streamid ∉ keys.map Prod.fst)
    (hu : attr.streamid ∉ hist.unmapIds) {k : Nat} :
    Registered ((.map attr pgt, status) :: hist) ((attr.streamid, some k) :: keys) := by
  refine ⟨List.nodup_cons.mpr ⟨ha, h.unique⟩, ?_, ?_⟩
  · intro sid hsid
    by_cases he : sid = attr.streamid
    case pos => exact ⟨k, he ▸ List.mem_cons_self ..⟩
    case neg =>
      have ⟨c, hc⟩ := h.current sid (mem_current_of_ne hsid he)
      exact ⟨c, List.mem_cons_of_mem _ hc⟩
  · have ⟨ids, hn, hl, hm⟩ := h.added
    refine ⟨attr.streamid :: ids, List.nodup_cons.mpr ⟨?_, hn⟩, congrArg (· + 1) hl, ?_⟩
    · intro hc
      exact (hm _ hc).2.elim ha hu
    · intro sid hsid
      rcases List.mem_cons.mp hsid with rfl | hsid
      case inl => exact ⟨List.mem_cons_self .., .inl (List.mem_cons_self ..)⟩
      case inr =>
        exact ⟨List.mem_cons_of_mem _ (hm sid hsid).1, (hm sid hsid).2.imp (List.mem_cons_of_mem _) id⟩

-- An unmap that leaves the list as it is.
theorem unmap_same (h : Registered hist keys) : Registered ((.unmap attr, status) :: hist) keys := by
  refine ⟨h.unique, ?_, ?_⟩
  · intro sid hsid
    exact h.current sid (List.mem_of_mem_filter hsid)
  · have ⟨ids, hn, hl, hm⟩ := h.added
    exact ⟨ids, hn, hl, fun sid hsid => ⟨(hm sid hsid).1, (hm sid hsid).2.imp id (List.mem_cons_of_mem _)⟩⟩

-- An unmap that clears a record.
theorem unmap_cleared (h : Registered hist keys) {k : Option Nat} (hi : keys[i]? = some (attr.streamid, k))
    (hz : attr.streamid ≠ 0 → 0 ∉ keys.map Prod.fst) :
    Registered ((.unmap attr, status) :: hist) (keys.set i (0, none)) := by
  have hif : (keys.map Prod.fst)[i]? = some attr.streamid := by
    rw [List.getElem?_map, hi]
    rfl
  refine ⟨?_, ?_, ?_⟩
  · rw [List.map_set]
    by_cases he : attr.streamid = 0
    case pos =>
      rw [set_eq_self (by rw [hif, he])]
      exact h.unique
    case neg => exact h.unique.set (hz he)
  · intro sid hsid
    have ⟨hc, hne⟩ := List.mem_filter.mp hsid
    have ⟨c, hc⟩ := h.current sid hc
    refine ⟨c, mem_set_of_ne hi hc ?_⟩
    simp only [ne_eq, decide_not, Bool.not_eq_eq_eq_not, Bool.not_true, decide_eq_false_iff_not] at hne
    simp [hne]
  · have ⟨ids, hn, hl, hm⟩ := h.added
    refine ⟨ids, hn, by rw [List.length_set, hl], fun sid hsid => ⟨(hm sid hsid).1, ?_⟩⟩
    rw [List.map_set]
    by_cases he : sid = attr.streamid
    case pos => exact .inr (he ▸ List.mem_cons_self ..)
    case neg => exact (hm sid hsid).2.imp (mem_set_of_ne hif · he) (List.mem_cons_of_mem _)

end Registered

theorem Registered.step {c : Call} (h : Registered hist d.keys) (hk : NoRecycling hist d c)
    (hs : Step pf d c status d') : Registered ((c, status) :: hist) d'.keys := by
  cases hs
  case map attr pgt hm =>
    rcases (map_cases hm).keys with ⟨hn, he⟩ | ⟨i, n, hi, hn, he⟩ | ⟨ha, he⟩
    case inl => exact he ▸ h.map_same hn
    case inr.inl =>
      have hkey : d.keys[i]? = some (attr.streamid, n.master.smmu) := by
        rw [getElem?_keys hi, Master.key, hn]
      exact he ▸ h.map_found hkey
    case inr.inr =>
      have hna : attr.streamid ∉ d.keys.map Prod.fst := by
        rw [mem_sids_iff]
        intro ⟨n, hn, hs⟩
        exact ha n hn hs
      exact he ▸ h.map_added hna (hk ha)
  case unmap attr hm =>
    have ⟨⟨n, hn, hsid, _⟩, hz⟩ := hk
    have ⟨i, m, hi, hs, hc⟩ := (unmap_cases hm).keys ⟨n, hn, hsid⟩
    rcases hc with he | ⟨_, he⟩
    case inl => exact he ▸ h.unmap_same
    case inr =>
      have hkey : d.keys[i]? = some (attr.streamid, m.master.smmu) := by
        rw [getElem?_keys hi, Master.key, hs]
      refine he ▸ h.unmap_cleared hkey ?_
      intro hne hc
      have ⟨n, hn, h₀⟩ := mem_sids_iff.mp hc
      exact hz hne n hn h₀

variable (pf) in
-- A record of the list is found if no other one carries its stream id.
theorem masterAt_of_unique (hu : d.sids.Nodup) {n : Node} (hn : n ∈ d.masters) :
    ∃ i, d.masters[i]? = some n ∧ smmuMasterAt pf n.master.sid d = (some (i, n.master), d) := by
  rcases hm : smmuMasterAt pf n.master.sid d with ⟨r, d'⟩
  have ⟨j, hj⟩ := List.getElem?_of_mem hn
  have hsj : d.sids[j]? = some n.master.sid := by
    rw [Driver.sids, List.getElem?_map, hj]
    rfl
  cases r
  case none => exact absurd rfl ((masterAt_cases hm).no_record.1 n hn)
  case some p =>
    rcases (masterAt_cases hm).record with ⟨rfl, hs, m, hi, he, _⟩ | ⟨_, _, ha, _⟩
    case inl =>
      have hsi : d'.sids[p.1]? = some n.master.sid := by
        rw [Driver.sids, List.getElem?_map, hi, Option.map_some, he, hs]
      have hij : p.1 = j :=
        (List.getElem?_inj (List.getElem?_eq_some_iff.mp hsi).1 hu).mp (hsi.trans hsj.symm)
      subst hij
      cases hi.symm.trans hj
      exact ⟨p.1, hj, by rw [he]⟩
    case inr => exact absurd rfl (ha n hn)

variable (pf) in
theorem Registered.registryOk (h : Registered hist d.keys) : RegistryOk pf hist d := by
  have hu : d.sids.Nodup := Driver.sids_eq ▸ h.unique
  refine ⟨hu, ?_, ?_⟩
  · intro sid hsid
    have ⟨k, hk⟩ := h.current sid hsid
    have ⟨n, hn, he⟩ := List.mem_map.mp hk
    have hs : n.master.sid = sid := congrArg Prod.fst he
    have hb : n.master.smmu = some k := congrArg Prod.snd he
    have ⟨i, _, hf⟩ := masterAt_of_unique pf hu hn
    exact ⟨i, n.master, hs ▸ hf, hs, by simp [hb]⟩
  · have ⟨ids, hn, hl, hm⟩ := h.added
    rw [Driver.keys, List.length_map] at hl
    rw [← hl, ← List.toFinset_card_of_nodup hn]
    refine Finset.card_le_card ?_
    intro sid hsid
    exact List.mem_toFinset.mpr (hm sid (List.mem_toFinset.mp hsid)).1

theorem master_registry_kept {d₀ : Driver} (h₀ : d₀.masters = []) (h : Run pf NoRecycling d₀ hist d) :
    RegistryOk pf hist d ∧
    ∀ attr d', NoRecycling hist d (.unmap attr) → Step pf d (.unmap attr) 0 d' →
      attr.streamid ∉ hist.mappedIds → d' = d := by
  have hi : Registered hist d.keys := by
    refine h.invariant (I := fun hist d => Registered hist d.keys) ?_ Registered.step
    rw [Driver.keys, h₀]
    exact ⟨List.nodup_nil, by simp [History.current], [], by simp⟩
  refine ⟨hi.registryOk pf, ?_⟩
  intro attr d' hk hs hn
  cases hs
  case unmap hm =>
    have ⟨⟨n, hmem, hsid, hb⟩, _⟩ := hk
    have hb := hb.resolve_left hn
    have ⟨i, m, hmi, hms, hc⟩ := (unmap_cases hm).keys ⟨n, hmem, hsid⟩
    rcases hc with hc | ⟨hc, _⟩
    case inl => exact hc
    case inr =>
      have hu : (d.masters.map (·.master.sid)).Nodup := (hi.registryOk pf).unique
      have he : m = n := List.inj_on_of_nodup_map hu (List.mem_of_getElem? hmi) hmem (hms.trans hsid.symm)
      exact absurd (he ▸ hb) hc

end

-- One SMMU with a linear stream table of 16 entries. Each round of commands is consumed at once.

def promptPlatform : Platform :=
  { mmio := fun n => [0, 1, 2, 3, 3].getD (n % 5) 0, alloc := fun n _ _ => 0x100000 * (n + 1) }

theorem linearSmmu_cleared : (⟨0, 0, 3⟩ : Queue).prod = 0 ∧ (⟨0, 0, 3⟩ : Queue).cons = 0 :=
  ⟨rfl, rfl⟩

def linearSmmu : SmmuDev where
  base      := 0x2b400000
  ias       := 48
  oas       := 48
  ssidBits  := 0
  sidBits   := 4
  cmdq      := ⟨⟨0, 0, 3⟩, 0x10000, 0x10080, 0x10080, queueBase 0x10080 3, linearSmmu_cleared⟩
  strtabCfg := ⟨0x20000, 0x20400, 0x20400, 0, fun _ => .zero, 16, strtabBase 0x20400, 4⟩
  supported := ⟨false, false, false, true, true⟩

def oneSmmu : Driver :=
  { world := .start, gSmmu := 0x9000, numSmmus := 1, smmus := fun _ => linearSmmu, masters := [] }

def attrOf (sid : Nat) : SmmuMasterAttributes :=
  { smmuIndex := 0, streamid := sid, substreamid := 0, ssidBits := 0, stage2 := 1 }

def somePgt : PgtDescriptor :=
  { pgtBase := 0x80000000, ias := 48, oas := 48, mair := 0, stage := 2, tcr := ⟨5, 0, 3, 1, 1, 16, 2, 12⟩ }

-- Stream 5 is mapped and unmapped.
theorem master_registry_map_unmap :
    ∃ d₁ d₂, Step promptPlatform oneSmmu (.map (attrOf 5) somePgt) 0 d₁ ∧
      Step promptPlatform d₁ (.unmap (attrOf 5)) 0 d₂ ∧
      RegistryOk promptPlatform [(.unmap (attrOf 5), 0), (.map (attrOf 5) somePgt, 0)] d₂ := by
  have hrun : ((valSmmuMap promptPlatform 1 (attrOf 5) somePgt oneSmmu).bind fun r =>
      (valSmmuUnmap promptPlatform 1 (attrOf 5) r.2).map fun d => (r.1, r.2.sids)) = some (0, [5]) := by
    decide +kernel
  have ⟨⟨status, d₁⟩, h₁, h⟩ := Option.bind_eq_some_iff.mp hrun
  have ⟨d₂, h₂, he⟩ := Option.map_eq_some_iff.mp h
  have hs : d₁.sids = [5] := congrArg Prod.snd he
  have h0 : status = 0 := congrArg Prod.fst he
  subst h0
  have hmem (n : Node) (hn : n ∈ d₁.masters) : n.master.sid = 5 := by
    have : n.master.sid ∈ d₁.sids := List.mem_map_of_mem hn
    simpa [hs] using this
  have hex : ∃ n ∈ d₁.masters, n.master.sid = 5 := by
    have : 5 ∈ d₁.sids := by simp [hs]
    exact List.mem_map.mp this
  have k₁ : NoRecycling [] oneSmmu (.map (attrOf 5) somePgt) := fun _ => by simp [History.unmapIds]
  have k₂ : NoRecycling [(.map (attrOf 5) somePgt, 0)] d₁ (.unmap (attrOf 5)) := by
    have ⟨n, hn, h5⟩ := hex
    refine ⟨⟨n, hn, h5, .inl (by simp [History.mappedIds, attrOf])⟩, ?_⟩
    intro _ m hm h0
    rw [hmem m hm] at h0
    cases h0
  exact ⟨d₁, d₂, .map h₁, .unmap h₂, (master_registry_kept rfl (.cons (.cons .nil k₁ (.map h₁)) k₂ (.unmap h₂))).1⟩

-- The unmap of a stream that was never mapped adds a node, and hides the record of stream 0.
theorem master_registry_broken :
    ∃ d₁ d₂, Step promptPlatform oneSmmu (.map (attrOf 0) somePgt) 0 d₁ ∧
      Step promptPlatform d₁ (.unmap (attrOf 7)) 0 d₂ ∧ d₂ ≠ d₁ ∧
      ¬RegistryOk promptPlatform [(.unmap (attrOf 7), 0), (.map (attrOf 0) somePgt, 0)] d₂ := by
  have hrun : ((valSmmuMap promptPlatform 1 (attrOf 0) somePgt oneSmmu).bind fun r =>
      (valSmmuUnmap promptPlatform 1 (attrOf 7) r.2).map fun d => (r.1, r.2.sids, d.sids)) = some (0, [0], [0, 0]) := by
    decide +kernel
  have ⟨⟨status, d₁⟩, h₁, h⟩ := Option.bind_eq_some_iff.mp hrun
  have ⟨d₂, h₂, he⟩ := Option.map_eq_some_iff.mp h
  have h0 : status = 0 := congrArg Prod.fst he
  have hs₁ : d₁.sids = [0] := congrArg (fun p => p.2.1) he
  have hs₂ : d₂.sids = [0, 0] := congrArg (fun p => p.2.2) he
  subst h0
  refine ⟨d₁, d₂, .map h₁, .unmap h₂, ?_, ?_⟩
  · intro hd
    rw [hd, hs₁] at hs₂
    cases hs₂
  · intro hr
    have hu := hr.unique
    rw [hs₂] at hu
    exact absurd hu (by decide)

end Smmu
