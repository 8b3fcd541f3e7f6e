import BsaAcs.Smmu.Theorems.StreamTable

namespace Smmu

-- The records of the streams after a call.

section

variable {l : List Node} {f : Node → Node} {p : Node → Bool} {i : Nat}

theorem find?_modify (h : ∀ n, l[i]? = some n → p n = false) :
    (l.modify i f).find? p = l.find? p ∨ ∃ n, l[i]? = some n ∧ (l.modify i f).find? p = some (f n) := by
  induction l generalizing i
  case nil => simp
  case cons n l hi =>
    cases i
    case zero =>
      have hn : p n = false := h n rfl
      have he : (n :: l).modify 0 f = f n :: l := rfl
      rw [he, List.find?_cons, List.find?_cons, hn]
      cases p (f n)
      case false => exact .inl rfl
      case true  => exact .inr ⟨n, rfl, rfl⟩
    case succ i =>
      have he : (n :: l).modify (i + 1) f = n :: l.modify i f := rfl
      rw [he, List.find?_cons, List.find?_cons]
      cases p n
      case true  => exact .inl rfl
      case false => exact hi h

end

-- All records are bound to one SMMU, and no stream other than stream 0 has two records. Records that carry the
-- stream id 0 are left behind by an unmap.
structure Driver.Sole (k : Nat) (d : Driver) : Prop where
  bound : ∀ n ∈ d.masters, ∀ k', n.master.smmu = some k' → k' = k
  alone : ∀ (i j : Nat) (n n' : Node), d.masters[i]? = some n → d.masters[j]? = some n' → n.master.sid = n'.master.sid →
    n.master.sid ≠ 0 → i = j

section

variable {pf : Platform} {d d' d₁ : Driver} {attr : SmmuMasterAttributes} {pgt : PgtDescriptor}
variable {i k sid status : Nat} {m m' : Master} {r : Option (Nat × Master)}

theorem Driver.recordOf_setMaster (h : ∀ n, d.masters[i]? = some n → n.master.sid ≠ sid) :
    (d.setMaster i m).recordOf sid = d.recordOf sid ∨ m.sid = sid ∧ (d.setMaster i m).recordOf sid = m := by
  have hf := @find?_modify d.masters ({ · with master := m }) (·.master.sid == sid) i fun n hn => beq_false_of_ne (h n hn)
  rw [Driver.recordOf, Driver.recordOf, Driver.setMaster]
  rcases hf with hf | ⟨n, _, hf⟩
  case inl => exact .inl (by rw [hf])
  case inr =>
    have hsid := List.find?_some hf
    exact .inr ⟨beq_iff_eq.mp hsid, by rw [hf]; rfl⟩

theorem Driver.recordOf_cons {n : Node} {w : World} :
    ({ d with world := w, masters := n :: d.masters } : Driver).recordOf sid =
      if n.master.sid = sid then n.master else d.recordOf sid := by
  rw [Driver.recordOf, List.find?_cons]
  split
  case h_1 he => rw [if_pos (beq_iff_eq.mp he)]; rfl
  case h_2 he => rw [if_neg (ne_of_beq_false he), Driver.recordOf]

theorem Driver.recordOf_none (h : ∀ n ∈ d.masters, n.master.sid ≠ sid) : d.recordOf sid = .zero := by
  have hf : d.masters.find? (·.master.sid == sid) = none :=
    List.find?_eq_none.mpr fun n hn => by simpa using h n hn
  rw [Driver.recordOf, hf]
  rfl

theorem Driver.Sole.setMaster (h : d.Sole k) (hb : ∀ k', m.smmu = some k' → k' = k)
    (ha : ∀ j n, j ≠ i → d.masters[j]? = some n → n.master.sid = m.sid → m.sid = 0) : (d.setMaster i m).Sole k := by
  have place {j : Nat} {n : Node} (hn : (d.masters.modify i ({ · with master := m }))[j]? = some n) :
      j = i ∧ n.master = m ∨ j ≠ i ∧ d.masters[j]? = some n := by
    rw [List.getElem?_modify] at hn
    split at hn
    case isTrue hj =>
      have ⟨n₀, _, he⟩ := Option.map_eq_some_iff.mp hn
      exact .inl ⟨hj.symm, by rw [← he]⟩
    case isFalse hj =>
      rw [id_map'] at hn
      exact .inr ⟨fun hc => hj hc.symm, hn⟩
  refine ⟨?_, ?_⟩
  · intro n hn k' hk
    rcases mem_modify hn with hn | ⟨_, _, rfl⟩
    case inl => exact h.bound n hn k' hk
    case inr => exact hb k' hk
  · intro j j' n n' hn hn' hsid hz
    rcases place hn with ⟨hj, he⟩ | ⟨hj, hn⟩ <;> rcases place hn' with ⟨hj', he'⟩ | ⟨hj', hn'⟩
    case inl.inl => rw [hj, hj']
    case inl.inr =>
      rw [he] at hsid hz
      exact absurd (ha j' n' hj' hn' hsid.symm) hz
    case inr.inl =>
      rw [he'] at hsid
      exact absurd (hsid.trans (ha j n hj hn hsid)) hz
    case inr.inr => exact h.alone j j' n n' hn hn' hsid hz

theorem Driver.Sole.cons {n : Node} {w : World} (h : d.Sole k) (hz : n.master = .zero) :
    ({ d with world := w, masters := n :: d.masters } : Driver).Sole k := by
  refine ⟨?_, ?_⟩
  · intro n' hn k' hk
    rcases List.mem_cons.mp hn with rfl | hn
    case inl =>
      rw [hz] at hk
      cases hk
    case inr => exact h.bound n' hn k' hk
  · intro j j' n₁ n₂ h₁ h₂ hsid hne
    cases j
    case zero =>
      have he : n = n₁ := Option.some.inj h₁
      rw [← he, hz] at hne
      exact absurd rfl hne
    case succ j =>
      cases j'
      case zero =>
        have he : n = n₂ := Option.some.inj h₂
        rw [hsid, ← he, hz] at hne
        exact absurd rfl hne
      case succ j' => exact congrArg (· + 1) (h.alone j j' n₁ n₂ h₁ h₂ hsid hne)

theorem Lookup.sole (h : d.Sole k) (hl : Lookup pf sid d r d₁) : d₁.Sole k := by
  cases hl
  case found    => exact h
  case noNode   => exact ⟨h.bound, h.alone⟩
  case noMaster => exact ⟨h.bound, h.alone⟩
  case created  => exact h.cons rfl

-- No other record has the stream id of the one that was looked up, unless it is 0.
theorem Lookup.alone (h : d.Sole k) (hl : Lookup pf sid d (some (i, m)) d₁) {j : Nat} {n : Node} (hj : j ≠ i)
    (hn : d₁.masters[j]? = some n) (hsid : n.master.sid = sid) : sid = 0 := by
  by_contra hne
  rcases hl.record with ⟨rfl, hm, n₁, hn₁, rfl, _⟩ | ⟨rfl, _, ha, node, ptr, w₁, w₂, _, _, _, _, rfl⟩
  case inl => exact hj (h.alone j i n n₁ hn hn₁ (hsid.trans hm.symm) (hsid ▸ hne))
  case inr =>
    have ⟨j', he⟩ := Nat.exists_eq_succ_of_ne_zero hj
    subst he
    exact ha n (List.mem_of_getElem? hn) hsid

theorem Maps.sole (h : d.Sole attr.smmuIndex) (hm : Maps pf attr pgt d status d') : d'.Sole attr.smmuIndex := by
  have mapped {i : Nat} {m m' : Master} {d₁ : Driver} {smmu' : SmmuDev} {w' : World}
      (hl : Lookup pf attr.streamid d (some (i, m)) d₁) (hk : m'.key = (m.bind attr).key) :
      (d₁.mapped attr.smmuIndex i smmu' m' w').Sole attr.smmuIndex := by
    have h₁ := hl.sole h
    have ⟨n, hn, he, hsid⟩ := hl.listed
    rw [bind_key hsid] at hk
    have hsid' : m'.sid = attr.streamid := congrArg Prod.fst hk
    have hset := h₁.setMaster (i := i) (m := m') ?_ ?_
    · exact ⟨hset.bound, hset.alone⟩
    · intro k' hk'
      have hk' : m'.key.2 = some k' := hk'
      rw [hk, Option.some.injEq] at hk'
      rw [← hk']
      cases hb : m.smmu
      case none   => rfl
      case some j => exact h₁.bound n (List.mem_of_getElem? hn) j (he ▸ hb)
    · intro j n' hj hn' he'
      rw [hsid'] at he' ⊢
      exact hl.alone h hj hn' he'
  cases hm
  case rejected          => exact h
  case noRecord _ _ _ hl => exact hl.sole h
  case failed hl hm      => exact mapped hl (mapMaster_key hm)
  case done hl hm _      => exact mapped hl (mapMaster_key hm)

theorem Unmaps.sole (h : d.Sole k) (hu : Unmaps pf attr d d') : d'.Sole k := by
  cases hu
  case noRecord hl       => exact hl.sole h
  case unused _ hl       => exact hl.sole h
  case outOfRange _ _ hl => exact hl.sole h
  case done i _ _ _ _ _ _ hl _ _ _ =>
    have hs := (hl.sole h).setMaster (i := i) (m := .zero) (fun _ hc => by cases hc) fun _ _ _ _ _ => rfl
    exact ⟨hs.bound, hs.alone⟩

-- A map leaves the records of all other streams as they are.
theorem Maps.recordOf_of_ne (hne : sid ≠ attr.streamid) (h : Maps pf attr pgt d status d') :
    d'.recordOf sid = d.recordOf sid := by
  have mapped {i k : Nat} {m m' : Master} {d₁ : Driver} {smmu' : SmmuDev} {w' : World} (hk : m'.key = (m.bind attr).key)
      (hl : Lookup pf attr.streamid d (some (i, m)) d₁) : (d₁.mapped k i smmu' m' w').recordOf sid = d.recordOf sid := by
    have hsid : m'.sid = attr.streamid := by
      have ⟨_, _, _, hs⟩ := hl.listed
      rw [bind_key hs] at hk
      exact congrArg Prod.fst hk
    rcases hl.record with ⟨rfl, hm, n, hn, rfl, _⟩ | ⟨rfl, _, _, node, ptr, w₁, w₂, _, _, _, _, rfl⟩
    case inl =>
      have hset := @Driver.recordOf_setMaster d₁ i sid m' fun n' hn' hc => by
        rw [hn, Option.some.injEq] at hn'
        exact hne (hc ▸ hn' ▸ hm)
      exact hset.resolve_right fun hc => hne (hc.1 ▸ hsid)
    case inr =>
      have hcons := @Driver.recordOf_cons d sid ⟨node, ptr, m'⟩ d.world
      rw [if_neg (hsid ▸ hne.symm)] at hcons
      exact hcons
  cases h
  case rejected => rfl
  case noRecord _ _ _ hl =>
    have ⟨_, w, hd⟩ := hl.no_record
    rw [hd]
    rfl
  case failed hl hm => exact mapped (mapMaster_key hm) hl
  case done hl hm _ => exact mapped (mapMaster_key hm) hl

theorem Lookup.recordOf {r : Option (Nat × Master)} {s : Nat} (h : Lookup pf sid d r d₁) :
    d₁.recordOf s = d.recordOf s ∨ d₁.recordOf s = .zero := by
  cases h
  case found    => exact .inl rfl
  case noNode   => exact .inl rfl
  case noMaster => exact .inl rfl
  case created node ptr w₁ w₂ _ _ _ _ _ =>
    rw [Driver.recordOf_cons]
    split
    case isTrue  => exact .inr rfl
    case isFalse => exact .inl rfl

-- An unmap leaves the records of the other streams as they are, or puts an empty one before that of stream 0.
theorem Unmaps.recordOf_of_ne (hne : sid ≠ attr.streamid) (h : Unmaps pf attr d d') :
    d'.recordOf sid = d.recordOf sid ∨ d'.recordOf sid = .zero := by
  cases h
  case noRecord hl       => exact hl.recordOf
  case unused _ hl       => exact hl.recordOf
  case outOfRange _ _ hl => exact hl.recordOf
  case done i m k d₁ fuel timedOut w' hl hm hr ht =>
    rcases hl.record with ⟨rfl, hsid, n, hn, rfl, _⟩ | ⟨_, rfl, _⟩
    case inr => cases hm
    case inl =>
      have hset := @Driver.recordOf_setMaster d₁ i sid .zero fun n' hn' hc => by
        rw [hn, Option.some.injEq] at hn'
        exact hne (hc ▸ hn' ▸ hsid)
      exact hset.imp_right And.right

-- An unmap leaves an empty record, unless the stream id is out of range.
theorem Unmaps.recordOf_self (h : d.Sole k) (hunused : ∀ n ∈ d.masters, n.master.smmu = none → n.master = .zero)
    (hu : Unmaps pf attr d d') :
    d'.recordOf attr.streamid = .zero ∨
      ∃ k', (d.recordOf attr.streamid).smmu = some k' ∧ sidInRange (d.smmus k') attr.streamid = false ∧ d' = d := by
  cases hu
  case noRecord hl =>
    have ⟨hn, w, hd⟩ := hl.no_record
    rw [hd]
    exact .inl (Driver.recordOf_none hn)
  case unused i m hm hl =>
    rcases hl.record with ⟨rfl, _, n, hn, rfl, _⟩ | ⟨_, _, ha, _⟩
    case inl =>
      refine .inl ?_
      rw [hl.recordOf_eq]
      exact hunused n (List.mem_of_getElem? hn) hm
    case inr =>
      rcases hl.recordOf (s := attr.streamid) with he | he
      case inl => exact .inl (he.trans (Driver.recordOf_none ha))
      case inr => exact .inl he
  case outOfRange i m k' hm hr hl =>
    rcases hl.record with ⟨rfl, _⟩ | ⟨_, rfl, _⟩
    case inl => exact .inr ⟨k', hl.recordOf_eq ▸ hm, hr, rfl⟩
    case inr => cases hm
  case done i m k' d₁ fuel timedOut w' hl hm hr ht =>
    refine .inl ?_
    by_cases hz : attr.streamid = 0
    case pos =>
      have hfound : Lookup pf attr.streamid (d₁.mapped 0 i (d₁.smmus 0) .zero w') (some (i, .zero)) _ :=
        hl.mapped hz.symm
      exact hfound.recordOf_eq
    case neg =>
      refine Driver.recordOf_none fun n hn hc => ?_
      have ⟨j, hj⟩ := List.mem_iff_getElem?.mp hn
      have hj : (d₁.masters.modify i ({ · with master := .zero }))[j]? = some n := hj
      rw [List.getElem?_modify] at hj
      split at hj
      case isTrue =>
        have ⟨_, _, he⟩ := Option.map_eq_some_iff.mp hj
        rw [← he] at hc
        exact hz hc.symm
      case isFalse hne =>
        rw [id_map'] at hj
        exact hz (hl.alone h (Ne.symm hne) hj hc)

end

end Smmu
