import BsaAcs.Iovirt.Raw
import Mathlib.Order.OrderIsoNat
import Mathlib.Tactic

-- The calls of `iort_add_block`, and which of them a call makes.

namespace Iovirt

-- A call for the node at `offset`: the table it finds, and the place for the block.
structure Call where
  offset : Nat
  table  : IovirtInfoTable
  block  : Nat

namespace Call

variable (bytes : Bytes) (node : IortNode) (c : Call)

def run (fuel : Nat) : Option RawAdded :=
  iortAddBlockRaw bytes fuel c.offset c.table c.block

def Returns (added : RawAdded) : Prop :=
  ∃ fuel, c.run bytes fuel = some added

def populated : IovirtInfoTable :=
  { c.table with mem := populate node c.block c.table.mem }

-- The table in which the block is searched, if `table` is what the call for the owner of a PMCG has left.
def searched (table : IovirtInfoTable) : IovirtInfoTable :=
  { table with mem := table.mem.write (c.block + flagsWord) 0 }

def checked (table : IovirtInfoTable) : IovirtInfoTable :=
  { c.searched table with mem := checkCtxInt node c.block (c.searched table).mem }

def ownerCall (ref : Nat) : Call where
  offset := ref
  table  := c.populated node
  block  := iovirtNextBlock (c.populated node).mem c.block

def mappingCall (map : IortIdMapping) (i : Nat) (table : IovirtInfoTable) (next : Nat) : Call where
  offset := map.outputReference
  table  := { table with mem := copyMapping map (dataMap c.block i) table.mem }
  block  := next

-- The owner of a PMCG has been added.
inductive Referred : IovirtInfoTable → Bool → Prop
  | none : (node.reference? = none) → Referred (c.populated node) false
  | owner {ref added} : (node.reference? = some ref) → ((c.ownerCall node ref).Returns bytes added) →
    Referred { added.table with mem := added.table.mem.write (c.block + dataWord + nodeRefWord) added.offset } added.stray

-- The block has not been found, and the first `i` mappings have been followed.
inductive Followed : Nat → IovirtInfoTable → Nat → Bool → Prop
  | start {table stray} : (c.Referred bytes node table stray) → (findBlock c.block (c.searched table) = 0) →
    Followed 0 (c.checked node table) (iovirtNextBlock (c.searched table).mem c.block) stray
  | next {i table next stray map added} : Followed i table next stray → (node.maps[i]? = some map) →
    ((c.mappingCall map i table next).Returns bytes added) →
    Followed (i + 1)
      { added.table with
        mem := setSmmuBase node c.block added.offset (added.table.mem.write (dataMap c.block i + 3) added.offset) }
      added.next (stray || added.stray || followsNoOffset node added.offset)

-- The calls that a call makes, if it gets to them.
inductive Makes : Call → Call → Prop
  | owner {c : Call} {node ref} : (bytes.node c.offset = some node) → (node.reference? = some ref) →
    Makes c (c.ownerCall node ref)
  | mapping {c : Call} {node i table next stray map} : (bytes.node c.offset = some node) →
    (c.Followed bytes node i table next stray) → (node.maps[i]? = some map) →
    Makes c (c.mappingCall map i table next)

end Call

section Fuel

variable {bytes : Bytes} {node : IortNode} {c : Call} {fuel fuel' : Nat} {added added' : RawAdded}
  {add add' : Nat → IovirtInfoTable → Nat → Option RawAdded}

-- More depth does not change a result.

theorem addReferenceRaw_mono (ha : ∀ o t b r, add o t b = some r → add' o t b = some r) {block : Nat}
    {table : IovirtInfoTable} {r : IovirtInfoTable × Bool} (h : addReferenceRaw add node block table = some r) :
    addReferenceRaw add' node block table = some r := by
  unfold addReferenceRaw at h ⊢
  split at h
  case h_1 =>
    obtain ⟨added, hadd, h⟩ := Option.bind_eq_some_iff.mp h
    rw [ha _ _ _ _ hadd]
    exact h
  case h_2 => exact h

theorem addMappingsRaw_mono (ha : ∀ o t b r, add o t b = some r → add' o t b = some r) {maps : List IortIdMapping}
    {block map next : Nat} {table : IovirtInfoTable} {stray : Bool} {r : IovirtInfoTable × Nat × Bool}
    (h : addMappingsRaw add node block maps map table next stray = some r) :
    addMappingsRaw add' node block maps map table next stray = some r := by
  induction maps generalizing map table next stray
  case nil => exact h
  case cons m maps hi =>
    obtain ⟨added, hadd, h⟩ := Option.bind_eq_some_iff.mp h
    rw [addMappingsRaw, ha _ _ _ _ hadd]
    exact hi h

theorem iortAddBlockRaw_mono {offset block : Nat} {table : IovirtInfoTable}
    (h : iortAddBlockRaw bytes fuel offset table block = some added) (hle : fuel ≤ fuel') :
    iortAddBlockRaw bytes fuel' offset table block = some added := by
  induction fuel generalizing fuel' offset table block added
  case zero => cases h
  case succ fuel hi =>
    obtain ⟨fuel', rfl⟩ : ∃ k, fuel' = k + 1 := ⟨fuel' - 1, by omega⟩
    have ha : ∀ o t b r, iortAddBlockRaw bytes fuel o t b = some r → iortAddBlockRaw bytes fuel' o t b = some r :=
      fun _ _ _ _ h => hi h (by omega)
    rw [iortAddBlockRaw] at h ⊢
    split at h
    case h_1 => exact h
    case h_2 =>
      obtain ⟨r, hr, h⟩ := Option.bind_eq_some_iff.mp h
      refine Option.bind_eq_some_iff.mpr ⟨r, addReferenceRaw_mono ha hr, ?_⟩
      dsimp only at h ⊢
      split
      case isTrue hf =>
        rw [if_pos hf] at h
        exact h
      case isFalse hf =>
        rw [if_neg hf] at h
        obtain ⟨r, hr, h⟩ := Option.bind_eq_some_iff.mp h
        exact Option.bind_eq_some_iff.mpr ⟨r, addMappingsRaw_mono ha hr, h⟩

theorem Call.run_mono (h : c.run bytes fuel = some added) (hle : fuel ≤ fuel') : c.run bytes fuel' = some added :=
  iortAddBlockRaw_mono h hle

theorem Call.Returns.unique (h : c.Returns bytes added) (h' : c.Returns bytes added') : added = added' := by
  obtain ⟨fuel, h⟩ := h
  obtain ⟨fuel', h'⟩ := h'
  exact Option.some.inj ((run_mono h (le_max_left fuel fuel')).symm.trans (run_mono h' (le_max_right fuel fuel')))

theorem addMappingsRaw_append {maps maps' : List IortIdMapping} {block map next : Nat} {table : IovirtInfoTable}
    {stray : Bool} :
    addMappingsRaw add node block (maps ++ maps') map table next stray =
      (addMappingsRaw add node block maps map table next stray).bind fun r =>
        addMappingsRaw add node block maps' (map + dataMapSize * maps.length) r.1 r.2.1 r.2.2 := by
  induction maps generalizing map table next stray
  case nil => rfl
  case cons m maps hi =>
    simp only [List.cons_append, addMappingsRaw, Option.bind_eq_bind]
    cases add m.outputReference { table with mem := copyMapping m map table.mem } next
    case none => rfl
    case some added =>
      simp only [Option.bind_some, hi, List.length_cons, show map + dataMapSize + dataMapSize * maps.length =
        map + dataMapSize * (maps.length + 1) by ring]

end Fuel

section Spec

variable {bytes : Bytes} {node : IortNode} {c c' : Call} {fuel i next next' : Nat} {added added' : RawAdded}
  {table table' : IovirtInfoTable} {stray stray' : Bool}

open Call

theorem Call.Referred.unique (h : c.Referred bytes node table stray) (h' : c.Referred bytes node table' stray') :
    table = table' ∧ stray = stray' := by
  cases h
  case none hn =>
    cases h'
    case none       => exact ⟨rfl, rfl⟩
    case owner ho _ => cases hn.symm.trans ho
  case owner hr ha =>
    cases h'
    case none hn      => cases hn.symm.trans hr
    case owner hr' ha' =>
      cases hr.symm.trans hr'
      cases ha.unique ha'
      exact ⟨rfl, rfl⟩

theorem Call.Followed.unique (h : c.Followed bytes node i table next stray)
    (h' : c.Followed bytes node i table' next' stray') : table = table' ∧ next = next' ∧ stray = stray' := by
  induction h generalizing table' next' stray'
  case start hr _ =>
    cases h'
    case start hf' hr' =>
      obtain ⟨rfl, rfl⟩ := hr.unique hr'
      exact ⟨rfl, rfl, rfl⟩
  case next hm ha hi =>
    cases h'
    case next hf' hm' ha' =>
      obtain ⟨rfl, rfl, rfl⟩ := hi hf'
      cases hm.symm.trans hm'
      cases ha.unique ha'
      exact ⟨rfl, rfl, rfl⟩

theorem Call.Followed.last (h : c.Followed bytes node (i + 1) table next stray) :
    ∃ table' next' stray' map added, c.Followed bytes node i table' next' stray' ∧ node.maps[i]? = some map ∧
      (c.mappingCall map i table' next').Returns bytes added ∧
      stray = (stray' || added.stray || followsNoOffset node added.offset) := by
  cases h
  case next hf hm ha => exact ⟨_, _, _, _, _, hf, hm, ha, rfl⟩

theorem Call.Followed.first (h : c.Followed bytes node 0 table next stray) :
    ∃ table', c.Referred bytes node table' stray ∧ findBlock c.block (c.searched table') = 0 := by
  cases h
  case start hf hr => exact ⟨_, hr, hf⟩

-- What is followed lies in front of what is still to be followed.
theorem Call.Followed.earlier (h : c.Followed bytes node i table next stray) {j : Nat} (hj : j ≤ i) :
    ∃ table' next' stray', c.Followed bytes node j table' next' stray' := by
  induction h
  case start hr hf =>
    obtain rfl : j = 0 := by omega
    exact ⟨_, _, _, .start hr hf⟩
  case next i _ _ _ _ _ hf hm ha hi =>
    by_cases he : j = i + 1
    case pos =>
      subst he
      exact ⟨_, _, _, .next hf hm ha⟩
    case neg => exact hi (by omega)

theorem Call.referred_iff :
    c.Referred bytes node table stray ↔
      ∃ fuel, addReferenceRaw (iortAddBlockRaw bytes fuel) node c.block (c.populated node) = some (table, stray) := by
  cases hd : node.data
  case pmcg _ _ ref =>
    have hr : node.reference? = some ref := by simp only [IortNode.reference?, hd]
    constructor
    · intro h
      cases h
      case none hn => cases hn.symm.trans hr
      case owner added hr' ha =>
        cases hr.symm.trans hr'
        obtain ⟨fuel, ha⟩ := ha
        have ha : iortAddBlockRaw bytes fuel ref (c.populated node) (iovirtNextBlock (c.populated node).mem c.block) =
          some added := ha
        exact ⟨fuel, by simp only [addReferenceRaw, hd, ha, Option.bind_eq_bind, Option.bind_some]⟩
    · rintro ⟨fuel, h⟩
      simp only [addReferenceRaw, hd] at h
      obtain ⟨added, ha, h⟩ := Option.bind_eq_some_iff.mp h
      cases h
      exact .owner hr ⟨fuel, ha⟩
  all_goals
    have hr : node.reference? = none := by simp only [IortNode.reference?, hd]
    constructor
    · intro h
      cases h
      case none        => exact ⟨0, by simp only [addReferenceRaw, hd]⟩
      case owner hr' _ => cases hr.symm.trans hr'
    · rintro ⟨fuel, h⟩
      simp only [addReferenceRaw, hd] at h
      cases h
      exact .none hr

theorem Call.Followed.of_mappings (hf : c.Followed bytes node i table next stray) {fuel : Nat}
    {r : IovirtInfoTable × Nat × Bool}
    (h : addMappingsRaw (iortAddBlockRaw bytes fuel) node c.block (node.maps.drop i) (dataMap c.block i) table next stray =
      some r) : c.Followed bytes node node.maps.length r.1 r.2.1 r.2.2 := by
  generalize hl : node.maps.drop i = l at h
  induction l generalizing i table next stray
  case nil =>
    cases h
    have hle : node.maps.length ≤ i := List.drop_eq_nil_iff.mp hl
    obtain he | hlt := hle.eq_or_lt
    case inl => exact he ▸ hf
    case inr =>
      -- No more mappings are followed than there are.
      exfalso
      cases hf
      case start => omega
      case next hm _ =>
        have := (List.getElem?_eq_some_iff.mp hm).1
        omega
  case cons m l hi =>
    obtain ⟨added, hadd, h⟩ := Option.bind_eq_some_iff.mp h
    have hm : node.maps[i]? = some m := by
      rw [← List.head?_drop, hl, List.head?_cons]
    have hl' : node.maps.drop (i + 1) = l := by
      rw [← List.tail_drop, hl, List.tail_cons]
    exact hi (.next hf hm ⟨fuel, hadd⟩) hl' h

-- The calls that are made on the way return with the same depth.
theorem Call.Followed.run_of_mappings (hf : c.Followed bytes node i table next stray) {fuel j : Nat} {map : IortIdMapping}
    {r : IovirtInfoTable × Nat × Bool}
    (h : addMappingsRaw (iortAddBlockRaw bytes fuel) node c.block (node.maps.drop i) (dataMap c.block i) table next stray =
      some r) (hj : i ≤ j) (hf' : c.Followed bytes node j table' next' stray') (hm : node.maps[j]? = some map) :
    ∃ added, (c.mappingCall map j table' next').run bytes fuel = some added := by
  generalize hl : node.maps.drop i = l at h
  have hlt := (List.getElem?_eq_some_iff.mp hm).1
  induction l generalizing i table next stray
  case nil =>
    have hle : node.maps.length ≤ i := List.drop_eq_nil_iff.mp hl
    omega
  case cons m l hi =>
    obtain ⟨added, hadd, h⟩ := Option.bind_eq_some_iff.mp h
    have hm' : node.maps[i]? = some m := by
      rw [← List.head?_drop, hl, List.head?_cons]
    have hl' : node.maps.drop (i + 1) = l := by
      rw [← List.tail_drop, hl, List.tail_cons]
    by_cases he : j = i
    case pos =>
      subst he
      obtain ⟨rfl, rfl, _⟩ := hf.unique hf'
      cases hm.symm.trans hm'
      exact ⟨added, hadd⟩
    case neg => exact hi (.next hf hm' ⟨fuel, hadd⟩) (by omega) hl' h

theorem Call.Followed.mappings (h : c.Followed bytes node i table next stray) :
    ∃ fuel table₁ stray₁, addReferenceRaw (iortAddBlockRaw bytes fuel) node c.block (c.populated node) =
        some (table₁, stray₁) ∧ findBlock c.block (c.searched table₁) = 0 ∧
      addMappingsRaw (iortAddBlockRaw bytes fuel) node c.block (node.maps.take i) (dataMap c.block 0)
        (c.checked node table₁) (iovirtNextBlock (c.searched table₁).mem c.block) stray₁ = some (table, next, stray) := by
  induction h
  case start table₁ stray₁ hr hf =>
    obtain ⟨fuel, hr⟩ := referred_iff.mp hr
    exact ⟨fuel, table₁, stray₁, hr, hf, by rw [List.take_zero, addMappingsRaw]⟩
  case next i table next stray map added _ hm ha hi =>
    obtain ⟨fuel, table₁, stray₁, hr, hf, hmaps⟩ := hi
    obtain ⟨fuel', ha⟩ := ha
    have hle : ∀ o t b r, iortAddBlockRaw bytes fuel o t b = some r →
        iortAddBlockRaw bytes (max fuel fuel') o t b = some r := fun _ _ _ _ h => iortAddBlockRaw_mono h (le_max_left ..)
    have hcall : iortAddBlockRaw bytes (max fuel fuel') map.outputReference
        { table with mem := copyMapping map (dataMap c.block i) table.mem } next = some added :=
      run_mono ha (le_max_right ..)
    have hlt := (List.getElem?_eq_some_iff.mp hm).1
    refine ⟨max fuel fuel', table₁, stray₁, addReferenceRaw_mono hle hr, hf, ?_⟩
    rw [List.take_add_one, hm, Option.toList_some, addMappingsRaw_append, addMappingsRaw_mono hle hmaps,
      Option.bind_some, List.length_take, min_eq_left hlt.le,
      show dataMap c.block 0 + dataMapSize * i = dataMap c.block i by simp only [dataMap]; ring]
    simp only [addMappingsRaw, hcall, Option.bind_eq_bind, Option.bind_some]

theorem Call.returns_unknown (hn : bytes.node c.offset = none) (h : c.Returns bytes added) :
    added.stray = false ∧ added.offset = noOffset := by
  obtain ⟨fuel, h⟩ := h
  cases fuel
  case zero => cases h
  case succ fuel =>
    rw [run, iortAddBlockRaw] at h
    simp only [hn] at h
    cases h
    exact ⟨rfl, rfl⟩

-- How a call for a node of a known type comes to return.
theorem Call.returns_iff (hn : bytes.node c.offset = some node) :
    c.Returns bytes added ↔ ∃ table stray, c.Referred bytes node table stray ∧
      ((findBlock c.block (c.searched table) ≠ 0 ∧ added =
          { offset := findBlock c.block (c.searched table), table := c.searched table, next := c.block, stray := stray }) ∨
        ∃ table' next' stray', c.Followed bytes node node.maps.length table' next' stray' ∧ added =
          { offset := offsetOf c.block, table := table'.increment node.data.type, next := next', stray := stray' }) := by
  constructor
  · rintro ⟨fuel, h⟩
    cases fuel
    case zero => cases h
    case succ fuel =>
      rw [run, iortAddBlockRaw] at h
      simp only [hn] at h
      obtain ⟨⟨table, stray⟩, hr, h⟩ := Option.bind_eq_some_iff.mp h
      have href : c.Referred bytes node table stray := referred_iff.mpr ⟨fuel, hr⟩
      refine ⟨table, stray, href, ?_⟩
      dsimp only at h
      split at h
      case isTrue hf =>
        cases h
        exact .inl ⟨hf, rfl⟩
      case isFalse hf =>
        obtain ⟨⟨table', next', stray'⟩, hm, h⟩ := Option.bind_eq_some_iff.mp h
        cases h
        have hstart : c.Followed bytes node 0 (c.checked node table) (iovirtNextBlock (c.searched table).mem c.block) stray :=
          .start href (not_not.mp hf)
        exact .inr ⟨table', next', stray', hstart.of_mappings hm, rfl⟩
  · rintro ⟨table, stray, href, hfound | ⟨table', next', stray', hfol, rfl⟩⟩
    case inl =>
      obtain ⟨hf, rfl⟩ := hfound
      obtain ⟨fuel, hr⟩ := referred_iff.mp href
      have hr : addReferenceRaw (iortAddBlockRaw bytes fuel) node c.block
          { c.table with mem := populate node c.block c.table.mem } = some (table, stray) := hr
      refine ⟨fuel + 1, ?_⟩
      rw [run, iortAddBlockRaw]
      simp only [hn, hr, Option.bind_eq_bind, Option.bind_some]
      exact if_pos hf
    case inr =>
      obtain ⟨fuel, table₁, stray₁, hr, hf, hm⟩ := hfol.mappings
      have hr : addReferenceRaw (iortAddBlockRaw bytes fuel) node c.block
          { c.table with mem := populate node c.block c.table.mem } = some (table₁, stray₁) := hr
      rw [List.take_length] at hm
      refine ⟨fuel + 1, ?_⟩
      rw [run, iortAddBlockRaw]
      simp only [hn, hr, Option.bind_eq_bind, Option.bind_some]
      refine (if_neg (not_not.mpr hf)).trans ?_
      exact Option.bind_eq_some_iff.mpr ⟨_, hm, rfl⟩

theorem offsetOf_ne_noOffset {block : Nat} : offsetOf block ≠ noOffset := by
  simp only [offsetOf, noOffset]
  omega

theorem findBlock_ne_noOffset {block : Nat} : findBlock block table ≠ noOffset := by
  rw [findBlock]
  split
  case h_1 => exact offsetOf_ne_noOffset
  case h_2 => decide

-- Only a node of an unknown type has no offset.
theorem Call.Returns.offset_iff (h : c.Returns bytes added) : added.offset = noOffset ↔ bytes.node c.offset = none := by
  cases hn : bytes.node c.offset
  case none => exact iff_of_true (returns_unknown hn h).2 rfl
  case some node =>
    refine iff_of_false ?_ (by simp)
    obtain ⟨table, stray, _, ⟨_, rfl⟩ | ⟨_, _, _, _, rfl⟩⟩ := (returns_iff hn).mp h
    case inl => exact findBlock_ne_noOffset
    case inr => exact offsetOf_ne_noOffset

-- What a returned call has made has returned with less depth.
theorem Call.Makes.run (hm : Makes bytes c c') (h : c.run bytes (fuel + 1) = some added) :
    ∃ added', c'.run bytes fuel = some added' := by
  rw [Call.run, iortAddBlockRaw] at h
  cases hm
  case owner node ref hn hr =>
    simp only [hn] at h
    obtain ⟨r, hr', _⟩ := Option.bind_eq_some_iff.mp h
    cases hd : node.data <;> simp only [IortNode.reference?, hd] at hr
    case pmcg =>
      cases hr
      simp only [addReferenceRaw, hd] at hr'
      obtain ⟨added', ha, _⟩ := Option.bind_eq_some_iff.mp hr'
      exact ⟨added', ha⟩
    all_goals cases hr
  case mapping node i table next stray map hn hf hmap =>
    simp only [hn] at h
    obtain ⟨⟨table₁, stray₁⟩, hr, h⟩ := Option.bind_eq_some_iff.mp h
    obtain ⟨_, _, _, hstart⟩ := hf.earlier (Nat.zero_le i)
    obtain ⟨table₀, href, hzero⟩ := hstart.first
    obtain ⟨rfl, rfl⟩ := href.unique (referred_iff.mpr ⟨fuel, hr⟩)
    have h := (if_neg (not_not.mpr hzero)).symm.trans h
    obtain ⟨r, hmaps, _⟩ := Option.bind_eq_some_iff.mp h
    exact (Followed.start href hzero).run_of_mappings hmaps (Nat.zero_le i) hf hmap

theorem Call.Makes.returns (hm : Makes bytes c c') (h : c.Returns bytes added) : ∃ added', c'.Returns bytes added' := by
  obtain ⟨fuel, h⟩ := h
  cases fuel
  case zero => cases h
  case succ fuel =>
    obtain ⟨added', ha⟩ := hm.run h
    exact ⟨added', fuel, ha⟩

end Spec

section Stray

variable {bytes : Bytes} {node : IortNode} {c c' : Call} {i next : Nat} {added added' : RawAdded}
  {table : IovirtInfoTable} {stray : Bool}

open Call

-- The call for a root complex that follows a mapping to a node of an unknown type.
def Call.Astray (bytes : Bytes) (c : Call) : Prop :=
  ∃ node, bytes.node c.offset = some node ∧ node.data.type = .pciRootComplex ∧
    ∃ c', Makes bytes c c' ∧ bytes.node c'.offset = none

theorem followsNoOffset_iff (h : c'.Returns bytes added) :
    followsNoOffset node added.offset = true ↔ node.data.type = .pciRootComplex ∧ bytes.node c'.offset = none := by
  rw [followsNoOffset, Bool.and_eq_true, decide_eq_true_eq, decide_eq_true_eq, h.offset_iff]

theorem Call.Referred.astray (h : c.Referred bytes node table stray) (hs : stray = true) :
    ∃ ref added, node.reference? = some ref ∧ (c.ownerCall node ref).Returns bytes added ∧ added.stray = true := by
  cases h
  case none        => cases hs
  case owner hr ha => exact ⟨_, _, hr, ha, hs⟩

-- Where a call goes astray.
theorem Call.Followed.astray (h : c.Followed bytes node i table next stray) (hn : bytes.node c.offset = some node)
    (hs : stray = true) :
    c.Astray bytes ∨ ∃ c' added', Makes bytes c c' ∧ c'.Returns bytes added' ∧ added'.stray = true := by
  induction h
  case start hr _ =>
    obtain ⟨_, _, href, ha, hs⟩ := hr.astray hs
    exact .inr ⟨_, _, .owner hn href, ha, hs⟩
  case next hf hm ha hi =>
    simp only [Bool.or_eq_true] at hs
    rcases hs with (hs | hs) | hs
    · exact hi hs
    · exact .inr ⟨_, _, .mapping hn hf hm, ha, hs⟩
    · obtain ⟨htype, hnone⟩ := (followsNoOffset_iff ha).mp hs
      exact .inl ⟨_, hn, htype, _, .mapping hn hf hm, hnone⟩

theorem Call.Returns.astray (h : c.Returns bytes added) (hs : added.stray = true) :
    c.Astray bytes ∨ ∃ c' added', Makes bytes c c' ∧ c'.Returns bytes added' ∧ added'.stray = true := by
  cases hn : bytes.node c.offset
  case none => simp [(returns_unknown hn h).1] at hs
  case some node =>
    obtain ⟨table, stray, href, ⟨_, rfl⟩ | ⟨_, _, _, hf, rfl⟩⟩ := (returns_iff hn).mp h
    case inl =>
      obtain ⟨_, _, hr, ha, hs⟩ := href.astray hs
      exact .inr ⟨_, _, .owner hn hr, ha, hs⟩
    case inr => exact hf.astray hn hs

end Stray

end Iovirt
