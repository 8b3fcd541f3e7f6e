import BsaAcs.Iovirt.Theorems.Calls

namespace Iovirt

namespace Bytes

variable (bytes : Bytes) (mem : Memory)

-- The loop of `pal_iovirt_create_info_table` comes to a call, or to the end, with `count` nodes left.
inductive LoopAt : Nat → Call → Bool → Prop
  | start : LoopAt bytes.nodeCount ⟨bytes.nodeOffset, emptyTable mem, firstBlock⟩ false
  | next {count c stray added} : LoopAt (count + 1) c stray → (c.offset < bytes.tableLength) →
    (c.Returns bytes added) →
    LoopAt count ⟨c.offset + bytes.nodeLength c.offset, added.table, added.next⟩ (stray || added.stray)

-- The loop makes the call.
def Top (c : Call) : Prop :=
  ∃ count stray, bytes.LoopAt mem (count + 1) c stray ∧ c.offset < bytes.tableLength

def Reached (c : Call) : Prop :=
  ∃ top, bytes.Top mem top ∧ Relation.ReflTransGen (Call.Makes bytes) top c

-- The references, followed from a node of the loop as long as no block is found, come to an end.
def Ends : Prop :=
  ∀ f : Nat → Call, bytes.Reached mem (f 0) → ∃ n, ¬Call.Makes bytes (f n) (f (n + 1))

-- Where a node comes up again below a call for it, nothing is followed: the block is found, or the node refers
-- to nothing.
def Recognises : Prop :=
  ∀ c c', bytes.Reached mem c → Relation.TransGen (Call.Makes bytes) c c' → c'.offset = c.offset →
    ∀ c'', ¬Call.Makes bytes c' c''

end Bytes

section Descent

variable {bytes : Bytes} {offset offset' : Nat}

theorem Bytes.uint32_lt (a : Nat) : bytes.uint32 a < 2 ^ 32 := by
  have h (a : Nat) : bytes.byte a < 2 ^ 8 := (bytes a).toNat_lt
  have h₀ := h a
  have h₁ := h (a + 1)
  have h₂ := h (a + 2)
  have h₃ := h (a + 2 + 1)
  simp only [uint32, uint16]
  omega

theorem Bytes.outputReference_lt {node : IortNode} {map : IortIdMapping} (hn : bytes.node offset = some node)
    (hm : map ∈ node.mappings) : map.outputReference < 2 ^ 32 := by
  simp only [Bytes.node, Option.map_eq_some_iff] at hn
  have ⟨_, _, he⟩ := hn
  rw [← he] at hm
  simp only [Bytes.mappings, List.mem_map] at hm
  have ⟨_, _, he⟩ := hm
  rw [← he]
  exact Bytes.uint32_lt _

theorem Bytes.reference_lt {node : IortNode} {ref : Nat} (hn : bytes.node offset = some node)
    (hr : node.reference? = some ref) : ref < 2 ^ 32 := by
  simp only [Bytes.node, Option.map_eq_some_iff] at hn
  have ⟨data, hd, he⟩ := hn
  rw [← he] at hr
  simp only [Bytes.data] at hd
  split at hd
  all_goals first
    | (cases hd; simp [IortNode.reference?] at hr; done)
    | skip
  · cases hd
    simp only [IortNode.reference?, Option.some.injEq] at hr
    exact hr ▸ Bytes.uint32_lt _
  · simp at hd

theorem Call.Makes.offset_lt {c c' : Call} (h : Call.Makes bytes c c') : c'.offset < 2 ^ 32 := by
  cases h
  case owner hn hr => exact Bytes.reference_lt hn hr
  case mapping hn _ hm =>
    have hm := List.mem_of_getElem? hm
    unfold IortNode.maps at hm
    split at hm
    case isTrue  => cases hm
    case isFalse => exact Bytes.outputReference_lt hn hm

theorem Bytes.Reached.makes {mem : Memory} {c c' : Call} (h : bytes.Reached mem c) (hm : Call.Makes bytes c c') :
    bytes.Reached mem c' := by
  obtain ⟨top, ht, hr⟩ := h
  exact ⟨top, ht, hr.tail hm⟩

theorem Bytes.ends_iff {mem : Memory} :
    bytes.Ends mem ↔ ∀ c, bytes.Reached mem c → Acc (fun c' c => Call.Makes bytes c c') c := by
  constructor
  · intro h c hc
    rw [acc_iff_isEmpty_descending_chain]
    refine ⟨fun ⟨f, hf, hm⟩ => ?_⟩
    obtain ⟨n, hn⟩ := h f (hf ▸ hc)
    exact hn (hm n)
  · intro h f hf
    by_contra hn
    refine (acc_iff_isEmpty_descending_chain.mp (h _ hf)).false ⟨f, rfl, fun n => ?_⟩
    by_contra hm
    exact hn ⟨n, hm⟩

-- Offsets have 32 bits, so an endless chain of calls would come back to a node.
theorem Bytes.Recognises.ends {mem : Memory} (h : bytes.Recognises mem) : bytes.Ends mem := by
  intro f hf
  by_contra hn
  have hmakes (n : Nat) : Call.Makes bytes (f n) (f (n + 1)) := by
    by_contra hm
    exact hn ⟨n, hm⟩
  have hreached (n : Nat) : bytes.Reached mem (f n) := by
    induction n
    case zero      => exact hf
    case succ n hi => exact hi.makes (hmakes n)
  have hbelow (i j : Nat) (hij : i < j) : Relation.TransGen (Call.Makes bytes) (f i) (f j) := by
    induction j, hij using Nat.le_induction
    case base        => exact .single (hmakes i)
    case succ j _ hi => exact hi.tail (hmakes j)
  obtain ⟨i, j, hne, he⟩ := Finite.exists_ne_map_eq_of_infinite fun n : Nat =>
    (⟨(f (n + 1)).offset, (hmakes n).offset_lt⟩ : Fin (2 ^ 32))
  have he : (f (i + 1)).offset = (f (j + 1)).offset := congrArg Fin.val he
  rcases Nat.lt_or_gt_of_ne hne with hlt | hlt
  · exact h _ _ (hreached (i + 1)) (hbelow (i + 1) (j + 1) (by omega)) he.symm _ (hmakes (j + 1))
  · exact h _ _ (hreached (j + 1)) (hbelow (j + 1) (i + 1) (by omega)) he _ (hmakes (i + 1))

end Descent

section Loop

variable {bytes : Bytes} {mem : Memory} {c c' : Call} {count k m : Nat} {stray stray' : Bool}

namespace Bytes

theorem LoopAt.le (h : bytes.LoopAt mem k c stray) : k ≤ bytes.nodeCount := by
  induction h
  case start       => exact le_rfl
  case next _ _ hi => omega

theorem LoopAt.unique (h : bytes.LoopAt mem k c stray) (h' : bytes.LoopAt mem k c' stray') : c = c' ∧ stray = stray' := by
  induction h generalizing c' stray'
  case start =>
    generalize hk : bytes.nodeCount = k at h'
    cases h'
    case start => exact ⟨rfl, rfl⟩
    case next hl =>
      have := hl.le
      omega
  case next count c stray added hl hlt ha hi =>
    generalize hk : count = k at h'
    cases h'
    case start =>
      have := hl.le
      omega
    case next _ ha' hl' =>
      subst hk
      obtain ⟨rfl, rfl⟩ := hi hl'
      cases ha.unique ha'
      exact ⟨rfl, rfl⟩

-- The loop has made all calls before this point.
theorem LoopAt.above (h : bytes.LoopAt mem k c stray) (hk : k < m) (hm : m ≤ bytes.nodeCount) :
    ∃ c' stray', bytes.LoopAt mem m c' stray' ∧ c'.offset < bytes.tableLength := by
  induction h
  case start => omega
  case next count c stray added hl hlt ha hi =>
    by_cases he : m = count + 1
    case pos => exact ⟨c, stray, he ▸ hl, hlt⟩
    case neg => exact hi (by omega)

-- Where the table is made, the loop has come through all its calls.
theorem LoopAt.run {fuel : Nat} (h : bytes.LoopAt mem k c stray)
    (hs : (palIovirtCreateInfoTableRaw bytes fuel mem).isSome) :
    (addNodesRaw bytes fuel k c.offset c.table c.block stray).isSome := by
  induction h
  case start => exact hs
  case next count c stray added _ hlt ha hi =>
    rw [addNodesRaw, if_neg (not_le.mpr hlt), Option.bind_eq_bind] at hi
    cases hc : iortAddBlockRaw bytes fuel c.offset c.table c.block
    case none => simp [hc] at hi
    case some added' =>
      cases ha.unique ⟨fuel, hc⟩
      simpa only [hc, Option.bind_some] using hi

theorem Top.returns {fuel : Nat} (h : bytes.Top mem c) (hs : (palIovirtCreateInfoTableRaw bytes fuel mem).isSome) :
    ∃ added, c.Returns bytes added := by
  obtain ⟨count, stray, hl, hlt⟩ := h
  have hrun := hl.run hs
  rw [addNodesRaw, if_neg (not_le.mpr hlt), Option.bind_eq_bind] at hrun
  cases hc : iortAddBlockRaw bytes fuel c.offset c.table c.block
  case none            => simp [hc] at hrun
  case some added => exact ⟨added, fuel, hc⟩

theorem Reached.returns (h : bytes.Reached mem c) (hr : ∀ c, bytes.Top mem c → ∃ added, c.Returns bytes added) :
    ∃ added, c.Returns bytes added := by
  obtain ⟨top, ht, hd⟩ := h
  induction hd
  case refl => exact hr top ht
  case tail _ hm hi =>
    obtain ⟨added, ha⟩ := hi
    exact hm.returns ha

end Bytes

end Loop

-- The nodes in the bytes are those of the list, and refer to each other only.
structure Decodes (bytes : Bytes) (iort : Iort) : Prop where
  node   : ∀ node ∈ iort, bytes.node node.offset = some node
  closed : ∀ node ∈ iort, ∀ ref ∈ node.references, ∃ target, iort.nodeAt ref = some target

def Added.raw (added : Added) : RawAdded :=
  { added with stray := false }

section Decode

variable {bytes : Bytes} {iort : Iort} {node target : IortNode} {fuel ref block : Nat} {table : IovirtInfoTable}
  {add : IortNode → IovirtInfoTable → Nat → Option Added}

theorem Decodes.nodeAt (h : iort.nodeAt ref = some target) : target ∈ iort ∧ target.offset = ref := by
  have ho := List.find?_some h
  exact ⟨List.mem_of_find?_eq_some h, by simpa using ho⟩

theorem iortAddBlock_offset_ne {added : Added} (h : iortAddBlock iort fuel node table block = some added) :
    added.offset ≠ noOffset := by
  cases fuel
  case zero => simp [iortAddBlock] at h
  case succ fuel =>
    simp only [iortAddBlock, Option.bind_eq_bind, Option.bind_eq_some_iff] at h
    have ⟨table₁, _, h⟩ := h
    split at h
    case isTrue =>
      cases h
      exact findBlock_ne_noOffset
    case isFalse =>
      have ⟨_, _, he⟩ := Option.bind_eq_some_iff.mp h
      cases he
      exact offsetOf_ne_noOffset

-- What the calls below make of a reference.
def SameCalls (bytes : Bytes) (iort : Iort) (fuel : Nat) (refs : List Nat) : Prop :=
  ∀ ref ∈ refs, ∃ target, iort.nodeAt ref = some target ∧ ∀ table block,
    iortAddBlockRaw bytes fuel ref table block = (iortAddBlock iort fuel target table block).map Added.raw

theorem addReferenceRaw_eq (h : SameCalls bytes iort fuel node.references) :
    addReferenceRaw (iortAddBlockRaw bytes fuel) node block table =
      (addReference iort (iortAddBlock iort fuel) node block table).map fun table => (table, false) := by
  cases hd : node.data
  case pmcg ref =>
    have ⟨target, ht, he⟩ := h ref (by simp [IortNode.references, IortNode.reference?, hd])
    simp only [addReferenceRaw, addReference, hd, he, ht, Option.bind_eq_bind, Option.bind_some]
    cases iortAddBlock iort fuel target table (iovirtNextBlock table.mem block) <;> rfl
  all_goals simp only [addReferenceRaw, addReference, hd, Option.map_some]

theorem addMappingsRaw_eq {maps : List IortIdMapping} {map next : Nat}
    (h : SameCalls bytes iort fuel (maps.map (·.outputReference))) :
    addMappingsRaw (iortAddBlockRaw bytes fuel) node block maps map table next false =
      (addMappings iort (iortAddBlock iort fuel) node block maps map table next).map
        fun result => (result.1, result.2, false) := by
  induction maps generalizing map table next
  case nil => rfl
  case cons m maps hi =>
    have ⟨target, ht, he⟩ := h m.outputReference (by simp)
    simp only [addMappingsRaw, addMappings, he, ht, Option.bind_eq_bind, Option.bind_some]
    cases ha : iortAddBlock iort fuel target { table with mem := copyMapping m map table.mem } next
    case none => rfl
    case some added =>
      have hne : followsNoOffset node added.offset = false := by
        simp [followsNoOffset, iortAddBlock_offset_ne ha]
      simp only [Option.map_some, Option.bind_some, Added.raw, hne, Bool.or_false]
      exact hi fun ref hr => h ref (by simpa using .inr (by simpa using hr))

-- On such a table the two agree, to any depth.
theorem iortAddBlockRaw_eq (h : Decodes bytes iort) (hn : node ∈ iort) :
    iortAddBlockRaw bytes fuel node.offset table block =
      (iortAddBlock iort fuel node table block).map Added.raw := by
  induction fuel generalizing node table block
  case zero => rfl
  case succ fuel hi =>
    have hcalls : SameCalls bytes iort fuel node.references := by
      intro ref hr
      have ⟨target, ht⟩ := h.closed node hn ref hr
      have ⟨hm, ho⟩ := Decodes.nodeAt ht
      exact ⟨target, ht, fun table block => ho ▸ hi hm⟩
    have hmaps : SameCalls bytes iort fuel (node.maps.map (·.outputReference)) := by
      intro ref hr
      refine hcalls ref ?_
      unfold IortNode.maps at hr
      split at hr
      · simp at hr
      · exact List.mem_append_right _ hr
    simp only [iortAddBlockRaw, iortAddBlock, h.node node hn, addReferenceRaw_eq hcalls, Option.bind_eq_bind]
    cases addReference iort (iortAddBlock iort fuel) node block { table with mem := populate node block table.mem }
    case none => rfl
    case some table₁ =>
      simp only [Option.map_some, Option.bind_some]
      split
      case isTrue => rfl
      case isFalse =>
        rw [addMappingsRaw_eq hmaps]
        unfold IortNode.maps
        generalize addMappings iort (iortAddBlock iort fuel) node block _ _ _ _ = result
        cases result <;> rfl

end Decode

section Endless

variable {bytes : Bytes} {offset fuel block : Nat} {table : IovirtInfoTable} {S : Nat → Prop}

end Endless

end Iovirt
