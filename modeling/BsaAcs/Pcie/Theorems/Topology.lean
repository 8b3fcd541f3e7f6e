import BsaAcs.Pcie.Topology
import BsaAcs.Pcie.Theorems.Enumeration

namespace Pcie

section Paths

variable {above p q : List Nat} {k : Nat}

-- A way does not lead where another one has ended or parted from it.
theorem not_below (hp : above ++ [k] <+: p) (hq : q = above ∨ ∃ j ≠ k, above ++ [j] <+: q) : ¬p <+: q := by
  intro h
  cases hq
  case inl he =>
    have := (hp.trans h).length_le
    simp [he] at this
  case inr hj =>
    obtain ⟨j, hne, hj⟩ := hj
    have he := (List.prefix_of_prefix_length_le (hp.trans h) hj (by simp)).eq_of_length (by simp)
    exact hne (by simpa using he.symm)

end Paths

-- The word at an index of a bus, among the functions of a topology.
def answer (fs : List Node) (b j offset : Nat) : BitVec 32 :=
  (fs.find? fun f => decide (f.bus = b ∧ f.index = j)).elim 0xFFFFFFFF (·.word offset)

section Answer

variable {fs gs : List Node} {f : Node} {b j offset : Nat}

theorem answer_nil : answer [] b j offset = 0xFFFFFFFF := rfl

theorem answer_cons_pos (h : f.bus = b ∧ f.index = j) : answer (f :: fs) b j offset = f.word offset := by
  rw [answer, List.find?_cons_of_pos (by simpa using h), Option.elim_some]

theorem answer_cons_neg (h : ¬(f.bus = b ∧ f.index = j)) : answer (f :: fs) b j offset = answer fs b j offset := by
  rw [answer, List.find?_cons_of_neg (by simpa using h), answer]

theorem answer_none (h : ∀ f ∈ fs, ¬(f.bus = b ∧ f.index = j)) : answer fs b j offset = 0xFFFFFFFF := by
  rw [answer, List.find?_eq_none.mpr (by simpa using h), Option.elim_none]

theorem answer_append_left (h : ∀ f ∈ fs, f.bus ≠ b) : answer (fs ++ gs) b j offset = answer gs b j offset := by
  have hn : fs.find? (fun f => decide (f.bus = b ∧ f.index = j)) = none :=
    List.find?_eq_none.mpr fun f hf => by simp [h f hf]
  rw [answer, List.find?_append, hn, Option.none_or, answer]

theorem answer_append_right (h : ∀ g ∈ gs, g.bus ≠ b) : answer (fs ++ gs) b j offset = answer fs b j offset := by
  have hn : gs.find? (fun f => decide (f.bus = b ∧ f.index = j)) = none :=
    List.find?_eq_none.mpr fun g hg => by simp [h g hg]
  rw [answer, List.find?_append, hn, Option.or_none, answer]

-- No two functions are at the same place.
def Distinct (fs : List Node) : Prop :=
  fs.Pairwise fun f g => ¬(f.bus = g.bus ∧ f.index = g.index)

theorem Distinct.answer_eq (h : Distinct fs) (hf : f ∈ fs) : answer fs f.bus f.index offset = f.word offset := by
  induction fs
  case nil => cases hf
  case cons g rest hi =>
    have ⟨hg, hr⟩ := List.pairwise_cons.mp h
    cases List.mem_cons.mp hf
    case inl he => rw [he, answer_cons_pos ⟨rfl, rfl⟩]
    case inr hm => rw [answer_cons_neg (hg f hm), hi hr hm]

theorem Distinct.eq (h : Distinct fs) {g : Node} (hf : f ∈ fs) (hg : g ∈ fs) (hb : f.bus = g.bus)
    (hi : f.index = g.index) : f = g := by
  by_contra hne
  have hsymm : Std.Symm fun f g : Node => ¬(f.bus = g.bus ∧ f.index = g.index) :=
    ⟨fun f g hfg he => hfg ⟨he.1.symm, he.2.symm⟩⟩
  exact h.forall hf hg hne ⟨hb, hi⟩

end Answer

namespace Bus

variable {R : Bus} {n sec count i : Nat} {above : List Nat} {f e : Node}

-- A function of a bus with the number `n`, from an index on, or of one of the `count` buses from `sec` on behind it.
def Located (n sec count : Nat) (above : List Nat) (i : Nat) (f : Node) : Prop :=
  f.bus = n ∧ f.above = above ∧ i ≤ f.index ∨
    (sec ≤ f.bus ∧ f.bus < sec + count) ∧ ∃ j ≥ i, above ++ [j] <+: f.above

theorem Located.mono {sec' count' i' : Nat} (h : Located n sec' count' above i' f) (hs : sec ≤ sec')
    (hc : sec' + count' ≤ sec + count) (hi : i ≤ i') : Located n sec count above i f := by
  cases h
  case inl h => exact .inl ⟨h.1, h.2.1, hi.trans h.2.2⟩
  case inr h =>
    obtain ⟨hb, j, hj, hp⟩ := h
    exact .inr ⟨by omega, j, hi.trans hj, hp⟩

theorem Located.way (h : Located n sec count above i f) : ∃ j ≥ i, above ++ [j] <+: f.above ++ [f.index] := by
  cases h
  case inl h => exact ⟨f.index, h.2.2, h.2.1 ▸ List.prefix_rfl⟩
  case inr h =>
    obtain ⟨_, j, hj, hp⟩ := h
    exact ⟨j, hj, hp.trans (List.prefix_append _ _)⟩

theorem Located.above_cases (h : Located n sec count above i f) :
    f.above = above ∨ ∃ j ≥ i, above ++ [j] <+: f.above := by
  cases h
  case inl h => exact .inl h.2.1
  case inr h => exact .inr h.2

-- What is behind the bridge at the index `i`.
theorem Located.behind (h : Located sec (sec + 1) count (above ++ [i]) 0 f) :
    (sec ≤ f.bus ∧ f.bus < sec + count + 1) ∧ above ++ [i] <+: f.above := by
  cases h
  case inl h => exact ⟨by omega, h.2.1 ▸ List.prefix_rfl⟩
  case inr h =>
    obtain ⟨hb, j, _, hp⟩ := h
    exact ⟨by omega, (List.prefix_append _ _).trans hp⟩

theorem nodes_number_type1 {words : Words type1Header} {busNum : BitVec 32} {behind rest : Bus} (hn : n < sec)
    (hs : sec + (type1 words busNum behind rest).bridges ≤ 256) :
    ((type1 words busNum behind rest).number n sec).nodes n above i =
      ⟨above, i, n, type1Header, fun offset =>
        if offset = busNumRegOffset then busNumRegCfg (sec + behind.bridges) sec n else words.word offset⟩ ::
      ((behind.number sec (sec + 1)).nodes sec (above ++ [i]) 0 ++
        (rest.number n (sec + behind.bridges + 1)).nodes n above (i + 1)) := by
  simp only [bridges] at hs
  obtain ⟨_, h, _⟩ := busNumRegCfg_fields (show sec + behind.bridges < 256 by omega) (show sec < 256 by omega)
    (show n < 256 by omega)
  rw [number, nodes, h]

theorem located (hn : n < sec) (hs : sec + R.bridges ≤ 256) (hf : f ∈ (R.number n sec).nodes n above i) :
    Located n sec R.bridges above i f := by
  induction R generalizing n sec above i
  case nil            => cases hf
  case absent rest hi => exact (hi hn hs hf).mono le_rfl le_rfl (by omega)
  case type0 words rest hi =>
    cases List.mem_cons.mp hf
    case inl he => exact .inl (by simp [he])
    case inr hm => exact (hi hn hs hm).mono le_rfl le_rfl (by omega)
  case type1 words busNum behind rest hi hi' =>
    rw [nodes_number_type1 hn hs, List.mem_cons, List.mem_append] at hf
    simp only [bridges] at hs ⊢
    rcases hf with hf | hf | hf
    case inl => exact .inl (by simp [hf])
    case inr.inl =>
      obtain ⟨hb, hp⟩ := (hi (by omega) (by omega) hf).behind
      exact .inr ⟨by omega, i, le_rfl, hp⟩
    case inr.inr => exact (hi' (by omega) (by omega) hf).mono (by omega) (by omega) (by omega)

theorem index_lt {m : Nat} (hl : i + R.length ≤ 256) (hb : R.Bounded) (hf : f ∈ (R.number n sec).nodes m above i) :
    f.index < 256 := by
  induction R generalizing n m sec above i
  case nil            => cases hf
  case absent rest hi =>
    simp only [length] at hl
    exact hi (by omega) hb hf
  case type0 words rest hi =>
    simp only [length] at hl
    cases List.mem_cons.mp hf
    case inl he => simp only [he]; omega
    case inr hm => exact hi (by omega) hb hm
  case type1 words busNum behind rest hi hi' =>
    simp only [length] at hl
    obtain ⟨hlen, hbehind, hrest⟩ := hb
    rw [number, nodes, List.mem_cons, List.mem_append] at hf
    rcases hf with hf | hf | hf
    case inl     => simp only [hf]; omega
    case inr.inl => exact hi (by omega) hbehind hf
    case inr.inr => exact hi' (by omega) hrest hf

theorem distinct (hn : n < sec) (hs : sec + R.bridges ≤ 256) : Distinct ((R.number n sec).nodes n above i) := by
  induction R generalizing n sec above i
  case nil            => exact .nil
  case absent rest hi => exact hi hn hs
  case type0 words rest hi =>
    refine List.pairwise_cons.mpr ⟨?_, hi hn hs⟩
    intro f hf he
    cases located (R := rest) hn hs hf
    case inl h => exact absurd he.2 (by simp only; omega)
    case inr h => exact absurd he.1 (by simp only; omega)
  case type1 words busNum behind rest hi hi' =>
    rw [nodes_number_type1 hn hs]
    simp only [bridges] at hs
    refine List.pairwise_cons.mpr ⟨?head, List.pairwise_append.mpr ⟨hi (by omega) (by omega), hi' (by omega) (by omega), ?_⟩⟩
    case head =>
      intro f hf he
      cases List.mem_append.mp hf
      case inl hf =>
        have := (located (by omega) (by omega) hf).behind
        exact absurd he.1 (by simp only; omega)
      case inr hf =>
        cases located (by omega) (by omega) hf
        case inl h => exact absurd he.2 (by simp only; omega)
        case inr h => exact absurd he.1 (by simp only; omega)
    · intro f hf g hg he
      have := (located (by omega) (by omega) hf).behind
      cases located (by omega) (by omega) hg
      case inl h => omega
      case inr h => omega

-- A configuration access is answered by the function at its place, and by none if there is none.

theorem readHere_number (above : List Nat) (hn : n < sec) (hs : sec + R.bridges ≤ 256) (k offset : Nat) :
    (R.number n sec).readHere offset k = answer ((R.number n sec).nodes n above i) n (i + k) offset := by
  induction R generalizing n sec i k
  case nil => simp [number, readHere, nodes, answer_nil]
  case absent rest hi =>
    cases k
    case zero =>
      rw [answer_none]
      · simp [number, readHere]
      · intro f hf he
        cases located (R := rest) hn hs hf
        case inl h => omega
        case inr h => omega
    case succ k =>
      rw [number, readHere, nodes, hi hn hs k (i := i + 1), Nat.add_right_comm, Nat.add_assoc]
  case type0 words rest hi =>
    cases k
    case zero   => rw [number, readHere, nodes, answer_cons_pos (by simp)]
    case succ k =>
      rw [number, readHere, nodes, answer_cons_neg (by simp), hi hn hs k (i := i + 1), Nat.add_right_comm, Nat.add_assoc]
  case type1 words busNum behind rest hi hi' =>
    rw [nodes_number_type1 hn hs, number]
    simp only [bridges] at hs
    cases k
    case zero   => rw [readHere, answer_cons_pos (by simp)]
    case succ k =>
      have hbehind : ∀ f ∈ (behind.number sec (sec + 1)).nodes sec (above ++ [i]) 0, f.bus ≠ n := by
        intro f hf
        have := (located (by omega) (by omega) hf).behind
        omega
      rw [readHere, answer_cons_neg (by simp), answer_append_left hbehind, hi' (by omega) (by omega) k (i := i + 1),
        show i + 1 + k = i + (k + 1) by omega]

theorem readBehind_number (hn : n < sec) (hs : sec + R.bridges ≤ 256) {b : Nat} (hb : b ≠ n) (j offset : Nat) :
    (R.number n sec).readBehind b j offset = answer ((R.number n sec).nodes n above i) b j offset := by
  induction R generalizing n sec above i
  case nil            => rfl
  case absent rest hi => exact hi hn hs hb
  case type0 words rest hi =>
    rw [number, readBehind, nodes, answer_cons_neg (by simp [hb.symm])]
    exact hi hn hs hb
  case type1 words busNum behind rest hi hi' =>
    rw [nodes_number_type1 hn hs, number, answer_cons_neg (by simp [hb.symm])]
    simp only [bridges] at hs
    obtain ⟨_, h₂, _⟩ := busNumRegCfg_fields (show sec + behind.bridges < 256 by omega) (show sec < 256 by omega)
      (show n < 256 by omega)
    have hc := claims_busNumRegCfg (b := b) (show sec + behind.bridges < 256 by omega) (show sec < 256 by omega)
      (show n < 256 by omega)
    rw [readBehind, h₂]
    split
    case isTrue hclaims =>
      have hclaims := hc.mp hclaims
      rw [answer_append_right]
      · split
        case isTrue he =>
          rw [he, readHere_number (above ++ [i]) (by omega) (by omega) j offset (i := 0), Nat.zero_add]
        case isFalse hne => exact hi (by omega) (by omega) hne
      · intro g hg
        cases located (by omega) (by omega) hg
        case inl h => omega
        case inr h => omega
    case isFalse hclaims =>
      have hclaims := mt hc.mpr hclaims
      rw [answer_append_left]
      · exact hi' (by omega) (by omega) hb
      · intro f hf
        have := (located (by omega) (by omega) hf).behind
        omega

theorem read_number (hn : n < sec) (hs : sec + R.bridges ≤ 256) (b j offset : Nat) :
    (R.number n sec).read n b j offset = answer ((R.number n sec).nodes n [] 0) b j offset := by
  rw [read]
  split
  case isTrue he => rw [he, readHere_number [] hn hs j offset (i := 0), Nat.zero_add]
  case isFalse hne => exact readBehind_number hn hs hne j offset

-- A bridge claims the buses behind it only.
theorem claims_range {b : Nat} (hn : n < sec) (hs : sec + R.bridges ≤ 256)
    (he : e ∈ (R.number n sec).nodes n above i) (ht : e.headerType = type1Header)
    (hc : claims (e.word busNumRegOffset) b) : sec ≤ b ∧ b < sec + R.bridges := by
  induction R generalizing n sec above i
  case nil            => cases he
  case absent rest hi => exact hi hn hs he
  case type0 words rest hi =>
    cases List.mem_cons.mp he
    case inl he => exact absurd ht (by simp [he, type0Header, type1Header])
    case inr hm => exact hi hn hs hm
  case type1 words busNum behind rest hi hi' =>
    rw [nodes_number_type1 hn hs, List.mem_cons, List.mem_append] at he
    simp only [bridges] at hs ⊢
    rcases he with he | he | he
    case inl =>
      simp only [he, if_true] at hc
      rw [claims_busNumRegCfg (by omega) (by omega) (by omega)] at hc
      omega
    case inr.inl =>
      have := hi (by omega) (by omega) he
      omega
    case inr.inr =>
      have := hi' (by omega) (by omega) he
      omega

-- The bus numbers lead to a function exactly through the bridges above it.
theorem claims_iff_above (hn : n < sec) (hs : sec + R.bridges ≤ 256)
    (he : e ∈ (R.number n sec).nodes n above i) (hf : f ∈ (R.number n sec).nodes n above i)
    (ht : e.headerType = type1Header) :
    claims (e.word busNumRegOffset) f.bus ↔ e.above ++ [e.index] <+: f.above := by
  induction R generalizing n sec above i
  case nil            => cases he
  case absent rest hi => exact hi hn hs he hf
  case type0 words rest hi =>
    rcases List.mem_cons.mp he with he | he
    case inl => exact absurd ht (by simp [he, type0Header, type1Header])
    case inr =>
      rcases List.mem_cons.mp hf with hf | hf
      case inr => exact hi hn hs he hf
      case inl =>
        obtain ⟨j, _, hway⟩ := (located (R := rest) hn hs he).way
        refine iff_of_false ?_ (not_below hway (.inl (by rw [hf])))
        intro hc
        have := claims_range (R := rest) hn hs he ht hc
        simp only [hf] at this
        omega
  case type1 words busNum behind rest hi hi' =>
    rw [nodes_number_type1 hn hs, List.mem_cons, List.mem_append] at he hf
    simp only [bridges] at hs
    have hhead {b : Nat} := claims_busNumRegCfg (b := b) (show sec + behind.bridges < 256 by omega)
      (show sec < 256 by omega) (show n < 256 by omega)
    -- A function of the rest of the bus is not below the bridge, nor below a bridge behind it.
    have hrest (hf : f ∈ (rest.number n (sec + behind.bridges + 1)).nodes n above (i + 1)) :
        ¬(sec ≤ f.bus ∧ f.bus < sec + behind.bridges + 1) ∧ (f.above = above ∨ ∃ j ≠ i, above ++ [j] <+: f.above) := by
      have hl := located (by omega) (by omega) hf
      refine ⟨?_, hl.above_cases.imp_right ?_⟩
      · cases hl
        case inl h => omega
        case inr h => omega
      · rintro ⟨j, hj, hp⟩
        exact ⟨j, by omega, hp⟩
    rcases he with he | he | he
    case inl =>
      simp only [he, if_true, hhead]
      rcases hf with hf | hf | hf
      case inl => exact iff_of_false (by simp only [hf]; omega) (not_below List.prefix_rfl (.inl (by rw [hf])))
      case inr.inl =>
        obtain ⟨hb, hp⟩ := (located (by omega) (by omega) hf).behind
        exact iff_of_true (by omega) hp
      case inr.inr =>
        obtain ⟨hb, hp⟩ := hrest hf
        exact iff_of_false (by omega) (not_below List.prefix_rfl hp)
    case inr.inl =>
      have hway := (located (by omega) (by omega) he).behind.2.trans (List.prefix_append _ [e.index])
      have hrange := claims_range (by omega) (by omega) he ht (b := f.bus)
      rcases hf with hf | hf | hf
      case inl =>
        refine iff_of_false ?_ (not_below hway (.inl (by rw [hf])))
        intro hc
        have := hrange hc
        simp only [hf] at this
        omega
      case inr.inl => exact hi (by omega) (by omega) he hf
      case inr.inr =>
        obtain ⟨hb, hp⟩ := hrest hf
        refine iff_of_false ?_ (not_below hway hp)
        intro hc
        have := hrange hc
        omega
    case inr.inr =>
      obtain ⟨j, hj, hway⟩ := (located (by omega) (by omega) he).way
      have hrange := claims_range (by omega) (by omega) he ht (b := f.bus)
      rcases hf with hf | hf | hf
      case inl =>
        refine iff_of_false ?_ (not_below hway (.inl (by rw [hf])))
        intro hc
        have := hrange hc
        simp only [hf] at this
        omega
      case inr.inl =>
        obtain ⟨hb, hp⟩ := (located (by omega) (by omega) hf).behind
        refine iff_of_false ?_ (not_below hway (.inr ⟨i, by omega, hp⟩))
        intro hc
        have := hrange hc
        omega
      case inr.inr => exact hi' (by omega) (by omega) he hf

-- The words of the functions are those of the topology.
theorem All.word {P : (Nat → BitVec 32) → Prop} {m : Nat} (h : R.All P) (hf : f ∈ (R.number n sec).nodes m above i) :
    ∃ word, P word ∧ ∀ offset ≠ busNumRegOffset, f.word offset = word offset := by
  induction R generalizing n m sec above i
  case nil            => cases hf
  case absent rest hi => exact hi h hf
  case type0 words rest hi =>
    cases List.mem_cons.mp hf
    case inl he => exact ⟨words.word, h.1, fun offset _ => by rw [he]⟩
    case inr hm => exact hi h.2 hm
  case type1 words busNum behind rest hi hi' =>
    rw [number, nodes, List.mem_cons, List.mem_append] at hf
    rcases hf with hf | hf | hf
    case inl     => exact ⟨words.word, h.1, fun offset ho => by rw [hf]; exact if_neg ho⟩
    case inr.inl => exact hi h.2.1 hf
    case inr.inr => exact hi' h.2.2 hf

theorem all_vendor : R.All fun word => word 0 ≠ 0xFFFFFFFF := by
  induction R
  case nil               => trivial
  case absent hi         => exact hi
  case type0 words _ hi  => exact ⟨words.vendor.2, hi⟩
  case type1 words _ _ _ hi hi' => exact ⟨words.vendor.2, hi, hi'⟩

theorem nodes_headerType {m : Nat} (hf : f ∈ R.nodes m above i) :
    f.headerType = type0Header ∨ f.headerType = type1Header := by
  induction R generalizing m above i
  case nil            => cases hf
  case absent rest hi => exact hi hf
  case type0 words rest hi =>
    cases List.mem_cons.mp hf
    case inl he => exact .inl (by rw [he])
    case inr hm => exact hi hm
  case type1 words busNum behind rest hi hi' =>
    rw [nodes, List.mem_cons, List.mem_append] at hf
    rcases hf with hf | hf | hf
    case inl     => exact .inr (by rw [hf])
    case inr.inl => exact hi hf
    case inr.inr => exact hi' hf

end Bus

-- What the config space of a bus looks like through the window: which functions answer, and where.
structure Routes (root : Bus) (fs : List Node) : Prop where
  read     : ∀ b j offset, root.read priBus b j offset = answer fs b j offset
  distinct : Distinct fs
  bus      : ∀ f ∈ fs, f.bus < 256
  index    : ∀ f ∈ fs, f.index < 256
  root     : ∀ f ∈ fs, f.above = [] ↔ f.bus = priBus
  header   : ∀ f ∈ fs, f.headerType = type0Header ∨ f.headerType = type1Header
  vendor   : ∀ f ∈ fs, f.word 0 ≠ 0xFFFFFFFF
  pointer  : ∀ f ∈ fs, f.config type01Cpr ≠ pcieUnknownResponse
  ends     : ∀ f ∈ fs, ∃ l, f.Capabilities l
  claims   : ∀ e ∈ fs, ∀ f ∈ fs, e.headerType = type1Header →
    (Bus.claims (e.word busNumRegOffset) f.bus ↔ e.above ++ [e.index] <+: f.above)

theorem Routes.number {root : Bus} (hl : root.length ≤ 256) (hb : root.Bounded) (hn : root.bridges < 255)
    (hw : root.All ListEnds) :
    Routes (root.number priBus secBus) ((root.number priBus secBus).nodes priBus [] 0) := by
  have hsec : priBus < secBus := by decide
  have hs : secBus + root.bridges ≤ 256 := by simp only [secBus]; omega
  have hends {f : Node} (hf : f ∈ (root.number priBus secBus).nodes priBus [] 0) :
      f.config type01Cpr ≠ pcieUnknownResponse ∧ ∃ l, f.Capabilities l := by
    obtain ⟨word, ⟨hp, l, hlist, hlow⟩, hword⟩ := hw.word hf
    have hcpr : f.config type01Cpr = word type01Cpr := hword _ (by decide)
    refine ⟨hcpr ▸ hp, l, ?_⟩
    rw [Node.Capabilities, hcpr]
    refine hlist.congr fun offset ho => hword _ ?_
    have := hlow offset ho
    simp only [busNumRegOffset]
    omega
  refine {
    read     := Bus.read_number hsec hs
    distinct := Bus.distinct hsec hs
    bus      := fun f hf => ?bus
    index    := fun f hf => Bus.index_lt (by omega) hb hf
    root     := fun f hf => ?root
    header   := fun f hf => Bus.nodes_headerType hf
    vendor   := fun f hf => ?vendor
    pointer  := fun f hf => (hends hf).1
    ends     := fun f hf => (hends hf).2
    claims   := fun e he f hf ht => Bus.claims_iff_above hsec hs he hf ht }
  case bus =>
    simp only [secBus] at hs
    cases Bus.located hsec hs hf
    case inl h => simp only [h.1, priBus]; omega
    case inr h => simp only [secBus] at h; omega
  case root =>
    cases Bus.located hsec hs hf
    case inl h => exact iff_of_true h.2.1 h.1
    case inr h =>
      obtain ⟨hbus, j, _, hp⟩ := h
      refine iff_of_false ?_ ?_
      · intro he
        simp [he] at hp
      · simp only [secBus, priBus] at hbus ⊢
        omega
  case vendor =>
    obtain ⟨word, hp, hword⟩ := Bus.all_vendor.word hf
    rw [hword 0 (by decide)]
    exact hp

end Pcie
