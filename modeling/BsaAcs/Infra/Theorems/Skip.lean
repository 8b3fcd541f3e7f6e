import BsaAcs.Infra.Skip

-- What the parser of the `-skip` argument should store, and when it does.

namespace Skip

variable {arg rest : List Nat} {s r : State} {c i k m n : Nat}

-- The items between the commas. An empty argument has none.
def items (arg : List Nat) : List (List Nat) :=
  if arg = [] then [] else arg.splitOn comma

-- The numbers that the argument lists. An item without a digit lists none.
def listed (arg : List Nat) : List Nat :=
  ((items arg).filter (·.head?.any (IsDigit ·))).map number

-- The parser ends, stays inside of the nine entries, and sets them to the numbers of the first items. Then
-- exactly the listed tests are skipped. The number of a test is above the base of its module.
def ParsesRight (arg : List Nat) : Prop :=
  ∃ fuel s, shellAppMainSkip arg fuel = some s ∧
    (∀ k ∈ s.touched, k < maxTestSkipNum) ∧
    (∀ k < maxTestSkipNum, s.gSkipTestNum k = (((items arg).map number)[k]?).getD noTest) ∧
    ∀ (run : Infra.Run) m, run.gSkipTestNum = (List.range maxTestSkipNum).map s.gSkipTestNum →
      0 < run.testNum → run.testNum ≤ Infra.testNumMask →
      ((Infra.valInitializeTest run m).1 = acsStatusSkip ↔ run.testNum ∈ listed arg)

-- The items of a string and their numbers.

theorem splitOn_comma : (comma :: rest).splitOn comma = [] :: rest.splitOn comma := by
  rw [List.splitOn_cons_eq_if_modifyHead, if_pos (by decide)]

theorem splitOn_other (hc : c ≠ comma) :
    (c :: rest).splitOn comma = (rest.splitOn comma).modifyHead (List.cons c) := by
  rw [List.splitOn_cons_eq_if_modifyHead, if_neg (by simpa using hc)]

theorem length_splitOn : (arg.splitOn comma).length = arg.count comma + 1 := by
  induction arg
  case nil => rfl
  case cons c rest ih =>
    by_cases hc : c = comma
    case pos =>
      cases hc
      rw [splitOn_comma, List.length_cons, ih, List.count_cons_self]
    case neg => rw [splitOn_other hc, List.length_modifyHead, ih, List.count_cons_of_ne hc]

-- Reading on over the comma does not change the leading digits.
theorem takeWhile_head (arg : List Nat) : ∃ item more, arg.splitOn comma = item :: more ∧
    arg.takeWhile (IsDigit ·) = item.takeWhile (IsDigit ·) := by
  induction arg
  case nil => exact ⟨[], [], rfl, rfl⟩
  case cons c rest ih =>
    by_cases hc : c = comma
    case pos =>
      cases hc
      exact ⟨[], _, splitOn_comma, rfl⟩
    case neg =>
      have ⟨item, more, hs, ht⟩ := ih
      refine ⟨c :: item, more, by rw [splitOn_other hc, hs]; rfl, ?_⟩
      rw [List.takeWhile_cons, List.takeWhile_cons, ht]

theorem map_number_splitOn :
    (arg.splitOn comma).map number = number arg :: (arg.splitOn comma).tail.map number := by
  have ⟨item, more, hs, ht⟩ := takeWhile_head arg
  rw [hs, List.map_cons, List.tail_cons, number, number, ht]

-- A number other than 0 has a digit.
theorem mem_listed (hn : n ≠ 0) : n ∈ listed arg ↔ n ∈ (items arg).map number := by
  simp only [listed, List.mem_map, List.mem_filter]
  constructor
  case mp =>
    intro ⟨item, ⟨hi, _⟩, he⟩
    exact ⟨item, hi, he⟩
  case mpr =>
    intro ⟨item, hi, he⟩
    refine ⟨item, ⟨hi, ?_⟩, he⟩
    cases item
    case nil =>
      cases he
      exact absurd rfl hn
    case cons c rest =>
      by_contra hd
      have hz : number (c :: rest) = 0 := by
        simp only [List.head?_cons, Option.any_some] at hd
        simp only [number, List.takeWhile_cons, if_neg hd, List.foldl_nil]
      exact hn (he ▸ hz)

-- What a `UINT32` entry keeps of a number.
def word (n : Nat) : Nat :=
  min n (2 ^ 64 - 1) % 2 ^ 32

theorem word_eq_iff : word n = n ↔ n < 2 ^ 32 := by
  constructor
  case mp =>
    intro h
    rw [← h]
    exact Nat.mod_lt _ (by decide)
  case mpr =>
    intro h
    rw [word, min_eq_left (by omega), Nat.mod_eq_of_lt h]

-- The run of the loop.

def skipRest (arg : List Nat) : List Nat → State → State
  | [], s => s
  | c :: rest, s => skipRest arg rest (skipChar arg c rest s)

theorem leaves_skipRest (hl : arg.length < 2 ^ 32) (hr : arg.drop i = rest) :
    Loop.Leaves (skipStep arg) (rest.length + 1) (i, s) (skipRest arg rest s) := by
  induction rest generalizing i s
  case nil =>
    have hn : arg[i]? = none := List.getElem?_eq_none (List.drop_eq_nil_iff.mp hr)
    refine .now ?_
    rw [skipStep, hn]
    rfl
  case cons c rest ih =>
    have hi : i < arg.length := by
      by_contra hi
      rw [List.drop_of_length_le (by omega)] at hr
      cases hr
    rw [List.drop_eq_getElem_cons hi] at hr
    cases hr
    have hm : (i + 1) % 2 ^ 32 = i + 1 := Nat.mod_eq_of_lt (by omega)
    refine .next ?_ (ih (i := i + 1) rfl)
    rw [skipStep, List.getElem?_eq_getElem hi, hm]

theorem not_leaves (hl : 2 ^ 32 ≤ arg.length) : ¬Loop.Leaves (skipStep arg) n (0, s) r := by
  intro h
  refine h.invariant (I := fun p => p.1 < 2 ^ 32) (Q := fun _ => False) ?_ ?_ (Nat.two_pow_pos 32)
  · intro p q hp he
    rw [skipStep, List.getElem?_eq_getElem (by omega)] at he
    cases he
    exact Nat.mod_lt _ (by decide)
  · intro p r hp he
    rw [skipStep, List.getElem?_eq_getElem (by omega)] at he
    cases he

theorem ends_iff : (∃ fuel, shellAppMainSkip arg fuel = some s) ↔
    arg.length < 2 ^ 32 ∧ s = skipRest arg arg .start := by
  constructor
  case mp =>
    intro ⟨fuel, h⟩
    have ⟨n, _, hn⟩ := Loop.Leaves.of_run h
    have hl : arg.length < 2 ^ 32 := by
      by_contra hl
      exact not_leaves (by omega) hn
    exact ⟨hl, (hn.deterministic (leaves_skipRest hl rfl)).2⟩
  case mpr =>
    rintro ⟨hl, rfl⟩
    exact ⟨_, (leaves_skipRest hl rfl).run le_rfl⟩

theorem skipChar_other (hc : c ≠ comma) : skipChar arg c rest s = s.store 0 (strDecimalToUintn arg) :=
  if_neg hc

theorem skipChar_comma (arg rest : List Nat) (hj : s.j + 1 < 2 ^ 32) : skipChar arg comma rest s =
    { (s.store 0 (strDecimalToUintn arg)).store (s.j + 1) (strDecimalToUintn rest) with j := s.j + 1 } := by
  simp only [skipChar, State.store, Nat.mod_eq_of_lt hj, if_pos]

-- The entry 0 is stored for every character. The entries behind `j` are those of the items behind the next comma.
theorem skipRest_stored (arg rest : List Nat) (hj : s.j + rest.count comma < 2 ^ 32) :
    let r := skipRest arg rest s
    let more := (rest.splitOn comma).tail.map number
    (r.gSkipTestNum 0 = if rest = [] then s.gSkipTestNum 0 else word (number arg)) ∧
      (∀ k, 0 < k → k ≤ s.j → r.gSkipTestNum k = s.gSkipTestNum k) ∧
      ∀ k, r.gSkipTestNum (s.j + 1 + k) = (more[k]?.map word).getD (s.gSkipTestNum (s.j + 1 + k)) := by
  induction rest generalizing s
  case nil => simp [skipRest]
  case cons c rest ih =>
    by_cases hc : c = comma
    case pos =>
      cases hc
      rw [List.count_cons_self] at hj
      have hs := skipChar_comma arg rest (show s.j + 1 < 2 ^ 32 by omega)
      have ⟨h₁, h₂, h₃⟩ := ih (s := skipChar arg comma rest s) (by rw [hs]; dsimp only; omega)
      rw [skipRest, splitOn_comma, List.tail_cons, map_number_splitOn]
      rw [hs] at h₁ h₂ h₃ ⊢
      dsimp only [State.store] at h₁ h₂ h₃ ⊢
      refine ⟨?_, ?_, ?_⟩
      · rw [h₁, Function.update_of_ne (by omega), Function.update_self, if_neg (List.cons_ne_nil _ _), ite_eq_right_iff]
        exact fun _ => rfl
      · intro k hk hl
        rw [h₂ k hk (by omega), Function.update_of_ne (by omega), Function.update_of_ne (by omega)]
      · intro k
        cases k
        case zero =>
          rw [Nat.add_zero, h₂ _ (by omega) le_rfl, Function.update_self]
          rfl
        case succ k =>
          rw [Nat.add_comm k, ← Nat.add_assoc, h₃ k, Function.update_of_ne (by omega), Function.update_of_ne (by omega)]
          rw [Nat.add_comm 1, List.getElem?_cons_succ]
    case neg =>
      rw [List.count_cons_of_ne hc] at hj
      have ⟨h₁, h₂, h₃⟩ := ih (s := s.store 0 (strDecimalToUintn arg)) hj
      rw [skipRest, skipChar_other hc, splitOn_other hc, List.tail_modifyHead]
      dsimp only [State.store] at h₁ h₂ h₃ ⊢
      refine ⟨?_, ?_, ?_⟩
      · rw [h₁, Function.update_self, if_neg (List.cons_ne_nil _ _), ite_eq_right_iff]
        exact fun _ => rfl
      · intro k hk hl
        rw [h₂ k hk hl, Function.update_of_ne (by omega)]
      · intro k
        rw [h₃ k, Function.update_of_ne (by omega)]

theorem skipRest_touched (arg rest : List Nat) (hj : s.j + rest.count comma < 2 ^ 32) :
    let r := skipRest arg rest s
    (∀ k ∈ s.touched, k ∈ r.touched) ∧ (∀ k, s.j < k → k ≤ s.j + rest.count comma → k ∈ r.touched) ∧
      ∀ k ∈ r.touched, k ∈ s.touched ∨ k ≤ s.j + rest.count comma := by
  induction rest generalizing s
  case nil =>
    refine ⟨fun _ hk => hk, ?_, fun _ hk => .inl hk⟩
    intro k hl hu
    rw [List.count_nil] at hu
    omega
  case cons c rest ih =>
    by_cases hc : c = comma
    case pos =>
      cases hc
      rw [List.count_cons_self] at hj ⊢
      have hs := skipChar_comma arg rest (show s.j + 1 < 2 ^ 32 by omega)
      have ⟨h₁, h₂, h₃⟩ := ih (s := skipChar arg comma rest s) (by rw [hs]; dsimp only; omega)
      rw [skipRest]
      rw [hs] at h₁ h₂ h₃ ⊢
      simp only [State.store, List.mem_append, List.mem_singleton] at h₁ h₂ h₃ ⊢
      refine ⟨fun k hk => h₁ k (.inl (.inl hk)), ?_, ?_⟩
      · intro k hl hu
        by_cases hk : k = s.j + 1
        case pos => exact h₁ k (.inr hk)
        case neg => exact h₂ k (by omega) (by omega)
      · intro k hk
        rcases h₃ k hk with ((hk | hk) | hk) | hk
        · exact .inl hk
        all_goals exact .inr (by omega)
    case neg =>
      rw [List.count_cons_of_ne hc] at hj ⊢
      have ⟨h₁, h₂, h₃⟩ := ih (s := s.store 0 (strDecimalToUintn arg)) hj
      rw [skipRest, skipChar_other hc]
      simp only [State.store, List.mem_append, List.mem_singleton] at h₁ h₂ h₃ ⊢
      refine ⟨fun k hk => h₁ k (.inl hk), h₂, ?_⟩
      intro k hk
      rcases h₃ k hk with (hk | hk) | hk
      · exact .inl hk
      all_goals exact .inr (by omega)

theorem length_items : (items arg).length ≤ arg.count comma + 1 := by
  rw [items]
  split
  case isTrue  => exact Nat.zero_le _
  case isFalse => rw [length_splitOn]

theorem skipRest_entry (hj : arg.count comma < 2 ^ 32) :
    (skipRest arg arg .start).gSkipTestNum k = (((items arg).map number)[k]?.map word).getD noTest := by
  have ⟨h₁, _, h₃⟩ := skipRest_stored arg arg (s := .start) (by rwa [State.start, Nat.zero_add])
  by_cases ha : arg = []
  case pos =>
    cases ha
    simp [skipRest, items, State.start]
  case neg =>
    rw [items, if_neg ha, map_number_splitOn]
    cases k
    case zero => rw [h₁, if_neg ha, List.getElem?_cons_zero, Option.map_some, Option.getD_some]
    case succ k =>
      have h := h₃ k
      rw [State.start, Nat.zero_add, Nat.add_comm] at h
      rw [State.start, h, List.getElem?_cons_succ]

theorem initialize_skips {run : Infra.Run} {m : Infra.State} :
    (Infra.valInitializeTest run m).1 = acsStatusSkip ↔ run.testNum ∈ run.gSkipTestNum := by
  rw [Infra.valInitializeTest]
  split
  case isTrue h  => exact iff_of_true rfl h
  case isFalse h => exact iff_of_false (show acsStatusPass ≠ acsStatusSkip by decide) h

-- Entries that hold the numbers of the items or the default make exactly the listed tests be skipped.
theorem mem_entries {g : Nat → Nat} (hl : (items arg).length ≤ maxTestSkipNum)
    (hg : ∀ k < maxTestSkipNum, g k = (((items arg).map number)[k]?).getD noTest) (h₀ : n ≠ 0) (hn : n ≠ noTest) :
    n ∈ (List.range maxTestSkipNum).map g ↔ n ∈ listed arg := by
  rw [mem_listed h₀, List.mem_map]
  constructor
  case mp =>
    intro ⟨k, hk, he⟩
    rw [hg k (List.mem_range.mp hk)] at he
    cases ho : ((items arg).map number)[k]?
    case none =>
      rw [ho] at he
      exact absurd he.symm hn
    case some n' =>
      rw [ho] at he
      cases he
      exact List.mem_of_getElem? ho
  case mpr =>
    intro h
    have ⟨k, hk, he⟩ := List.getElem_of_mem h
    have hk' : k < maxTestSkipNum := by
      rw [List.length_map] at hk
      omega
    refine ⟨k, List.mem_range.mpr hk', ?_⟩
    rw [hg k hk', List.getElem?_eq_getElem hk, Option.getD_some, he]

theorem skip_list_iff (arg : List Nat) : ParsesRight arg ↔
    arg.length < 2 ^ 32 ∧ arg.count comma < maxTestSkipNum ∧ ∀ item ∈ items arg, number item < 2 ^ 32 := by
  constructor
  case mp =>
    intro ⟨fuel, s, hr, ht, hs, _⟩
    have ⟨hl, he⟩ := ends_iff.mp ⟨fuel, hr⟩
    have hj : arg.count comma < 2 ^ 32 := lt_of_le_of_lt List.count_le_length hl
    cases he
    have ⟨_, hu, _⟩ := skipRest_touched arg arg (s := .start) (by rwa [State.start, Nat.zero_add])
    have hc : arg.count comma < maxTestSkipNum := by
      by_contra hc
      have hk := hu maxTestSkipNum (by decide) (by rw [State.start]; omega)
      exact absurd (ht _ hk) (by decide)
    refine ⟨hl, hc, ?_⟩
    intro item hi
    have ⟨k, hk, he⟩ := List.getElem_of_mem hi
    have hk' : k < maxTestSkipNum := lt_of_lt_of_le hk (length_items.trans hc)
    have h := hs k hk'
    rw [skipRest_entry hj, List.getElem?_eq_getElem (by simpa using hk), List.getElem_map, he] at h
    exact word_eq_iff.mp h
  case mpr =>
    intro ⟨hl, hc, hn⟩
    have hj : arg.count comma < 2 ^ 32 := lt_of_le_of_lt List.count_le_length hl
    have ⟨_, _, ht⟩ := skipRest_touched arg arg (s := .start) (by rwa [State.start, Nat.zero_add])
    have ⟨fuel, hr⟩ := ends_iff.mpr ⟨hl, rfl⟩
    have hs : ∀ k, (skipRest arg arg .start).gSkipTestNum k = (((items arg).map number)[k]?).getD noTest := by
      intro k
      rw [skipRest_entry hj]
      cases ho : ((items arg).map number)[k]?
      case none => rfl
      case some n =>
        have ⟨item, hi, he⟩ := List.mem_map.mp (List.mem_of_getElem? ho)
        cases he
        exact word_eq_iff.mpr (hn item hi)
    refine ⟨fuel, _, hr, ?_, fun k _ => hs k, ?_⟩
    · intro k hk
      rcases ht k hk with hk | hk
      · cases hk
      · have hk : k ≤ 0 + arg.count comma := hk
        omega
    · intro run m hg h₀ hm
      have hd : run.testNum ≠ noTest := by
        intro he
        rw [he] at hm
        exact absurd hm (by decide)
      rw [initialize_skips, hg]
      exact mem_entries (length_items.trans hc) (fun k _ => hs k) h₀.ne' hd

-- "1,2,3,4,5,6,7,8,9,10"
def tenItems : List Nat :=
  [0x31, 0x2C, 0x32, 0x2C, 0x33, 0x2C, 0x34, 0x2C, 0x35, 0x2C, 0x36, 0x2C, 0x37, 0x2C, 0x38, 0x2C, 0x39, 0x2C,
    0x31, 0x30]

-- The tenth number is stored behind the array.
theorem skip_list_overruns : ¬ParsesRight tenItems := by
  intro ⟨fuel, s, hr, ht, _⟩
  have ⟨_, he⟩ := ends_iff.mp ⟨fuel, hr⟩
  cases he
  have hk : 9 ∈ (skipRest tenItems tenItems .start).touched := by decide
  exact absurd (ht 9 hk) (by decide)

end Skip
