import BsaAcs.Infra.Print
import Mathlib.Data.Nat.Digits.Defs

-- What `pal_print_raw` should write, and when it does.

namespace Print

def digitChar (d : Nat) : Nat :=
  if d > 9 then d + 55 else d + 48

-- The digits of a value without leading zeros, in capitals.
def numeral (base data : Nat) : List Nat :=
  if data = 0 then [48] else (Nat.digits base data).reverse.map digitChar

-- The base that a conversion stands for.
def base? (c : Nat) : Option Nat :=
  if c = 0x64 then some 10 else if c = 0x78 ∨ c = 0x58 then some 16 else none

-- Other percent signs stand for themselves.
def expected (data : Nat) : List Nat → List Nat
  | [] => []
  | 0x25 :: c :: rest =>
    match base? c with
    | some base => numeral base data ++ expected data rest
    | none => 0x25 :: expected data (c :: rest)
  | c :: rest => c :: expected data rest

-- Every percent sign begins a conversion.
def Converts : List Nat → Prop
  | [] => True
  | 0x25 :: c :: rest => (base? c).isSome ∧ Converts rest
  | 0x25 :: [] => False
  | _ :: rest => Converts rest

-- The format is what the memory holds up to the byte 0.
structure Holds (string : Nat → Nat) (n : Nat) (format : List Nat) : Prop where
  bytes : ∀ k (h : k < format.length), string (n + k) = format[k] ∧ format[k] ≠ 0
  stop  : string (n + format.length) = 0

def PrintsRight (format : List Nat) (data : Nat) : Prop :=
  ∀ string buffer, Holds string 0 format → ∃ fuel s, palPrintRaw string buffer data fuel = some s ∧
    s.uart = expected data format ∧ ∀ k ∈ s.touched, 0 ≤ k ∧ k < 16

namespace Holds

variable {string : Nat → Nat} {n c : Nat} {rest : List Nat}

theorem head (h : Holds string n (c :: rest)) : string n = c ∧ c ≠ 0 :=
  h.bytes 0 (Nat.succ_pos _)

theorem tail (h : Holds string n (c :: rest)) : Holds string (n + 1) rest where
  bytes := by
    intro k hk
    have hb := h.bytes (k + 1) (Nat.succ_lt_succ hk)
    rwa [Nat.add_assoc, Nat.add_comm 1 k]
  stop := by
    have hs := h.stop
    rwa [Nat.add_assoc, Nat.add_comm 1]

theorem nil (h : Holds string n []) : string n = 0 :=
  h.stop

end Holds

-- What a conversion prints: the digits, and then the byte in front of the buffer.

section

variable {s : State} {digit rest : Nat → Nat} {b : Nat}

-- The digits that are stored, the last one first.
theorem storeDigits_eq (char : Nat → Nat) (hb : 2 ≤ b) (hd : ∀ d, digit d = d % b) (hr : ∀ d, rest d = d / b) {fuel : Nat}
    (hf : s.data < b ^ fuel) :
    let s' := storeDigits digit rest char fuel s
    let ds := Nat.digits b s.data
    s'.i = s.i + ds.length ∧ s'.data = 0 ∧ s'.uart = s.uart ∧
      (∀ (k : Nat) (h : k < ds.length), s'.buffer (s.i + k) = char ds[k]) ∧
      ∀ x, x < s.i → s'.buffer x = s.buffer x := by
  induction fuel generalizing s
  case zero =>
    have hz : s.data = 0 := Nat.lt_one_iff.mp hf
    simp [storeDigits, hz]
  case succ fuel ih =>
    by_cases hz : s.data = 0
    case pos => simp [storeDigits, hz]
    case neg =>
      have hlt : rest s.data < b ^ fuel := by
        rw [hr, Nat.div_lt_iff_lt_mul (by omega), ← Nat.pow_succ]
        exact hf
      have hds : Nat.digits b s.data = digit s.data :: Nat.digits b (rest s.data) := by
        rw [hd, hr]
        exact Nat.digits_of_two_le_of_pos hb (Nat.pos_of_ne_zero hz)
      have ⟨h₁, h₂, h₃, h₄, h₅⟩ := ih (s := { s with
        data    := rest s.data
        buffer  := Function.update s.buffer s.i (char (digit s.data))
        touched := s.touched ++ [s.i]
        i       := s.i + 1 }) hlt
      dsimp only at h₁ h₂ h₃ h₄ h₅
      simp only [storeDigits, if_pos (show s.data ≠ 0 from hz), hds, List.length_cons]
      refine ⟨by rw [h₁]; push_cast; omega, h₂, h₃, ?_, ?_⟩
      · intro k hk
        cases k
        case zero =>
          have hfirst := h₅ s.i (by omega)
          simpa using hfirst
        case succ k =>
          have hk := h₄ k (by omega)
          rw [List.getElem_cons_succ, ← hk]
          congr 1
          push_cast
          omega
      · intro x hx
        rw [h₅ x (by omega), Function.update_of_ne (by omega)]

theorem emit_eq {m : Nat} (hi : s.i = m) :
    let s' := emit (m + 1) s
    s'.i = -1 ∧ s'.data = s.data ∧ -1 ∈ s'.touched ∧
      s'.uart = s.uart ++ (List.range m).reverse.map (fun k : Nat => s.buffer (k : Int)) ++ [s.buffer (-1)] := by
  induction m generalizing s
  case zero => simp [emit, hi]
  case succ m ih =>
    have he : s.i - 1 = m := by omega
    have ⟨h₁, h₂, h₃, h₄⟩ := ih (s := { s with
      i       := s.i - 1
      touched := s.touched ++ [s.i - 1]
      uart    := s.uart ++ [s.buffer (s.i - 1)] }) he
    rw [emit, if_pos (by omega)]
    refine ⟨h₁, h₂, h₃, ?_⟩
    rw [h₄, he, List.range_succ, List.reverse_append, List.map_append]
    simp

theorem emit_stored {char : Nat → Nat} (hb : 2 ≤ b) (hd : ∀ d, digit d = d % b) (hr : ∀ d, rest d = d / b)
    (hc : ∀ d < b, char d = digitChar d) (hi : s.i = 0) (hz : s.data ≠ 0) (hf : s.data < b ^ 64) :
    let s₁ := storeDigits digit rest char 64 s
    let s₂ := emit (s₁.i + 1).toNat s₁
    0 < s₁.i ∧ -1 ∈ s₂.touched ∧ s₂.uart = s.uart ++ numeral b s.data ++ [s.buffer (-1)] := by
  have ⟨h₁, h₂, h₃, h₄, h₅⟩ := storeDigits_eq char hb hd hr hf
  have hne : Nat.digits b s.data ≠ [] := Nat.digits_ne_nil_iff_ne_zero.mpr hz
  have hpos := List.length_pos_iff.mpr hne
  rw [hi, Int.zero_add] at h₁
  have hturns : ((storeDigits digit rest char 64 s).i + 1).toNat = (Nat.digits b s.data).length + 1 := by
    rw [h₁]
    rfl
  have ⟨_, _, h₆, h₇⟩ := emit_eq h₁
  have hprinted : (List.range (Nat.digits b s.data).length).map
      (fun k : Nat => (storeDigits digit rest char 64 s).buffer k) = (Nat.digits b s.data).map digitChar := by
    refine List.ext_getElem (by simp) ?_
    intro k hk _
    simp only [List.length_map, List.length_range] at hk
    have hk' := h₄ k hk
    rw [hi, Int.zero_add] at hk'
    simp only [List.getElem_map, List.getElem_range, hk']
    exact hc _ (Nat.digits_lt_base hb (List.getElem_mem hk))
  simp only [hturns]
  refine ⟨by omega, h₆, ?_⟩
  rw [h₇, h₃, h₅ (-1) (by omega), numeral, if_neg hz, List.map_reverse, hprinted, List.map_reverse]

end

section

variable {s : State} {c b : Nat} (hi : s.i = 0)

include hi

theorem convert_none (hc : base? c = none) : convert c s = s.put 48 := by
  have hd : c ≠ 0x64 := by
    rintro rfl
    cases hc
  have hx : ¬(c = 0x78 ∨ c = 0x58) := by
    rintro (rfl | rfl) <;> cases hc
  simp [convert, hd, hx, hi]

theorem convert_zero (hz : s.data = 0) : convert c s = s.put 48 := by
  have hd : storeDecimal s = s := by simp [storeDecimal, storeDigits, hz]
  have hx : storeHex s = s := by simp [storeHex, storeDigits, hz]
  simp only [convert, hd, hx, ite_self, hi]
  rfl

-- The digits of a value other than 0 are followed by the byte in front of the buffer.
theorem convert_some (hc : base? c = some b) (hz : s.data ≠ 0) (hlt : s.data < 2 ^ 64) :
    -1 ∈ (convert c s).touched ∧ (convert c s).uart = s.uart ++ numeral b s.data ++ [s.buffer (-1)] := by
  rw [base?] at hc
  split at hc
  case isTrue hd =>
    cases hc
    have hchar : ∀ d < 10, d + 48 = digitChar d := by
      intro d hd
      rw [digitChar, if_neg (by omega)]
    have ⟨h₁, h₂⟩ := emit_stored (by decide) (fun _ => rfl) (fun _ => rfl) hchar hi hz (hlt.trans_le (by decide))
    simp only [convert, if_pos hd, storeDecimal, if_pos h₁]
    exact h₂
  case isFalse hd =>
    split at hc
    case isFalse => cases hc
    case isTrue hx =>
      cases hc
      have hchar : ∀ d < 16, (d + if d > 9 then 55 else 48) = digitChar d := by
        intro d _
        rw [digitChar]
        split <;> rfl
      have ⟨h₁, h₂⟩ := emit_stored (by decide) (fun d => Nat.and_two_pow_sub_one_eq_mod d 4)
        (fun d => Nat.shiftRight_eq_div_pow d 4) hchar hi hz (hlt.trans_le (by decide))
      simp only [convert, if_neg hd, if_pos hx, storeHex, if_pos h₁]
      exact h₂

end

-- What has been printed stays printed.
structure Grows (s s' : State) : Prop where
  uart    : s.uart <+: s'.uart
  touched : ∀ k ∈ s.touched, k ∈ s'.touched

namespace Grows

variable {s s' s₁ : State}

theorem refl : Grows s s :=
  ⟨List.prefix_rfl, fun _ hk => hk⟩

theorem trans (h : Grows s s₁) (h' : Grows s₁ s') : Grows s s' :=
  ⟨h.uart.trans h'.uart, fun k hk => h'.touched k (h.touched k hk)⟩

theorem put {byte : Nat} : Grows s (s.put byte) :=
  ⟨List.prefix_append .., fun _ hk => hk⟩

theorem storeDigits {digit rest char : Nat → Nat} {fuel : Nat} : Grows s (storeDigits digit rest char fuel s) := by
  induction fuel generalizing s
  case zero => exact refl
  case succ fuel ih =>
    rw [Print.storeDigits]
    split
    case isFalse => exact refl
    case isTrue =>
      refine trans ?_ ih
      exact ⟨List.prefix_rfl, fun _ hk => List.mem_append_left _ hk⟩

theorem emit {fuel : Nat} : Grows s (emit fuel s) := by
  induction fuel generalizing s
  case zero => exact refl
  case succ fuel ih =>
    rw [Print.emit]
    split
    case isFalse => exact refl
    case isTrue =>
      refine trans ?_ ih
      exact ⟨List.prefix_append .., fun _ hk => List.mem_append_left _ hk⟩

theorem convert {c : Nat} : Grows s (convert c s) := by
  have hs : Grows s (if c = 0x64 then storeDecimal s else if c = 0x78 ∨ c = 0x58 then storeHex s else s) := by
    split
    case isTrue => exact storeDigits
    case isFalse =>
      split
      case isTrue  => exact storeDigits
      case isFalse => exact refl
  dsimp only [Print.convert]
  generalize (if c = 0x64 then storeDecimal s else if c = 0x78 ∨ c = 0x58 then storeHex s else s) = s₁ at hs ⊢
  split
  case isTrue  => exact hs.trans emit
  case isFalse => exact hs.trans put

theorem leaves {string : Nat → Nat} {m n : Nat} (h : Loop.Leaves (printStep string) m (n, s) s') : Grows s s' := by
  refine h.invariant (I := fun p => Grows s p.2) (Q := Grows s) ?_ ?_ refl
  · intro p q hp he
    rw [printStep] at he
    split at he
    case isTrue => cases he
    case isFalse =>
      split at he <;> cases he
      case isTrue  => exact hp.trans convert
      case isFalse => exact hp.trans put
  · intro p r hp he
    rw [printStep] at he
    split at he
    case isTrue =>
      cases he
      exact hp
    case isFalse => split at he <;> cases he

end Grows

section

variable {string : Nat → Nat} {format : List Nat} {m n : Nat} {s r : State}

theorem step_plain {c : Nat} {rest : List Nat} (h : Holds string n (c :: rest)) (hc : c ≠ 0x25) :
    printStep string (n, s) = .inl (n + 1, s.put c) := by
  have ⟨he, h₀⟩ := h.head
  rw [printStep, he, if_neg h₀, if_neg hc]

theorem step_percent {rest : List Nat} (h : Holds string n (0x25 :: rest)) :
    printStep string (n, s) = .inl (n + 2, convert (string (n + 1)) s) := by
  rw [printStep, h.head.1, if_neg (by decide), if_pos rfl]

theorem expected_plain {c data : Nat} {rest : List Nat} (hc : c ≠ 0x25) :
    expected data (c :: rest) = c :: expected data rest := by
  cases rest <;> simp [expected, hc]

-- If the value is 0, or if nothing is converted, then the string is printed as it should be.
theorem leaves_expected (h : Holds string n format) (hi : s.i = 0) (hc : Converts format)
    (hz : s.data = 0 ∨ 0x25 ∉ format) :
    ∃ m r, Loop.Leaves (printStep string) m (n, s) r ∧ r.uart = s.uart ++ expected s.data format ∧
      r.touched = s.touched := by
  induction format using Converts.induct generalizing n s
  case case1 =>
    refine ⟨1, s, .now ?_, ?_⟩
    · rw [printStep, if_pos h.nil]
    · simp [expected]
  case case2 c rest ih =>
    have hz : s.data = 0 := hz.resolve_right (· (List.mem_cons_self ..))
    obtain ⟨b, hb⟩ := Option.isSome_iff_exists.mp hc.1
    have ⟨m, r, hl, hu, ht⟩ := ih (s := s.put 48) h.tail.tail hi hc.2 (.inl hz)
    refine ⟨m + 1, r, .next ?_ hl, ?_, ht⟩
    · rw [step_percent h, convert_zero hi hz]
    · simp [hu, State.put, expected, hb, numeral, hz]
  case case3 => cases hc
  case case4 c rest hno₁ hno₂ ih =>
    have hp : c ≠ 0x25 := by
      rintro rfl
      cases rest
      case nil  => exact hno₂ rfl rfl
      case cons => exact hno₁ _ _ rfl rfl
    have hc : Converts rest := by
      rwa [Converts] at hc
      all_goals assumption
    have hz : s.data = 0 ∨ 0x25 ∉ rest := hz.imp_right fun hn hm => hn (List.mem_cons_of_mem _ hm)
    have ⟨m, r, hl, hu, ht⟩ := ih (s := s.put c) h.tail hi hc hz
    refine ⟨m + 1, r, .next (step_plain h hp) hl, ?_, ht⟩
    rw [hu, expected_plain hp, State.put, List.append_assoc, List.singleton_append]

-- Whenever the string is printed as it should be, the value is 0 or nothing is converted.
theorem of_expected (h : Holds string n format) (hi : s.i = 0) (hlt : s.data < 2 ^ 64)
    (hl : Loop.Leaves (printStep string) m (n, s) r) (hu : r.uart = s.uart ++ expected s.data format)
    (ht : -1 ∉ r.touched) : Converts format ∧ (s.data = 0 ∨ 0x25 ∉ format) := by
  induction format using Converts.induct generalizing m n s
  case case1 => exact ⟨trivial, .inr List.not_mem_nil⟩
  case case2 c rest ih =>
    have ⟨k, hl⟩ := (Loop.Goes.single (step_percent h)).of_leaves hl
    have hc : string (n + 1) = c := h.tail.head.1
    rw [hc] at hl
    cases hb : base? c
    case none =>
      rw [convert_none hi hb] at hl
      have hp := (Grows.leaves hl).uart
      simp [hu, State.put, expected, hb] at hp
    case some b =>
      by_cases hz : s.data = 0
      case pos =>
        rw [convert_zero hi hz] at hl
        have hu : r.uart = (s.put 48).uart ++ expected (s.put 48).data rest := by
          simp [hu, State.put, expected, hb, numeral, hz]
        have ⟨hr, _⟩ := ih (s := s.put 48) h.tail.tail hi hlt hl hu
        exact ⟨⟨hb ▸ rfl, hr⟩, .inl hz⟩
      case neg =>
        have ⟨hm, _⟩ := convert_some hi hb hz hlt
        exact absurd ((Grows.leaves hl).touched _ hm) ht
  case case3 =>
    have ⟨k, hl⟩ := (Loop.Goes.single (step_percent h)).of_leaves hl
    have hc : string (n + 1) = 0 := h.stop
    rw [hc, convert_none hi rfl] at hl
    have hp := (Grows.leaves hl).uart
    simp [hu, State.put, expected] at hp
  case case4 c rest hno₁ hno₂ ih =>
    have hp : c ≠ 0x25 := by
      rintro rfl
      cases rest
      case nil  => exact hno₂ rfl rfl
      case cons => exact hno₁ _ _ rfl rfl
    have ⟨k, hl⟩ := (Loop.Goes.single (step_plain h hp)).of_leaves hl
    have hu : r.uart = (s.put c).uart ++ expected (s.put c).data rest := by
      rw [hu, expected_plain hp, State.put, List.append_assoc, List.singleton_append]
    have ⟨hr, hz⟩ := ih (s := s.put c) h.tail hi hlt hl hu
    refine ⟨?_, hz.imp_right fun hn hm => hn (List.mem_of_ne_of_mem (Ne.symm hp) hm)⟩
    rw [Converts]
    · exact hr
    all_goals assumption

-- Memory that holds the format and nothing else.
def stored (format : List Nat) (k : Nat) : Nat :=
  format[k]?.getD 0

theorem Holds.stored (hn : ∀ c ∈ format, c ≠ 0) : Holds (stored format) 0 format := by
  constructor
  case bytes =>
    intro k hk
    simpa [Print.stored, hk] using hn _ (List.getElem_mem hk)
  case stop => simp [Print.stored]

theorem print_raw_iff {data : Nat} (hlt : data < 2 ^ 64) (hn : ∀ c ∈ format, c ≠ 0) :
    PrintsRight format data ↔ Converts format ∧ (data = 0 ∨ 0x25 ∉ format) := by
  constructor
  case mp =>
    intro h
    have hs := Holds.stored hn
    have ⟨fuel, r, hr, hu, ht⟩ := h _ (fun _ => 0) hs
    have ⟨_, _, hl⟩ := Loop.Leaves.of_run hr
    exact of_expected hs rfl hlt hl hu fun hm => absurd (ht _ hm).1 (by decide)
  case mpr =>
    intro ⟨hc, hz⟩ string buffer hs
    have ⟨m, r, hl, hu, ht⟩ := leaves_expected (s := .start buffer data) hs rfl hc hz
    refine ⟨m, r, hl.run le_rfl, hu, ?_⟩
    rw [ht]
    intro k hk
    cases hk

end

-- "%d\n" with the value 0.
theorem print_raw_zero : PrintsRight [0x25, 0x64, 0x0a] 0 := by
  apply (print_raw_iff (by decide) (by decide)).mpr
  exact ⟨⟨rfl, trivial⟩, .inl rfl⟩

theorem PrintsRight.uart_eq {format out : List Nat} {data fuel : Nat} {string : Nat → Nat} {buffer : Int → Nat}
    (h : PrintsRight format data) (hs : Holds string 0 format)
    (hr : (palPrintRaw string buffer data fuel).map (·.uart) = some out) : out = expected data format := by
  have ⟨_, s, hf, hu, _⟩ := h string buffer hs
  have ⟨s', hr, ho⟩ := Option.map_eq_some_iff.mp hr
  have he := Loop.run_unique hr hf
  rw [← ho, he, hu]

-- "%d" with the value 5: the byte in front of the buffer is printed after the digit. "%": a digit is printed.
theorem print_raw_past_buffer : ¬PrintsRight [0x25, 0x64] 5 ∧ ¬PrintsRight [0x25] 0 := by
  constructor
  case left =>
    intro h
    have hr : (palPrintRaw (stored [0x25, 0x64]) (fun _ => 0xff) 5 2).map (·.uart) = some [53, 0xff] := by
      decide +kernel
    have he := h.uart_eq (Holds.stored (by decide)) hr
    exact absurd he (by decide +kernel)
  case right =>
    intro h
    have hr : (palPrintRaw (stored [0x25]) (fun _ => 0xff) 0 2).map (·.uart) = some [48] := by
      decide +kernel
    have he := h.uart_eq (Holds.stored (by decide)) hr
    exact absurd he (by decide +kernel)

end Print
