import BsaAcs.Lib.Loop
import BsaAcs.Infra.Test
import Mathlib.Logic.Function.Basic

-- The `-skip` argument, which `ShellAppMain` parses. An argument is the list of its UCS-2 characters.

namespace Skip

def comma : Nat := 0x2C

def IsDigit (c : Nat) : Prop :=
  0x30 ≤ c ∧ c ≤ 0x39

instance {c : Nat} : Decidable (IsDigit c) :=
  inferInstanceAs (Decidable (_ ∧ _))

-- The value of the leading decimal digits.
def number (s : List Nat) : Nat :=
  (s.takeWhile (IsDigit ·)).foldl (fun n c => 10 * n + (c - 0x30)) 0

-- The value is capped at the largest `UINTN`.
def strDecimalToUintn (s : List Nat) : Nat :=
  min (number s) (2 ^ 64 - 1)

def maxTestSkipNum : Nat := 9

-- `g_skip_test_num` is the memory from the first entry on.
structure State where
  j            : Nat
  gSkipTestNum : Nat → Nat
  -- The indexes that have been written.
  touched      : List Nat

-- The initial value of the entries of `g_skip_test_num`.
def noTest : Nat := 10000

def State.start : State :=
  { j := 0, gSkipTestNum := fun _ => noTest, touched := [] }

def State.store (k value : Nat) (s : State) : State :=
  { s with gSkipTestNum := Function.update s.gSkipTestNum k (value % 2 ^ 32), touched := s.touched ++ [k] }

-- The body of the loop for the character `c`, behind which is `rest`.
def skipChar (arg : List Nat) (c : Nat) (rest : List Nat) (s : State) : State :=
  let s := s.store 0 (strDecimalToUintn arg)
  if c = comma then
    let s := { s with j := (s.j + 1) % 2 ^ 32 }
    s.store s.j (strDecimalToUintn rest)
  else s

def skipStep (arg : List Nat) : Nat × State → (Nat × State) ⊕ State
  | (i, s) =>
    match arg[i]? with
    | some c => .inl ((i + 1) % 2 ^ 32, skipChar arg c (arg.drop (i + 1)) s)
    | none   => .inr s

-- `none` means that the fuel did not suffice.
def shellAppMainSkip (arg : List Nat) (fuel : Nat) : Option State :=
  loop (skipStep arg) fuel (0, .start)

end Skip
