import BsaAcs.Lib.Loop

-- `pal_print_raw`, which writes a string to the UART byte by byte. `string` is the memory from the first
-- byte of the string on, which goes on behind the byte 0 that ends it.

namespace Print

-- The local variables of `pal_print_raw`. `buffer` is the memory around the 16 bytes of the buffer. An index
-- is at most 64, so that it does not leave the range of an `INT8`.
structure State where
  i       : Int
  data    : Nat
  buffer  : Int → Nat
  -- The indexes at which the buffer has been accessed, and the bytes that have been written to the UART.
  touched : List Int
  uart    : List Nat

def State.start (buffer : Int → Nat) (data : Nat) : State :=
  { i := 0, data := data, buffer := buffer, touched := [], uart := [] }

def State.put (byte : Nat) (s : State) : State :=
  { s with uart := s.uart ++ [byte] }

-- The loops for the digits differ in how they take a digit off `data`. A 64-bit value is exhausted after
-- 64 turns.
def storeDigits (digit rest char : Nat → Nat) : Nat → State → State
  | 0, s => s
  | fuel + 1, s =>
    if s.data ≠ 0 then
      storeDigits digit rest char fuel { s with
        data    := rest s.data
        buffer  := Function.update s.buffer s.i (char (digit s.data))
        touched := s.touched ++ [s.i]
        i       := s.i + 1 }
    else s

def storeDecimal : State → State :=
  storeDigits (· % 10) (· / 10) (· + 48) 64

def storeHex : State → State :=
  storeDigits (· &&& 0xf) (· >>> 4) (fun j => j + if j > 9 then 55 else 48) 64

-- The loop that prints the digits. It tests `i` before it is decremented.
def emit : Nat → State → State
  | 0, s => s
  | fuel + 1, s =>
    if s.i ≥ 0 then
      emit fuel { s with
        i       := s.i - 1
        touched := s.touched ++ [s.i - 1]
        uart    := s.uart ++ [s.buffer (s.i - 1)] }
    else s

-- What is done for a percent sign that `c` follows.
def convert (c : Nat) (s : State) : State :=
  let s := if c = 0x64 then storeDecimal s else if c = 0x78 ∨ c = 0x58 then storeHex s else s
  if s.i > 0 then emit (s.i + 1).toNat s else s.put 48

def printStep (string : Nat → Nat) : Nat × State → (Nat × State) ⊕ State
  | (n, s) =>
    if string n = 0 then .inr s
    else if string n = 0x25 then .inl (n + 2, convert (string (n + 1)) s)
    else .inl (n + 1, s.put (string n))

-- `none` means that the fuel did not suffice.
def palPrintRaw (string : Nat → Nat) (buffer : Int → Nat) (data fuel : Nat) : Option State :=
  loop (printStep string) fuel (0, .start buffer data)

end Print
