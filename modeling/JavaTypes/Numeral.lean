/-!
# Numerals

Integers as decimal and hexadecimal texts. Reading takes digits with an optional sign in front, and
nothing else; hexadecimal digits are read in either case and written in the lower one.
-/

namespace JavaTypes

def decimalDigit? (c : Char) : Option Nat :=
  if '0' ≤ c ∧ c ≤ '9' then some (c.toNat - '0'.toNat) else none

def hexDigit? (c : Char) : Option Nat :=
  if 'a' ≤ c ∧ c ≤ 'f' then some (c.toNat - 'a'.toNat + 10)
  else if 'A' ≤ c ∧ c ≤ 'F' then some (c.toNat - 'A'.toNat + 10)
  else decimalDigit? c

/-- The value of a sequence of digits after those that were read already. -/
def digitsValue? (base : Nat) (digit? : Char → Option Nat) : Nat → List Char → Option Nat
  | value, [] => some value
  | value, c :: cs => do
      let d ← digit? c
      digitsValue? base digit? (value * base + d) cs

def natural? (base : Nat) (digit? : Char → Option Nat) : List Char → Option Nat
  | [] => none
  | c :: cs => digitsValue? base digit? 0 (c :: cs)

/-- The value of one or more digits, with an optional plus sign in front. -/
def unsigned? (base : Nat) (digit? : Char → Option Nat) : List Char → Option Nat
  | '+' :: cs => natural? base digit? cs
  | cs => natural? base digit? cs

def readDecimal? (s : String) : Option Int :=
  match s.toList with
  | '-' :: cs => (natural? 10 decimalDigit? cs).map fun n => -(n : Int)
  | cs => (unsigned? 10 decimalDigit? cs).map fun n => (n : Int)

/-- Read a hexadecimal number of at most so many bits. -/
def readHex? (bits : Nat) (s : String) : Option Nat :=
  (unsigned? 16 hexDigit? s.toList).filter fun n => n < Nat.pow 2 bits

/-- A number in hexadecimal digits, filled up with zeros in front. -/
def hexText (width n : Nat) : String :=
  let digits := Nat.toDigits 16 n
  String.ofList (List.replicate (width - digits.length) '0' ++ digits)

/-- An integer, if it can be kept in so many bits. -/
def inRange? (bits : Nat) (n : Int) : Option Int :=
  if -Int.pow 2 (bits - 1) ≤ n ∧ n < Int.pow 2 (bits - 1) then some n else none

end JavaTypes
