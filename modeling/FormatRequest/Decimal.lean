/-!
# Decimal numbers

Numbers are words of 64 bits. They are written in decimal without leading zeros, and read from
ASCII digits with an optional plus sign and any number of leading zeros.
-/

namespace FormatRequest.Decimal

/-- The decimal digits of a number, most significant first. -/
def digits (n : Nat) : List Char := Nat.toDigits 10 n

/-- The decimal digits of a word. -/
def ofWord (n : UInt64) : List Char := digits n.toNat

/-- The decimal form of a number of things. -/
def count (n : Nat) : String := String.ofList (digits n)

/-- The decimal form of a word. -/
def text (n : UInt64) : String := String.ofList (ofWord n)

/-- Why a text is not the decimal form of a word. -/
inductive Fault
  | empty
  | invalidDigit
  | tooLarge
  deriving DecidableEq, Repr

/-- The wording of a fault. -/
def Fault.message : Fault → String
  | .empty => "cannot parse integer from empty string"
  | .invalidDigit => "invalid digit found in string"
  | .tooLarge => "number too large to fit in target type"

/-- The value of an ASCII digit. -/
def digitValue? (c : Char) : Option Nat :=
  if c.isDigit then some (c.toNat - '0'.toNat) else none

/-- Reads the digits that follow digits of value `acc`. The first fault from the left wins: a
character that is no digit, or the digit with which the number stops being a word. -/
def readFrom (acc : Nat) : List Char → Except Fault Nat
  | [] => .ok acc
  | c :: rest =>
    match digitValue? c with
    | none => .error .invalidDigit
    | some d =>
      if acc * 10 + d < UInt64.size then readFrom (acc * 10 + d) rest else .error .tooLarge

/-- Reads a word. A sign alone lacks its digits, and no sign but plus is one. -/
def readWord : List Char → Except Fault UInt64
  | [] => .error .empty
  | ['+'] => .error .invalidDigit
  | '+' :: rest => (readFrom 0 rest).map UInt64.ofNat
  | text => (readFrom 0 text).map UInt64.ofNat

end FormatRequest.Decimal
