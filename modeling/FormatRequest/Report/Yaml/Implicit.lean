/-!
# Unquoted texts that are no strings

A reader of YAML takes some unquoted texts for null, a truth value or a number. A string of that
form has to be quoted.
-/

namespace FormatRequest.Yaml

/-- The value of a digit in a base up to 16. Letters of either case are digits from ten on. -/
def digitIn? (base : Nat) (c : Char) : Option Nat :=
  ("0123456789abcdef".toList.take base).findIdx? (· == c.toLower)

/-- The value of the digits that follow digits of value `acc`. -/
def valueFrom? (base acc : Nat) : List Char → Option Nat
  | [] => some acc
  | c :: rest => (digitIn? base c).bind fun d => valueFrom? base (acc * base + d) rest

/-- The value of a text of at least one digit in a base up to 16. -/
def valueIn? (base : Nat) (text : List Char) : Option Nat :=
  if text.isEmpty then none else valueFrom? base 0 text

/-- A number without its sign, and whether the sign was a minus. -/
def splitSign : List Char → Bool × List Char
  | '-' :: rest => (true, rest)
  | '+' :: rest => (false, rest)
  | text => (false, text)

/-- The value of an unsigned integer: decimal, or in the base that `0x`, `0o` or `0b` names. -/
def magnitude? : List Char → Option Nat
  | '0' :: 'x' :: rest => valueIn? 16 rest
  | '0' :: 'o' :: rest => valueIn? 8 rest
  | '0' :: 'b' :: rest => valueIn? 2 rest
  | text => valueIn? 10 text

/-- Integers are words of 128 bits, signed if they have a minus. -/
def isInteger (text : List Char) : Bool :=
  match splitSign text with
  | (true, body) => (magnitude? body).any (· ≤ Nat.pow 2 127)
  | (false, body) => (magnitude? body).any (· < Nat.pow 2 128)

/-- Digits with a needless leading zero are not taken for a number, but they are still quoted. -/
def isZeroPadded (text : List Char) : Bool :=
  match (splitSign text).2 with
  | '0' :: rest => !rest.isEmpty && rest.all Char.isDigit
  | _ => false

/-- The parts of a decimal fraction: digits, the number of them after the point, the exponent. -/
structure Scientific where
  digits : List Char
  places : Nat
  exponent : Int
  deriving DecidableEq, Repr

/-- The exponent that ends a decimal fraction. -/
def exponent? : List Char → Option Int
  | [] => some 0
  | e :: rest =>
    if e = 'e' || e = 'E' then
      match splitSign rest with
      | (true, body) => (valueIn? 10 body).map fun n => -(n : Int)
      | (false, body) => (valueIn? 10 body).map fun n => (n : Int)
    else none

/-- Reads an unsigned decimal fraction: digits with a point anywhere among them or none, and an
optional exponent. -/
def scientific? (text : List Char) : Option Scientific :=
  let (whole, rest) := text.span Char.isDigit
  let (fraction, rest) := match rest with
    | '.' :: rest => rest.span Char.isDigit
    | rest => ([], rest)
  if whole.isEmpty && fraction.isEmpty then none
  else (exponent? rest).map fun exponent => ⟨whole ++ fraction, fraction.length, exponent⟩

/-- The numbers from here on round to no finite binary number of 64 bits: half a unit in the last
place above the greatest one. -/
def finiteLimit : Nat := Nat.pow 2 1024 - Nat.pow 2 970

/-- Whether a decimal fraction rounds to a finite binary number of 64 bits. The limit lies between
`10 ^ 308` and `10 ^ 309`, so that only fractions in this range need to be compared with it. -/
def Scientific.isFinite (x : Scientific) : Bool :=
  let significant := x.digits.dropWhile (· == '0')
  let scale := x.exponent - x.places
  let top := significant.length + scale
  if significant.isEmpty || top ≤ 308 then true
  else if 309 < top then false
  else
    let n := (valueIn? 10 significant).getD 0
    n * Nat.pow 10 scale.toNat < finiteLimit * Nat.pow 10 (-scale).toNat

/-- The names of infinity. -/
def isInfinity (text : List Char) : Bool :=
  [".inf".toList, ".Inf".toList, ".INF".toList].contains text

/-- The names of what is no number. -/
def isNotANumber (text : List Char) : Bool :=
  [".nan".toList, ".NaN".toList, ".NAN".toList].contains text

/-- Fractions are binary numbers of 64 bits. A fraction too great for them is a string. -/
def isFloat (text : List Char) : Bool :=
  let body := (splitSign text).2
  isInfinity body || isNotANumber text || (scientific? body).any Scientific.isFinite

/-- The names of null. -/
def isNull (text : List Char) : Bool :=
  ["null".toList, "Null".toList, "NULL".toList, "~".toList].contains text

/-- The names of the truth values. -/
def isTruthValue (text : List Char) : Bool :=
  ["true".toList, "True".toList, "TRUE".toList,
    "false".toList, "False".toList, "FALSE".toList].contains text

/-- Whether the text has to be quoted to be a string. -/
def readsAsOther (text : List Char) : Bool :=
  text.isEmpty || isNull text || isTruthValue text || isInteger text || isZeroPadded text ||
    isFloat text

end FormatRequest.Yaml
