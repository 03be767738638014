import FormatRequest.Report.Field

/-!
# Reading JSON

The grammar of JSON as a reader: what a text means, if it is JSON at all. All of the grammar is
there, also what no report contains: fractions and exponents, `null`, escapes for any character, and
space between any two tokens.

Each reader takes what it reads off the front of a text and leaves the rest. Where values are nested
or follow one another, the reader has an amount of fuel, and the length of the text is always
enough, since every step reads at least one character.
-/

namespace FormatRequest.Json

/-- The number `mantissa * 10 ^ exponent`. -/
structure Number where
  mantissa : Int
  exponent : Int
  deriving DecidableEq, Repr

/-- What a JSON text means. An object keeps its members in order, also those that share a name. -/
inductive Value
  | null
  | bool (on : Bool)
  | number (n : Number)
  | string (s : String)
  | array (items : List Value)
  | object (members : List (String × Value))
  deriving Repr

/-! ## Space -/

/-- The characters that may stand between tokens. -/
def isSpace (c : Char) : Bool := c == ' ' || c == '\t' || c == '\n' || c == '\r'

/-- The text without the space it begins with. -/
def skipSpace (text : List Char) : List Char := text.dropWhile isSpace

/-! ## Strings -/

/-- The value of a hexadecimal digit in either case. -/
def hexValue? (c : Char) : Option Nat :=
  "0123456789abcdef".toList.findIdx? (· == c.toLower)

/-- Four hexadecimal digits. -/
def readUnit : List Char → Option (Nat × List Char)
  | a :: b :: c :: d :: rest => do
    let a ← hexValue? a
    let b ← hexValue? b
    let c ← hexValue? c
    let d ← hexValue? d
    return (((a * 16 + b) * 16 + c) * 16 + d, rest)
  | _ => none

/-- The character of an escape with digits. One beyond `U+FFFF` is written as two escapes, and half
of such a pair is no character. -/
def readCodePoint (text : List Char) : Option (Char × List Char) := do
  let (unit, rest) ← readUnit text
  if 0xD800 ≤ unit ∧ unit < 0xDC00 then
    match rest with
    | '\\' :: 'u' :: rest =>
      let (low, rest) ← readUnit rest
      if 0xDC00 ≤ low ∧ low < 0xE000 then
        return (Char.ofNat (0x10000 + (unit - 0xD800) * 0x400 + (low - 0xDC00)), rest)
      else none
    | _ => none
  else if 0xDC00 ≤ unit ∧ unit < 0xE000 then none
  else return (Char.ofNat unit, rest)

/-- The character of an escape with one letter. -/
def shortEscape? : Char → Option Char
  | '"' => some '"'
  | '\\' => some '\\'
  | '/' => some '/'
  | 'b' => some '\x08'
  | 'f' => some '\x0C'
  | 'n' => some '\n'
  | 'r' => some '\r'
  | 't' => some '\t'
  | _ => none

/-- A character of a string, as it is or as an escape. Control characters have to be escaped. -/
def readCharacter : List Char → Option (Char × List Char)
  | [] => none
  | '"' :: _ => none
  | '\\' :: 'u' :: rest => readCodePoint rest
  | '\\' :: c :: rest => (shortEscape? c).map fun d => (d, rest)
  | ['\\'] => none
  | c :: rest => if c.toNat < 0x20 then none else some (c, rest)

/-- The characters up to the quotation mark that ends a string. -/
def readCharacters : (fuel : Nat) → List Char → Option (List Char × List Char)
  | 0, _ => none
  | _ + 1, '"' :: rest => some ([], rest)
  | fuel + 1, text => do
    let (c, rest) ← readCharacter text
    let (cs, rest) ← readCharacters fuel rest
    return (c :: cs, rest)

/-! ## Numbers -/

/-- Digits, at least one. -/
def readDigits (text : List Char) : Option (List Char × List Char) :=
  match text.takeWhile Char.isDigit with
  | [] => none
  | digits => some (digits, text.dropWhile Char.isDigit)

/-- Digits without a needless zero at the front. -/
def readWhole (text : List Char) : Option (List Char × List Char) := do
  let (digits, rest) ← readDigits text
  if digits.head? = some '0' ∧ digits ≠ ['0'] then none else return (digits, rest)

/-- The digits after the point, if there is one. -/
def readFraction : List Char → Option (List Char × List Char)
  | '.' :: rest => readDigits rest
  | text => some ([], text)

/-- A sign and digits. -/
def readSigned : List Char → Option (Int × List Char)
  | '-' :: rest => (readDigits rest).map fun (digits, rest) => (-Nat.ofDigitChars 10 digits 0, rest)
  | '+' :: rest => (readDigits rest).map fun (digits, rest) => (Nat.ofDigitChars 10 digits 0, rest)
  | text => (readDigits text).map fun (digits, rest) => (Nat.ofDigitChars 10 digits 0, rest)

/-- The exponent, if there is one. -/
def readExponent : List Char → Option (Int × List Char)
  | 'e' :: rest => readSigned rest
  | 'E' :: rest => readSigned rest
  | text => some (0, text)

/-- A number without its sign. -/
def readUnsigned (text : List Char) : Option (Number × List Char) := do
  let (whole, rest) ← readWhole text
  let (fraction, rest) ← readFraction rest
  let (exponent, rest) ← readExponent rest
  return (⟨Nat.ofDigitChars 10 (whole ++ fraction) 0, exponent - fraction.length⟩, rest)

/-- A number. -/
def readNumber : List Char → Option (Number × List Char)
  | '-' :: rest => (readUnsigned rest).map fun (n, rest) => (⟨-n.mantissa, n.exponent⟩, rest)
  | text => readUnsigned text

/-! ## Values -/

/-- Items with commas between them, at least one, up to the character that closes them. -/
def readItems {α : Type} (read : List Char → Option (α × List Char)) (close : Char) :
    (fuel : Nat) → List Char → Option (List α × List Char)
  | 0, _ => none
  | fuel + 1, text => do
    let (item, rest) ← read text
    match skipSpace rest with
    | [] => none
    | c :: rest =>
      if c = close then return ([item], rest)
      else if c = ',' then
        let (items, rest) ← readItems read close fuel rest
        return (item :: items, rest)
      else none

/-- Items with commas between them, or none. -/
def readList {α : Type} (read : List Char → Option (α × List Char)) (close : Char) (fuel : Nat)
    (text : List Char) : Option (List α × List Char) :=
  if (skipSpace text).head? = some close then some ([], (skipSpace text).tail)
  else readItems read close fuel text

/-- A member of an object, where `read` reads its value. -/
def readMember (read : List Char → Option (Value × List Char)) (fuel : Nat) (text : List Char) :
    Option ((String × Value) × List Char) :=
  match skipSpace text with
  | '"' :: rest => do
    let (name, rest) ← readCharacters fuel rest
    match skipSpace rest with
    | ':' :: rest =>
      let (value, rest) ← read rest
      return ((String.ofList name, value), rest)
    | _ => none
  | _ => none

/-- A value, after any space. -/
def readValue : (fuel : Nat) → List Char → Option (Value × List Char)
  | 0, _ => none
  | fuel + 1, text =>
    match skipSpace text with
    | 'n' :: 'u' :: 'l' :: 'l' :: rest => some (.null, rest)
    | 't' :: 'r' :: 'u' :: 'e' :: rest => some (.bool true, rest)
    | 'f' :: 'a' :: 'l' :: 's' :: 'e' :: rest => some (.bool false, rest)
    | '"' :: rest =>
      (readCharacters fuel rest).map fun (cs, rest) => (.string (String.ofList cs), rest)
    | '[' :: rest =>
      (readList (readValue fuel) ']' fuel rest).map fun (items, rest) => (.array items, rest)
    | '\x7b' :: rest =>
      (readList (readMember (readValue fuel) fuel) '\x7d' fuel rest).map fun (members, rest) =>
        (.object members, rest)
    | text => (readNumber text).map fun (n, rest) => (.number n, rest)

/-- What a whole text means. -/
def parse (text : List Char) : Option Value := do
  let (v, rest) ← readValue text.length text
  if skipSpace rest = [] then return v else none

end FormatRequest.Json
