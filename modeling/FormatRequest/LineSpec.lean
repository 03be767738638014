import FormatRequest.Span

/-!
# Line specifications

`N` names one line and `N:M` the lines from `N` to `M`, both counted from one and both included.
A list of specifications is separated by commas. A specification may be inverted: what it means
then is an inverted span, and who collects the spans reports it.

White space may stand around a specification. What is left has to look like digits before its
numbers are read, and "digit" there means a decimal digit of any script: the characters of general
category `Nd`, which come in runs of ten, from a zero to a nine.
-/

namespace FormatRequest

namespace Text

/-! ## Blanks -/

/-- The characters with the property `White_Space`. -/
def isBlank (c : Char) : Bool :=
  let n := c.toNat
  (0x09 ≤ n && n ≤ 0x0D) || n == 0x20 || n == 0x85 || n == 0xA0 || n == 0x1680 ||
    (0x2000 ≤ n && n ≤ 0x200A) || n == 0x2028 || n == 0x2029 || n == 0x202F || n == 0x205F ||
    n == 0x3000

/-- What `isBlank` says of the blanks of ASCII is what the standard library says of them. -/
theorem isBlank_of_isWhitespace {c : Char} (h : c.isWhitespace = true) : isBlank c = true := by
  simp only [Char.isWhitespace, Bool.or_eq_true, decide_eq_true_eq] at h
  rcases h with ((rfl | rfl) | rfl) | rfl <;> decide

/-- The text without the blanks it ends in. -/
def trimEnd (s : List Char) : List Char := (s.reverse.dropWhile isBlank).reverse

/-- The text without the blanks it starts and ends in. -/
def trim (s : List Char) : List Char := trimEnd (s.dropWhile isBlank)

/-! ## Decimal digits -/

/-- The zeros of the digit runs, in code point order. -/
def digitZeros : List Nat := [
  0x0030, 0x0660, 0x06F0, 0x07C0, 0x0966, 0x09E6, 0x0A66, 0x0AE6, 0x0B66, 0x0BE6,
  0x0C66, 0x0CE6, 0x0D66, 0x0DE6, 0x0E50, 0x0ED0, 0x0F20, 0x1040, 0x1090, 0x17E0,
  0x1810, 0x1946, 0x19D0, 0x1A80, 0x1A90, 0x1B50, 0x1BB0, 0x1C40, 0x1C50, 0xA620,
  0xA8D0, 0xA900, 0xA9D0, 0xA9F0, 0xAA50, 0xABF0, 0xFF10, 0x104A0, 0x10D30, 0x10D40,
  0x11066, 0x110F0, 0x11136, 0x111D0, 0x112F0, 0x11450, 0x114D0, 0x11650, 0x116C0, 0x116D0,
  0x116DA, 0x11730, 0x118E0, 0x11950, 0x11BF0, 0x11C50, 0x11D50, 0x11DA0, 0x11F50, 0x16130,
  0x16A60, 0x16AC0, 0x16B50, 0x16D70, 0x1CCF0, 0x1D7CE, 0x1D7D8, 0x1D7E2, 0x1D7EC, 0x1D7F6,
  0x1E140, 0x1E2F0, 0x1E4F0, 0x1E5F1, 0x1E950, 0x1FBF0]

/-- The characters of general category `Nd`. -/
def isDecimalDigit (c : Char) : Bool :=
  digitZeros.any fun first => first ≤ c.toNat && c.toNat < first + 10

/-- The ASCII digits are decimal digits. -/
theorem isDecimalDigit_of_isDigit {c : Char} (h : c.isDigit = true) : isDecimalDigit c = true := by
  have hc : 48 ≤ c.toNat ∧ c.toNat ≤ 57 := by
    simpa [Char.isDigit, UInt32.le_iff_toNat_le] using h
  exact List.any_eq_true.2 ⟨0x30, by decide, by simp; omega⟩

end Text

/-- The lines from `first` to `last`, both included. -/
structure LineSpec where
  first : UInt64
  last : UInt64
  deriving DecidableEq, Repr

namespace LineSpec

/-- The line after `n`; the last line that a word can name has none and is followed by itself. -/
def lineAfter (n : UInt64) : UInt64 := if n.toNat + 1 < UInt64.size then n + 1 else n

/-- The lines as a half-open span. -/
def span (l : LineSpec) : Span := ⟨l.first, lineAfter l.last⟩

/-- The shortest way to write the specification. -/
def text (l : LineSpec) : List Char :=
  if l.first = l.last then Decimal.ofWord l.first
  else Decimal.ofWord l.first ++ [':'] ++ Decimal.ofWord l.last

/-- Why a text is not a line specification. -/
inductive Fault
  /-- The text is neither digits nor two runs of digits around a colon. -/
  | shape (text : List Char)
  | start (cause : Decimal.Fault)
  | stop (cause : Decimal.Fault)
  /-- A line number is zero. -/
  | zero (text : List Char)
  deriving DecidableEq, Repr

/-- The wordings of a fault and of what caused it, outermost first. -/
def Fault.chain : Fault → List String
  | .shape text => [s!"Line range must be in format 'N' or 'N:M', got '{String.ofList text}'"]
  | .start cause => ["Invalid start line", cause.message]
  | .stop cause => ["Invalid end line", cause.message]
  | .zero text => [s!"Line numbers start from 1, not 0: '{String.ofList text}'"]

/-- Splits a text of one of the two shapes at its colon. -/
def parts? (text : List Char) : Option (List Char × Option (List Char)) :=
  match text.span Text.isDecimalDigit with
  | ([], _) => none
  | (start, []) => some (start, none)
  | (start, c :: stop) =>
    if c = ':' && !stop.isEmpty && stop.all Text.isDecimalDigit then some (start, some stop)
    else none

/-- Reads a text of one of the two shapes. Both numbers are read before zero is refused. -/
def ofParts (text start : List Char) (stop : Option (List Char)) : Except Fault LineSpec := do
  let first ← (Decimal.readWord start).mapError .start
  let last ← match stop with
    | none => pure first
    | some stop => (Decimal.readWord stop).mapError .stop
  if first = 0 ∨ last = 0 then throw (.zero text)
  return ⟨first, last⟩

/-- Reads a line specification, with blanks around it. -/
def parse (text : List Char) : Except Fault LineSpec :=
  let text := Text.trim text
  match parts? text with
  | none => .error (.shape text)
  | some (start, stop) => ofParts text start stop

/-- Reads a comma-separated list of line specifications. The leftmost that cannot be read is the
one reported. -/
def parseAll (text : List Char) : Except Fault (List LineSpec) :=
  (text.splitOn ',').mapM parse

/-- Writes a comma-separated list of line specifications. -/
def textAll (specs : List LineSpec) : List Char := [','].intercalate (specs.map text)

end LineSpec

end FormatRequest
