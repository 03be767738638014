import FormatRequest.Report.Field

/-!
# The TOML report

A line `key = value` for each field. Strings are written in the first of the four forms of
TOML in which they need no escape, as far as there is one; arrays of two or more elements are
written over several lines.
-/

namespace FormatRequest.Toml

/-- The length of the longest run of `c`, where a run of length `run` ends the text before. -/
def longestRunFrom (c : Char) (run : Nat) : List Char → Nat
  | [] => run
  | d :: rest =>
    if d = c then longestRunFrom c (run + 1) rest else max run (longestRunFrom c 0 rest)

/-- The length of the longest run of `c`. -/
def longestRun (c : Char) (s : List Char) : Nat := longestRunFrom c 0 s

/-- The control characters that no form takes unescaped. -/
def isControl (c : Char) : Bool := (c.toNat < 0x20 && c != '\t' && c != '\n') || c.toNat == 0x7F

/-- The forms of a string. -/
inductive StringForm
  | basic
  | literal
  | multilineBasic
  | multilineLiteral
  deriving DecidableEq, Repr

namespace StringForm

/-- Whether the string can be written in the form without an escape. A tab counts as fit for
the basic forms, though they escape it. -/
def fits (s : List Char) : StringForm → Bool
  | basic => !s.any isControl && !s.contains '\\' && !s.contains '\n' && longestRun '"' s == 0
  | literal => !s.any isControl && !s.contains '\n' && longestRun '\'' s == 0
  | multilineBasic => !s.any isControl && !s.contains '\\' && longestRun '"' s ≤ 2
  | multilineLiteral => !s.any isControl && longestRun '\'' s ≤ 2

/-- The form in which the string is written: the first that fits it, and if none does a basic
one with escapes. -/
def of (s : List Char) : StringForm :=
  ([basic, literal, multilineBasic, multilineLiteral].find? (fits s)).getD
    (if s.contains '\n' then multilineBasic else basic)

end StringForm

/-- A character other than a quote in a basic form. -/
def escape (multiline : Bool) (c : Char) : List Char :=
  if c = '\\' then ['\\', '\\']
  else if c = '\t' then ['\\', 't']
  else if c = '\n' then if multiline then ['\n'] else ['\\', 'n']
  else if c = '\r' then ['\\', 'r']
  else if c.toNat = 0x08 then ['\\', 'b']
  else if c.toNat = 0x0C then ['\\', 'f']
  else if isControl c then '\\' :: 'u' :: Text.hexUpper 4 c.toNat
  else [c]

/-- The inside of a string in a basic form. Up to `free` quotes in a row stand unescaped, and
the next one is escaped and starts a new row; `run` is the length of the row so far. -/
def basicBody (multiline : Bool) (free run : Nat) : List Char → List Char
  | [] => []
  | c :: rest =>
    if c = '"' then
      if run < free then '"' :: basicBody multiline free (run + 1) rest
      else '\\' :: '"' :: basicBody multiline free 0 rest
    else escape multiline c ++ basicBody multiline free 0 rest

/-- What follows the opening quotes of a multi-line form: a string of several lines starts on a
line of its own. -/
def opening (s : List Char) : List Char := if s.contains '\n' then ['\n'] else []

/-- A string in a form. -/
def quotedAs (s : List Char) : StringForm → List Char
  | .basic => ['"'] ++ basicBody false 0 0 s ++ ['"']
  | .literal => ['\''] ++ s ++ ['\'']
  | .multilineBasic => ['"', '"', '"'] ++ opening s ++ basicBody true 2 0 s ++ ['"', '"', '"']
  | .multilineLiteral => ['\'', '\'', '\''] ++ opening s ++ s ++ ['\'', '\'', '\'']

/-- A TOML string. -/
def quoted (s : String) : List Char := quotedAs s.toList (StringForm.of s.toList)

/-- An array. The elements of a nested array are indented no further. -/
def array : List (List Char) → List Char
  | [] => ['[', ']']
  | [item] => ['['] ++ item ++ [']']
  | items => ['['] ++ items.flatMap (fun item => "\n    ".toList ++ item ++ [',']) ++ ['\n', ']']

/-- The value of a field. -/
def value : FieldValue → List Char
  | .flag on => boolText on
  | .number n => Decimal.ofWord n
  | .text s => quoted s
  | .texts ss => array (ss.map quoted)
  | .numbers ns => array (ns.map Decimal.ofWord)
  | .spans spans => array (spans.map fun s => array [Decimal.ofWord s.start, Decimal.ofWord s.stop])

/-- The line of a field. -/
def line (f : Field) : List Char := f.key.toList ++ " = ".toList ++ value f.value ++ ['\n']

/-- The report of some fields. -/
def report (fields : List Field) : List Char := fields.flatMap line

end FormatRequest.Toml
