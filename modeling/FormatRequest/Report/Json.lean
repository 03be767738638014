import FormatRequest.Report.Field

/-!
# The JSON report

One object with a member for each field, laid out with two spaces for each level and every element
of an array on a line of its own.
-/

namespace FormatRequest.Json

/-- A character inside a JSON string. Only what JSON does not allow there is escaped. -/
def escape (c : Char) : List Char :=
  if c = '"' then ['\\', '"']
  else if c = '\\' then ['\\', '\\']
  else if c = '\n' then ['\\', 'n']
  else if c = '\r' then ['\\', 'r']
  else if c = '\t' then ['\\', 't']
  else if c.toNat = 0x08 then ['\\', 'b']
  else if c.toNat = 0x0C then ['\\', 'f']
  else if c.toNat < 0x20 then '\\' :: 'u' :: Text.hexLower 4 c.toNat
  else [c]

/-- A JSON string. -/
def quoted (s : String) : List Char := ['"'] ++ s.toList.flatMap escape ++ ['"']

/-- The start of a line at some depth. -/
def newLine (depth : Nat) : List Char := '\n' :: List.replicate (2 * depth) ' '

/-- An array whose brackets are at some depth. -/
def array (depth : Nat) : List (List Char) → List Char
  | [] => ['[', ']']
  | items =>
    ['['] ++ [','].intercalate (items.map (newLine (depth + 1) ++ ·)) ++ newLine depth ++ [']']

/-- The value of a member of the report. -/
def value : FieldValue → List Char
  | .flag on => boolText on
  | .number n => Decimal.ofWord n
  | .text s => quoted s
  | .texts ss => array 1 (ss.map quoted)
  | .numbers ns => array 1 (ns.map Decimal.ofWord)
  | .spans spans =>
    array 1 (spans.map fun s => array 2 [Decimal.ofWord s.start, Decimal.ofWord s.stop])

/-- A member of the report, on a new line. -/
def member (f : Field) : List Char := newLine 1 ++ quoted f.key ++ [':', ' '] ++ value f.value

/-- The report of some fields. -/
def report (fields : List Field) : List Char :=
  ['\x7b'] ++ [','].intercalate (fields.map member) ++ ['\n', '\x7d']

end FormatRequest.Json
