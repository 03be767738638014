import FormatRequest.Report.Field
import FormatRequest.Report.Yaml.Implicit

/-!
# The YAML report

One mapping in block style. The items of a list are not indented under its key, and a list without
items is written as `[]`. A string is written in the plainest of four styles that gives it back:
plain, single-quoted, double-quoted, or literal for several lines. Lines are never folded.
-/

namespace FormatRequest.Yaml

/-! ## Strings -/

/-- The characters that end a line. -/
def isBreak (c : Char) : Bool :=
  c == '\n' || c == '\r' || c == '\u0085' || c == '\u2028' || c == '\u2029'

/-- The space. A tab is special, so that it never shapes a string that is not escaped. -/
def isSpace (c : Char) : Bool := c == ' '

/-- The characters that separate words. -/
def isBlank (c : Char) : Bool := c == ' ' || c == '\t'

/-- The characters that can only be written as escapes. -/
def isSpecial (c : Char) : Bool :=
  let n := c.toNat
  !(c == '\n' || (0x20 ≤ n && n ≤ 0x7E) || (0xA0 ≤ n && n ≤ 0xD7FF) ||
    (0xE000 ≤ n && n ≤ 0xFFFD && n != 0xFEFF) || 0x10000 ≤ n)

/-- Whether a character of one kind stands directly before a character of another. -/
def hasPair (first second : Char → Bool) : List Char → Bool
  | c :: d :: rest => first c && second d || hasPair first second (d :: rest)
  | _ => false

/-- What ends a word: a blank, a break or the end of the text. -/
def endsWord : List Char → Bool
  | [] => true
  | c :: _ => isBlank c || isBreak c

/-- Whether a colon ends a word, as the colon after a key does. -/
def hasKeyColon : List Char → Bool
  | [] => false
  | c :: rest => c == ':' && endsWord rest || hasKeyColon rest

/-- The characters that never start a plain string. -/
def isIndicator (c : Char) : Bool := "#,[]\x7b\x7d&*!|>'\"%@`".toList.contains c

/-- Whether the start of the text has a meaning of its own. -/
def startsMarkup : List Char → Bool
  | '-' :: '-' :: '-' :: _ => true
  | '.' :: '.' :: '.' :: _ => true
  | c :: rest => isIndicator c || (c == '?' || c == '-') && endsWord rest
  | [] => false

/-- The first and the last character satisfy the predicate, one of them at least. -/
def hasEnd (p : Char → Bool) (s : List Char) : Bool := s.head?.any p || s.getLast?.any p

/-- Whether the text is the string that it shows, without any quotes. -/
def canBePlain (s : List Char) : Bool :=
  !(hasEnd isSpace s || s.any isBreak || s.any isSpecial || startsMarkup s || hasKeyColon s ||
    hasPair (fun c => isBlank c || isBreak c) (· == '#') s)

/-- Whether the string can stand between single quotes. -/
def canBeSingle (s : List Char) : Bool :=
  !(s.any isSpecial || hasPair isSpace isBreak s || hasPair isBreak isSpace s)

/-- Whether the string can be written as indented lines. -/
def canBeLiteral (s : List Char) : Bool :=
  !(s.any isSpecial || hasPair isSpace isBreak s || s.getLast?.any isSpace)

/-- The styles of a string. -/
inductive ScalarStyle
  | plain
  | single
  | double
  | literal
  deriving DecidableEq, Repr

/-- The style in which a string is written. -/
def ScalarStyle.of (s : List Char) : ScalarStyle :=
  if s.contains '\n' then if canBeLiteral s then .literal else .double
  else if !readsAsOther s && canBePlain s then .plain
  else if canBeSingle s then .single
  else .double

/-- The indentation of the lines of a string. -/
def indent : List Char := [' ', ' ']

/-- The inside of a single-quoted string. A line that is not empty is indented, the closing quote
counted as its content; `fresh` says that a line has just begun. -/
def singleBody (fresh : Bool) : List Char → List Char
  | [] => if fresh then indent else []
  | c :: rest =>
    if isBreak c then c :: singleBody true rest
    else (if fresh then indent else []) ++ (if c = '\'' then ['\'', '\''] else [c]) ++
      singleBody false rest

/-- The escape of a character that can only be written as one. -/
def specialEscape (c : Char) : List Char :=
  if c.toNat = 0x00 then ['\\', '0']
  else if c.toNat = 0x07 then ['\\', 'a']
  else if c.toNat = 0x08 then ['\\', 'b']
  else if c.toNat = 0x0B then ['\\', 'v']
  else if c.toNat = 0x0C then ['\\', 'f']
  else if c.toNat = 0x1B then ['\\', 'e']
  else if c.toNat ≤ 0xFF then '\\' :: 'x' :: Text.hexUpper 2 c.toNat
  else if c.toNat ≤ 0xFFFF then '\\' :: 'u' :: Text.hexUpper 4 c.toNat
  else '\\' :: 'U' :: Text.hexUpper 8 c.toNat

/-- A character inside double quotes. -/
def escape (c : Char) : List Char :=
  if c = '"' then ['\\', '"']
  else if c = '\\' then ['\\', '\\']
  else if c = '\n' then ['\\', 'n']
  else if c = '\r' then ['\\', 'r']
  else if c = '\t' then ['\\', 't']
  else if c = '\u0085' then ['\\', 'N']
  else if c = '\u2028' then ['\\', 'L']
  else if c = '\u2029' then ['\\', 'P']
  else if isSpecial c then specialEscape c
  else [c]

/-- The indentation is stated if the first line does not show it. -/
def indentHint (s : List Char) : List Char :=
  if s.head?.any (fun c => isSpace c || isBreak c) then ['2'] else []

/-- What becomes of the breaks at the end: without a hint there is one. -/
def endHint (s : List Char) : List Char :=
  match s.reverse with
  | [] => ['-']
  | [last] => if isBreak last then ['+'] else ['-']
  | last :: before :: _ =>
    if !isBreak last then ['-'] else if isBreak before then ['+'] else []

/-- The lines of a literal string, each that is not empty indented, up to the end of the last
one; `fresh` says that a line has just begun. -/
def literalBody (fresh : Bool) : List Char → List Char
  | [] => if fresh then [] else ['\n']
  | c :: rest =>
    if isBreak c then c :: literalBody true rest
    else (if fresh then indent else []) ++ c :: literalBody false rest

/-- A string in a style, with the end of its last line. -/
def scalarAs (s : List Char) : ScalarStyle → List Char
  | .plain => s ++ ['\n']
  | .single => ['\''] ++ singleBody false s ++ ['\'', '\n']
  | .double => ['"'] ++ s.flatMap escape ++ ['"', '\n']
  | .literal => ['|'] ++ indentHint s ++ endHint s ++ ['\n'] ++ literalBody true s

/-- A YAML string, with the end of its last line. -/
def scalar (s : String) : List Char := scalarAs s.toList (ScalarStyle.of s.toList)

/-! ## The report -/

/-- A number as a line. -/
def number (n : UInt64) : List Char := Decimal.ofWord n ++ ['\n']

/-- The items of a list under a key. -/
def items : List (List Char) → List Char
  | [] => " []\n".toList
  | items => '\n' :: items.flatMap (['-', ' '] ++ ·)

/-- What follows the colon of a key. -/
def value : FieldValue → List Char
  | .flag on => [' '] ++ boolText on ++ ['\n']
  | .number n => [' '] ++ number n
  | .text s => [' '] ++ scalar s
  | .texts ss => items (ss.map scalar)
  | .numbers ns => items (ns.map number)
  | .spans spans =>
    items (spans.map fun s => "- ".toList ++ number s.start ++ "  - ".toList ++ number s.stop)

/-- The entry of a field. -/
def entry (f : Field) : List Char := f.key.toList ++ [':'] ++ value f.value

/-- The report of some fields. -/
def report (fields : List Field) : List Char := fields.flatMap entry

end FormatRequest.Yaml
