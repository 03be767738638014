import FormatRequest.Request

/-!
# Fields of a report

The data formats report a request as the same list of named values. Their order is fixed, and the
name assumed for standard input is left out when there is none. The formats also share the words for
truth values, and the digits of code points in character escapes.
-/

namespace FormatRequest

/-- The value of a field. -/
inductive FieldValue
  | flag (on : Bool)
  | number (n : UInt64)
  | text (s : String)
  | texts (ss : List String)
  | numbers (ns : List UInt64)
  | spans (spans : List Span)
  deriving DecidableEq, Repr

/-- A named value. -/
structure Field where
  key : String
  value : FieldValue
  deriving DecidableEq, Repr

/-- The fields of a request in the order in which they are reported. -/
def Request.fields (r : Request) : List Field :=
  [⟨"files", .texts r.files⟩,
    ⟨"in_place", .flag r.inPlace⟩,
    ⟨"lines", .spans r.lines.toList⟩,
    ⟨"offsets", .numbers r.offsets⟩,
    ⟨"lengths", .numbers r.lengths⟩,
    ⟨"aosp", .flag r.aosp⟩,
    ⟨"max_width", .number r.maxWidth⟩,
    ⟨"version", .flag r.version⟩,
    ⟨"help", .flag r.help⟩,
    ⟨"stdin", .flag r.stdin⟩,
    ⟨"fix_imports_only", .flag r.fixImportsOnly⟩,
    ⟨"sort_imports", .flag r.sortImports⟩,
    ⟨"remove_unused_imports", .flag r.removeUnusedImports⟩,
    ⟨"dry_run", .flag r.dryRun⟩,
    ⟨"set_exit_if_changed", .flag r.setExitIfChanged⟩] ++
  r.assumeFilename.toList.map (fun name => ⟨"assume_filename", .text name⟩) ++
  [⟨"reflow_long_strings", .flag r.reflowLongStrings⟩,
    ⟨"format_javadoc", .flag r.formatJavadoc⟩]

/-- The word for a truth value, the same in all formats. -/
def boolText (b : Bool) : List Char := if b then "true".toList else "false".toList

namespace Text

/-- The last `width` hexadecimal digits of `n`, in lower case. -/
def hexLower : (width n : Nat) → List Char
  | 0, _ => []
  | width + 1, n => hexLower width (n / 16) ++ [Nat.digitChar (n % 16)]

/-- The last `width` hexadecimal digits of `n`, in upper case. -/
def hexUpper (width n : Nat) : List Char := (hexLower width n).map Char.toUpper

end Text

end FormatRequest
