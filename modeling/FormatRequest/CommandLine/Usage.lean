import FormatRequest.CommandLine.Opt
import FormatRequest.Delivery

/-!
# The usage text

The text that answers a request for help. The options are explained in two columns, and the first
column is as wide as its widest entry.
-/

namespace FormatRequest.CommandLine

/-- What a flag does. -/
def Flag.summary : Flag → String
  | replace => "Send formatted output back to files, not stdout"
  | aosp => "Use AOSP style instead of Google Style (4-space indentation)"
  | fixImportsOnly =>
    "Fix import order and remove any unused imports, but do no other formatting"
  | skipSortingImports => "Do not fix the import order"
  | skipRemovingUnusedImports => "Do not remove unused imports"
  | skipReflowingLongStrings => "Do not reflow string literals that exceed the column limit"
  | skipJavadocFormatting => "Do not reformat javadoc"
  | dryRun => "Print the paths of the files whose contents would change"
  | setExitIfChanged => "Return exit code 1 if there are any formatting changes"
  | version => "Print the version"
  | help => "Print this usage statement"

/-- What a parameter does. -/
def Parameter.summary : Parameter → String
  | lines => "Line range(s) to format, like 5:10 (1-based; default is all code)"
  | offset => "Character offset to format (0-based; default is all code)"
  | length => "Character length to format"
  | lineLength => "Maximal line length"
  | assumeFilename => "File name to use for diagnostics when formatting standard input"
  | outputFormat => "How to print the resolved request"
  | exportPath => "Write the resolved request to this file instead of stdout"

namespace Opt

/-- What an option does. -/
def summary : Opt → String
  | flag f => f.summary
  | parameter p => p.summary

/-- The other spellings of an option. -/
def otherSpellings (o : Opt) : List String :=
  (o.letters.drop 1).map (fun c => "-" ++ c.toString) ++ o.aliases.map ("--" ++ ·)

/-- Remarks on an option, in brackets. -/
def remarks (o : Opt) : List String :=
  let spellings := match o.otherSpellings with
    | [] => []
    | [one] => [s!"[alias: {one}]"]
    | several => ["[aliases: " ++ ", ".intercalate several ++ "]"]
  let values := match o with
    | parameter .outputFormat =>
      [s!"[default: {ReportFormat.console.name}]",
        "[possible values: " ++ ", ".intercalate (ReportFormat.all.map (·.name)) ++ "]"]
    | _ => []
  spellings ++ values

/-- The entry of an option in the first column. -/
def entry (o : Opt) : String :=
  (match o.letters.head? with
    | some c => s!"  -{c}, "
    | none => "      ") ++ o.shown

/-- The width of the first column. -/
def entryWidth : Nat := (all.map (·.entry.length)).foldl max 0

/-- The line that explains an option. -/
def explanation (o : Opt) : String :=
  let gap := String.ofList (List.replicate (entryWidth + 2 - o.entry.length) ' ')
  o.entry ++ gap ++ " ".intercalate (o.summary :: o.remarks) ++ "\n"

end Opt

/-- The usage text. -/
def usageText : String :=
  "Resolve Java formatter flags into a formatting request\n\n" ++
  "Usage: " ++ programName ++ " [OPTIONS] [FILES]...\n\n" ++
  "Arguments:\n  [FILES]...  Files to format; `-` reads standard input\n\n" ++
  "Options:\n" ++ String.join (Opt.all.map Opt.explanation) ++ "\n"

end FormatRequest.CommandLine
