import FormatRequest.Settings

/-!
# Options

The options of the command line and their spellings. A flag stands alone and turns a setting on or
off; a parameter is followed by a value. Every spelling belongs to one option only.
-/

namespace FormatRequest.CommandLine

/-- The options without a value. -/
inductive Flag
  | replace
  | aosp
  | fixImportsOnly
  | skipSortingImports
  | skipRemovingUnusedImports
  | skipReflowingLongStrings
  | skipJavadocFormatting
  | dryRun
  | setExitIfChanged
  | version
  | help
  deriving DecidableEq, Repr

/-- The options with a value. -/
inductive Parameter
  | lines
  | offset
  | length
  | lineLength
  | assumeFilename
  | outputFormat
  | exportPath
  deriving DecidableEq, Repr

/-- An option. -/
inductive Opt
  | flag (f : Flag)
  | parameter (p : Parameter)
  deriving DecidableEq, Repr

namespace Flag

/-- All flags. -/
def all : List Flag :=
  [replace, aosp, fixImportsOnly, skipSortingImports, skipRemovingUnusedImports,
    skipReflowingLongStrings, skipJavadocFormatting, dryRun, setExitIfChanged, version, help]

/-- The long name. -/
def name : Flag → String
  | replace => "replace"
  | aosp => "aosp"
  | fixImportsOnly => "fix-imports-only"
  | skipSortingImports => "skip-sorting-imports"
  | skipRemovingUnusedImports => "skip-removing-unused-imports"
  | skipReflowingLongStrings => "skip-reflowing-long-strings"
  | skipJavadocFormatting => "skip-javadoc-formatting"
  | dryRun => "dry-run"
  | setExitIfChanged => "set-exit-if-changed"
  | version => "version"
  | help => "help"

/-- Other long names. -/
def aliases : Flag → List String
  | replace => ["in-place"]
  | _ => []

/-- The letters that stand for the flag. -/
def letters : Flag → List Char
  | replace => ['i', 'r']
  | aosp => ['a']
  | dryRun => ['n']
  | version => ['v']
  | help => ['h']
  | _ => []

/-- The setting that the flag is about, and whether it is on when the flag is given. -/
def setting : Flag → Switch × Bool
  | replace => (.inPlace, true)
  | aosp => (.aosp, true)
  | fixImportsOnly => (.fixImportsOnly, true)
  | skipSortingImports => (.sortImports, false)
  | skipRemovingUnusedImports => (.removeUnusedImports, false)
  | skipReflowingLongStrings => (.reflowLongStrings, false)
  | skipJavadocFormatting => (.formatJavadoc, false)
  | dryRun => (.dryRun, true)
  | setExitIfChanged => (.setExitIfChanged, true)
  | version => (.version, true)
  | help => (.help, true)

theorem mem_all (f : Flag) : f ∈ all := by
  cases f <;> decide

end Flag

namespace Parameter

/-- All parameters. -/
def all : List Parameter :=
  [lines, offset, length, lineLength, assumeFilename, outputFormat, exportPath]

/-- The long name. -/
def name : Parameter → String
  | lines => "lines"
  | offset => "offset"
  | length => "length"
  | lineLength => "line-length"
  | assumeFilename => "assume-filename"
  | outputFormat => "output-format"
  | exportPath => "export"

/-- Other long names. -/
def aliases : Parameter → List String
  | lines => ["line"]
  | _ => []

/-- What the value is called. -/
def placeholder : Parameter → String
  | lines => "N:M"
  | offset => "OFFSET"
  | length => "LENGTH"
  | lineLength => "WIDTH"
  | assumeFilename => "NAME"
  | outputFormat => "OUTPUT_FORMAT"
  | exportPath => "PATH"

theorem mem_all (p : Parameter) : p ∈ all := by
  cases p <;> decide

end Parameter

namespace Opt

/-- The options in the order in which they are explained. -/
def all : List Opt :=
  [flag .replace, parameter .lines, parameter .offset, parameter .length, flag .aosp,
    parameter .lineLength, flag .fixImportsOnly, flag .skipSortingImports,
    flag .skipRemovingUnusedImports, flag .skipReflowingLongStrings, flag .skipJavadocFormatting,
    flag .dryRun, flag .setExitIfChanged, parameter .assumeFilename, flag .version, flag .help,
    parameter .outputFormat, parameter .exportPath]

/-- The long name. -/
def name : Opt → String
  | flag f => f.name
  | parameter p => p.name

/-- Other long names. -/
def aliases : Opt → List String
  | flag f => f.aliases
  | parameter p => p.aliases

/-- The letters that stand for the option. -/
def letters : Opt → List Char
  | flag f => f.letters
  | parameter _ => []

/-- The option with its value, as messages and explanations name it. -/
def shown : Opt → String
  | flag f => "--" ++ f.name
  | parameter p => "--" ++ p.name ++ " <" ++ p.placeholder ++ ">"

/-- The option of a long name. -/
def ofName? (name : List Char) : Option Opt :=
  all.find? fun o => (o.name :: o.aliases).any (·.toList == name)

/-- The flag of a letter. -/
def ofLetter? (letter : Char) : Option Flag := Flag.all.find? (·.letters.contains letter)

theorem mem_all (o : Opt) : o ∈ all := by
  cases o with
  | flag f => cases f <;> decide
  | parameter p => cases p <;> decide

end Opt

end FormatRequest.CommandLine
