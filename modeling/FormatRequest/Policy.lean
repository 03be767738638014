import FormatRequest.Draft

/-!
# Policy and resolution

A request can be sound in its numbers and still ask for things that do not go together. The rules
that it breaks are reported all at once, in a fixed order. A request for help or for the version
breaks none, since nothing will be formatted. A draft resolves to the request built from it when
that request breaks no rule.
-/

namespace FormatRequest

/-- The rules for requests, in the order in which they are reported. -/
inductive Rule
  | someInput
  | stdinOrFiles
  | nameForStdinOnly
  | filesForInPlace
  | dryRunOrInPlace
  | selectionOfOneFile
  | selectionOrImports
  deriving DecidableEq, Repr

namespace Rule

/-- What is said of a request that breaks the rule. -/
def message : Rule → String
  | someInput => "no files were provided"
  | stdinOrFiles => "cannot format from standard input and files simultaneously"
  | nameForStdinOnly => "--assume-filename is only supported when formatting standard input"
  | filesForInPlace => "in-place formatting was requested but no files were provided"
  | dryRunOrInPlace => "cannot use --dry-run and --in-place at the same time"
  | selectionOfOneFile => "partial formatting is only supported for a single file"
  | selectionOrImports => "--fix-imports-only cannot be combined with a line or offset selection"

/-- All rules in order. -/
def all : List Rule :=
  [someInput, stdinOrFiles, nameForStdinOnly, filesForInPlace, dryRunOrInPlace,
    selectionOfOneFile, selectionOrImports]

theorem mem_all (rule : Rule) : rule ∈ all := by
  cases rule <;> decide

/-- Whether the request breaks the rule. -/
def brokenBy (r : Request) : Rule → Bool
  | someInput => r.inputCount == 0
  | stdinOrFiles => r.stdin && !r.files.isEmpty
  | nameForStdinOnly => r.assumeFilename.isSome && !r.stdin
  | filesForInPlace => r.inPlace && r.stdin
  | dryRunOrInPlace => r.dryRun && r.inPlace
  | selectionOfOneFile => r.isSelection && r.inputCount > 1
  | selectionOrImports => r.isSelection && r.fixImportsOnly

end Rule

/-- The rules that the request breaks, in order. -/
def Request.brokenRules (r : Request) : List Rule :=
  if r.help || r.version then [] else Rule.all.filter (Rule.brokenBy r)

/-- Why a draft does not resolve. -/
inductive ResolutionFault
  | invalid (cause : Fault)
  /-- The request breaks these rules, at least one. -/
  | refused (rules : List Rule)
  deriving DecidableEq, Repr

/-- The wordings of the fault and of what caused it, outermost first. Broken rules share one
wording. -/
def ResolutionFault.chain : ResolutionFault → List String
  | .invalid cause => ["Invalid formatting request", cause.message]
  | .refused rules => ["; ".intercalate (rules.map Rule.message)]

/-- The request that a draft resolves to. -/
def Draft.resolve (d : Draft) : Except ResolutionFault Request :=
  match d.build with
  | .error cause => .error (.invalid cause)
  | .ok r => if r.brokenRules.isEmpty then .ok r else .error (.refused r.brokenRules)

end FormatRequest
