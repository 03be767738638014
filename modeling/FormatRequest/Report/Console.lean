import FormatRequest.Report.Field

/-!
# The console report

A summary for people, one line for each concern: inputs, selection, style, imports, output. Names
are written as they are.
-/

namespace FormatRequest.Console

/-- The lines that name the inputs. -/
def inputs (r : Request) : List (List Char) :=
  if r.stdin then
    ["Input: standard input (as ".toList ++ (r.assumeFilename.getD "<stdin>").toList ++ [')']]
  else if r.files.isEmpty then ["Input: none".toList]
  else
    ("Input: ".toList ++ Decimal.digits r.files.length ++ " file(s)".toList) ::
      r.files.map fun file => "  └─ ".toList ++ file.toList

/-- The line for a region. -/
def region (g : Region) : List Char :=
  "Region: offset ".toList ++ Decimal.ofWord g.offset ++ ", length ".toList ++
    Decimal.ofWord g.length

/-- The lines that say which part of the input is meant. -/
def selection (r : Request) : List (List Char) :=
  if r.isSelection then
    (if r.lines.isEmpty then [] else ["Lines: ".toList ++ r.lines.text]) ++ r.regions.map region
  else ["Selection: whole file".toList]

/-- The name of a style. -/
def styleName : Style → List Char
  | .google => "Google".toList
  | .aosp => "Aosp".toList

/-- The line for the style and the width. -/
def style (r : Request) : List Char :=
  "Style: ".toList ++ styleName r.style ++ " (max width ".toList ++ Decimal.ofWord r.maxWidth ++
    [')']

/-- The line for what is done to imports. -/
def imports (r : Request) : List Char :=
  "Imports: ".toList ++ (if r.fixImportsOnly then "fix only" else "format").toList ++
    " (sort: ".toList ++ boolText r.sortImports ++ ", remove unused: ".toList ++
    boolText r.removeUnusedImports ++ [')']

/-- The line for what is done to string literals and comments. -/
def javaText (r : Request) : List Char :=
  "Reflow long strings: ".toList ++ boolText r.reflowLongStrings ++ ", format javadoc: ".toList ++
    boolText r.formatJavadoc

/-- The line for where the output goes; a dry run writes nothing back. -/
def output (r : Request) : List Char :=
  "Output: ".toList ++
    (if r.dryRun then "dry run" else if r.inPlace then "in place" else "stdout").toList ++
    " (exit if changed: ".toList ++ boolText r.setExitIfChanged ++ [')']

/-- The lines of the report. -/
def lines (r : Request) : List (List Char) :=
  ["📄 Formatting request".toList, List.replicate 21 '='] ++ inputs r ++ selection r ++
    [style r, imports r, javaText r, output r]

/-- The report of a request. -/
def report (r : Request) : List Char := (lines r).flatMap (· ++ ['\n'])

end FormatRequest.Console
