import FormatRequest.CommandLine.Occurrence
import FormatRequest.Report
import FormatRequest.Draft

/-!
# Arguments

What the occurrences of a command line say together. The line ranges, offsets and lengths may be
given any number of times, every other option once.
-/

namespace FormatRequest.CommandLine

/-- The values that a command line gives. -/
structure Arguments where
  files : List String := []
  flags : Flag → Bool := fun _ => false
  lines : List String := []
  offsets : List UInt64 := []
  lengths : List UInt64 := []
  lineLength : Option UInt64 := none
  assumeFilename : Option String := none
  outputFormat : Option ReportFormat := none
  exportPath : Option String := none

namespace Arguments

/-- Reads the number that a parameter is given. -/
def number (p : Parameter) (value : String) : Except UsageFault UInt64 :=
  (Decimal.readWord value.toList).mapError fun cause => .invalidValue p value (some cause)

/-- Reads the format that is asked for. -/
def format (value : String) : Except UsageFault ReportFormat :=
  if value = "" then .error (.missingValue .outputFormat)
  else
    match ReportFormat.ofName? value with
    | some f => .ok f
    | none => .error (.invalidValue .outputFormat value none)

/-- Reads the path of an export, which cannot be empty. -/
def path (value : String) : Except UsageFault String :=
  if value = "" then .error (.missingValue .exportPath) else .ok value

/-- Reads a value that may be given once. That it was given before is noticed before it is read. -/
def once {α : Type} (p : Parameter) (given : Option α) (read : Except UsageFault α) :
    Except UsageFault (Option α) :=
  if given.isSome then .error (.givenAgain (.parameter p)) else read.map some

/-- The arguments with one more occurrence. -/
def accept (a : Arguments) : Occurrence → Except UsageFault Arguments
  | .file name => .ok { a with files := a.files ++ [name] }
  | .flag f =>
    if a.flags f then .error (.givenAgain (.flag f))
    else .ok { a with flags := fun g => g == f || a.flags g }
  | .parameter .lines value => .ok { a with lines := a.lines ++ [value] }
  | .parameter .offset value =>
    (number .offset value).map fun n => { a with offsets := a.offsets ++ [n] }
  | .parameter .length value =>
    (number .length value).map fun n => { a with lengths := a.lengths ++ [n] }
  | .parameter .lineLength value =>
    (once .lineLength a.lineLength (number .lineLength value)).map fun n =>
      { a with lineLength := n }
  | .parameter .assumeFilename value =>
    (once .assumeFilename a.assumeFilename (.ok value)).map fun n => { a with assumeFilename := n }
  | .parameter .outputFormat value =>
    (once .outputFormat a.outputFormat (format value)).map fun n => { a with outputFormat := n }
  | .parameter .exportPath value =>
    (once .exportPath a.exportPath (path value)).map fun n => { a with exportPath := n }

/-- The arguments of some occurrences. -/
def ofOccurrences (occurrences : List Occurrence) : Except UsageFault Arguments :=
  occurrences.foldlM accept {}

/-- Reads a command line. A fault of an occurrence is reported before one that ends the
occurrences. -/
def ofWords (words : List String) : Except UsageFault Arguments := do
  let s := scan words
  let a ← ofOccurrences s.occurrences
  match s.fault with
  | none => return a
  | some fault => throw fault

/-- The file name that stands for standard input. -/
def stdinName : String := "-"

/-- What a file adds to a draft. -/
def fileStep (name : String) : Step :=
  if name = stdinName then .switch .stdin true else .addFile name

/-- What a flag adds to a draft, given or not. -/
def flagStep (a : Arguments) (f : Flag) : Step :=
  let (which, on) := f.setting
  .switch which (a.flags f == on)

/-- What the arguments add to a draft after the files and the line ranges. -/
def optionSteps (a : Arguments) : List Step :=
  a.offsets.map .addOffset ++ a.lengths.map .addLength ++ a.lineLength.toList.map .maxWidth ++
    a.assumeFilename.toList.map .assumeFilename ++ Flag.all.map a.flagStep

/-- The draft that the arguments describe. -/
def draft (a : Arguments) : Except SelectionFault Draft :=
  match (Draft.ofSteps (a.files.map fileStep)).selectLines a.lines with
  | (d, none) => .ok (d.applyAll a.optionSteps)
  | (_, some fault) => .error fault

end Arguments

end FormatRequest.CommandLine
