import FormatRequest.LineSpec
import FormatRequest.Request

/-!
# Drafts

A draft collects what a request is made of, in any order and with any values. Nothing is refused
on the way: a span without points is remembered, and what is wrong with a draft is said when the
request is built from it.

A user selects lines with any number of values, each a list of line specifications. A value that
cannot be read adds nothing, and no value after it is looked at; the values before it stay added.
-/

namespace FormatRequest

/-- A request in the making. -/
structure Draft extends Settings where
  files : List String := []
  lines : RangeSet := ∅
  /-- The first line range that has no line. -/
  refused : Option Span := none
  offsets : List UInt64 := []
  lengths : List UInt64 := []
  deriving DecidableEq, Repr

/-- One addition to a draft. -/
inductive Step
  | addFile (name : String)
  | addFiles (names : List String)
  | addLineRange (span : Span)
  | addOffset (offset : UInt64)
  | addLength (length : UInt64)
  | switch (which : Switch) (on : Bool)
  | maxWidth (width : UInt64)
  | assumeFilename (name : String)
  deriving DecidableEq, Repr

namespace Draft

instance : Inhabited Draft := ⟨{}⟩

/-- Adds a line range. Of the ranges without lines the first is remembered. -/
def addLineRange (d : Draft) (span : Span) : Draft :=
  match d.lines.insert span with
  | .ok lines => { d with lines }
  | .error _ => { d with refused := some (d.refused.getD span) }

/-- The draft after one addition. -/
def apply (d : Draft) : Step → Draft
  | .addFile name => { d with files := d.files ++ [name] }
  | .addFiles names => { d with files := d.files ++ names }
  | .addLineRange span => d.addLineRange span
  | .addOffset offset => { d with offsets := d.offsets ++ [offset] }
  | .addLength length => { d with lengths := d.lengths ++ [length] }
  | .switch which on => { d with toSettings := d.toSettings.put which on }
  | .maxWidth width => { d with maxWidth := width }
  | .assumeFilename name => { d with assumeFilename := some name }

/-- The draft after additions in order. -/
def applyAll (d : Draft) (steps : List Step) : Draft := steps.foldl apply d

/-- The draft that additions make of an empty one. -/
def ofSteps (steps : List Step) : Draft := applyAll {} steps

@[simp] theorem applyAll_nil (d : Draft) : d.applyAll [] = d := rfl

@[simp] theorem applyAll_cons (d : Draft) (step : Step) (steps : List Step) :
    d.applyAll (step :: steps) = (d.apply step).applyAll steps := rfl

theorem applyAll_append (d : Draft) (steps more : List Step) :
    d.applyAll (steps ++ more) = (d.applyAll steps).applyAll more :=
  List.foldl_append

/-- The offsets with the lengths at the same places. -/
def regions (d : Draft) : List Region := d.offsets.zipWith Region.mk d.lengths

/-- The request that the draft describes. The faults are looked for in a fixed order: line ranges,
the pairing of offsets and lengths, regions without a character, the width. -/
def build (d : Draft) : Except Fault Request :=
  match d.refused with
  | some span => .error (.invalidRange span)
  | none =>
    if d.offsets.length ≠ d.lengths.length then
      .error (.mismatchedPairing d.offsets.length d.lengths.length)
    else
      match d.regions.find? (·.length == 0) with
      | some region => .error (.invalidRange ⟨region.offset, region.offset⟩)
      | none =>
        if d.maxWidth = 0 then .error (.invalidWidth d.maxWidth)
        else
          .ok { d.toSettings with
            files := d.files, lines := d.lines, offsets := d.offsets, lengths := d.lengths }

end Draft

/-- A value that is no list of line specifications. -/
structure SelectionFault where
  value : String
  cause : LineSpec.Fault
  deriving DecidableEq, Repr

/-- The wordings of the fault and of what caused it, outermost first. -/
def SelectionFault.chain (f : SelectionFault) : List String :=
  s!"Invalid --lines value '{f.value}'" :: f.cause.chain

namespace Draft

/-- Adds the lines of some specifications. -/
def addSpecs (d : Draft) (specs : List LineSpec) : Draft :=
  specs.foldl (fun d spec => d.addLineRange spec.span) d

/-- Adds the lines of some values, up to the first that cannot be read. -/
def selectLines (d : Draft) : List String → Draft × Option SelectionFault
  | [] => (d, none)
  | value :: rest =>
    match LineSpec.parseAll value.toList with
    | .ok specs => (d.addSpecs specs).selectLines rest
    | .error cause => (d, some ⟨value, cause⟩)

end Draft

end FormatRequest
