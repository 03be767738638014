import Mathlib.Data.List.Basic
import FormatRequest.Draft
import FormatRequest.Proofs.RangeSet.Union

/-!
# What a draft remembers of its history

A draft is made by steps, in any order and number. Each of its fields is a summary of the history of
its own steps and of no others: lists hold what was added in order, line ranges are united, of the
refused line ranges the first is kept, and of the values of a setting the last.

Results:
1. `files_ofSteps`, `offsets_ofSteps`, `lengths_ofSteps`: the lists.
2. `lines_ofSteps`, `refused_ofSteps`: the line ranges.
3. `get_ofSteps`, `maxWidth_ofSteps`, `assumeFilename_ofSteps`: the settings.
-/

namespace FormatRequest

/-! ## What a step adds -/

namespace Step

/-- The files that the step adds. -/
def files : Step → List String
  | .addFile name => [name]
  | .addFiles names => names
  | _ => []

/-- The line range that the step adds, with or without points. -/
def lineRange? : Step → Option Span
  | .addLineRange span => some span
  | _ => none

/-- The offset that the step adds. -/
def offset? : Step → Option UInt64
  | .addOffset offset => some offset
  | _ => none

/-- The length that the step adds. -/
def length? : Step → Option UInt64
  | .addLength length => some length
  | _ => none

/-- What the step turns the switch `w` to. -/
def switch? (w : Switch) : Step → Option Bool
  | .switch which on => if w = which then some on else none
  | _ => none

/-- The line width that the step sets. -/
def width? : Step → Option UInt64
  | .maxWidth width => some width
  | _ => none

/-- The file name for standard input that the step sets. -/
def name? : Step → Option String
  | .assumeFilename name => some name
  | _ => none

end Step

/-- The switches that are on until they are turned off. -/
def Switch.onByDefault : Switch → Bool
  | .sortImports | .removeUnusedImports | .reflowLongStrings | .formatJavadoc => true
  | _ => false

/-- The steps by which a draft was made, first to last. -/
abbrev History := List Step

namespace History

/-- All files, in the order in which they were added. -/
def files (steps : History) : List String := steps.flatMap Step.files

/-- All line ranges that were tried, in order. -/
def lineRanges (steps : History) : List Span := steps.filterMap Step.lineRange?

/-- All offsets in order. -/
def offsets (steps : History) : List UInt64 := steps.filterMap Step.offset?

/-- All lengths in order. -/
def lengths (steps : History) : List UInt64 := steps.filterMap Step.length?

/-- What the switch was last turned to. -/
def lastSwitch? (steps : History) (w : Switch) : Option Bool :=
  (steps.filterMap (Step.switch? w)).getLast?

/-- The line width that was set last. -/
def lastWidth? (steps : History) : Option UInt64 := (steps.filterMap Step.width?).getLast?

/-- The file name for standard input that was set last. -/
def lastName? (steps : History) : Option String := (steps.filterMap Step.name?).getLast?

end History

namespace Draft

variable {d : Draft} {span : Span}

/-! ## One step -/

theorem addLineRange_of_proper (h : span.Proper) :
    d.addLineRange span = { d with lines := d.lines.insertIfProper span } := by
  unfold addLineRange
  rw [RangeSet.insert_of_proper h]

theorem addLineRange_of_not_proper (h : ¬ span.Proper) :
    d.addLineRange span = { d with refused := some (d.refused.getD span) } := by
  unfold addLineRange
  rw [RangeSet.insert_eq_error h]

theorem lines_addLineRange : (d.addLineRange span).lines = d.lines.insertIfProper span := by
  by_cases h : span.Proper
  · rw [addLineRange_of_proper h]
  · rw [addLineRange_of_not_proper h, RangeSet.insertIfProper_of_not_proper h]

/-- Of the line ranges without points the first is kept. -/
theorem refused_addLineRange :
    (d.addLineRange span).refused =
      d.refused.or (if span.Proper then none else some span) := by
  by_cases h : span.Proper
  · rw [addLineRange_of_proper h, if_pos h, Option.or_none]
  · rw [addLineRange_of_not_proper h, if_neg h]
    cases d.refused <;> rfl

/-- A line range changes the lines or the refused range, and nothing else. -/
theorem addLineRange_frame :
    d.addLineRange span =
      { d with
        lines := (d.addLineRange span).lines, refused := (d.addLineRange span).refused } := by
  by_cases h : span.Proper
  · rw [addLineRange_of_proper h]
  · rw [addLineRange_of_not_proper h]

@[simp] theorem toSettings_addLineRange : (d.addLineRange span).toSettings = d.toSettings := by
  rw [addLineRange_frame]

@[simp] theorem files_addLineRange : (d.addLineRange span).files = d.files := by
  rw [addLineRange_frame]

@[simp] theorem offsets_addLineRange : (d.addLineRange span).offsets = d.offsets := by
  rw [addLineRange_frame]

@[simp] theorem lengths_addLineRange : (d.addLineRange span).lengths = d.lengths := by
  rw [addLineRange_frame]

theorem files_apply (d : Draft) (step : Step) : (d.apply step).files = d.files ++ step.files := by
  cases step <;> simp [apply, Step.files]

theorem offsets_apply (d : Draft) (step : Step) :
    (d.apply step).offsets = d.offsets ++ step.offset?.toList := by
  cases step <;> simp [apply, Step.offset?]

theorem lengths_apply (d : Draft) (step : Step) :
    (d.apply step).lengths = d.lengths ++ step.length?.toList := by
  cases step <;> simp [apply, Step.length?]

theorem get_apply (w : Switch) (d : Draft) (step : Step) :
    (d.apply step).toSettings.get w = (step.switch? w).getD (d.toSettings.get w) := by
  cases step with
  | switch which on =>
    show (d.toSettings.put which on).get w = _
    rw [Settings.get_put]
    show _ = (if w = which then some on else none).getD _
    split <;> rfl
  | addLineRange span =>
    show (d.addLineRange span).toSettings.get w = _
    rw [toSettings_addLineRange]
    rfl
  | _ => cases w <;> rfl

theorem maxWidth_apply (d : Draft) (step : Step) :
    (d.apply step).maxWidth = step.width?.getD d.maxWidth := by
  cases step <;> simp [apply, Step.width?]

theorem assumeFilename_apply (d : Draft) (step : Step) :
    (d.apply step).assumeFilename = (step.name?.map some).getD d.assumeFilename := by
  cases step <;> simp [apply, Step.name?]

theorem lines_apply (d : Draft) (step : Step) :
    (d.apply step).lines = step.lineRange?.elim d.lines d.lines.insertIfProper := by
  cases step with
  | addLineRange span => exact lines_addLineRange
  | _ => rfl

theorem refused_apply (d : Draft) (step : Step) :
    (d.apply step).refused = d.refused.or (step.lineRange?.filter (¬ ·.Proper)) := by
  cases step with
  | addLineRange span =>
    refine refused_addLineRange.trans (congrArg d.refused.or ?_)
    by_cases h : span.Proper <;> simp [Step.lineRange?, Option.filter, h]
  | _ => exact Option.or_none.symm

/-! ## Many steps -/

/-- A field to which every step appends holds what was appended, in order. -/
theorem applyAll_appends {α : Type} (field : Draft → List α) {added : Step → List α}
    (h : ∀ d step, field (d.apply step) = field d ++ added step) (d : Draft) (steps : History) :
    field (d.applyAll steps) = field d ++ steps.flatMap added := by
  induction steps generalizing d with
  | nil => exact (List.append_nil _).symm
  | cons step steps ih => rw [applyAll_cons, ih, h, List.flatMap_cons, List.append_assoc]

/-- A field that steps overwrite holds what was written last. -/
theorem applyAll_overwrites {α : Type} (field : Draft → α) {written? : Step → Option α}
    (h : ∀ d step, field (d.apply step) = (written? step).getD (field d)) (d : Draft)
    (steps : History) :
    field (d.applyAll steps) = (steps.filterMap written?).getLast?.getD (field d) := by
  induction steps generalizing d with
  | nil => rfl
  | cons step steps ih =>
    rw [applyAll_cons, ih, h]
    cases hw : written? step with
    | none => rw [List.filterMap_cons_none hw, Option.getD_none]
    | some a =>
      rw [List.filterMap_cons_some hw, List.getLast?_cons, Option.getD_some, Option.getD_some]

theorem offsets_applyAll (d : Draft) (steps : History) :
    (d.applyAll steps).offsets = d.offsets ++ steps.offsets := by
  rw [History.offsets, List.filterMap_eq_flatMap_toList]
  exact applyAll_appends (·.offsets) offsets_apply d steps

theorem lengths_applyAll (d : Draft) (steps : History) :
    (d.applyAll steps).lengths = d.lengths ++ steps.lengths := by
  rw [History.lengths, List.filterMap_eq_flatMap_toList]
  exact applyAll_appends (·.lengths) lengths_apply d steps

theorem maxWidth_applyAll (d : Draft) (steps : History) :
    (d.applyAll steps).maxWidth = steps.lastWidth?.getD d.maxWidth :=
  applyAll_overwrites (·.maxWidth) maxWidth_apply d steps

theorem lines_applyAll (d : Draft) (steps : History) :
    (d.applyAll steps).lines = steps.lineRanges.foldl RangeSet.insertIfProper d.lines := by
  induction steps generalizing d with
  | nil => rfl
  | cons step steps ih =>
    rw [applyAll_cons, ih, lines_apply]
    unfold History.lineRanges
    cases hs : step.lineRange? with
    | none => rw [List.filterMap_cons_none hs, Option.elim_none]
    | some span => rw [List.filterMap_cons_some hs, Option.elim_some, List.foldl_cons]

theorem refused_applyAll (d : Draft) (steps : History) :
    (d.applyAll steps).refused = d.refused.or (steps.lineRanges.find? (¬ ·.Proper)) := by
  induction steps generalizing d with
  | nil => exact Option.or_none.symm
  | cons step steps ih =>
    -- what was refused before the step stays, so only the rest of the history is compared
    rw [applyAll_cons, ih, refused_apply, Option.or_assoc]
    refine congrArg d.refused.or ?_
    unfold History.lineRanges
    cases hs : step.lineRange? with
    | none => rw [List.filterMap_cons_none hs, Option.filter_none, Option.none_or]
    | some span =>
      rw [List.filterMap_cons_some hs, List.find?_cons]
      by_cases hp : span.Proper <;> simp [Option.filter, hp]

/-! ## A draft made from nothing -/

theorem files_ofSteps (steps : History) : (ofSteps steps).files = steps.files :=
  applyAll_appends (·.files) files_apply {} steps

theorem offsets_ofSteps (steps : History) : (ofSteps steps).offsets = steps.offsets :=
  offsets_applyAll {} steps

theorem lengths_ofSteps (steps : History) : (ofSteps steps).lengths = steps.lengths :=
  lengths_applyAll {} steps

theorem lines_ofSteps (steps : History) :
    (ofSteps steps).lines = RangeSet.ofList steps.lineRanges :=
  lines_applyAll {} steps

/-- The lines of a draft are canonical at every moment. -/
theorem canonical_lines_ofSteps (steps : History) : (ofSteps steps).lines.Canonical := by
  rw [lines_ofSteps]
  exact RangeSet.canonical_ofList _

theorem refused_ofSteps (steps : History) :
    (ofSteps steps).refused = steps.lineRanges.find? (¬ ·.Proper) :=
  (refused_applyAll {} steps).trans Option.none_or

theorem get_ofSteps (steps : History) (w : Switch) :
    (ofSteps steps).toSettings.get w = (steps.lastSwitch? w).getD w.onByDefault := by
  refine (applyAll_overwrites (·.toSettings.get w) (get_apply w) {} steps).trans ?_
  cases w <;> rfl

theorem maxWidth_ofSteps (steps : History) :
    (ofSteps steps).maxWidth = steps.lastWidth?.getD 100 :=
  maxWidth_applyAll {} steps

theorem assumeFilename_ofSteps (steps : History) :
    (ofSteps steps).assumeFilename = steps.lastName? := by
  have hmap : steps.filterMap (fun step => step.name?.map some) =
      (steps.filterMap Step.name?).map some := List.map_filterMap.symm
  refine (applyAll_overwrites (·.assumeFilename) assumeFilename_apply {} steps).trans ?_
  rw [hmap, List.getLast?_map, History.lastName?]
  cases (steps.filterMap Step.name?).getLast? <;> rfl

end Draft

end FormatRequest
