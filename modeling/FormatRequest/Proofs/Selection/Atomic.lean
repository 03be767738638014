import FormatRequest.Proofs.LineSpec.RoundTrip
import FormatRequest.Proofs.Selection.Order

/-!
# A value is selected whole or not at all

All of a value is read before any of it is added. So a value that cannot be read adds nothing, not
even the specifications in front of the one that is at fault, while the values before it stay
added. A specification that is only inverted is no such fault: it is added like any other, and its
line range is remembered.

Results:
1. `LineSpec.parseAll_eq_error_iff`: the leftmost fault of a value is the one reported.
2. `selectLines_frame`: a selection changes nothing but the lines and the refused range.
3. `selectLines_inverted`: an inverted specification.
4. `selectLines_atomic`: the draft after a selection, and its fault.
-/

namespace FormatRequest

/-- The text has an item that is no specification, and the cause is what is wrong with the first such
item. -/
def LineSpec.LeftmostFault (text : List Char) (cause : LineSpec.Fault) : Prop :=
  ∃ before token after, text.splitOn ',' = before ++ token :: after ∧
    (∀ other ∈ before, ∃ spec, LineSpec.parse other = .ok spec) ∧
    LineSpec.parse token = .error cause

theorem LineSpec.parseAll_eq_error_iff {text : List Char} {cause : LineSpec.Fault} :
    LineSpec.parseAll text = .error cause ↔ LineSpec.LeftmostFault text cause :=
  mapM_eq_error_iff

namespace Draft

variable {d : Draft} {specs : List LineSpec} {values : List String}

/-! ## What does not change -/

theorem addSpecs_frame :
    d.addSpecs specs =
      { d with lines := (d.addSpecs specs).lines, refused := (d.addSpecs specs).refused } := by
  induction specs generalizing d with
  | nil => rfl
  | cons spec specs ih =>
    have hstep : d.addSpecs (spec :: specs) = (d.addLineRange spec.span).addSpecs specs := rfl
    rw [hstep, ih]
    simp only [toSettings_addLineRange, files_addLineRange, offsets_addLineRange,
      lengths_addLineRange]

/-- Whatever the values are, the draft after them is one to which specifications were added. -/
theorem exists_addSpecs : ∃ specs, (d.selectLines values).1 = d.addSpecs specs := by
  induction values generalizing d with
  | nil => exact ⟨[], rfl⟩
  | cons value values ih =>
    cases hparse : LineSpec.parseAll value.toList with
    | error cause => exact ⟨[], by rw [selectLines_cons_of_error hparse]; rfl⟩
    | ok specs =>
      obtain ⟨more, hmore⟩ := ih (d := d.addSpecs specs)
      exact ⟨specs ++ more, by rw [selectLines_cons_of_ok hparse, hmore, addSpecs_append]⟩

theorem selectLines_frame :
    (d.selectLines values).1 =
      { d with
        lines := (d.selectLines values).1.lines
        refused := (d.selectLines values).1.refused } := by
  have hadded : ∃ specs, (d.selectLines values).1 = d.addSpecs specs := exists_addSpecs
  obtain ⟨specs, hspecs⟩ := hadded
  rw [hspecs]
  exact addSpecs_frame

/-! ## Inverted specifications -/

/-- An inverted specification is read, and its line range is remembered. -/
theorem selectLines_inverted {spec : LineSpec} (hlast : spec.last ≠ 0)
    (h : spec.last < spec.first) :
    d.selectLines [String.ofList spec.text] =
      ({ d with refused := some (d.refused.getD spec.span) }, none) := by
  have hfirst : spec.first ≠ 0 := UInt64.pos_iff_ne_zero.mp (UInt64.lt_of_le_of_lt UInt64.zero_le h)
  have hproper : ¬ spec.span.Proper := LineSpec.not_proper_span_iff.mpr (.inl h)
  have hparse : LineSpec.parseAll (String.ofList spec.text).toList = .ok [spec] := by
    rw [String.toList_ofList]
    exact LineSpec.parseAll_text hfirst hlast
  rw [selectLines_cons_of_ok hparse]
  exact congrArg (·, none) (addLineRange_of_not_proper hproper)

/-! ## Selections -/

/-- Values that can all be read add the line ranges of all their specifications in order. Of values
that cannot all be read, those before the first that cannot are added, and its fault is reported:
which value it is, and the leftmost fault in it. -/
theorem selectLines_atomic (d : Draft) (values : List String) :
    ((∀ value ∈ values, Readable value) →
      ∃ specs, (lineTokens values).mapM LineSpec.parse = .ok specs ∧
        d.selectLines values =
          (d.applyAll (specs.map fun spec => .addLineRange spec.span), none)) ∧
    ((¬ ∀ value ∈ values, Readable value) →
      ∃ k, ∃ h : k < values.length, ∃ cause,
        (∀ value ∈ values.take k, Readable value) ∧
        LineSpec.LeftmostFault values[k].toList cause ∧
        d.selectLines values = ((d.selectLines (values.take k)).1, some ⟨values[k], cause⟩) ∧
        SelectionFault.chain ⟨values[k], cause⟩ =
          ("Invalid --lines value '" ++ values[k] ++ "'") :: cause.chain) ∧
    (d.selectLines values).1 =
      { d with
        lines := (d.selectLines values).1.lines
        refused := (d.selectLines values).1.refused } ∧
    ∀ spec : LineSpec, spec.last ≠ 0 → spec.last < spec.first →
      d.selectLines [String.ofList spec.text] =
        ({ d with refused := some (d.refused.getD spec.span) }, none) := by
  refine ⟨fun hread => ?_, fun hunread => ?_, selectLines_frame, fun spec => selectLines_inverted⟩
  · have hnone : (d.selectLines values).2 = none := fault_selectLines_eq_none_iff.mpr hread
    obtain ⟨specs, hspecs, hselected⟩ := selectLines_eq hnone
    exact ⟨specs, hspecs, Prod.ext (hselected.trans addSpecs_eq_applyAll) hnone⟩
  · obtain ⟨⟨value, cause⟩, ⟨before, after, rfl, hbefore⟩, hcause⟩ :=
      exists_firstUnreadable hunread
    refine ⟨before.length, by simp, cause, ?_, ?_, ?_, ?_⟩
    · rwa [List.take_left]
    · simpa using LineSpec.parseAll_eq_error_iff.mp hcause
    · rw [selectLines_append hbefore, selectLines_cons_of_error hcause, List.take_left]
      simp
    · rfl

end Draft

end FormatRequest
