import FormatRequest.Draft

/-!
# Which values a selection reads

The values are read in order, and a value that cannot be read ends the selection. The draft then has
the lines of the values before it and nothing of the others.

Results:
1. `thenSelect_selectLines`, `selectLines_append`: some values and others after them.
2. `fault_selectLines_eq_none_iff`, `fault_selectLines_eq_some_iff`: when a selection fails, and
   which of its values is reported.
-/

namespace FormatRequest

/-- The value is a list of line specifications. -/
def Readable (value : String) : Prop := ∃ specs, LineSpec.parseAll value.toList = .ok specs

/-- The value of the fault is the first that cannot be read. -/
structure FirstUnreadable (values : List String) (fault : SelectionFault) : Prop where
  readable : ∃ before after, values = before ++ fault.value :: after ∧
    ∀ value ∈ before, Readable value
  cause : LineSpec.parseAll fault.value.toList = .error fault.cause

namespace Draft

variable {d : Draft} {value : String} {values more : List String}

theorem selectLines_cons_of_ok {specs : List LineSpec}
    (h : LineSpec.parseAll value.toList = .ok specs) :
    d.selectLines (value :: values) = (d.addSpecs specs).selectLines values := by
  rw [selectLines, h]

theorem selectLines_cons_of_error {cause : LineSpec.Fault}
    (h : LineSpec.parseAll value.toList = .error cause) :
    d.selectLines (value :: values) = (d, some ⟨value, cause⟩) := by
  rw [selectLines, h]

/-- Goes on with more values, unless a fault has ended the selection. -/
def thenSelect : Draft × Option SelectionFault → List String → Draft × Option SelectionFault
  | (d, none), more => d.selectLines more
  | (d, some fault), _ => (d, some fault)

/-- A selection can be made in two parts. -/
theorem thenSelect_selectLines (d : Draft) (values more : List String) :
    thenSelect (d.selectLines values) more = d.selectLines (values ++ more) := by
  induction values generalizing d with
  | nil => rfl
  | cons value values ih =>
    cases hparse : LineSpec.parseAll value.toList with
    | error cause =>
      rw [List.cons_append, selectLines_cons_of_error hparse, selectLines_cons_of_error hparse]
      rfl
    | ok specs =>
      rw [List.cons_append, selectLines_cons_of_ok hparse, selectLines_cons_of_ok hparse]
      exact ih (d.addSpecs specs)

theorem fault_selectLines_eq_none_iff :
    (d.selectLines values).2 = none ↔ ∀ value ∈ values, Readable value := by
  induction values generalizing d with
  | nil => exact iff_of_true rfl (by nofun)
  | cons value values ih =>
    rw [List.forall_mem_cons]
    cases hparse : LineSpec.parseAll value.toList with
    | error cause =>
      rw [selectLines_cons_of_error hparse]
      refine iff_of_false nofun fun h => ?_
      obtain ⟨specs, hspecs⟩ := h.1
      rw [hparse] at hspecs
      cases hspecs
    | ok specs =>
      rw [selectLines_cons_of_ok hparse, ih]
      exact (and_iff_right ⟨specs, hparse⟩).symm

/-- After values that can all be read, the selection goes on with the others. -/
theorem selectLines_append (h : ∀ value ∈ values, Readable value) :
    d.selectLines (values ++ more) = (d.selectLines values).1.selectLines more := by
  have hnone : (d.selectLines values).2 = none := fault_selectLines_eq_none_iff.mpr h
  have hselected : d.selectLines values = ((d.selectLines values).1, none) := Prod.ext rfl hnone
  rw [← thenSelect_selectLines, hselected]
  rfl

theorem fault_selectLines_eq_some_iff {fault : SelectionFault} :
    (d.selectLines values).2 = some fault ↔ FirstUnreadable values fault := by
  constructor
  · intro h
    induction values generalizing d with
    | nil => cases h
    | cons value values ih =>
      cases hparse : LineSpec.parseAll value.toList with
      | error cause =>
        rw [selectLines_cons_of_error hparse] at h
        obtain rfl := Option.some.inj h
        exact ⟨⟨[], values, rfl, by nofun⟩, hparse⟩
      | ok specs =>
        rw [selectLines_cons_of_ok hparse] at h
        obtain ⟨⟨before, after, rfl, hbefore⟩, hcause⟩ := ih h
        exact ⟨⟨value :: before, after, rfl, List.forall_mem_cons.mpr ⟨⟨specs, hparse⟩, hbefore⟩⟩,
          hcause⟩
  · rintro ⟨⟨before, after, rfl, hbefore⟩, hcause⟩
    rw [selectLines_append hbefore, selectLines_cons_of_error hcause]

end Draft

theorem exists_firstUnreadable {values : List String} (h : ¬ ∀ value ∈ values, Readable value) :
    ∃ fault, FirstUnreadable values fault := by
  cases hfault : (Draft.selectLines {} values).2 with
  | none => exact absurd (Draft.fault_selectLines_eq_none_iff.mp hfault) h
  | some fault => exact ⟨fault, Draft.fault_selectLines_eq_some_iff.mp hfault⟩

end FormatRequest
