import FormatRequest.Proofs.Selection.Lines
import FormatRequest.Proofs.Selection.Values
import FormatRequest.Proofs.Traversal

/-!
# How a selection is grouped into values

A value is a list of specifications, and a selection is a list of values. What is selected depends
only on the specifications in order, not on which of them share a value: values can be joined with
commas, and joined values can be taken apart. Only where something cannot be read does the grouping
show, since of the value at fault nothing is selected.

Results:
1. `lineTokens_joined`: the specifications of joined values.
2. `readable_iff_tokens`, `selectLines_of_tokens_eq`: a selection by its specifications.
3. `selectLines_regrouped`: values joined with commas, and values in two parts.
-/

namespace FormatRequest

variable {values others : List String}

/-! ## The specifications of joined values -/

theorem splitOn_intercalate_comma (text : List Char) (texts : List (List Char)) :
    ([','].intercalate (text :: texts)).splitOn ',' =
      (text :: texts).flatMap (·.splitOn ',') := by
  induction texts generalizing text with
  | nil => rw [List.intercalate_singleton, List.flatMap_singleton]
  | cons next texts ih =>
    rw [List.intercalate_cons_cons, List.flatMap_cons, ← ih next, List.append_assoc]
    exact List.splitOn_append_cons_self text _

/-- Joining values with commas keeps all specifications, in order. -/
theorem lineTokens_joined (hne : values ≠ []) :
    lineTokens [",".intercalate values] = lineTokens values := by
  obtain ⟨value, values, rfl⟩ := List.exists_cons_of_ne_nil hne
  have hsplit := splitOn_intercalate_comma value.toList (values.map String.toList)
  unfold lineTokens
  rw [List.flatMap_singleton, String.toList_intercalate]
  refine hsplit.trans ?_
  rw [← List.map_cons, List.flatMap_map]

/-! ## A selection by its specifications -/

/-- All values can be read exactly if all specifications can. -/
theorem readable_iff_tokens :
    (∀ value ∈ values, Readable value) ↔
      ∃ specs, (lineTokens values).mapM LineSpec.parse = .ok specs := by
  induction values with
  | nil => exact iff_of_true nofun ⟨[], rfl⟩
  | cons value values ih =>
    have htokens : lineTokens (value :: values) =
        value.toList.splitOn ',' ++ lineTokens values := List.flatMap_cons
    rw [List.forall_mem_cons, ih, htokens]
    simp only [mapM_append_eq_ok_iff]
    constructor
    · rintro ⟨⟨specs, hspecs⟩, more, hmore⟩
      exact ⟨_, specs, more, hspecs, hmore, rfl⟩
    · rintro ⟨_, specs, more, hspecs, hmore, rfl⟩
      exact ⟨⟨specs, hspecs⟩, more, hmore⟩

namespace Draft

variable {d : Draft}

theorem fault_eq_none_of_tokens_eq (h : lineTokens values = lineTokens others) :
    (d.selectLines values).2 = none ↔ (d.selectLines others).2 = none := by
  rw [fault_selectLines_eq_none_iff, fault_selectLines_eq_none_iff, readable_iff_tokens,
    readable_iff_tokens, h]

/-- Values with the same specifications select the same, if they can be read. -/
theorem selectLines_of_tokens_eq (h : lineTokens values = lineTokens others)
    (hread : (d.selectLines values).2 = none) :
    d.selectLines values = d.selectLines others := by
  have hreadOthers : (d.selectLines others).2 = none := (fault_eq_none_of_tokens_eq h).mp hread
  obtain ⟨specs, hspecs, hselected⟩ := selectLines_eq hread
  obtain ⟨specs', hspecs', hselected'⟩ := selectLines_eq hreadOthers
  rw [h, hspecs'] at hspecs
  obtain rfl := Except.ok.inj hspecs
  exact Prod.ext (hselected.trans hselected'.symm) (hread.trans hreadOthers.symm)

/-- Values joined with commas are read exactly if the values are, and the draft after them is then
the same. And whatever the values are, a selection of some and then of others is the selection of
both together, where nothing is selected after a fault. -/
theorem selectLines_regrouped (d : Draft) :
    (∀ values : List String, values ≠ [] →
      ((d.selectLines [",".intercalate values]).2 = none ↔ (d.selectLines values).2 = none) ∧
      ((d.selectLines values).2 = none →
        (d.selectLines [",".intercalate values]).1 = (d.selectLines values).1)) ∧
    ∀ values more : List String,
      d.selectLines (values ++ more) = thenSelect (d.selectLines values) more := by
  refine ⟨fun values hne => ⟨?_, fun hread => ?_⟩, fun values more => ?_⟩
  · exact fault_eq_none_of_tokens_eq (lineTokens_joined hne)
  · rw [selectLines_of_tokens_eq (lineTokens_joined hne).symm hread]
  · exact (thenSelect_selectLines d values more).symm

/-- The inverted range that is remembered is the same when the values are joined. -/
theorem selectLines_joined_inverted :
    (selectLines {} ["5:7, 9:3", "2:1"]).2 = none ∧
      (selectLines {} ["5:7, 9:3,2:1"]).1.refused = some ⟨9, 4⟩ := by
  have hread : (selectLines {} ["5:7, 9:3", "2:1"]).2 = none := by decide +kernel
  have hsame := ((selectLines_regrouped {}).1 ["5:7, 9:3", "2:1"] (by decide)).2 hread
  refine ⟨hread, ?_⟩
  show (selectLines {} [",".intercalate ["5:7, 9:3", "2:1"]]).1.refused = _
  rw [hsame]
  decide +kernel

end Draft

end FormatRequest
