import Mathlib.Data.List.Perm.Basic
import FormatRequest.Proofs.Selection.Lines
import FormatRequest.Proofs.Selection.Values
import FormatRequest.Proofs.Traversal

/-!
# The order of a selection

The first value that cannot be read is reported, and so is the first specification without a line.
Where there is neither, the values only select lines, and their order does not matter.

Main result: `selectLines_of_perm`, a selection without faults in another order.
-/

namespace FormatRequest

theorem RangeSet.foldl_eq_of_perm {r : RangeSet} (h : r.Canonical) {spans others : List Span}
    (hperm : others.Perm spans) :
    others.foldl insertIfProper r = spans.foldl insertIfProper r := by
  refine eq_of_mem_iff (canonical_foldl others h) (canonical_foldl spans h) fun p => ?_
  rw [mem_foldl others h, mem_foldl spans h]
  simp only [hperm.mem_iff]

namespace Draft

variable {d : Draft} {specs others : List LineSpec} {values more : List String}

theorem addSpecs_of_proper (h : ∀ spec ∈ specs, spec.span.Proper) :
    d.addSpecs specs =
      { d with lines := (specs.map LineSpec.span).foldl RangeSet.insertIfProper d.lines } := by
  induction specs generalizing d with
  | nil => rfl
  | cons spec specs ih =>
    obtain ⟨hspec, hspecs⟩ := List.forall_mem_cons.mp h
    have hstep : d.addSpecs (spec :: specs) = (d.addLineRange spec.span).addSpecs specs := rfl
    rw [hstep, addLineRange_of_proper hspec, ih hspecs]
    rfl

theorem addSpecs_of_perm (hcanonical : d.lines.Canonical) (h : ∀ spec ∈ specs, spec.span.Proper)
    (hperm : others.Perm specs) : d.addSpecs others = d.addSpecs specs := by
  have hothers : ∀ spec ∈ others, spec.span.Proper :=
    fun spec hspec => h spec (hperm.mem_iff.mp hspec)
  rw [addSpecs_of_proper h, addSpecs_of_proper hothers,
    RangeSet.foldl_eq_of_perm hcanonical (hperm.map LineSpec.span)]

/-- Values that can be read, and that select a line with each specification, may come in any
order. -/
theorem selectLines_of_perm (hcanonical : d.lines.Canonical)
    (hread : (d.selectLines values).2 = none) (hrefused : (d.selectLines values).1.refused = none)
    (hperm : more.Perm values) :
    d.selectLines more = d.selectLines values := by
  have hreadMore : (d.selectLines more).2 = none := by
    rw [fault_selectLines_eq_none_iff] at hread ⊢
    exact fun value hvalue => hread value (hperm.mem_iff.mp hvalue)
  obtain ⟨specs, hspecs, hselected⟩ := selectLines_eq hread
  obtain ⟨others, hothers, hselectedMore⟩ := selectLines_eq hreadMore
  -- the specifications are those of the same tokens in another order
  have htokens : (lineTokens more).Perm (lineTokens values) := hperm.flatMap_right _
  rw [mapM_eq_ok_iff] at hspecs hothers
  obtain ⟨read, hread', hspecsPerm⟩ := List.perm_comp_forall₂ htokens hspecs
  have hsame : read = others := by
    rw [← mapM_eq_ok_iff] at hread' hothers
    exact Except.ok.inj (hread'.symm.trans hothers)
  rw [hsame] at hspecsPerm
  have hproper : ∀ spec ∈ specs, spec.span.Proper := by
    rw [hselected, refused_addSpecs, Option.or_eq_none_iff, List.find?_eq_none] at hrefused
    intro spec hspec
    simpa using hrefused.2 spec.span (List.mem_map_of_mem hspec)
  refine Prod.ext ?_ (hreadMore.trans hread.symm)
  rw [hselected, hselectedMore, addSpecs_of_perm hcanonical hproper hspecsPerm]

end Draft

end FormatRequest
