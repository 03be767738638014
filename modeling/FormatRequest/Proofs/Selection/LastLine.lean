import FormatRequest.Proofs.LineSpec.RoundTrip
import FormatRequest.Proofs.Selection.Lines
import FormatRequest.Proofs.Selection.Values

/-!
# One specification and its last line

A specification includes its last line. Added to an empty draft it makes a request for the lines that
it names, but for one line: the greatest word is a line that can be named, and a half-open range that
has it would have to stop after it. The range stops at it instead. So a specification that ends with
that line loses it, and one that names no other line has an empty range, which keeps every request
from being built.

Results:
1. `LineSpec.mem_span_iff_ne_lastWord`: the lines of the range.
2. `selectLines_of_parse`, `build_addLineRange_of_proper`: the draft, and the request of its only
   line range.
3. `honoured_iff`: the specifications whose lines are all selected.
4. `selectLines_accepted`: what becomes of any accepted specification that is not inverted.
5. `not_honoured_lastLine`: the exception.
-/

namespace FormatRequest

theorem eq_lastWord_of_le {n : UInt64} (h : lastWord ≤ n) : n = lastWord :=
  UInt64.le_antisymm (toNat_le_lastWord n) h

/-- The range stops at the greatest word at the latest. -/
theorem LineSpec.mem_span_iff_ne_lastWord {spec : LineSpec} {n : UInt64} :
    n ∈ spec.span ↔ spec.first ≤ n ∧ n ≤ spec.last ∧ n ≠ lastWord := by
  by_cases hn : n = lastWord
  · rw [hn]
    exact iff_of_false Span.not_lastWord_mem fun h => h.2.2 rfl
  · have hlt : n < lastWord := UInt64.lt_of_le_of_ne (toNat_le_lastWord n) hn
    rw [mem_span_iff hlt]
    exact ⟨fun h => ⟨h.1, h.2, hn⟩, fun h => ⟨h.1, h.2.1⟩⟩

namespace Draft

variable {d : Draft} {span : Span} {value : String} {spec : LineSpec}

/-! ## A single line range -/

theorem selectLines_of_parse (h : LineSpec.parse value.toList = .ok spec) :
    d.selectLines [value] = (d.addLineRange spec.span, none) := by
  rw [selectLines_cons_of_ok (LineSpec.parseAll_of_parse h)]
  rfl

theorem contains_insertIfProper_empty {n : UInt64} :
    ((∅ : RangeSet).insertIfProper span).contains n = true ↔ n ∈ span := by
  have hcanonical := RangeSet.canonical_insertIfProper (s := span) RangeSet.canonical_empty
  rw [RangeSet.contains_iff_mem hcanonical, RangeSet.mem_insertIfProper RangeSet.canonical_empty]
  exact or_iff_left RangeSet.not_mem_empty

/-- A line range with lines makes a request for these lines. -/
theorem build_addLineRange_of_proper (h : span.Proper) :
    ∃ r, (addLineRange {} span).build = .ok r ∧ ∀ n, r.lines.contains n = true ↔ n ∈ span := by
  have hwidth : (100 : UInt64) ≠ 0 := by decide
  rw [addLineRange_of_proper h]
  exact ⟨_, build_of_sound rfl rfl List.not_mem_nil hwidth,
    fun n => contains_insertIfProper_empty⟩

theorem build_addLineRange_of_not_proper (h : ¬ span.Proper) :
    (addLineRange {} span).build = .error (.invalidRange span) := by
  rw [addLineRange_of_not_proper h]
  exact build_of_refused rfl

/-! ## The lines of a specification -/

/-- `Honoured value spec`: the value selects all lines of the specification, the last included. The
range of the specification has a line, and an empty draft to which the value is added makes a request
for just the lines from the first to the last. -/
structure Honoured (value : String) (spec : LineSpec) : Prop where
  proper : spec.span.start < spec.span.stop
  selected : ∃ d r, selectLines {} [value] = (d, none) ∧ d.build = .ok r ∧
    ∀ n, r.lines.contains n = true ↔ spec.first ≤ n ∧ n ≤ spec.last

theorem exists_request_of_first_ne (hparse : LineSpec.parse value.toList = .ok spec)
    (hle : spec.first ≤ spec.last) (hfirst : spec.first ≠ lastWord) :
    spec.span.Proper ∧ ∃ d r, selectLines {} [value] = (d, none) ∧ d.build = .ok r ∧
      ∀ n, r.lines.contains n = true ↔ spec.first ≤ n ∧ n ≤ spec.last ∧ n ≠ lastWord := by
  have hproper : spec.span.Proper := LineSpec.proper_span_iff.mpr
    ⟨hle, UInt64.lt_of_le_of_ne (toNat_le_lastWord spec.first) hfirst⟩
  obtain ⟨r, hbuild, hlines⟩ := build_addLineRange_of_proper hproper
  refine ⟨hproper, _, r, selectLines_of_parse hparse, hbuild, fun n => ?_⟩
  rw [hlines, LineSpec.mem_span_iff_ne_lastWord]

/-- All lines are selected unless the last is the one that no range has. -/
theorem honoured_iff (hparse : LineSpec.parse value.toList = .ok spec)
    (hle : spec.first ≤ spec.last) : Honoured value spec ↔ spec.last ≠ lastWord := by
  constructor
  · rintro ⟨hproper, d, r, hselect, hbuild, hlines⟩ hlast
    have hfirst := UInt64.ne_of_lt (LineSpec.proper_span_iff.mp hproper).2
    obtain ⟨_, d', r', hselect', hbuild', hlines'⟩ := exists_request_of_first_ne hparse hle hfirst
    obtain rfl : d' = d := congrArg Prod.fst (hselect'.symm.trans hselect)
    obtain rfl : r' = r := Except.ok.inj (hbuild'.symm.trans hbuild)
    have hcontains := (hlines lastWord).mpr ⟨toNat_le_lastWord spec.first, hlast ▸ Nat.le_refl _⟩
    exact ((hlines' lastWord).mp hcontains).2.2 rfl
  · intro hlast
    have hfirst : spec.first ≠ lastWord := fun h => hlast (eq_lastWord_of_le (h ▸ hle))
    obtain ⟨hproper, d, r, hselect, hbuild, hlines⟩ :=
      exists_request_of_first_ne hparse hle hfirst
    refine ⟨hproper, d, r, hselect, hbuild, fun n => (hlines n).trans ?_⟩
    refine ⟨fun h => ⟨h.1, h.2.1⟩, fun h => ⟨h.1, h.2, ?_⟩⟩
    rintro rfl
    exact hlast (eq_lastWord_of_le h.2)

/-- Whatever specification is accepted and not inverted, its lines are all selected unless the last is
the greatest word. If it is, the others are selected without it, and if there are no others the range
is empty and is the fault of the request. -/
theorem selectLines_accepted (value : String) (spec : LineSpec)
    (hparse : LineSpec.parse value.toList = .ok spec) (hle : spec.first ≤ spec.last) :
    (Honoured value spec ↔ spec.last ≠ lastWord) ∧
    (spec.first ≠ lastWord →
      spec.span.start < spec.span.stop ∧
      ∃ d r, selectLines {} [value] = (d, none) ∧ d.build = .ok r ∧
        ∀ n, r.lines.contains n = true ↔ spec.first ≤ n ∧ n ≤ spec.last ∧ n ≠ lastWord) ∧
    (spec.first = lastWord →
      spec.span = ⟨lastWord, lastWord⟩ ∧
      ∃ d, selectLines {} [value] = (d, none) ∧
        d.build = .error (.invalidRange ⟨lastWord, lastWord⟩)) := by
  refine ⟨honoured_iff hparse hle, exists_request_of_first_ne hparse hle, fun hfirst => ?_⟩
  have hlast : spec.last = lastWord := eq_lastWord_of_le (hfirst ▸ hle)
  have hspan : spec.span = ⟨lastWord, lastWord⟩ := by
    unfold LineSpec.span
    rw [hfirst, hlast]
    rfl
  refine ⟨hspan, _, selectLines_of_parse hparse, ?_⟩
  rw [hspan]
  exact build_addLineRange_of_not_proper (by decide)

/-- A specification of two lines that loses the second, and one that selects both. -/
theorem selectLines_exLastLines :
    (LineSpec.parse "18446744073709551614:18446744073709551615".toList =
        .ok ⟨18446744073709551614, lastWord⟩ ∧
      (18446744073709551614 : UInt64) ≤ lastWord ∧
      ∃ d r, selectLines {} ["18446744073709551614:18446744073709551615"] = (d, none) ∧
        d.build = .ok r ∧
        ∀ n, r.lines.contains n = true ↔ 18446744073709551614 ≤ n ∧ n ≤ lastWord ∧ n ≠ lastWord) ∧
    (LineSpec.parse " 09:10\t".toList = .ok ⟨9, 10⟩ ∧ (9 : UInt64) ≤ 10 ∧
      Honoured " 09:10\t" ⟨9, 10⟩) := by
  have hlast : LineSpec.parse "18446744073709551614:18446744073709551615".toList =
      .ok ⟨18446744073709551614, lastWord⟩ := by rfl
  have hinner : LineSpec.parse " 09:10\t".toList = .ok ⟨9, 10⟩ := by rfl
  refine ⟨⟨hlast, by decide, ?_⟩, hinner, by decide, ?_⟩
  · exact ((selectLines_accepted _ _ hlast (by decide)).2.1 (by decide)).2
  · exact (selectLines_accepted _ _ hinner (by decide)).1.mpr (by decide)

/-- The greatest word can be given as a line, but it is not selected. -/
theorem not_honoured_lastLine :
    ¬ ∀ (value : String) (spec : LineSpec), LineSpec.parse value.toList = .ok spec →
      spec.first ≤ spec.last → Honoured value spec := by
  intro h
  have hparse : LineSpec.parse "18446744073709551615".toList = .ok ⟨lastWord, lastWord⟩ := by rfl
  have hle : lastWord ≤ lastWord := Nat.le_refl _
  exact (honoured_iff hparse hle).mp (h _ _ hparse hle) rfl

end Draft

end FormatRequest
