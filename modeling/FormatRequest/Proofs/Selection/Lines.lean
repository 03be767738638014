import FormatRequest.Proofs.Draft.Build
import FormatRequest.Draft

/-!
# The lines that a selection adds

A specification counts lines from one and includes its last line, while a draft keeps half-open line
ranges. The last line that a word can name has no line after it, so a specification cannot select
it, and one that starts there selects nothing at all.

Results:
1. `proper_span_iff`, `mem_span_iff`: which specifications select lines, and which lines.
2. `selectLines_eq`: values that can all be read are added specification by specification.
3. `selectLines_selects`: the lines of the draft after a selection, or the fault of every request
   that is built after it.
-/

namespace FormatRequest

/-- The greatest word, and so the last line that can be named. -/
def lastWord : UInt64 := 18446744073709551615

theorem toNat_le_lastWord (n : UInt64) : n.toNat ≤ lastWord.toNat := Nat.le_of_lt_succ n.toNat_lt

/-- No span has the greatest word for a point, since it would have to stop after it. -/
theorem Span.not_lastWord_mem {s : Span} : ¬ lastWord ∈ s := by
  have hstop := toNat_le_lastWord s.stop
  rw [Span.mem_iff]
  omega

namespace LineSpec

variable {spec : LineSpec} {n : UInt64}

/-! ## One specification -/

theorem toNat_lineAfter : (lineAfter n).toNat = min (n.toNat + 1) lastWord.toNat := by
  have hn := toNat_le_lastWord n
  have hlast : lastWord.toNat = 18446744073709551615 := rfl
  unfold lineAfter
  split
  · next h =>
    have hlt : n.toNat + 1 < 2 ^ 64 := h
    rw [UInt64.toNat_add, UInt64.toNat_one, Nat.mod_eq_of_lt hlt]
    omega
  · next h =>
    have hge : ¬ n.toNat + 1 < 18446744073709551616 := h
    omega

theorem span_eq :
    spec.span = ⟨spec.first, UInt64.ofNat (min (spec.last.toNat + 1) lastWord.toNat)⟩ := by
  rw [← toNat_lineAfter, UInt64.ofNat_toNat]
  rfl

theorem proper_span_iff :
    spec.span.Proper ↔ spec.first ≤ spec.last ∧ spec.first < lastWord := by
  rw [Span.proper_iff, UInt64.le_iff_toNat_le, UInt64.lt_iff_toNat_lt]
  show spec.first.toNat < (lineAfter spec.last).toNat ↔ _
  rw [toNat_lineAfter]
  have hlast := toNat_le_lastWord spec.last
  omega

/-- A specification selects no line when it is inverted, or starts at the last line that can be
named. -/
theorem not_proper_span_iff :
    ¬ spec.span.Proper ↔ spec.last < spec.first ∨ spec.first = lastWord := by
  have hfirst := toNat_le_lastWord spec.first
  rw [proper_span_iff, UInt64.le_iff_toNat_le, UInt64.lt_iff_toNat_lt, UInt64.lt_iff_toNat_lt,
    ← UInt64.toNat_inj]
  omega

theorem mem_span_iff (hn : n < lastWord) :
    n ∈ spec.span ↔ spec.first ≤ n ∧ n ≤ spec.last := by
  rw [Span.mem_iff, UInt64.le_iff_toNat_le, UInt64.le_iff_toNat_le]
  show _ ∧ _ < (lineAfter spec.last).toNat ↔ _
  rw [toNat_lineAfter]
  rw [UInt64.lt_iff_toNat_lt] at hn
  show spec.first.toNat ≤ _ ∧ _ ↔ _
  omega

end LineSpec

/-! ## Many values -/

/-- The texts between the commas of the values, in order. -/
def lineTokens (values : List String) : List (List Char) :=
  values.flatMap fun value => value.toList.splitOn ','

namespace Draft

variable {d : Draft} {specs : List LineSpec} {values : List String}

/-- Adding specifications is adding their line ranges. -/
theorem addSpecs_eq_applyAll :
    d.addSpecs specs = d.applyAll (specs.map fun spec => .addLineRange spec.span) := by
  unfold addSpecs applyAll
  rw [List.foldl_map]
  rfl

theorem lineRanges_map_span :
    History.lineRanges (specs.map fun spec => .addLineRange spec.span) =
      specs.map LineSpec.span := by
  unfold History.lineRanges
  rw [List.filterMap_map]
  exact congrFun List.filterMap_eq_map specs

theorem lines_addSpecs :
    (d.addSpecs specs).lines = (specs.map LineSpec.span).foldl RangeSet.insertIfProper d.lines := by
  rw [addSpecs_eq_applyAll, lines_applyAll, lineRanges_map_span]

theorem refused_addSpecs :
    (d.addSpecs specs).refused =
      d.refused.or ((specs.map LineSpec.span).find? (¬ ·.Proper)) := by
  rw [addSpecs_eq_applyAll, refused_applyAll, lineRanges_map_span]

theorem addSpecs_append {more : List LineSpec} :
    d.addSpecs (specs ++ more) = (d.addSpecs specs).addSpecs more :=
  List.foldl_append

/-- Where every value can be read, the specifications of all values are added in order. -/
theorem selectLines_eq (h : (d.selectLines values).2 = none) :
    ∃ specs, (lineTokens values).mapM LineSpec.parse = .ok specs ∧
      (d.selectLines values).1 = d.addSpecs specs := by
  induction values generalizing d with
  | nil => exact ⟨[], rfl, rfl⟩
  | cons value values ih =>
    unfold selectLines at h ⊢
    cases hparse : LineSpec.parseAll value.toList with
    | error cause =>
      rw [hparse] at h
      cases h
    | ok specs =>
      rw [hparse] at h
      obtain ⟨more, htokens, hmore⟩ := ih h
      refine ⟨specs ++ more, ?_, ?_⟩
      · unfold lineTokens at htokens ⊢
        unfold LineSpec.parseAll at hparse
        rw [List.flatMap_cons, List.mapM_append, hparse, htokens]
        rfl
      · rw [addSpecs_append]
        exact hmore

/-! ## The draft after a selection -/

theorem mem_lines_addSpecs (h : d.lines.Canonical) {n : UInt64} (hn : n < lastWord) :
    n ∈ (d.addSpecs specs).lines ↔
      n ∈ d.lines ∨ ∃ spec ∈ specs, spec.first ≤ n ∧ n ≤ spec.last := by
  rw [lines_addSpecs, RangeSet.mem_foldl _ h]
  simp only [List.mem_map, exists_exists_and_eq_and, LineSpec.mem_span_iff hn]

/-- What is refused of a selection is its first specification that selects no line. -/
theorem refused_addSpecs_eq_find? (h : d.refused = none) :
    (d.addSpecs specs).refused =
      (specs.find? fun spec => spec.last < spec.first ∨ spec.first = lastWord).map
        LineSpec.span := by
  rw [refused_addSpecs, h, Option.none_or, List.find?_map]
  refine congrArg (fun p => (specs.find? p).map LineSpec.span) (funext fun spec => ?_)
  exact decide_eq_decide.mpr LineSpec.not_proper_span_iff

/-- Every selection that can be read is added line by line, unless one of its specifications selects
no line. From then on that specification keeps every request from being built. -/
theorem selectLines_selects (steps : History) (values : List String)
    (hrefused : (ofSteps steps).refused = none)
    (hread : ((ofSteps steps).selectLines values).2 = none) :
    ∃ specs, (lineTokens values).mapM LineSpec.parse = .ok specs ∧
      ((∀ spec ∈ specs, spec.first ≤ spec.last ∧ spec.first < lastWord) →
        ((ofSteps steps).selectLines values).1.refused = none ∧
        (∀ n < lastWord, ((ofSteps steps).selectLines values).1.lines.contains n = true ↔
          (ofSteps steps).lines.contains n = true ∨
            ∃ spec ∈ specs, spec.first ≤ n ∧ n ≤ spec.last) ∧
        ((ofSteps steps).selectLines values).1.lines.contains lastWord = false) ∧
      ((¬ ∀ spec ∈ specs, spec.first ≤ spec.last ∧ spec.first < lastWord) →
        ∃ spec, specs.find? (fun spec => spec.last < spec.first ∨ spec.first = lastWord) =
            some spec ∧
          ∀ more : History, (((ofSteps steps).selectLines values).1.applyAll more).build =
            .error (.invalidRange ⟨spec.first,
              UInt64.ofNat (min (spec.last.toNat + 1) lastWord.toNat)⟩)) := by
  obtain ⟨specs, htokens, hselected⟩ := selectLines_eq hread
  have hcanonical := canonical_lines_ofSteps steps
  have hcanonical' : ((ofSteps steps).addSpecs specs).lines.Canonical := by
    rw [lines_addSpecs]
    exact RangeSet.canonical_foldl _ hcanonical
  rw [hselected]
  refine ⟨specs, htokens, fun hall => ⟨?_, fun n hn => ?_, ?_⟩, fun hsome => ?_⟩
  · rw [refused_addSpecs_eq_find? hrefused, Option.map_eq_none_iff, List.find?_eq_none]
    intro spec hspec hbad
    exact LineSpec.not_proper_span_iff.mpr (of_decide_eq_true hbad)
      (LineSpec.proper_span_iff.mpr (hall spec hspec))
  · rw [RangeSet.contains_iff_mem hcanonical', RangeSet.contains_iff_mem hcanonical]
    exact mem_lines_addSpecs hcanonical hn
  · refine Bool.eq_false_iff.mpr fun hcontains => ?_
    rw [RangeSet.contains_iff_mem hcanonical'] at hcontains
    obtain ⟨span, _, hmem⟩ := hcontains
    exact Span.not_lastWord_mem hmem
  · cases hfind : specs.find? fun spec => spec.last < spec.first ∨ spec.first = lastWord with
    | none =>
      refine absurd (fun spec hspec => ?_) hsome
      have hgood := List.find?_eq_none.mp hfind spec hspec
      rw [decide_eq_true_eq, ← LineSpec.not_proper_span_iff, not_not] at hgood
      exact LineSpec.proper_span_iff.mp hgood
    | some spec =>
      -- the first refused line range is kept, and it is the first fault that is looked for
      refine ⟨spec, rfl, fun more => build_of_refused ?_⟩
      rw [refused_applyAll, refused_addSpecs_eq_find? hrefused, hfind, ← LineSpec.span_eq]
      rfl

/-- An inverted specification among good ones is not noticed by the selection, and its line range is
the fault of every request from then on. -/
theorem build_selectLines_inverted :
    (ofSteps [.addLineRange ⟨3, 5⟩]).refused = none ∧
      ((ofSteps [.addLineRange ⟨3, 5⟩]).selectLines ["5:7, 9:3", "2:1"]).2 = none ∧
      ∀ more : History,
        (((ofSteps [.addLineRange ⟨3, 5⟩]).selectLines ["5:7, 9:3", "2:1"]).1.applyAll more).build =
          .error (.invalidRange ⟨9, 4⟩) := by
  have hrefused : (ofSteps [.addLineRange ⟨3, 5⟩]).refused = none := by decide +kernel
  have hread : ((ofSteps [.addLineRange ⟨3, 5⟩]).selectLines ["5:7, 9:3", "2:1"]).2 = none := by
    decide +kernel
  obtain ⟨specs, htokens, _, hbad⟩ := selectLines_selects _ _ hrefused hread
  have hspecs : (lineTokens ["5:7, 9:3", "2:1"]).mapM LineSpec.parse =
      .ok [⟨5, 7⟩, ⟨9, 3⟩, ⟨2, 1⟩] := by rfl
  obtain rfl := Except.ok.inj (hspecs.symm.trans htokens)
  obtain ⟨spec, hfind, hbuild⟩ := hbad (by decide)
  obtain rfl : (⟨9, 3⟩ : LineSpec) = spec := Option.some.inj hfind
  exact ⟨hrefused, hread, hbuild⟩

end Draft

end FormatRequest
