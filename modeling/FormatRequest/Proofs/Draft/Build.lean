import FormatRequest.Proofs.Draft.History

/-!
# When a request can be built

Building a request looks at a draft in a fixed order, and the first fault found is the one reported.
Since the fields of a draft summarise its history, so do the outcome and the request.

Results:
1. `build_of_refused`, `build_of_mismatched`, `build_of_empty_region`, `build_of_zero_width`,
   `build_of_sound`: the outcome, by what is wrong with the draft.
2. `build_ofSteps_outcome`: the outcome, by the history of the draft.
3. `build_ofSteps_snapshot`: the request, by the history of the draft.
-/

namespace FormatRequest

/-! ## The request of a history -/

/-- `r.Summarises steps`: the request says what the history says, field by field. -/
structure Request.Summarises (r : Request) (steps : History) : Prop where
  files : r.files = steps.files
  lines : r.lines = RangeSet.ofList steps.lineRanges
  offsets : r.offsets = steps.offsets
  lengths : r.lengths = steps.lengths
  switches : ∀ w : Switch, r.get w = (steps.lastSwitch? w).getD w.onByDefault
  width : r.maxWidth = steps.lastWidth?.getD 100
  name : r.assumeFilename = steps.lastName?

/-- `steps.Agrees other`: the histories say the same, field by field. The line ranges need only
select the same lines, however these were cut into ranges. -/
structure History.Agrees (steps other : History) : Prop where
  files : other.files = steps.files
  lines : RangeSet.ofList other.lineRanges = RangeSet.ofList steps.lineRanges
  offsets : other.offsets = steps.offsets
  lengths : other.lengths = steps.lengths
  switches : ∀ w : Switch,
    (other.lastSwitch? w).getD w.onByDefault = (steps.lastSwitch? w).getD w.onByDefault
  width : other.lastWidth?.getD 100 = steps.lastWidth?.getD 100
  name : other.lastName? = steps.lastName?

/-- A request is determined by its history. -/
theorem Request.eq_of_agrees {r r' : Request} {steps other : History} (hr : r.Summarises steps)
    (hr' : r'.Summarises other) (h : steps.Agrees other) : r' = r := by
  have hsettings : r'.toSettings = r.toSettings := by
    refine Settings.ext_get (fun w => ?_) ?_ ?_
    · rw [hr.switches, hr'.switches, h.switches]
    · rw [hr.width, hr'.width, h.width]
    · rw [hr.name, hr'.name, h.name]
  have hfiles : r'.files = r.files := by rw [hr.files, hr'.files, h.files]
  have hlines : r'.lines = r.lines := by rw [hr.lines, hr'.lines, h.lines]
  have hoffsets : r'.offsets = r.offsets := by rw [hr.offsets, hr'.offsets, h.offsets]
  have hlengths : r'.lengths = r.lengths := by rw [hr.lengths, hr'.lengths, h.lengths]
  cases r
  cases r'
  simp only [Request.mk.injEq]
  exact ⟨hsettings, hfiles, hlines, hoffsets, hlengths⟩

theorem Request.map_offset_regions {r : Request} (h : r.offsets.length = r.lengths.length) :
    r.regions.map (·.offset) = r.offsets := by
  rw [regions, List.map_zipWith]
  exact (List.map_zip_eq_zipWith (f := Prod.fst)).symm.trans (List.map_fst_zip (Nat.le_of_eq h))

theorem Request.map_length_regions {r : Request} (h : r.offsets.length = r.lengths.length) :
    r.regions.map (·.length) = r.lengths := by
  rw [regions, List.map_zipWith]
  exact (List.map_zip_eq_zipWith (f := Prod.snd)).symm.trans
    (List.map_snd_zip (Nat.le_of_eq h.symm))

theorem Request.isSelection_iff {r : Request} (h : r.offsets.length = r.lengths.length) :
    r.isSelection = true ↔ r.lines.isEmpty = false ∨ r.regions ≠ [] := by
  have hempty : r.regions = [] ↔ r.offsets = [] := by
    rw [← Request.map_offset_regions h, List.map_eq_nil_iff]
  have hboth : r.offsets = [] ↔ r.lengths = [] := by
    rw [← List.length_eq_zero_iff, h, List.length_eq_zero_iff]
  unfold isSelection
  rw [Ne, hempty]
  simp [← hboth]

namespace Draft

variable {d : Draft}

/-! ## The checks in order -/

theorem build_of_refused {span : Span} (h : d.refused = some span) :
    d.build = .error (.invalidRange span) := by
  unfold build
  rw [h]

theorem build_of_mismatched (hrefused : d.refused = none)
    (h : d.offsets.length ≠ d.lengths.length) :
    d.build = .error (.mismatchedPairing d.offsets.length d.lengths.length) := by
  unfold build
  rw [hrefused]
  exact if_pos h

/-- Of two lists of one length, the first region without a character is where the first zero is. -/
theorem find?_empty_region {offsets lengths : List UInt64} (h : offsets.length = lengths.length) :
    (offsets.zipWith Region.mk lengths).find? (·.length == 0) =
      offsets[lengths.idxOf 0]?.map (Region.mk · 0) := by
  induction lengths generalizing offsets with
  | nil =>
    obtain rfl := List.length_eq_zero_iff.mp h
    rfl
  | cons length lengths ih =>
    cases offsets with
    | nil => cases h
    | cons offset offsets =>
      rw [List.zipWith_cons_cons, List.find?_cons]
      by_cases hzero : length = 0
      · subst hzero
        rw [List.idxOf_cons_self]
        rfl
      · have hfalse : (length == 0) = false := by simpa using hzero
        rw [List.idxOf_cons_ne _ hzero, List.getElem?_cons_succ, ← ih (Nat.succ.inj h)]
        simp only [hfalse]

/-- A region without a character is reported with its offset. -/
theorem build_of_empty_region (hrefused : d.refused = none)
    (hpaired : d.offsets.length = d.lengths.length) (h : 0 ∈ d.lengths) :
    ∃ offset, d.offsets[d.lengths.idxOf 0]? = some offset ∧
      d.build = .error (.invalidRange ⟨offset, offset⟩) := by
  have hindex : d.lengths.idxOf 0 < d.offsets.length := by
    rw [hpaired]
    exact List.idxOf_lt_length_iff.mpr h
  refine ⟨_, List.getElem?_eq_getElem hindex, ?_⟩
  have hfind := find?_empty_region hpaired
  rw [List.getElem?_eq_getElem hindex] at hfind
  unfold build regions
  rw [hrefused, hfind]
  exact if_neg (not_not_intro hpaired)

theorem find?_region_eq_none (hpaired : d.offsets.length = d.lengths.length)
    (h : 0 ∉ d.lengths) : d.regions.find? (·.length == 0) = none := by
  unfold regions
  rw [find?_empty_region hpaired, List.idxOf_eq_length h, ← hpaired,
    List.getElem?_eq_none (Nat.le_refl _)]
  rfl

theorem build_of_zero_width (hrefused : d.refused = none)
    (hpaired : d.offsets.length = d.lengths.length) (hlengths : 0 ∉ d.lengths)
    (h : d.maxWidth = 0) : d.build = .error (.invalidWidth 0) := by
  unfold build
  rw [hrefused, find?_region_eq_none hpaired hlengths]
  refine (if_neg (not_not_intro hpaired)).trans ((if_pos h).trans ?_)
  rw [h]

theorem build_of_sound (hrefused : d.refused = none)
    (hpaired : d.offsets.length = d.lengths.length) (hlengths : 0 ∉ d.lengths)
    (h : d.maxWidth ≠ 0) :
    d.build = .ok { d.toSettings with
      files := d.files, lines := d.lines, offsets := d.offsets, lengths := d.lengths } := by
  unfold build
  rw [hrefused, find?_region_eq_none hpaired hlengths]
  refine (if_neg (not_not_intro hpaired)).trans ?_
  exact if_neg h

/-- A request is built from sound drafts only. -/
theorem sound_of_build {r : Request} (h : d.build = .ok r) :
    d.refused = none ∧ d.offsets.length = d.lengths.length ∧ 0 ∉ d.lengths ∧ d.maxWidth ≠ 0 := by
  have hrefused : d.refused = none := by
    cases hr : d.refused with
    | none => rfl
    | some span =>
      rw [build_of_refused hr] at h
      cases h
  have hpaired : d.offsets.length = d.lengths.length := by
    refine Decidable.of_not_not fun hne => ?_
    rw [build_of_mismatched hrefused hne] at h
    cases h
  have hlengths : 0 ∉ d.lengths := by
    intro hzero
    obtain ⟨offset, _, herror⟩ := build_of_empty_region hrefused hpaired hzero
    rw [herror] at h
    cases h
  refine ⟨hrefused, hpaired, hlengths, fun hwidth => ?_⟩
  rw [build_of_zero_width hrefused hpaired hlengths hwidth] at h
  cases h

/-- A request has the settings of its draft. -/
theorem toSettings_of_build {r : Request} (h : d.build = .ok r) :
    r.toSettings = d.toSettings := by
  obtain ⟨hrefused, hpaired, hlengths, hwidth⟩ := sound_of_build h
  rw [build_of_sound hrefused hpaired hlengths hwidth] at h
  obtain rfl := Except.ok.inj h
  rfl

/-- The offsets and the lengths of a request belong together place by place. -/
theorem paired_of_build {r : Request} (h : d.build = .ok r) :
    r.offsets.length = r.lengths.length := by
  obtain ⟨hrefused, hpaired, hlengths, hwidth⟩ := sound_of_build h
  rw [build_of_sound hrefused hpaired hlengths hwidth] at h
  obtain rfl := Except.ok.inj h
  exact hpaired

/-! ## By the history -/

theorem refused_ofSteps_eq_none_iff {steps : History} :
    (ofSteps steps).refused = none ↔ ∀ span ∈ steps.lineRanges, span.Proper := by
  rw [refused_ofSteps, List.find?_eq_none]
  simp

/-- A width that was never set is not zero. -/
theorem maxWidth_ofSteps_eq_zero_iff {steps : History} :
    (ofSteps steps).maxWidth = 0 ↔ steps.lastWidth? = some 0 := by
  rw [maxWidth_ofSteps]
  cases steps.lastWidth? with
  | none => exact ⟨fun h => absurd h (by decide), fun h => by cases h⟩
  | some width => exact (Option.some_inj).symm

/-- The outcome depends on five things only: the first line range without points, the two counts,
the first zero among the lengths, and the width that was set last; the earlier one decides. -/
theorem build_ofSteps_outcome (steps : History) :
    (∀ span, steps.lineRanges.find? (¬ ·.Proper) = some span →
      (ofSteps steps).build = .error (.invalidRange span)) ∧
    ((∀ span ∈ steps.lineRanges, span.Proper) →
      (steps.offsets.length ≠ steps.lengths.length →
        (ofSteps steps).build =
          .error (.mismatchedPairing steps.offsets.length steps.lengths.length)) ∧
      (steps.offsets.length = steps.lengths.length →
        (0 ∈ steps.lengths →
          ∃ offset, steps.offsets[steps.lengths.idxOf 0]? = some offset ∧
            (ofSteps steps).build = .error (.invalidRange ⟨offset, offset⟩)) ∧
        (0 ∉ steps.lengths →
          (steps.lastWidth? = some 0 → (ofSteps steps).build = .error (.invalidWidth 0)) ∧
          (steps.lastWidth? ≠ some 0 → ∃ r, (ofSteps steps).build = .ok r)))) := by
  refine ⟨fun span h => build_of_refused ((refused_ofSteps steps).trans h), fun hproper => ?_⟩
  have hrefused := refused_ofSteps_eq_none_iff.mpr hproper
  rw [← offsets_ofSteps, ← lengths_ofSteps]
  refine ⟨build_of_mismatched hrefused, fun hpaired => ⟨?_, fun hlengths => ⟨?_, ?_⟩⟩⟩
  · exact build_of_empty_region hrefused hpaired
  · intro hwidth
    exact build_of_zero_width hrefused hpaired hlengths (maxWidth_ofSteps_eq_zero_iff.mpr hwidth)
  · intro hwidth
    exact ⟨_, build_of_sound hrefused hpaired hlengths (mt maxWidth_ofSteps_eq_zero_iff.mp hwidth)⟩

/-! ## The request -/

/-- The request that is built says what the history says. -/
theorem summarises_of_build {steps : History} {r : Request} (h : (ofSteps steps).build = .ok r) :
    r.Summarises steps := by
  obtain ⟨hrefused, hpaired, hlengths, hwidth⟩ := sound_of_build h
  rw [build_of_sound hrefused hpaired hlengths hwidth] at h
  obtain rfl := Except.ok.inj h
  constructor
  · exact files_ofSteps steps
  · exact lines_ofSteps steps
  · exact offsets_ofSteps steps
  · exact lengths_ofSteps steps
  · exact get_ofSteps steps
  · exact maxWidth_ofSteps steps
  · exact assumeFilename_ofSteps steps

/-- Where the histories agree, only a line range without points can keep the second from being built
like the first. -/
theorem build_of_agrees {steps other : History} {r : Request} (h : (ofSteps steps).build = .ok r)
    (hagree : steps.Agrees other) (hproper : ∀ span ∈ other.lineRanges, span.Proper) :
    (ofSteps other).build = .ok r := by
  obtain ⟨_, hpaired, hlengths, hwidth⟩ := sound_of_build h
  rw [offsets_ofSteps, lengths_ofSteps, ← hagree.offsets, ← hagree.lengths] at hpaired
  rw [lengths_ofSteps, ← hagree.lengths] at hlengths
  rw [maxWidth_ofSteps, ← hagree.width] at hwidth
  -- the same facts, now of the other draft
  rw [← offsets_ofSteps, ← lengths_ofSteps] at hpaired
  rw [← lengths_ofSteps] at hlengths
  rw [← maxWidth_ofSteps] at hwidth
  have hbuild := build_of_sound (refused_ofSteps_eq_none_iff.mpr hproper) hpaired hlengths hwidth
  rw [hbuild, Request.eq_of_agrees (summarises_of_build h) (summarises_of_build hbuild) hagree]

/-- A request is the meaning of its history, and of any history that agrees with it. -/
theorem build_ofSteps_snapshot (steps : History) (r : Request)
    (h : (ofSteps steps).build = .ok r) :
    (r.files = steps.files ∧
      (r.lines = RangeSet.ofList steps.lineRanges ∧ r.lines.Canonical ∧
        ∀ spans, spans.Perm steps.lineRanges → RangeSet.ofList spans = r.lines) ∧
      (r.offsets = steps.offsets ∧ r.lengths = steps.lengths ∧
        r.offsets.length = r.lengths.length ∧ ∀ length ∈ r.lengths, 0 < length) ∧
      (r.regions.map (·.offset) = r.offsets ∧ r.regions.map (·.length) = r.lengths) ∧
      (∀ w : Switch, r.get w = (steps.lastSwitch? w).getD w.onByDefault) ∧
      (r.maxWidth = steps.lastWidth?.getD 100 ∧ 0 < r.maxWidth) ∧
      r.assumeFilename = steps.lastName? ∧
      (r.isSelection = true ↔ r.lines.isEmpty = false ∨ r.regions ≠ [])) ∧
    (∀ (other : History) (r' : Request), steps.Agrees other →
      (ofSteps other).build = .ok r' → r' = r) ∧
    ∀ other : History, steps.Agrees other → other.lineRanges.Perm steps.lineRanges →
      (ofSteps other).build = .ok r := by
  have hr := summarises_of_build h
  obtain ⟨hrefused, hpaired, hlengths, hwidth⟩ := sound_of_build h
  rw [offsets_ofSteps, lengths_ofSteps, ← hr.offsets, ← hr.lengths] at hpaired
  rw [lengths_ofSteps, ← hr.lengths] at hlengths
  rw [maxWidth_ofSteps, ← hr.width] at hwidth
  refine ⟨⟨hr.files, ⟨hr.lines, ?_, ?_⟩, ⟨hr.offsets, hr.lengths, hpaired, ?_⟩,
    ⟨Request.map_offset_regions hpaired, Request.map_length_regions hpaired⟩, hr.switches,
    ⟨hr.width, UInt64.pos_iff_ne_zero.mpr hwidth⟩, hr.name, Request.isSelection_iff hpaired⟩,
    ?_, ?_⟩
  · rw [hr.lines]
    exact RangeSet.canonical_ofList steps.lineRanges
  · intro spans hperm
    rw [hr.lines, RangeSet.ofList_eq_of_perm hperm]
  · intro length hlength
    refine UInt64.pos_iff_ne_zero.mpr fun hzero => ?_
    rw [hzero] at hlength
    exact hlengths hlength
  · intro other r' hagree hr'
    exact Request.eq_of_agrees hr (summarises_of_build hr') hagree
  · intro other hagree hperm
    refine build_of_agrees h hagree fun span hspan => ?_
    exact refused_ofSteps_eq_none_iff.mp hrefused span (hperm.mem_iff.mp hspan)

/-- A history in which everything is mixed: two of its line ranges overlap, and two settings are
overwritten. -/
def exHistory : History :=
  [.addFile "B.java", .addLineRange ⟨10, 13⟩, .maxWidth 0, .addOffset 40,
    .switch .sortImports false, .addFiles ["A.java", "C.java"], .addLength 2, .addLineRange ⟨1, 6⟩,
    .maxWidth 120, .switch .sortImports true, .addLineRange ⟨4, 7⟩]

/-- What `exHistory` comes to, in another order. -/
def exReordered : History :=
  [.addLength 2, .addLineRange ⟨4, 7⟩, .addFiles ["B.java", "A.java"], .addOffset 40,
    .addLineRange ⟨10, 13⟩, .addFile "C.java", .maxWidth 120, .addLineRange ⟨1, 6⟩]

/-- The request of both. -/
def exRequest : Request where
  files := ["B.java", "A.java", "C.java"]
  lines := ⟨#[⟨1, 7⟩, ⟨10, 13⟩]⟩
  offsets := [40]
  lengths := [2]
  maxWidth := 120

theorem build_exHistory : (ofSteps exHistory).build = .ok exRequest := by
  decide +kernel

theorem agrees_exReordered : exHistory.Agrees exReordered where
  files := by decide
  lines := by decide +kernel
  offsets := by decide
  lengths := by decide
  switches := fun w => by cases w <;> decide
  width := by decide
  name := by decide

/-- Both histories build the same request. -/
theorem build_exReordered :
    (ofSteps exHistory).build = .ok exRequest ∧ (ofSteps exReordered).build = .ok exRequest :=
  ⟨build_exHistory,
    (build_ofSteps_snapshot exHistory exRequest build_exHistory).2.2 exReordered agrees_exReordered
      (by decide)⟩

end Draft

end FormatRequest
