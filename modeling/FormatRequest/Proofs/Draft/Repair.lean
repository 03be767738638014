import FormatRequest.Proofs.Draft.Build

/-!
# Drafts that can still be repaired

Two things in the history of a draft are final: a line range without points and a length of zero.
The range is remembered, and is the fault of every request that is built later. A length is never
taken back, so there is some fault whatever is added, though another one may be found first. All
else is made good by further steps: offsets or lengths are added until there are as many of one as of
the other, and a width can be set again.

Results:
1. `build_applyAll_of_refused`, `build_applyAll_of_zero_length`: what is final.
2. `build_applyAll_repair`: the steps that repair all else.
3. `repairable_ofSteps_iff`: the histories after which a request can still be built.
-/

namespace FormatRequest.Draft

variable {d : Draft}

/-- `d.Repairable`: there are steps after which a request can be built. -/
def Repairable (d : Draft) : Prop :=
  ∃ (more : History) (r : Request), (d.applyAll more).build = .ok r

/-! ## What is final -/

/-- A refused line range is the fault from then on. -/
theorem build_applyAll_of_refused {span : Span} (h : d.refused = some span) (more : History) :
    (d.applyAll more).build = .error (.invalidRange span) := by
  refine build_of_refused ?_
  rw [refused_applyAll, h]
  rfl

/-- While a zero has no offset yet, the fault is that one is missing, and then the zero. -/
theorem build_applyAll_of_zero_length (h : 0 ∈ d.lengths) (more : History) :
    ∃ fault, (d.applyAll more).build = .error fault := by
  have hzero : 0 ∈ (d.applyAll more).lengths := by
    rw [lengths_applyAll]
    exact List.mem_append_left _ h
  cases hbuild : (d.applyAll more).build with
  | error fault => exact ⟨fault, rfl⟩
  | ok r => exact absurd hzero (sound_of_build hbuild).2.2.1

/-! ## What can be repaired -/

/-- The steps that pair all offsets and lengths and set a width if there is none. -/
def repair (d : Draft) : History :=
  List.replicate (d.lengths.length - d.offsets.length) (.addOffset 0) ++
    List.replicate (d.offsets.length - d.lengths.length) (.addLength 1) ++
    if d.maxWidth = 0 then [.maxWidth 100] else []

theorem lineRanges_repair : d.repair.lineRanges = [] := by
  unfold repair History.lineRanges
  split <;> simp [List.filterMap_replicate, Step.lineRange?]

theorem offsets_repair :
    d.repair.offsets = List.replicate (d.lengths.length - d.offsets.length) 0 := by
  unfold repair History.offsets
  split <;> simp [List.filterMap_replicate, Step.offset?]

theorem lengths_repair :
    d.repair.lengths = List.replicate (d.offsets.length - d.lengths.length) 1 := by
  unfold repair History.lengths
  split <;> simp [List.filterMap_replicate, Step.length?]

theorem width_repair_ne_zero : d.repair.lastWidth?.getD d.maxWidth ≠ 0 := by
  unfold repair History.lastWidth?
  split
  · simp [List.filterMap_replicate, Step.width?]
  · next hwidth => simpa [List.filterMap_replicate, Step.width?] using hwidth

theorem build_applyAll_repair (hrefused : d.refused = none) (hlengths : 0 ∉ d.lengths) :
    ∃ r, (d.applyAll d.repair).build = .ok r := by
  refine ⟨_, build_of_sound ?_ ?_ ?_ ?_⟩
  · rw [refused_applyAll, hrefused, lineRanges_repair]
    rfl
  · rw [offsets_applyAll, lengths_applyAll, offsets_repair, lengths_repair, List.length_append,
      List.length_append, List.length_replicate, List.length_replicate]
    omega
  · rw [lengths_applyAll, lengths_repair]
    exact List.not_mem_append hlengths fun hmem =>
      absurd (List.eq_of_mem_replicate hmem) (by decide)
  · rw [maxWidth_applyAll]
    exact width_repair_ne_zero

/-! ## By the history -/

/-- A request can still be built exactly if every line range so far has a point and every length is
positive. Otherwise no steps lead to a request, and the first line range without points is the
fault after any of them. -/
theorem repairable_ofSteps_iff (steps : History) :
    ((ofSteps steps).Repairable ↔ (∀ span ∈ steps.lineRanges, span.Proper) ∧ 0 ∉ steps.lengths) ∧
    (∀ span, steps.lineRanges.find? (¬ ·.Proper) = some span → ∀ more : History,
      ((ofSteps steps).applyAll more).build = .error (.invalidRange span)) ∧
    (0 ∈ steps.lengths → ∀ more : History,
      ∃ fault, ((ofSteps steps).applyAll more).build = .error fault) := by
  have hfinal : ∀ span, steps.lineRanges.find? (¬ ·.Proper) = some span → ∀ more : History,
      ((ofSteps steps).applyAll more).build = .error (.invalidRange span) := fun span hspan =>
    build_applyAll_of_refused ((refused_ofSteps steps).trans hspan)
  have hzero : 0 ∈ steps.lengths → ∀ more : History,
      ∃ fault, ((ofSteps steps).applyAll more).build = .error fault := by
    rw [← lengths_ofSteps]
    exact build_applyAll_of_zero_length
  refine ⟨⟨?_, ?_⟩, hfinal, hzero⟩
  · rintro ⟨more, r, hbuild⟩
    refine ⟨refused_ofSteps_eq_none_iff.mp ?_, fun hmem => ?_⟩
    · cases hrefused : (ofSteps steps).refused with
      | none => rfl
      | some span =>
        rw [build_applyAll_of_refused hrefused] at hbuild
        cases hbuild
    · obtain ⟨fault, hfault⟩ := hzero hmem more
      rw [hfault] at hbuild
      cases hbuild
  · rintro ⟨hproper, hlengths⟩
    rw [← lengths_ofSteps] at hlengths
    exact ⟨_, build_applyAll_repair (refused_ofSteps_eq_none_iff.mpr hproper) hlengths⟩

end FormatRequest.Draft
