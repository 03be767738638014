import FormatRequest.Proofs.CommandLine.Answer
import FormatRequest.Proofs.CommandLine.Pieces
import FormatRequest.Proofs.Selection.Order

/-!
# The order of a command line

The pieces of a command line may be rearranged. Only occurrences that fill one list have an order
among themselves: the files, the offsets, the lengths and the lines. The name of standard input
stands in no list, and the order of the lines shows only in what is reported when one of them cannot
be read or has no line.

Results:
1. `ofOccurrences_of_rearranges`: rearranged occurrences are accepted, and what they say.
2. `answer_of_selectLines_eq`: files and lines matter to the answer only through the draft.
3. `selectLines_of_exitCode`: a run that ends well has read and selected all its lines.
4. `run_rearranged`: a run on a rearranged command line.
-/

namespace FormatRequest.CommandLine

/-- `Rearranges ys xs`: the occurrences `ys` are the occurrences `xs` in another order. The files
that are not standard input stay in order, and so do the offsets and the lengths. -/
structure Rearranges (ys xs : List Occurrence) : Prop where
  perm : ys.Perm xs
  files : (filesOf ys).filter (· ≠ Arguments.stdinName) =
    (filesOf xs).filter (· ≠ Arguments.stdinName)
  offsets : valuesOf .offset ys = valuesOf .offset xs
  lengths : valuesOf .length ys = valuesOf .length xs

namespace Arguments

variable {a : Arguments} {folder : Folder} {xs ys : List Occurrence}

/-! ## Rearranged occurrences -/

/-- A parameter that stands once has no order. -/
theorem valuesOf_eq_of_perm {p : Parameter} (hp : p.repeats = false) (hperm : ys.Perm xs)
    (h : ofOccurrences xs = .ok a) : valuesOf p ys = valuesOf p xs := by
  have hlength : (valuesOf p xs).length = (a.given p).length :=
    (mapM_eq_ok_iff.mp ((ofOccurrences_eq_ok_iff.mp h).2.2 p)).length_eq
  have hone := length_given_le (a := a) hp
  have hvalues : (valuesOf p ys).Perm (valuesOf p xs) := hperm.filterMap _
  cases hxs : valuesOf p xs with
  | nil =>
    rw [hxs] at hvalues
    exact hvalues.eq_nil
  | cons value rest =>
    rw [hxs, List.length_cons] at hlength
    have hrest : rest = [] := List.eq_nil_of_length_eq_zero (by omega)
    rw [hxs, hrest] at hvalues
    rw [hrest]
    exact List.perm_singleton.mp hvalues

theorem mapM_read_lines (values : List String) :
    values.mapM (Parameter.read .lines) = .ok values :=
  mapM_eq_ok_iff.mpr (List.forall₂_same.mpr fun _ _ => rfl)

theorem ofOccurrences_of_rearranges (hys : Rearranges ys xs) (h : ofOccurrences xs = .ok a) :
    ofOccurrences ys = .ok { a with files := filesOf ys, lines := valuesOf .lines ys } := by
  obtain ⟨_, hflags, hvalues⟩ := ofOccurrences_eq_ok_iff.mp h
  refine ofOccurrences_eq_ok_iff.mpr ⟨rfl, fun f => ?_, fun p => ?_⟩
  · rw [hys.perm.count_eq]
    exact hflags f
  · cases p with
    | lines => exact mapM_read_lines _
    | offset =>
      rw [hys.offsets]
      exact hvalues .offset
    | length =>
      rw [hys.lengths]
      exact hvalues .length
    | lineLength | assumeFilename | outputFormat | exportPath =>
      rw [valuesOf_eq_of_perm rfl hys.perm h]
      exact hvalues _

/-! ## The answer -/

theorem answer_of_selectLines_eq {files lines : List String}
    (h : (Draft.ofSteps { a with files, lines }.inputSteps).selectLines lines =
      (Draft.ofSteps a.inputSteps).selectLines a.lines) (folder : Folder) :
    { a with files, lines }.answer folder = a.answer folder := by
  -- the settings and the reply are made of the other fields
  have hresolved : { a with files, lines }.resolved = a.resolved := by
    unfold resolved
    rw [h]
    rfl
  unfold answer
  rw [hresolved]
  rfl

theorem inputSteps_of_rearranges (hys : Rearranges ys xs) (h : a.files = filesOf xs)
    (lines : List String) : { a with files := filesOf ys, lines }.inputSteps = a.inputSteps := by
  have hcontains : (filesOf ys).contains stdinName = (filesOf xs).contains stdinName := by
    have hfiles : (filesOf ys).Perm (filesOf xs) := hys.perm.filterMap _
    rw [Bool.eq_iff_iff, List.contains_iff_mem, List.contains_iff_mem]
    exact hfiles.mem_iff
  unfold inputSteps
  rw [h, hys.files, hcontains]

theorem selectLines_of_resolved {r : Request} (h : a.resolved = .ok r) :
    ((Draft.ofSteps a.inputSteps).selectLines a.lines).2 = none ∧
      ((Draft.ofSteps a.inputSteps).selectLines a.lines).1.refused = none := by
  obtain ⟨d, hselect, hresolve⟩ := exists_draft_of_resolved h
  have hrefused := (Draft.sound_of_build (Draft.resolve_eq_ok_iff.mp hresolve).1).1
  rw [Draft.refused_applyAll, Option.or_eq_none_iff] at hrefused
  rw [hselect]
  exact ⟨rfl, hrefused.1⟩

theorem selectLines_of_exitCode (h : (a.answer folder).exitCode = 0) :
    ((Draft.ofSteps a.inputSteps).selectLines a.lines).2 = none ∧
      ((Draft.ofSteps a.inputSteps).selectLines a.lines).1.refused = none := by
  unfold answer at h
  cases hresolved : a.resolved with
  | error chain =>
    rw [hresolved] at h
    exact absurd h exitCode_failure_ne_zero
  | ok r => exact selectLines_of_resolved hresolved

/-- Whatever command line without the word `--` is accepted, it is a row of pieces. Pieces that mean
the same in another order are accepted too, and they run alike if the lines are in order or the run
ends well. -/
theorem run_rearranged (words : List String) (a : Arguments) (hdashes : "--" ∉ words)
    (h : ofWords words = .ok a) :
    ∃ pieces : List Piece, wordsOf pieces = words ∧
      ∀ others : List Piece, Rearranges (occurrencesOf others) (occurrencesOf pieces) →
        (∃ b, ofWords (wordsOf others) = .ok b) ∧
        ∀ folder : Folder,
          valuesOf .lines (occurrencesOf others) = valuesOf .lines (occurrencesOf pieces) ∨
              (run folder words).exitCode = 0 →
            run folder (wordsOf others) = run folder words := by
  obtain ⟨pieces, rfl, hread⟩ := exists_pieces_of_not_mem hdashes h
  refine ⟨pieces, rfl, fun others hothers => ?_⟩
  have hreadOthers := (ofWords_wordsOf others).mpr (ofOccurrences_of_rearranges hothers hread)
  refine ⟨⟨_, hreadOthers⟩, fun folder hlines => ?_⟩
  rw [run_eq_answer hreadOthers, run_eq_answer h]
  refine answer_of_selectLines_eq ?_ folder
  obtain ⟨hfiles, _, hvalues⟩ := ofOccurrences_eq_ok_iff.mp hread
  have hgiven : valuesOf .lines (occurrencesOf pieces) = a.lines :=
    Except.ok.inj ((mapM_read_lines _).symm.trans (hvalues .lines))
  rw [inputSteps_of_rearranges hothers hfiles]
  rcases hlines with hlines | hzero
  · rw [hlines, hgiven]
  · rw [run_eq_answer h] at hzero
    obtain ⟨hreadable, hrefused⟩ := selectLines_of_exitCode hzero
    refine Draft.selectLines_of_perm (Draft.canonical_lines_ofSteps _) hreadable hrefused ?_
    rw [← hgiven]
    exact hothers.perm.filterMap _

/-- A command line with its lines out of order and two flags in one word. -/
def exWords : List String :=
  ["--offset", "4", "A.java", "--line=9", "-ai", "--length=2", "--lines", "3:4"]

/-- The pieces of `exWords`, rearranged and respelled. -/
def exOthers : List Piece :=
  [⟨["--lines", "3:4"], _, .apart rfl rfl rfl⟩, ⟨["--in-place"], _, .flag rfl rfl⟩,
    ⟨["--length=2"], _, .joined rfl rfl⟩, ⟨["A.java"], _, .file rfl⟩, ⟨["-a"], _, .letters rfl rfl⟩,
    ⟨["--line=9"], _, .joined rfl rfl⟩, ⟨["--offset=4"], _, .joined rfl rfl⟩]

theorem rearranges_exOthers : Rearranges (occurrencesOf exOthers) (scan exWords).occurrences where
  perm := by decide
  files := by decide
  offsets := by decide
  lengths := by decide

theorem run_exOthers :
    "--" ∉ exWords ∧ (∃ a, ofWords exWords = .ok a) ∧
      wordsOf exOthers =
        ["--lines", "3:4", "--in-place", "--length=2", "A.java", "-a", "--line=9", "--offset=4"] ∧
      (run Folder.empty exWords).exitCode = 0 ∧
      run Folder.empty (wordsOf exOthers) = run Folder.empty exWords := by
  have hdashes : "--" ∉ exWords := by decide
  have hread : ∃ a, ofWords exWords = .ok a := ⟨_, rfl⟩
  have hzero : (run Folder.empty exWords).exitCode = 0 := by decide +kernel
  refine ⟨hdashes, hread, rfl, hzero, ?_⟩
  obtain ⟨a, ha⟩ := hread
  obtain ⟨pieces, hwords, hpieces⟩ := run_rearranged exWords a hdashes ha
  have hoccurrences : occurrencesOf pieces = (scan exWords).occurrences := by
    rw [← hwords, scan_wordsOf]
  exact (hpieces exOthers (hoccurrences ▸ rearranges_exOthers)).2 Folder.empty (.inr hzero)

end Arguments

end FormatRequest.CommandLine
