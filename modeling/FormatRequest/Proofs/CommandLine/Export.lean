import FormatRequest.Proofs.CommandLine.Answer
import FormatRequest.Proofs.CommandLine.Pieces
import FormatRequest.Proofs.Delivery
import FormatRequest.Proofs.Selection.Order

/-!
# Exporting a report

A report is exported as it would be printed. It is rendered before the file is touched, and a
request for the version is answered before that, so that what keeps a report from being printed
leaves the file alone. Writing the file can still break off, and then the file keeps the beginning
of the report. On the command line, an export is one piece more: without it the arguments are the
same otherwise, and the run prints what it would have saved.

Results:
1. `ofOccurrences_without_export`, `exists_export_piece`: a command line without its export.
2. `answer_without_export`: the answer, printed and exported.
3. `export_agrees_with_print`: the two channels, for requests and for command lines.
4. `not_export_all_or_nothing`: an export that fails can leave a file behind.
-/

namespace FormatRequest

namespace CommandLine.Arguments

variable {a : Arguments} {r : Request} {folder : Folder} {path : String}

/-! ## A command line without its export -/

theorem eq_of_read_exportPath {value : String}
    (h : Parameter.read .exportPath value = .ok path) : value = path := by
  change Arguments.path value = .ok path at h
  unfold Arguments.path at h
  split at h
  · cases h
  · exact Except.ok.inj h

theorem valuesOf_exportPath {occurrences : List Occurrence}
    (h : ofOccurrences occurrences = .ok a) (hpath : a.exportPath = some path) :
    valuesOf .exportPath occurrences = [path] := by
  have hvalues := mapM_eq_ok_iff.mp ((ofOccurrences_eq_ok_iff.mp h).2.2 .exportPath)
  have hgiven : a.given .exportPath = [path] := congrArg Option.toList hpath
  rw [hgiven, List.forall₂_cons_right_iff] at hvalues
  obtain ⟨value, rest, hread, hrest, hoccurrences⟩ := hvalues
  rw [List.forall₂_nil_right_iff] at hrest
  rw [hoccurrences, hrest, eq_of_read_exportPath hread]

theorem exists_export_piece {pieces : List Piece} {files : Option (List String)}
    (h : valuesOf .exportPath (occurrencesOf pieces ++ endingFiles files) = [path]) :
    ∃ before piece after, pieces = before ++ piece :: after ∧
      piece.occurrences = [.parameter .exportPath path] := by
  have hending : valuesOf .exportPath (endingFiles files) = [] := valuesOf_map_file _ _
  rw [valuesOf_append, hending, List.append_nil] at h
  have hmem : path ∈ valuesOf .exportPath (occurrencesOf pieces) := h ▸ List.mem_singleton_self path
  obtain ⟨o, ho, hvalue⟩ := List.mem_filterMap.mp hmem
  obtain ⟨piece, hpiece, hin⟩ := List.mem_flatMap.mp ho
  obtain ⟨before, after, rfl⟩ := List.append_of_mem hpiece
  refine ⟨before, piece, after, rfl, ?_⟩
  cases o with
  | file name => cases hvalue
  | flag f => cases hvalue
  | parameter p value =>
    change (if p = .exportPath then some value else none) = some path at hvalue
    split at hvalue
    · next hp =>
      rw [hp, Option.some.inj hvalue] at hin
      exact piece.means.eq_singleton hin
    · cases hvalue

theorem ofOccurrences_without_export {before after : List Occurrence}
    (h : ofOccurrences (before ++ [.parameter .exportPath path] ++ after) = .ok a)
    (hpath : a.exportPath = some path) :
    ofOccurrences (before ++ after) = .ok { a with exportPath := none } := by
  have honly := valuesOf_exportPath h hpath
  obtain ⟨hfiles, hflags, hvalues⟩ := ofOccurrences_eq_ok_iff.mp h
  refine ofOccurrences_eq_ok_iff.mpr ⟨?_, fun f => ?_, fun p => ?_⟩
  · rw [hfiles, filesOf_append, filesOf_append, filesOf_append]
    exact congrArg (· ++ filesOf after) (List.append_nil _)
  · have hflag := hflags f
    rw [List.count_append, List.count_append, List.count_singleton] at hflag
    rw [List.count_append]
    exact hflag
  · by_cases hp : p = .exportPath
    · subst hp
      -- the export that is left out is the only one
      have hlength := congrArg List.length honly
      rw [valuesOf_append, valuesOf_append, valuesOf_parameter_self] at hlength
      simp only [List.length_append, List.length_singleton] at hlength
      have hnone : valuesOf .exportPath (before ++ after) = [] := by
        rw [valuesOf_append]
        exact List.eq_nil_of_length_eq_zero (by rw [List.length_append]; omega)
      rw [hnone]
      rfl
    · have hvalue := hvalues p
      rw [valuesOf_append, valuesOf_append, valuesOf_parameter_of_ne hp, List.append_nil,
        ← valuesOf_append] at hvalue
      rw [hvalue]
      cases p with
      | exportPath => exact absurd rfl hp
      | _ => rfl

/-- The export is one piece of an accepted command line, and what is left without it is accepted
with the same arguments otherwise. -/
theorem exists_without_export {words : List String} (h : ofWords words = .ok a)
    (hpath : a.exportPath = some path) :
    ∃ before option after, words = before ++ option ++ after ∧
      Means option [.parameter .exportPath path] ∧
      ofWords (before ++ after) = .ok { a with exportPath := none } := by
  obtain ⟨pieces, files, rfl, hread⟩ := exists_pieces_of_ofWords h
  obtain ⟨before, piece, after, rfl, hpiece⟩ :=
    exists_export_piece (valuesOf_exportPath hread hpath)
  refine ⟨wordsOf before, piece.words, wordsOf after ++ ending files, ?_, hpiece ▸ piece.means, ?_⟩
  · rw [wordsOf_append, wordsOf_cons]
    simp only [List.append_assoc]
  · rw [← List.append_assoc, ← wordsOf_append, ofWords_words, occurrencesOf_append,
      List.append_assoc]
    refine ofOccurrences_without_export ?_ hpath
    rw [occurrencesOf_append, occurrencesOf_cons, hpiece] at hread
    simpa only [List.append_assoc] using hread

/-! ## The reply -/

theorem version_of_resolved (h : a.resolved = .ok r) : r.version = a.flags .version := by
  obtain ⟨d, _, hresolve⟩ := exists_draft_of_resolved h
  rw [Draft.toSettings_of_build (Draft.resolve_eq_ok_iff.mp hresolve).1,
    version_applyAll_settingSteps]

/-- Exporting and printing, where neither help nor the version is asked for. -/
theorem answer_without_export (hhelp : a.flags .help = false) (hversion : a.flags .version = false)
    (hpath : a.exportPath = some path) (folder : Folder) :
    ((a.answer folder).exitCode = 0 →
      ({ a with exportPath := none }.answer folder).exitCode = 0 ∧
      ∃ content, (a.answer folder).saved = some ⟨path, content⟩ ∧ (a.answer folder).left = none ∧
        ({ a with exportPath := none }.answer folder).stdout = withLineEnd content) ∧
    (({ a with exportPath := none }.answer folder).exitCode ≠ 0 →
      a.answer folder = { a with exportPath := none }.answer folder ∧
      (a.answer folder).saved = none ∧ (a.answer folder).left = none) ∧
    ((a.answer folder).exitCode ≠ 0 → ({ a with exportPath := none }.answer folder).exitCode = 0 →
      ∃ content cause left,
        ({ a with exportPath := none }.answer folder).stdout = withLineEnd content ∧
        (folder path content).FailsWith content cause left ∧
        a.answer folder =
          { exitCode := 1
            stderr := failureText [s!"Failed to write report to {path}", cause.message]
            left := left.map (⟨path, ·⟩) }) := by
  have hresolved : { a with exportPath := none }.resolved = a.resolved := rfl
  unfold answer
  rw [hresolved]
  cases hrequest : a.resolved with
  | error chain =>
    exact ⟨fun hzero => absurd hzero exitCode_failure_ne_zero, fun _ => ⟨rfl, rfl, rfl⟩,
      fun _ hzero => absurd hzero exitCode_failure_ne_zero⟩
  | ok r =>
    have hversion' : r.version = false := (version_of_resolved hrequest).trans hversion
    have hprinted : { a with exportPath := none }.reply folder r =
        { stdout := withLineEnd (a.report r) } := reply_of_print hhelp hversion' rfl
    dsimp only
    rw [hprinted]
    rcases Writing.eq_done_or_failsWith (a.report r) (folder path (a.report r)) with
      hwrite | ⟨cause, left, hfailed⟩
    · rw [reply_of_save hhelp hversion' hpath hwrite]
      exact ⟨fun _ => ⟨rfl, _, rfl, rfl, rfl⟩, fun hnot => absurd rfl hnot,
        fun hnot _ => absurd rfl hnot⟩
    · rw [reply_of_failed hhelp hversion' hpath hfailed]
      exact ⟨fun hzero => absurd hzero exitCode_failure_ne_zero, fun hnot => absurd rfl hnot,
        fun _ _ => ⟨_, cause, left, rfl, hfailed, rfl⟩⟩

/-! ## The two channels -/

/-- A request is exported just when it is not one for the version and the file takes the whole
report, and then as it would be printed; a file that stops taking it keeps the beginning, and in all
other cases no file is touched. An accepted command line that exports has one piece for it. The rest
is accepted with the same arguments otherwise. Where the export succeeds, the rest prints what was
saved, with a line break at its end; where the rest fails, the export fails in the same way and no
file is touched; and where only the export fails, the file could not be written. -/
theorem export_agrees_with_print (folder : Folder) :
    (∀ (r : Request) (format : ReportFormat) (path : String),
      (∀ file : SavedFile, savedBy (r.describe folder format (some path)) = some file ↔
        r.version = false ∧ file.path = path ∧
          r.describe folder format none = .ok { text := file.content } ∧
          folder path file.content = .done) ∧
      ∀ remnant : Remnant, leftBy (r.describe folder format (some path)) = some remnant ↔
        r.version = false ∧ remnant.path = path ∧
          ∃ text cause taken, r.describe folder format none = .ok { text } ∧
            folder path text = .brokeOff cause taken ∧
            remnant.bytes = firstBytes text taken) ∧
    ∀ (words : List String) (a : Arguments) (path : String), ofWords words = .ok a →
      a.exportPath = some path → a.flags .help = false → a.flags .version = false →
      (∃ before option after, words = before ++ option ++ after ∧
        Means option [.parameter .exportPath path] ∧
        ofWords (before ++ after) = .ok { a with exportPath := none }) ∧
      ∀ others : List String, ofWords others = .ok { a with exportPath := none } →
        ((run folder words).exitCode = 0 →
          (run folder others).exitCode = 0 ∧
          ∃ content, (run folder words).saved = some ⟨path, content⟩ ∧
            (run folder words).left = none ∧
            (run folder others).stdout =
              if content.toList.getLast? = some '\n' then content else content ++ "\n") ∧
        ((run folder others).exitCode ≠ 0 →
          run folder words = run folder others ∧ (run folder words).saved = none ∧
            (run folder words).left = none) ∧
        ((run folder words).exitCode ≠ 0 → (run folder others).exitCode = 0 →
          ∃ content cause left,
            (run folder others).stdout =
              (if content.toList.getLast? = some '\n' then content else content ++ "\n") ∧
            (folder path content).FailsWith content cause left ∧
            run folder words =
              { exitCode := 1
                stderr := failureText [s!"Failed to write report to {path}", cause.message]
                left := left.map (⟨path, ·⟩) }) := by
  refine ⟨fun r format path =>
    ⟨fun file => Request.describe_saves_iff, fun remnant => Request.describe_leaves_iff⟩, ?_⟩
  intro words a path h hpath hhelp hversion
  refine ⟨exists_without_export h hpath, fun others hothers => ?_⟩
  rw [run_eq_answer h, run_eq_answer hothers]
  exact answer_without_export hhelp hversion hpath folder

/-- A command line that exports, between its other options. -/
def exExporting : List String := ["--lines=2:3", "--export", "out.json", "A.java", "-a"]

theorem run_exExporting :
    (∃ a, ofWords exExporting = .ok a ∧ a.exportPath = some "out.json" ∧ a.flags .help = false ∧
      a.flags .version = false) ∧
    (run Folder.empty exExporting).exitCode = 0 ∧
    (run Folder.empty ["--lines=2:3", "A.java", "-a"]).exitCode = 0 ∧
    ∃ content, (run Folder.empty exExporting).saved = some ⟨"out.json", content⟩ ∧
      (run Folder.empty exExporting).left = none ∧
      (run Folder.empty ["--lines=2:3", "A.java", "-a"]).stdout =
        if content.toList.getLast? = some '\n' then content else content ++ "\n" := by
  have hzero : (run Folder.empty exExporting).exitCode = 0 := by decide +kernel
  refine ⟨⟨_, rfl, rfl, rfl, rfl⟩, hzero, ?_⟩
  exact (((export_agrees_with_print Folder.empty).2 exExporting _ "out.json" rfl rfl rfl rfl).2
    ["--lines=2:3", "A.java", "-a"] rfl).1 hzero

/-- A request of one file. -/
def exOneFile : Request where
  files := ["A.java"]
  lines := ∅
  offsets := []
  lengths := []

/-- An export that saves nothing can have opened its file: a full device takes nothing of what would
be printed, and a disk that runs full keeps what it has taken. -/
theorem not_export_all_or_nothing :
    ((run Folder.empty ["--output-format", "json", "A.java"]).exitCode = 0 ∧
      run Folder.empty ["--export=/dev/full", "--output-format", "json", "A.java"] =
        { exitCode := 1
          stderr := "Error: Failed to write report to /dev/full\n\nCaused by:\n" ++
            "    No space left on device (os error 28)\n"
          left := some ⟨"/dev/full", []⟩ }) ∧
    ¬ ∀ (folder : Folder) (r : Request) (format : ReportFormat) (path : String),
        savedBy (r.describe folder format (some path)) = none →
        leftBy (r.describe folder format (some path)) = none := by
  refine ⟨by decide +kernel, fun h => ?_⟩
  have hsaved : savedBy (exOneFile.describe exCrowded .json (some "out.json")) = none := by
    decide +kernel
  have hleft : leftBy (exOneFile.describe exCrowded .json (some "out.json")) =
      some ⟨"out.json", firstBytes "\x7b\n  \"files\": [\n " 16⟩ := by decide +kernel
  exact absurd (hleft.symm.trans (h _ _ _ _ hsaved)) (Option.some_ne_none _)

end CommandLine.Arguments

end FormatRequest
