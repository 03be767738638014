import FormatRequest.CommandLine.Run
import FormatRequest.Proofs.CommandLine.Spelling
import FormatRequest.Proofs.Delivery
import FormatRequest.Proofs.Draft.Build
import FormatRequest.Proofs.Resolution

/-!
# What a run answers

The command line is one way to make a draft, and it adds nothing of its own: a run on arguments that
are accepted answers what the drafts, the resolution and the reports answer when they are asked
directly. Since all arguments can be spelled out, every request can be made on the command line.

Results:
1. `applyAll_fileSteps`, `optionSteps_eq`: the draft of the arguments in terms of its own steps.
2. `reply_of_help`, `reply_of_version`, `reply_of_print`, `reply_of_save`, `reply_of_failed`: the
   reply to a request, case by case.
3. `run_eq_answer`: a run on accepted arguments.
4. `run_spelled`: a run on arguments that are spelled out.
-/

namespace FormatRequest.CommandLine

namespace Arguments

variable {a : Arguments}

/-! ## The draft of the arguments -/

/-- The inputs: the files but for the name of standard input, which is read when it is among
them. -/
def inputSteps (a : Arguments) : List Step :=
  [.addFiles (a.files.filter (· ≠ stdinName)), .switch .stdin (a.files.contains stdinName)]

/-- The settings. A flag that skips something turns off what it skips. -/
def settingSteps (a : Arguments) : List Step :=
  a.offsets.map .addOffset ++ a.lengths.map .addLength ++ a.lineLength.toList.map .maxWidth ++
    a.assumeFilename.toList.map .assumeFilename ++
    [.switch .inPlace (a.flags .replace), .switch .aosp (a.flags .aosp),
      .switch .fixImportsOnly (a.flags .fixImportsOnly),
      .switch .sortImports (!a.flags .skipSortingImports),
      .switch .removeUnusedImports (!a.flags .skipRemovingUnusedImports),
      .switch .reflowLongStrings (!a.flags .skipReflowingLongStrings),
      .switch .formatJavadoc (!a.flags .skipJavadocFormatting),
      .switch .dryRun (a.flags .dryRun), .switch .setExitIfChanged (a.flags .setExitIfChanged),
      .switch .version (a.flags .version), .switch .help (a.flags .help)]

/-- The files are added one by one, and standard input is turned on at its name. -/
theorem applyAll_fileSteps (d : Draft) (files : List String) :
    d.applyAll (files.map fileStep) =
      { d with
        files := d.files ++ files.filter (· ≠ stdinName)
        stdin := d.stdin || files.contains stdinName } := by
  induction files generalizing d with
  | nil => simp
  | cons name files ih =>
    rw [List.map_cons, Draft.applyAll_cons, ih]
    by_cases hname : name = stdinName
    · have hstep : d.apply (fileStep name) = { d with stdin := true } := by
        unfold fileStep
        rw [if_pos hname]
        rfl
      rw [hstep]
      simp [hname]
    · have hstep : d.apply (fileStep name) = { d with files := d.files ++ [name] } := by
        unfold fileStep
        rw [if_neg hname]
        rfl
      rw [hstep]
      simp [hname, Ne.symm hname]

theorem ofSteps_fileSteps (a : Arguments) :
    Draft.ofSteps (a.files.map fileStep) = Draft.ofSteps a.inputSteps := by
  unfold Draft.ofSteps
  rw [applyAll_fileSteps]
  rfl

theorem optionSteps_eq (a : Arguments) : a.optionSteps = a.settingSteps := by
  simp [optionSteps, settingSteps, Flag.all, flagStep, Flag.setting]

theorem draft_eq (a : Arguments) :
    a.draft =
      match (Draft.ofSteps a.inputSteps).selectLines a.lines with
      | (d, none) => .ok (d.applyAll a.settingSteps)
      | (_, some fault) => .error fault := by
  rw [← ofSteps_fileSteps, ← optionSteps_eq]
  exact rfl

/-- The settings end with the flags for help and for the version, which nothing takes back. -/
theorem help_applyAll_settingSteps (d : Draft) :
    (d.applyAll a.settingSteps).help = a.flags .help := by
  unfold settingSteps
  rw [Draft.applyAll_append]
  rfl

theorem version_applyAll_settingSteps (d : Draft) :
    (d.applyAll a.settingSteps).version = a.flags .version := by
  unfold settingSteps
  rw [Draft.applyAll_append]
  rfl

end Arguments

/-! ## The answer -/

/-- How a run ends that fails after its arguments were accepted, and what it leaves behind. -/
def failure (chain : List String) (left : Option Remnant := none) : Outcome :=
  { exitCode := 1, stderr := failureText chain, left }

theorem exitCode_failure_ne_zero {chain : List String} {left : Option Remnant} :
    (failure chain left).exitCode ≠ 0 := by
  show (1 : UInt32) ≠ 0
  decide

namespace Arguments

variable {a : Arguments} {r : Request}

/-- The request of the arguments, or the wordings of why there is none: the inputs are given to an
empty draft, then the selected lines, then the settings, and the draft is resolved. -/
def resolved (a : Arguments) : Except (List String) Request :=
  match (Draft.ofSteps a.inputSteps).selectLines a.lines with
  | (d, none) => (d.applyAll a.settingSteps).resolve.mapError ResolutionFault.chain
  | (_, some fault) => .error fault.chain

/-- The reply to a request in a folder: the usage text for one who asks for help, and the report of
the request otherwise. -/
def reply (a : Arguments) (folder : Folder) (r : Request) : Outcome :=
  if a.flags .help then { stdout := usageText }
  else
    match r.describe folder (a.outputFormat.getD .console) a.exportPath with
    | .error fault => failure fault.chain fault.remnant
    | .ok d => { stdout := withLineEnd d.text, saved := d.saved }

/-- The report of a request. -/
def report (a : Arguments) (r : Request) : String := r.render (a.outputFormat.getD .console)

/-- The answer to the arguments in a folder. -/
def answer (a : Arguments) (folder : Folder) : Outcome :=
  match a.resolved with
  | .error chain => failure chain
  | .ok r => a.reply folder r

theorem withLineEnd_usageText : withLineEnd usageText = usageText := by
  refine if_pos ?_
  unfold usageText
  rw [String.toList_append, List.getLast?_append]
  rfl

section Reply

variable {folder : Folder} {path : String}

theorem reply_of_help (hhelp : a.flags .help = true) :
    a.reply folder r = { stdout := usageText } := by
  unfold reply
  rw [hhelp]
  rfl

theorem reply_of_version (hhelp : a.flags .help = false) (hversion : r.version = true) :
    a.reply folder r = { stdout := withLineEnd versionText } := by
  unfold reply
  rw [hhelp, Request.describe_version hversion]
  rfl

theorem reply_of_print (hhelp : a.flags .help = false) (hversion : r.version = false)
    (hpath : a.exportPath = none) :
    a.reply folder r = { stdout := withLineEnd (a.report r) } := by
  unfold reply
  rw [hhelp, hpath, Request.describe_print hversion]
  rfl

theorem reply_of_save (hhelp : a.flags .help = false) (hversion : r.version = false)
    (hpath : a.exportPath = some path) (hwrite : folder path (a.report r) = .done) :
    a.reply folder r =
      { stdout := withLineEnd (Delivery.savedText path), saved := some ⟨path, a.report r⟩ } := by
  unfold reply
  rw [hhelp, hpath, Request.describe_save hversion hwrite]
  rfl

theorem reply_of_failed (hhelp : a.flags .help = false) (hversion : r.version = false)
    (hpath : a.exportPath = some path) {cause : WriteFault} {left : Option (List UInt8)}
    (hwrite : (folder path (a.report r)).FailsWith (a.report r) cause left) :
    a.reply folder r =
      failure [s!"Failed to write report to {path}", cause.message] (left.map (⟨path, ·⟩)) := by
  unfold reply
  rw [hhelp, hpath, Request.describe_failed hversion hwrite]
  rfl

end Reply

theorem help_of_resolve {d : Draft} (h : (d.applyAll a.settingSteps).resolve = .ok r) :
    r.help = a.flags .help := by
  rw [Draft.toSettings_of_build (Draft.resolve_eq_ok_iff.mp h).1, help_applyAll_settingSteps]

theorem exists_draft_of_resolved (h : a.resolved = .ok r) :
    ∃ d, (Draft.ofSteps a.inputSteps).selectLines a.lines = (d, none) ∧
      (d.applyAll a.settingSteps).resolve = .ok r := by
  unfold resolved at h
  split at h
  · next d hselect =>
    refine ⟨d, hselect, ?_⟩
    cases hresolve : (d.applyAll a.settingSteps).resolve with
    | error cause =>
      rw [hresolve] at h
      cases h
    | ok built =>
      rw [hresolve] at h
      exact congrArg Except.ok (Except.ok.inj h)
  · cases h

theorem outcome_delivery (h : r.help = a.flags .help) (folder : Folder) :
    outcome (carryOut folder (.ok (a.delivery r))) = a.reply folder r := by
  unfold delivery reply
  rw [h]
  split
  · have hprinted : outcome (carryOut folder (.ok (.print usageText))) =
        { stdout := withLineEnd usageText } := rfl
    rw [hprinted, withLineEnd_usageText]
  · show outcome ((r.describe folder (a.outputFormat.getD .console) a.exportPath).mapError
      RunFault.delivery) = _
    cases r.describe folder (a.outputFormat.getD .console) a.exportPath with
    | error fault => rfl
    | ok delivered => rfl

theorem run_eq_answer {words : List String} (h : ofWords words = .ok a) (folder : Folder) :
    run folder words = a.answer folder := by
  unfold run plan
  rw [h]
  show outcome (carryOut folder (a.draft.mapError RunFault.selection >>= fun d =>
    d.resolve.mapError RunFault.resolution >>= fun r => .ok (a.delivery r))) = _
  rw [draft_eq]
  unfold answer resolved
  rcases (Draft.ofSteps a.inputSteps).selectLines a.lines with ⟨d, _ | fault⟩
  · show outcome (carryOut folder ((d.applyAll a.settingSteps).resolve.mapError
      RunFault.resolution >>= fun r => .ok (a.delivery r))) = _
    dsimp only
    cases hresolve : (d.applyAll a.settingSteps).resolve with
    | error fault => rfl
    | ok r => exact outcome_delivery (help_of_resolve hresolve) folder
  · rfl

theorem exitCode_answer (a : Arguments) (folder : Folder) :
    (a.answer folder).exitCode = 0 ∨ (a.answer folder).exitCode = 1 := by
  unfold answer
  cases a.resolved with
  | error chain => exact .inr rfl
  | ok r =>
    show (a.reply folder r).exitCode = 0 ∨ (a.reply folder r).exitCode = 1
    unfold reply
    split
    · exact .inl rfl
    · split
      · exact .inr rfl
      · exact .inl rfl

/-- All arguments without an empty export path can be spelled out. However their options are
ordered, the command line is accepted, and the run answers the arguments. -/
theorem run_spelled (folder : Folder) (a : Arguments) (h : a.exportPath ≠ some "") :
    Spells a.spelling a ∧
      ∀ options, Spells options a →
        ofWords (spelled options a.files) = .ok a ∧
        run folder (spelled options a.files) = a.answer folder ∧
        (run folder (spelled options a.files)).exitCode ≠ 2 := by
  refine ⟨spells_spelling a, fun options hspells => ?_⟩
  have hread := ofWords_spelled hspells h
  have hrun := run_eq_answer hread folder
  refine ⟨hread, hrun, ?_⟩
  rw [hrun]
  rcases exitCode_answer a folder with hzero | hone
  · rw [hzero]
    decide
  · rw [hone]
    decide

/-- A file and a value that look like options. -/
def exArguments : Arguments where
  files := ["--aosp"]
  flags := (· = .skipSortingImports)
  lines := ["2:3", "7"]
  lineLength := some 80
  exportPath := some "--help"

/-- The options of the example, parameters and flags mixed. -/
def exOptions : List Occurrence :=
  [.parameter .exportPath "--help", .parameter .lines "2:3", .flag .skipSortingImports,
    .parameter .lines "7", .parameter .lineLength "80"]

theorem spells_exOptions : Spells exOptions exArguments where
  files := rfl
  flags := by
    intro f
    cases f <;> decide
  values := by
    intro p
    cases p <;> decide

theorem run_exArguments :
    exArguments.exportPath ≠ some "" ∧
      spelled exOptions exArguments.files =
        ["--export=--help", "--lines=2:3", "--skip-sorting-imports", "--lines=7",
          "--line-length=80", "--", "--aosp"] ∧
      run Folder.empty (spelled exOptions exArguments.files) = exArguments.answer Folder.empty ∧
      (exArguments.answer Folder.empty).exitCode = 0 := by
  have hpath : exArguments.exportPath ≠ some "" := by decide
  refine ⟨hpath, by decide, ?_, by decide +kernel⟩
  exact ((run_spelled Folder.empty exArguments hpath).2 exOptions spells_exOptions).2.1

end Arguments

end FormatRequest.CommandLine
