import FormatRequest.Proofs.CommandLine.Answer
import FormatRequest.Proofs.Selection.Values

/-!
# How a run ends

After its arguments are accepted a run can fail in four stages: when the lines are read, when the
request is built, when the rules are checked and when the report is written to a file. It ends at
the first stage that fails, and nothing is printed then. Nothing is written either, but where
writing itself breaks off: the file has been emptied by then, and keeps the beginning of the report.
A report is rendered before it is written, but rendering is a function of the request and the format
that never fails. A request for help or for the version is answered before anything would be
written, and only when the stages before that have passed.

Results:
1. `passes_or_fails`: there is a stage that fails, or all pass.
2. `resolved_of_readable`, `resolved_of_firstUnreadable`: the request of the arguments.
3. `Passes.answer_eq`, `Fails.answer_eq`: the answer in either case.
4. `left_answer_eq_some_iff`: what is left behind.
5. `run_ends`: how a run ends, by the stages.
6. `not_untouched_of_exitCode_one`: a run can fail and still change the file of its export path.
-/

namespace FormatRequest.CommandLine

theorem exists_withLineEnd (text : String) : ∃ line, withLineEnd text = line ++ "\n" := by
  unfold withLineEnd
  split
  · next h =>
    obtain ⟨chars, hchars⟩ := List.getLast?_eq_some_iff.mp h
    refine ⟨String.ofList chars, String.toList_inj.mp ?_⟩
    rw [hchars, String.toList_append, String.toList_ofList]
    rfl
  · exact ⟨text, rfl⟩

namespace Arguments

variable {a : Arguments} {r : Request} {folder : Folder} {chain : List String}

/-! ## The stages -/

/-- The draft of the arguments, with the lines that can be read. -/
def described (a : Arguments) : Draft :=
  ((Draft.ofSteps a.inputSteps).selectLines a.lines).1.applyAll a.settingSteps

/-- The stages up to the report pass, and the request is `r`. -/
structure Resolves (a : Arguments) (r : Request) : Prop where
  lines : ∀ value ∈ a.lines, Readable value
  build : a.described.build = .ok r
  rules : r.brokenRules = []

/-- Every stage passes. Nothing has to be written for help or for the version. -/
structure Passes (folder : Folder) (a : Arguments) (r : Request) : Prop extends Resolves a r where
  writing : a.flags .help = true ∨ a.flags .version = true ∨
    ∀ path, a.exportPath = some path → folder path (a.report r) = .done

/-- `Fails folder a chain left`: a stage fails with the wordings `chain`, and those before it pass.
Nothing is said of the stages after it. Between the rules and the writing the report is rendered,
which cannot fail. Only the writing can leave something. -/
inductive Fails (folder : Folder) (a : Arguments) : List String → Option Remnant → Prop
  | lines {fault : SelectionFault} (first : FirstUnreadable a.lines fault) :
    Fails folder a (s!"Invalid --lines value '{fault.value}'" :: fault.cause.chain) none
  | build {cause : Fault} (lines : ∀ value ∈ a.lines, Readable value)
    (invalid : a.described.build = .error cause) :
    Fails folder a ["Invalid formatting request", cause.message] none
  | rules {r : Request} (lines : ∀ value ∈ a.lines, Readable value)
    (build : a.described.build = .ok r) (broken : r.brokenRules ≠ []) :
    Fails folder a ["; ".intercalate (r.brokenRules.map Rule.message)] none
  | writing {r : Request} {path : String} {cause : WriteFault} {left : Option (List UInt8)}
    (resolves : a.Resolves r) (help : a.flags .help = false) (version : a.flags .version = false)
    (exported : a.exportPath = some path)
    (failed : (folder path (a.report r)).FailsWith (a.report r) cause left) :
    Fails folder a [s!"Failed to write report to {path}", cause.message] (left.map (⟨path, ·⟩))

theorem Resolves.passes_or_fails (h : a.Resolves r) (folder : Folder) :
    Passes folder a r ∨ ∃ chain left, Fails folder a chain left := by
  by_cases hwriting : a.flags .help = true ∨ a.flags .version = true ∨
    ∀ path, a.exportPath = some path → folder path (a.report r) = .done
  · exact .inl ⟨h, hwriting⟩
  · obtain ⟨hhelp, hrest⟩ := not_or.mp hwriting
    obtain ⟨hversion, hpaths⟩ := not_or.mp hrest
    simp only [not_forall] at hpaths
    obtain ⟨path, hpath, hnot⟩ := hpaths
    obtain ⟨cause, left, hfailed⟩ :=
      (Writing.eq_done_or_failsWith (a.report r) (folder path (a.report r))).resolve_left hnot
    rw [Bool.not_eq_true] at hhelp hversion
    exact .inr ⟨_, _, .writing h hhelp hversion hpath hfailed⟩

theorem passes_or_fails (folder : Folder) (a : Arguments) :
    (∃ r, Passes folder a r) ∨ ∃ chain left, Fails folder a chain left := by
  by_cases hlines : ∀ value ∈ a.lines, Readable value
  · cases hbuild : a.described.build with
    | error cause => exact .inr ⟨_, _, .build hlines hbuild⟩
    | ok r =>
      by_cases hrules : r.brokenRules = []
      · have hresolves : a.Resolves r := ⟨hlines, hbuild, hrules⟩
        exact (hresolves.passes_or_fails folder).imp_left fun hpasses => ⟨r, hpasses⟩
      · exact .inr ⟨_, _, .rules hlines hbuild hrules⟩
  · obtain ⟨fault, hfirst⟩ := exists_firstUnreadable hlines
    exact .inr ⟨_, _, .lines hfirst⟩

/-- Only a write that breaks off leaves a file, and the file holds what it took of the report. -/
theorem Fails.brokeOff {remnant : Remnant} (h : Fails folder a chain (some remnant)) :
    ∃ r cause taken, Resolves a r ∧ a.flags .help = false ∧ a.flags .version = false ∧
      a.exportPath = some remnant.path ∧
      folder remnant.path (a.report r) = .brokeOff cause taken ∧
      remnant.bytes = firstBytes (a.report r) taken := by
  generalize hleft : some remnant = left at h
  cases h with
  | lines first => cases hleft
  | build lines invalid => cases hleft
  | rules lines build broken => cases hleft
  | writing resolves help version exported failed =>
    obtain ⟨bytes, rfl, rfl⟩ := Option.map_eq_some_iff.mp hleft.symm
    obtain ⟨taken, hwrite, hbytes⟩ := Writing.failsWith_some_iff.mp failed
    exact ⟨_, _, taken, resolves, help, version, exported, hwrite, hbytes⟩

/-! ## The request of the arguments -/

theorem resolved_of_firstUnreadable {fault : SelectionFault} (h : FirstUnreadable a.lines fault) :
    a.resolved = .error fault.chain := by
  have hpair : (Draft.ofSteps a.inputSteps).selectLines a.lines = (_, some fault) :=
    Prod.ext rfl (Draft.fault_selectLines_eq_some_iff.mpr h)
  unfold resolved
  rw [hpair]

theorem resolved_of_readable (h : ∀ value ∈ a.lines, Readable value) :
    a.resolved = a.described.resolve.mapError ResolutionFault.chain := by
  have hpair : (Draft.ofSteps a.inputSteps).selectLines a.lines = (_, none) :=
    Prod.ext rfl (Draft.fault_selectLines_eq_none_iff.mpr h)
  unfold resolved described
  rw [hpair]

theorem Resolves.resolved_eq (h : a.Resolves r) : a.resolved = .ok r := by
  rw [resolved_of_readable h.lines, Draft.resolve_eq_ok_iff.mpr ⟨h.build, h.rules⟩]
  rfl

theorem version_of_build (h : a.described.build = .ok r) : r.version = a.flags .version := by
  rw [Draft.toSettings_of_build h]
  exact version_applyAll_settingSteps _

/-! ## The reply -/

/-- What is printed when the reply succeeds. -/
def printed (a : Arguments) (r : Request) : String :=
  if a.flags .help then usageText
  else if a.flags .version then versionText
  else
    match a.exportPath with
    | none => a.report r
    | some path => Delivery.savedText path

theorem Passes.reply_eq (h : Passes folder a r) :
    a.reply folder r =
      { stdout := withLineEnd (a.printed r)
        saved := if a.flags .help || a.flags .version then none
          else a.exportPath.map fun path => ⟨path, a.report r⟩ } := by
  have hbuilt : r.version = a.flags .version := version_of_build h.build
  unfold printed
  cases hhelp : a.flags .help with
  | true => simp only [reply_of_help hhelp, if_true, Bool.true_or, withLineEnd_usageText]
  | false =>
    cases hversion : a.flags .version with
    | true =>
      rw [reply_of_version hhelp (hbuilt.trans hversion)]
      rfl
    | false =>
      cases hpath : a.exportPath with
      | none =>
        rw [reply_of_print hhelp (hbuilt.trans hversion) hpath]
        rfl
      | some path =>
        have hwrite : folder path (a.report r) = .done := by
          rcases h.writing with hon | hon | hwrite
          · exact absurd (hhelp.symm.trans hon) Bool.false_ne_true
          · exact absurd (hversion.symm.trans hon) Bool.false_ne_true
          · exact hwrite path hpath
        rw [reply_of_save hhelp (hbuilt.trans hversion) hpath hwrite]
        rfl

/-! ## The end of a run -/

theorem Passes.answer_eq (h : Passes folder a r) :
    a.answer folder =
      { stdout := withLineEnd (a.printed r)
        saved := if a.flags .help || a.flags .version then none
          else a.exportPath.map fun path => ⟨path, a.report r⟩ } := by
  unfold answer
  rw [h.resolved_eq]
  exact h.reply_eq

theorem Fails.answer_eq {left : Option Remnant} (h : Fails folder a chain left) :
    a.answer folder = failure chain left := by
  unfold answer
  cases h with
  | lines first =>
    rw [resolved_of_firstUnreadable first]
    rfl
  | build lines invalid =>
    rw [resolved_of_readable lines, Draft.resolve_of_build_error invalid]
    rfl
  | rules lines build broken =>
    rw [resolved_of_readable lines, Draft.resolve_of_build_ok build, if_neg broken]
    rfl
  | writing resolves help version exported failed =>
    rw [resolves.resolved_eq]
    exact reply_of_failed help ((version_of_build resolves.build).trans version) exported failed

/-- A file is left behind where the stages up to the report pass, the report has to be written, and
writing it breaks off. -/
theorem left_answer_eq_some_iff {remnant : Remnant} :
    (a.answer folder).left = some remnant ↔
      ∃ r cause taken, Resolves a r ∧ a.flags .help = false ∧ a.flags .version = false ∧
        a.exportPath = some remnant.path ∧
        folder remnant.path (a.report r) = .brokeOff cause taken ∧
        remnant.bytes = firstBytes (a.report r) taken := by
  constructor
  · intro h
    rcases passes_or_fails folder a with ⟨r, hpasses⟩ | ⟨chain, left, hfails⟩
    · rw [hpasses.answer_eq] at h
      cases h
    · rw [hfails.answer_eq] at h
      obtain rfl : left = some remnant := h
      exact hfails.brokeOff
  · rintro ⟨r, cause, taken, hresolves, hhelp, hversion, hpath, hwrite, hbytes⟩
    have hfailed := Writing.failsWith_some_iff.mpr ⟨taken, hwrite, hbytes⟩
    rw [(Fails.writing hresolves hhelp hversion hpath hfailed).answer_eq]
    rfl

/-- A run on accepted arguments ends well just when every stage passes. Otherwise it says why the
first stage fails that does, and prints and saves nothing. What it can leave behind is the beginning
of the report, where writing it breaks off. A run that ends well says nothing on the error stream;
it prints at least a line, the usage text if it is asked for help; and it writes the report to the
export path and nowhere else, but nothing for help or for the version. -/
theorem run_ends (folder : Folder) (words : List String) (a : Arguments)
    (h : ofWords words = .ok a) :
    ((run folder words).exitCode = 0 ↔ ∃ r, Passes folder a r) ∧
    ((¬ ∃ r, Passes folder a r) →
      (run folder words).exitCode = 1 ∧ ∃ chain left, Fails folder a chain left) ∧
    (∀ chain left, Fails folder a chain left →
      run folder words =
        { exitCode := 1, stdout := "", stderr := failureText chain, saved := none, left }) ∧
    (∀ remnant, (run folder words).left = some remnant ↔
      ∃ r cause taken, Resolves a r ∧ a.flags .help = false ∧ a.flags .version = false ∧
        a.exportPath = some remnant.path ∧
        folder remnant.path (a.report r) = .brokeOff cause taken ∧
        remnant.bytes = firstBytes (a.report r) taken) ∧
    ∀ r, Passes folder a r →
      (run folder words).stderr = "" ∧
      (∃ text, (run folder words).stdout = text ++ "\n") ∧
      (a.flags .help = true → (run folder words).stdout = usageText) ∧
      (run folder words).left = none ∧
      (run folder words).saved =
        if a.flags .help || a.flags .version then none
        else a.exportPath.map fun path => ⟨path, r.render (a.outputFormat.getD .console)⟩ := by
  rw [run_eq_answer h]
  refine ⟨⟨fun hzero => ?_, fun ⟨r, hr⟩ => ?_⟩, fun hnot => ?_,
    fun chain left hfails => hfails.answer_eq, fun remnant => left_answer_eq_some_iff,
    fun r hr => ?_⟩
  · refine (passes_or_fails folder a).resolve_right fun ⟨chain, left, hfails⟩ => ?_
    rw [hfails.answer_eq] at hzero
    exact exitCode_failure_ne_zero hzero
  · rw [hr.answer_eq]
  · obtain ⟨chain, left, hfails⟩ := (passes_or_fails folder a).resolve_left hnot
    rw [hfails.answer_eq]
    exact ⟨rfl, chain, left, hfails⟩
  · rw [hr.answer_eq]
    refine ⟨rfl, exists_withLineEnd _, fun hhelp => ?_, rfl, rfl⟩
    unfold printed
    rw [if_pos hhelp, withLineEnd_usageText]

/-- Arguments for which every stage passes. -/
def exPassing : Arguments where
  files := ["A.java"]
  lines := ["7"]
  outputFormat := some .toml
  exportPath := some "out.toml"

/-- Arguments for which every stage fails. -/
def exFailing : Arguments where
  lines := ["9:3", "2:x"]
  offsets := [4]
  exportPath := some "missing/out"

theorem passes_exPassing :
    Passes Folder.empty exPassing
      { files := ["A.java"], lines := ⟨#[⟨7, 8⟩]⟩, offsets := [], lengths := [] } where
  lines := by
    intro value hvalue
    obtain rfl := List.mem_singleton.mp hvalue
    exact ⟨[⟨7, 7⟩], by rfl⟩
  build := by decide +kernel
  rules := by decide +kernel
  writing := by
    refine .inr (.inr fun path hpath => ?_)
    obtain rfl := Option.some.inj hpath
    decide

theorem fails_exFailing :
    Fails Folder.empty exFailing
      ["Invalid --lines value '2:x'", "Line range must be in format 'N' or 'N:M', got '2:x'"]
      none := by
  have hfirst : FirstUnreadable exFailing.lines ⟨"2:x", .shape "2:x".toList⟩ := by
    refine ⟨⟨["9:3"], [], rfl, fun value hvalue => ?_⟩, by rfl⟩
    obtain rfl := List.mem_singleton.mp hvalue
    exact ⟨[⟨9, 3⟩], by rfl⟩
  exact .lines hfirst

theorem run_exPassing_exFailing :
    (ofWords ["--line=7", "--export", "out.toml", "A.java", "--output-format=toml"] =
        .ok exPassing ∧
      ofWords ["--offset=4", "--lines=9:3", "--export=missing/out", "--lines", "2:x"] =
        .ok exFailing) ∧
    (run Folder.empty
        ["--line=7", "--export", "out.toml", "A.java", "--output-format=toml"]).exitCode = 0 ∧
    run Folder.empty ["--offset=4", "--lines=9:3", "--export=missing/out", "--lines", "2:x"] =
      { exitCode := 1
        stderr := failureText
          ["Invalid --lines value '2:x'",
            "Line range must be in format 'N' or 'N:M', got '2:x'"] } := by
  have hpassing : ofWords ["--line=7", "--export", "out.toml", "A.java", "--output-format=toml"] =
      .ok exPassing := by rfl
  have hfailing : ofWords
      ["--offset=4", "--lines=9:3", "--export=missing/out", "--lines", "2:x"] = .ok exFailing := by
    rfl
  exact ⟨⟨hpassing, hfailing⟩, (run_ends Folder.empty _ _ hpassing).1.mpr ⟨_, passes_exPassing⟩,
    (run_ends Folder.empty _ _ hfailing).2.2.1 _ _ fails_exFailing⟩

/-- A run that fails can have opened the file of its export path: a full device takes nothing, and a
disk that runs full keeps what it has taken. -/
theorem not_untouched_of_exitCode_one :
    run Folder.empty ["A.java", "--export", "/dev/full"] =
      { exitCode := 1
        stderr := "Error: Failed to write report to /dev/full\n\nCaused by:\n" ++
          "    No space left on device (os error 28)\n"
        left := some ⟨"/dev/full", []⟩ } ∧
    ¬ ∀ (folder : Folder) (words : List String) (a : Arguments), ofWords words = .ok a →
        (run folder words).exitCode = 1 → (run folder words).left = none := by
  refine ⟨by decide +kernel, fun h => ?_⟩
  have hread : ofWords ["A.java", "--export", "out.txt"] =
      .ok { files := ["A.java"], exportPath := some "out.txt" } := by rfl
  have hone : (run exCrowded ["A.java", "--export", "out.txt"]).exitCode = 1 := by decide +kernel
  have hleft : (run exCrowded ["A.java", "--export", "out.txt"]).left =
      some ⟨"out.txt", firstBytes "📄 Formatting " 16⟩ := by decide +kernel
  exact absurd (hleft.symm.trans (h _ _ _ hread hone)) (Option.some_ne_none _)

end Arguments

end FormatRequest.CommandLine
