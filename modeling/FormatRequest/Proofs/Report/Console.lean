import FormatRequest.Proofs.Draft.Build
import FormatRequest.Proofs.Report.Fields
import FormatRequest.Proofs.Resolution
import FormatRequest.Report

/-!
# What the console report tells

The report leaves things out: files when standard input is read, the place of the output in a dry
run. It also writes names as they are, so that a file name can look like any line of the report. A
request that is consistent can be read from it all the same. The files are counted before they are
named, the lines after them are told apart by their first letters, and the last four are always the
same four.

Results:
1. `lines_eq_of_report_eq`: reports are equal line by line.
2. `inputs_append_inj`, `selection_inj`: the inputs and the selected parts.
3. `style_inj`, `imports_inj`, `javaText_inj`, `output_inj`: the settings.
4. `render_console_eq_iff`: which requests have the same report.
-/

namespace FormatRequest

/-- No name has a line break. -/
structure Request.OneLined (r : Request) : Prop where
  files : ∀ file ∈ r.files, '\n' ∉ file.toList
  name : ∀ name ∈ r.assumeFilename, '\n' ∉ name.toList

/-- The request is for formatting, and a draft resolves to it. -/
structure Request.Accepted (r : Request) : Prop where
  resolved : ∃ d : Draft, d.resolve = .ok r
  help : r.help = false
  version : r.version = false

theorem Request.Accepted.consistent {r : Request} (h : r.Accepted) : r.Consistent := by
  obtain ⟨d, hd⟩ := h.resolved
  have hrules := Request.brokenRules_eq_nil_iff.mp (Draft.resolve_eq_ok_iff.mp hd).2
  simpa [h.help, h.version] using hrules

theorem Request.Accepted.paired {r : Request} (h : r.Accepted) :
    r.offsets.length = r.lengths.length := by
  obtain ⟨d, hd⟩ := h.resolved
  exact Draft.paired_of_build (Draft.resolve_eq_ok_iff.mp hd).1

namespace Console

variable {r r' : Request}

/-! ## Lines -/

theorem flatMap_line_inj {xs ys : List (List Char)} (hxs : ∀ x ∈ xs, '\n' ∉ x)
    (hys : ∀ y ∈ ys, '\n' ∉ y) (h : xs.flatMap (· ++ ['\n']) = ys.flatMap (· ++ ['\n'])) :
    xs = ys := by
  induction xs generalizing ys with
  | nil =>
    cases ys with
    | nil => rfl
    | cons y ys => simp at h
  | cons x xs ih =>
    cases ys with
    | nil => simp at h
    | cons y ys =>
      rw [List.forall_mem_cons] at hxs hys
      simp only [List.flatMap_cons, List.append_assoc, List.singleton_append] at h
      obtain ⟨rfl, hrest⟩ := Text.append_mark_inj hxs.1 hys.1 h
      rw [ih hxs.2 hys.2 hrest]

theorem newline_not_mem_digits (n : Nat) : '\n' ∉ Decimal.digits n := fun h =>
  absurd (Nat.isDigit_of_mem_toDigits (by decide) (by decide) h) (by decide)

theorem newline_not_mem_ofWord (n : UInt64) : '\n' ∉ Decimal.ofWord n := newline_not_mem_digits _

theorem newline_not_mem_intercalate {separator : List Char} {parts : List (List Char)}
    (hseparator : '\n' ∉ separator) (hparts : ∀ part ∈ parts, '\n' ∉ part) :
    '\n' ∉ separator.intercalate parts := by
  cases parts with
  | nil => simp
  | cons part parts =>
    rw [List.forall_mem_cons] at hparts
    rw [Text.Delimited.intercalate_cons, List.mem_append, not_or]
    refine ⟨hparts.1, fun h => ?_⟩
    obtain ⟨other, hother, hmem⟩ := List.mem_flatMap.mp h
    rcases List.mem_append.mp hmem with hmem | hmem
    · exact hseparator hmem
    · exact hparts.2 other hother hmem

theorem newline_not_mem_text (r : RangeSet) : '\n' ∉ r.text := by
  refine newline_not_mem_intercalate (by decide) fun part hpart => ?_
  obtain ⟨s, _, rfl⟩ := List.mem_map.mp hpart
  simp [Span.text, newline_not_mem_ofWord]

theorem newline_not_mem_inputs (h : r.OneLined) : ∀ line ∈ inputs r, '\n' ∉ line := by
  intro line hline
  unfold inputs at hline
  split at hline
  · rw [List.mem_singleton.mp hline]
    have hname : '\n' ∉ (r.assumeFilename.getD "<stdin>").toList := by
      cases hassumed : r.assumeFilename with
      | none => decide
      | some name => exact h.name name hassumed
    exact List.not_mem_append (List.not_mem_append (by decide) hname) (by decide)
  · split at hline
    · rw [List.mem_singleton.mp hline]
      decide
    · rcases List.mem_cons.mp hline with rfl | hrow
      · exact List.not_mem_append
          (List.not_mem_append (by decide) (newline_not_mem_digits _)) (by decide)
      · obtain ⟨file, hfile, rfl⟩ := List.mem_map.mp hrow
        exact List.not_mem_append (by decide) (h.files file hfile)

theorem newline_not_mem_selection (r : Request) : ∀ line ∈ selection r, '\n' ∉ line := by
  intro line hline
  unfold selection at hline
  split at hline
  · rcases List.mem_append.mp hline with hlines | hregion
    · split at hlines
      · cases hlines
      · rw [List.mem_singleton.mp hlines]
        exact List.not_mem_append (by decide) (newline_not_mem_text _)
    · obtain ⟨g, _, rfl⟩ := List.mem_map.mp hregion
      exact List.not_mem_append (List.not_mem_append
        (List.not_mem_append (by decide) (newline_not_mem_ofWord _)) (by decide))
        (newline_not_mem_ofWord _)
  · rw [List.mem_singleton.mp hline]
    decide

theorem newline_not_mem_style (r : Request) : '\n' ∉ style r := by
  have hname : '\n' ∉ styleName r.style := by
    cases r.style <;> decide
  exact List.not_mem_append (List.not_mem_append (List.not_mem_append
    (List.not_mem_append (by decide) hname) (by decide)) (newline_not_mem_ofWord _)) (by decide)

theorem newline_not_mem_lines (h : r.OneLined) : ∀ line ∈ lines r, '\n' ∉ line := by
  unfold lines
  simp only [List.forall_mem_append, List.forall_mem_cons]
  refine ⟨⟨⟨⟨by decide, by decide, nofun⟩, newline_not_mem_inputs h⟩,
    newline_not_mem_selection r⟩, newline_not_mem_style r, ?_, ?_, ?_, nofun⟩
  · unfold imports boolText
    cases r.fixImportsOnly <;> cases r.sortImports <;> cases r.removeUnusedImports <;> decide
  · unfold javaText boolText
    cases r.reflowLongStrings <;> cases r.formatJavadoc <;> decide
  · unfold output boolText
    cases r.dryRun <;> cases r.inPlace <;> cases r.setExitIfChanged <;> decide

theorem lines_eq_of_report_eq (h : r.OneLined) (h' : r'.OneLined) (heq : report r = report r') :
    lines r = lines r' :=
  flatMap_line_inj (newline_not_mem_lines h) (newline_not_mem_lines h') heq

/-! ## Inputs -/

theorem file_row_injective :
    Function.Injective fun file : String => "  └─ ".toList ++ file.toList :=
  fun _ _ h => String.toList_inj.mp (List.append_cancel_left h)

/-- The line for standard input. -/
def stdinLine (name : String) : List Char :=
  "Input: standard input (as ".toList ++ name.toList ++ [')']

/-- The line for a number of files. -/
def countLine (n : Nat) : List Char := "Input: ".toList ++ Decimal.digits n ++ " file(s)".toList

theorem stdinLine_injective : Function.Injective stdinLine := by
  intro name other h
  unfold stdinLine at h
  rw [List.append_left_inj, List.append_right_inj] at h
  exact String.toList_inj.mp h

theorem countLine_injective : Function.Injective countLine := by
  intro m n h
  unfold countLine at h
  rw [List.append_left_inj, List.append_right_inj] at h
  exact Decimal.digits_injective h

/-- A number does not begin like the line for standard input. -/
theorem stdinLine_ne_countLine (name : String) (n : Nat) : stdinLine name ≠ countLine n := by
  have hlead : "Input: standard input (as ".toList =
      "Input: ".toList ++ 's' :: "tandard input (as ".toList := by decide
  obtain ⟨c, rest, hdigits, hc⟩ := Decimal.digits_eq_cons n
  intro h
  unfold stdinLine countLine at h
  rw [hlead, hdigits] at h
  simp only [List.append_assoc, List.append_cancel_left_eq, List.cons_append] at h
  rw [← List.head_eq_of_cons_eq h] at hc
  exact absurd hc (by decide)

theorem inputs_cases (h : r.Consistent) :
    (r.stdin = true ∧ r.files = [] ∧
      inputs r = [stdinLine (r.assumeFilename.getD "<stdin>")]) ∨
    (r.stdin = false ∧ r.assumeFilename = none ∧
      inputs r = countLine r.files.length ::
        r.files.map fun file => "  └─ ".toList ++ file.toList) := by
  rcases h.oneInput with ⟨hstdin, hfiles⟩ | ⟨hfiles, hstdin⟩
  · exact .inl ⟨hstdin, not_ne_iff.mp hfiles, if_pos hstdin⟩
  · have hname : r.assumeFilename = none := not_ne_iff.mp (mt h.name hstdin)
    refine .inr ⟨Bool.eq_false_iff.mpr hstdin, hname, ?_⟩
    unfold inputs
    rw [if_neg hstdin, if_neg (by simpa using hfiles)]
    rfl

/-- Since the files are counted, it shows where their names end. -/
theorem inputs_append_inj (h : r.Consistent) (h' : r'.Consistent) {s t : List (List Char)}
    (heq : inputs r ++ s = inputs r' ++ t) :
    r.stdin = r'.stdin ∧ r.files = r'.files ∧
      r.assumeFilename.getD "<stdin>" = r'.assumeFilename.getD "<stdin>" ∧ s = t := by
  rcases inputs_cases h with ⟨hstdin, hfiles, hin⟩ | ⟨hstdin, hname, hin⟩
  · rcases inputs_cases h' with ⟨hstdin', hfiles', hin'⟩ | ⟨hstdin', hname', hin'⟩
    · rw [hin, hin'] at heq
      obtain ⟨hline, hrest⟩ := List.cons.inj heq
      exact ⟨hstdin.trans hstdin'.symm, hfiles.trans hfiles'.symm, stdinLine_injective hline, hrest⟩
    · rw [hin, hin'] at heq
      exact absurd (List.head_eq_of_cons_eq heq) (stdinLine_ne_countLine _ _)
  · rcases inputs_cases h' with ⟨hstdin', hfiles', hin'⟩ | ⟨hstdin', hname', hin'⟩
    · rw [hin, hin'] at heq
      exact absurd (List.head_eq_of_cons_eq heq).symm (stdinLine_ne_countLine _ _)
    · rw [hin, hin'] at heq
      obtain ⟨hline, hrows⟩ := List.cons.inj heq
      have hlength := countLine_injective hline
      obtain ⟨hfiles, hrest⟩ := List.append_inj hrows (by simpa using hlength)
      refine ⟨hstdin.trans hstdin'.symm, file_row_injective.list_map hfiles, ?_, hrest⟩
      rw [hname, hname']

/-! ## Selection -/

theorem region_injective : Function.Injective region := by
  intro g g' h
  have hbetween : ", length ".toList = ',' :: " length ".toList := by decide
  unfold region at h
  rw [hbetween] at h
  simp only [List.append_assoc, List.append_cancel_left_eq, List.cons_append] at h
  obtain ⟨hoffset, hrest⟩ := Decimal.delimited_ofWord (Text.avoids_cons.mpr (by decide))
    (Text.avoids_cons.mpr (by decide)) h
  have hlength :=
    Decimal.delimited_ofWord.injective (List.append_cancel_left (List.cons.inj hrest).2)
  cases g
  cases g'
  simp only [Region.mk.injEq]
  exact ⟨hoffset, hlength⟩

/-- The row for some lines, if there are any. -/
def linesRows (ranges : RangeSet) : List (List Char) :=
  if ranges.isEmpty then [] else ["Lines: ".toList ++ ranges.text]

theorem linesRows_injective : Function.Injective linesRows := by
  intro ranges others h
  unfold linesRows at h
  split at h
  · next hempty =>
    split at h
    · next hempty' => rw [RangeSet.eq_empty_of_isEmpty hempty, RangeSet.eq_empty_of_isEmpty hempty']
    · cases h
  · split at h
    · cases h
    · exact RangeSet.text_injective (List.append_cancel_left (List.cons.inj h).1)

theorem filter_linesRows (ranges : RangeSet) :
    (linesRows ranges).filter (·.head? == some 'L') = linesRows ranges ∧
      (linesRows ranges).filter (·.head? == some 'R') = [] := by
  unfold linesRows
  split <;> exact ⟨rfl, rfl⟩

theorem filter_regions (regions : List Region) :
    (regions.map region).filter (·.head? == some 'L') = [] ∧
      (regions.map region).filter (·.head? == some 'R') = regions.map region := by
  have hhead : ∀ row ∈ regions.map region, row.head? = some 'R' := by
    intro row hrow
    obtain ⟨g, _, rfl⟩ := List.mem_map.mp hrow
    rfl
  refine ⟨List.filter_eq_nil_iff.mpr fun row hrow => ?_, List.filter_eq_self.mpr fun row hrow => ?_⟩
  · rw [hhead row hrow]
    decide
  · rw [hhead row hrow]
    decide

/-- The first letter of a row shows what it is for. -/
theorem filter_selection (r : Request) :
    (selection r).filter (·.head? == some 'L') = linesRows r.lines ∧
      (selection r).filter (·.head? == some 'R') = r.regions.map region := by
  have heq : selection r = if r.isSelection then linesRows r.lines ++ r.regions.map region
      else ["Selection: whole file".toList] := rfl
  rw [heq]
  split
  · rw [List.filter_append, List.filter_append, (filter_linesRows _).1, (filter_linesRows _).2,
      (filter_regions _).1, (filter_regions _).2, List.append_nil, List.nil_append]
    exact ⟨rfl, rfl⟩
  · next hwhole =>
    simp only [Request.isSelection, Bool.not_eq_true, Bool.or_eq_false_iff,
      Bool.not_eq_false'] at hwhole
    have hregions : r.regions = [] := by
      rw [Request.regions, List.isEmpty_iff.mp hwhole.1.2, List.zipWith_nil_left]
    have hlines : linesRows r.lines = [] := if_pos hwhole.1.1
    rw [hregions, hlines]
    exact ⟨rfl, rfl⟩

theorem selection_inj (hpaired : r.offsets.length = r.lengths.length)
    (hpaired' : r'.offsets.length = r'.lengths.length) (heq : selection r = selection r') :
    r.lines = r'.lines ∧ r.offsets = r'.offsets ∧ r.lengths = r'.lengths := by
  obtain ⟨hlines, hregions⟩ := filter_selection r
  rw [heq, (filter_selection r').1] at hlines
  rw [heq, (filter_selection r').2] at hregions
  have hsame := region_injective.list_map hregions
  refine ⟨(linesRows_injective hlines).symm, ?_, ?_⟩
  · rw [← Request.map_offset_regions hpaired, ← Request.map_offset_regions hpaired', hsame]
  · rw [← Request.map_length_regions hpaired, ← Request.map_length_regions hpaired', hsame]

/-! ## Settings -/

theorem style_inj (h : style r = style r') : r.aosp = r'.aosp ∧ r.maxWidth = r'.maxWidth := by
  have hfree : ∀ a b : Bool, styleName (if a then .aosp else .google) <+:
      styleName (if b then .aosp else .google) → a = b := by decide
  unfold style Request.style at h
  simp only [List.append_assoc, List.append_cancel_left_eq] at h
  obtain ⟨haosp, hrest⟩ := Text.append_inj_of_prefix_free hfree h
  rw [List.append_cancel_left_eq] at hrest
  have hwidth := Decimal.delimited_ofWord (Text.avoids_cons.mpr (by decide))
    (Text.avoids_cons.mpr (by decide)) hrest
  exact ⟨haosp, hwidth.1⟩

theorem imports_inj (h : imports r = imports r') :
    r.fixImportsOnly = r'.fixImportsOnly ∧ r.sortImports = r'.sortImports ∧
      r.removeUnusedImports = r'.removeUnusedImports := by
  have hfree : ∀ a b : Bool, (if a then "fix only" else "format").toList <+:
      (if b then "fix only" else "format").toList → a = b := by decide
  unfold imports at h
  simp only [List.append_assoc, List.append_cancel_left_eq] at h
  obtain ⟨hfix, hrest⟩ := Text.append_inj_of_prefix_free hfree h
  rw [List.append_cancel_left_eq] at hrest
  obtain ⟨hsort, hrest⟩ := boolText_append_inj hrest
  rw [List.append_cancel_left_eq] at hrest
  exact ⟨hfix, hsort, (boolText_append_inj hrest).1⟩

theorem javaText_inj (h : javaText r = javaText r') :
    r.reflowLongStrings = r'.reflowLongStrings ∧ r.formatJavadoc = r'.formatJavadoc := by
  unfold javaText at h
  simp only [List.append_assoc, List.append_cancel_left_eq] at h
  obtain ⟨hreflow, hrest⟩ := boolText_append_inj h
  rw [List.append_cancel_left_eq] at hrest
  exact ⟨hreflow, (boolText_append_inj (s := []) (t := []) (by simpa using hrest)).1⟩

/-- The word for where the output goes. -/
def place (dryRun inPlace : Bool) : List Char :=
  (if dryRun then "dry run" else if inPlace then "in place" else "stdout").toList

/-- A dry run that is in place is not told from another one. -/
theorem place_unambiguous : ∀ dry inPlace dry' inPlace' : Bool,
    ¬ (dry = true ∧ inPlace = true) → ¬ (dry' = true ∧ inPlace' = true) →
      place dry inPlace <+: place dry' inPlace' → (dry, inPlace) = (dry', inPlace') := by
  decide

theorem output_inj (h : ¬ (r.dryRun = true ∧ r.inPlace = true))
    (h' : ¬ (r'.dryRun = true ∧ r'.inPlace = true)) (heq : output r = output r') :
    r.dryRun = r'.dryRun ∧ r.inPlace = r'.inPlace ∧ r.setExitIfChanged = r'.setExitIfChanged := by
  unfold output at heq
  simp only [List.append_assoc, List.append_cancel_left_eq] at heq
  -- the words are told apart only among requests that do not ask for both
  have hfree (a b : {m : Bool × Bool // ¬ (m.1 = true ∧ m.2 = true)})
      (hpre : place a.1.1 a.1.2 <+: place b.1.1 b.1.2) : a = b :=
    Subtype.ext (place_unambiguous _ _ _ _ a.2 b.2 hpre)
  obtain ⟨hplace, hrest⟩ := Text.append_inj_of_prefix_free hfree (a := ⟨(r.dryRun, r.inPlace), h⟩)
    (b := ⟨(r'.dryRun, r'.inPlace), h'⟩) heq
  obtain ⟨hdry, hin⟩ := Prod.mk.inj (congrArg Subtype.val hplace)
  rw [List.append_cancel_left_eq] at hrest
  exact ⟨hdry, hin, (boolText_append_inj hrest).1⟩

/-! ## Reports -/

theorem name_getD_eq_iff {name name' : Option String} {default : String} :
    name.getD default = name'.getD default ↔
      name = name' ∨ (name = none ∧ name' = some default) ∨
        (name = some default ∧ name' = none) := by
  cases name <;> cases name' <;> simp [eq_comm]

/-- All lines but the name assumed for standard input show what is asked for. -/
theorem eq_of_lines_eq (h : r.Accepted) (h' : r'.Accepted) (heq : lines r = lines r') :
    { r' with assumeFilename := r.assumeFilename } = r ∧
      r.assumeFilename.getD "<stdin>" = r'.assumeFilename.getD "<stdin>" := by
  unfold lines at heq
  -- only the number of lines in the middle differs, so the ends are cut off first
  obtain ⟨hfront, htail⟩ := List.append_inj' heq rfl
  rw [List.append_assoc, List.append_assoc, List.append_cancel_left_eq] at hfront
  obtain ⟨hstdin, hfiles, hname, hselection⟩ := inputs_append_inj h.consistent h'.consistent hfront
  obtain ⟨hlines, hoffsets, hlengths⟩ := selection_inj h.paired h'.paired hselection
  simp only [List.cons.injEq, and_true] at htail
  obtain ⟨hstyle, himports, hjavaText, houtput⟩ := htail
  obtain ⟨haosp, hwidth⟩ := style_inj hstyle
  obtain ⟨hfix, hsort, hremove⟩ := imports_inj himports
  obtain ⟨hreflow, hjavadoc⟩ := javaText_inj hjavaText
  obtain ⟨hdry, hinPlace, hexit⟩ := output_inj h.consistent.dryRun h'.consistent.dryRun houtput
  have hversion : r'.version = r.version := h'.version.trans h.version.symm
  have hhelp : r'.help = r.help := h'.help.trans h.help.symm
  refine ⟨?_, hname⟩
  cases r with | mk settings
  cases settings
  simp only [Request.mk.injEq, Settings.mk.injEq, true_and]
  exact ⟨⟨hinPlace.symm, haosp.symm, hwidth.symm, hversion, hhelp, hstdin.symm, hfix.symm,
    hsort.symm, hremove.symm, hdry.symm, hexit.symm, hreflow.symm, hjavadoc.symm⟩,
    hfiles.symm, hlines.symm, hoffsets.symm, hlengths.symm⟩

theorem report_of_name {name : Option String}
    (h : name.getD "<stdin>" = r.assumeFilename.getD "<stdin>") :
    report { r with assumeFilename := name } = report r := by
  have hinputs : inputs { r with assumeFilename := name } = inputs r := by
    unfold inputs
    rw [h]
  unfold report lines
  rw [hinputs]
  rfl

end Console

namespace Request

variable {r r' : Request}

/-- The reports of two requests are equal only if the requests are, but for one thing: a name that
nobody gave is reported like the name `<stdin>`. -/
theorem render_console_eq_iff (h : r.Accepted) (h' : r'.Accepted) (hnames : r.OneLined)
    (hnames' : r'.OneLined) :
    r.render .console = r'.render .console ↔
      { r' with assumeFilename := r.assumeFilename } = r ∧
        (r.assumeFilename = r'.assumeFilename ∨
          (r.assumeFilename = none ∧ r'.assumeFilename = some "<stdin>") ∨
          (r.assumeFilename = some "<stdin>" ∧ r'.assumeFilename = none)) := by
  rw [← Console.name_getD_eq_iff]
  constructor
  · intro heq
    have hreport : Console.report r = Console.report r' := String.ofList_injective heq
    exact Console.eq_of_lines_eq h h' (Console.lines_eq_of_report_eq hnames hnames' hreport)
  · rintro ⟨hagree, hname⟩
    have hreport := Console.report_of_name hname
    rw [hagree] at hreport
    exact congrArg String.ofList hreport

/-- Standard input is to be formatted in part, and no name is given for it. -/
def exUnnamed : Request where
  files := []
  lines := ⟨#[⟨1, 6⟩, ⟨10, 13⟩]⟩
  offsets := [40, 7]
  lengths := [2, 1]
  stdin := true
  dryRun := true

/-- The same with the name that is reported when none is given. -/
def exNamed : Request := { exUnnamed with assumeFilename := some "<stdin>" }

/-- What both ask for. -/
def exSteps : History :=
  [.switch .stdin true, .addLineRange ⟨10, 13⟩, .addOffset 40, .addLength 2, .addOffset 7,
    .addLineRange ⟨1, 6⟩, .addLength 1, .switch .dryRun true]

theorem accepted_exUnnamed : exUnnamed.Accepted where
  resolved := ⟨.ofSteps exSteps, by decide +kernel⟩
  help := rfl
  version := rfl

theorem accepted_exNamed : exNamed.Accepted where
  resolved := ⟨.ofSteps (.assumeFilename "<stdin>" :: exSteps), by decide +kernel⟩
  help := rfl
  version := rfl

theorem oneLined_exUnnamed : exUnnamed.OneLined where
  files := by decide
  name := by decide

theorem oneLined_exNamed : exNamed.OneLined where
  files := by decide
  name := by decide

/-- Two requests with one report. -/
theorem render_exUnnamed_exNamed :
    exUnnamed.render .console = exNamed.render .console ∧
      exUnnamed.assumeFilename = none ∧ exNamed.assumeFilename = some "<stdin>" := by
  have hiff := render_console_eq_iff accepted_exUnnamed accepted_exNamed oneLined_exUnnamed
    oneLined_exNamed
  exact ⟨hiff.mpr ⟨by decide, by decide⟩, rfl, rfl⟩

end Request

end FormatRequest
