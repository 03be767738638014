/-!
# Settings

The settings of a request that hold one value: twelve switches, the line width and the file name
assumed for standard input. A setting that nobody sets keeps its default.
-/

namespace FormatRequest

/-- The settings that are on or off. -/
inductive Switch
  | inPlace
  | aosp
  | version
  | help
  | stdin
  | fixImportsOnly
  | sortImports
  | removeUnusedImports
  | dryRun
  | setExitIfChanged
  | reflowLongStrings
  | formatJavadoc
  deriving DecidableEq, Repr

/-- All settings of one value, with their defaults. -/
structure Settings where
  inPlace : Bool := false
  aosp : Bool := false
  maxWidth : UInt64 := 100
  version : Bool := false
  help : Bool := false
  stdin : Bool := false
  fixImportsOnly : Bool := false
  sortImports : Bool := true
  removeUnusedImports : Bool := true
  dryRun : Bool := false
  setExitIfChanged : Bool := false
  assumeFilename : Option String := none
  reflowLongStrings : Bool := true
  formatJavadoc : Bool := true
  deriving DecidableEq, Repr

namespace Settings

/-- Whether a switch is on. -/
def get (s : Settings) : Switch → Bool
  | .inPlace => s.inPlace
  | .aosp => s.aosp
  | .version => s.version
  | .help => s.help
  | .stdin => s.stdin
  | .fixImportsOnly => s.fixImportsOnly
  | .sortImports => s.sortImports
  | .removeUnusedImports => s.removeUnusedImports
  | .dryRun => s.dryRun
  | .setExitIfChanged => s.setExitIfChanged
  | .reflowLongStrings => s.reflowLongStrings
  | .formatJavadoc => s.formatJavadoc

/-- Turns a switch on or off. -/
def put (s : Settings) (w : Switch) (on : Bool) : Settings :=
  match w with
  | .inPlace => { s with inPlace := on }
  | .aosp => { s with aosp := on }
  | .version => { s with version := on }
  | .help => { s with help := on }
  | .stdin => { s with stdin := on }
  | .fixImportsOnly => { s with fixImportsOnly := on }
  | .sortImports => { s with sortImports := on }
  | .removeUnusedImports => { s with removeUnusedImports := on }
  | .dryRun => { s with dryRun := on }
  | .setExitIfChanged => { s with setExitIfChanged := on }
  | .reflowLongStrings => { s with reflowLongStrings := on }
  | .formatJavadoc => { s with formatJavadoc := on }

/-- `put` sets its switch and no other. -/
@[simp] theorem get_put (s : Settings) (w v : Switch) (on : Bool) :
    (s.put w on).get v = if v = w then on else s.get v := by
  cases w <;> cases v <;> rfl

@[simp] theorem maxWidth_put (s : Settings) (w : Switch) (on : Bool) :
    (s.put w on).maxWidth = s.maxWidth := by
  cases w <;> rfl

@[simp] theorem assumeFilename_put (s : Settings) (w : Switch) (on : Bool) :
    (s.put w on).assumeFilename = s.assumeFilename := by
  cases w <;> rfl

/-- Settings agree when their switches, widths and assumed names do. -/
theorem ext_get {s t : Settings} (switches : ∀ w, s.get w = t.get w)
    (width : s.maxWidth = t.maxWidth) (name : s.assumeFilename = t.assumeFilename) : s = t := by
  cases s
  cases t
  simp only [mk.injEq]
  exact ⟨switches .inPlace, switches .aosp, width, switches .version, switches .help,
    switches .stdin, switches .fixImportsOnly, switches .sortImports,
    switches .removeUnusedImports, switches .dryRun, switches .setExitIfChanged, name,
    switches .reflowLongStrings, switches .formatJavadoc⟩

end Settings

end FormatRequest
