import FormatRequest.CommandLine.Arguments
import FormatRequest.Proofs.Traversal

/-!
# What the occurrences say together

The arguments are collected one occurrence at a time, but what they are does not depend on how the
occurrences are interleaved: the files are those of the file occurrences in order, a flag is on when
it occurs, and each parameter has the values that its own occurrences give it. The occurrences are
refused when a flag or a parameter that stands once occurs again, or when a value cannot be read.

Results:
1. `accept_parameter`: one more occurrence of a parameter, the same for all parameters.
2. `foldlM_accept_eq_ok_iff`, `ofOccurrences_eq_ok_iff`: which occurrences are accepted, and what
   they say.
-/

namespace FormatRequest.CommandLine

/-! ## Parameters and their values -/

namespace Parameter

/-- What a value of the parameter is read as. -/
abbrev Value : Parameter → Type
  | lines | assumeFilename | exportPath => String
  | offset | length | lineLength => UInt64
  | outputFormat => ReportFormat

/-- Reads a value of the parameter. -/
def read : (p : Parameter) → String → Except UsageFault p.Value
  | lines, value | assumeFilename, value => .ok value
  | offset, value => Arguments.number .offset value
  | length, value => Arguments.number .length value
  | lineLength, value => Arguments.number .lineLength value
  | outputFormat, value => Arguments.format value
  | exportPath, value => Arguments.path value

/-- Whether the parameter may be given any number of times. -/
def repeats : Parameter → Bool
  | lines | offset | length => true
  | _ => false

end Parameter

namespace Occurrence

/-- The file that the occurrence is. -/
def file? : Occurrence → Option String
  | file name => some name
  | _ => none

/-- The value that the occurrence gives the parameter `p`. -/
def value? (p : Parameter) : Occurrence → Option String
  | parameter q value => if q = p then some value else none
  | _ => none

end Occurrence

/-- The files among some occurrences. -/
def filesOf (occurrences : List Occurrence) : List String :=
  occurrences.filterMap Occurrence.file?

/-- The values that some occurrences give the parameter `p`. -/
def valuesOf (p : Parameter) (occurrences : List Occurrence) : List String :=
  occurrences.filterMap (Occurrence.value? p)

@[simp] theorem filesOf_append (xs ys : List Occurrence) :
    filesOf (xs ++ ys) = filesOf xs ++ filesOf ys :=
  List.filterMap_append

@[simp] theorem valuesOf_append (p : Parameter) (xs ys : List Occurrence) :
    valuesOf p (xs ++ ys) = valuesOf p xs ++ valuesOf p ys :=
  List.filterMap_append

@[simp] theorem valuesOf_parameter_self (p : Parameter) (value : String) :
    valuesOf p [.parameter p value] = [value] := by
  simp [valuesOf, Occurrence.value?]

theorem valuesOf_parameter_of_ne {p q : Parameter} (h : q ≠ p) (value : String) :
    valuesOf q [.parameter p value] = [] := by
  simp [valuesOf, Occurrence.value?, Ne.symm h]

@[simp] theorem filesOf_map_file (files : List String) : filesOf (files.map .file) = files := by
  induction files with
  | nil => rfl
  | cons name files ih => exact congrArg (name :: ·) ih

@[simp] theorem valuesOf_map_file (p : Parameter) (files : List String) :
    valuesOf p (files.map .file) = [] := by
  induction files with
  | nil => rfl
  | cons name files ih => exact ih

namespace Arguments

variable {a b start next : Arguments} {p : Parameter} {o : Occurrence} {rest : List Occurrence}

/-- The values that the arguments have for a parameter. -/
def given (a : Arguments) : (p : Parameter) → List p.Value
  | .lines => a.lines
  | .offset => a.offsets
  | .length => a.lengths
  | .lineLength => a.lineLength.toList
  | .assumeFilename => a.assumeFilename.toList
  | .outputFormat => a.outputFormat.toList
  | .exportPath => a.exportPath.toList

/-- The arguments with one more value. -/
def add (a : Arguments) : (p : Parameter) → p.Value → Arguments
  | .lines, value => { a with lines := a.lines ++ [value] }
  | .offset, n => { a with offsets := a.offsets ++ [n] }
  | .length, n => { a with lengths := a.lengths ++ [n] }
  | .lineLength, n => { a with lineLength := some n }
  | .assumeFilename, name => { a with assumeFilename := some name }
  | .outputFormat, f => { a with outputFormat := some f }
  | .exportPath, path => { a with exportPath := some path }

theorem ext_given (files : a.files = b.files) (flags : ∀ f, a.flags f = b.flags f)
    (given : ∀ p, a.given p = b.given p) : a = b := by
  have single {α : Type} {x y : Option α} (h : x.toList = y.toList) : x = y := by
    simpa using congrArg List.head? h
  cases a
  cases b
  simp only [mk.injEq]
  exact ⟨files, funext flags, given .lines, given .offset, given .length,
    single (given .lineLength), single (given .assumeFilename), single (given .outputFormat),
    single (given .exportPath)⟩

theorem length_given_le (h : p.repeats = false) : (a.given p).length ≤ 1 := by
  cases p with
  | lines | offset | length => cases h
  | lineLength | assumeFilename | outputFormat | exportPath => exact Option.length_toList_le

@[simp] theorem files_add {x : p.Value} : (a.add p x).files = a.files := by
  cases p <;> rfl

@[simp] theorem flags_add {x : p.Value} : (a.add p x).flags = a.flags := by
  cases p <;> rfl

/-- A value comes after those that are there; where it has to be the only one, it is. -/
theorem given_add_self {x : p.Value} (h : p.repeats = true ∨ a.given p = []) :
    (a.add p x).given p = a.given p ++ [x] := by
  cases p with
  | lines | offset | length => rfl
  | lineLength | assumeFilename | outputFormat | exportPath =>
    rw [h.resolve_left Bool.false_ne_true]
    rfl

theorem given_add_of_ne {q : Parameter} {x : p.Value} (h : q ≠ p) :
    (a.add p x).given q = a.given q := by
  cases p <;> cases q <;> first | rfl | exact absurd rfl h

/-! ## One more occurrence -/

theorem once_map {α : Type} (field : Option α) (value : Except UsageFault α)
    (set : Option α → Arguments) :
    (once p field value).map set =
      if field.toList = [] then value.map fun x => set (some x)
      else .error (.givenAgain (.parameter p)) := by
  cases field with
  | none => cases value <;> rfl
  | some x => rfl

/-- A value of a parameter is refused when it would be the second of one, and read otherwise. -/
theorem accept_parameter (a : Arguments) (p : Parameter) (value : String) :
    a.accept (.parameter p value) =
      if p.repeats = true ∨ a.given p = [] then (p.read value).map (a.add p)
      else .error (.givenAgain (.parameter p)) := by
  cases p with
  | lines | offset | length => rfl
  | lineLength | assumeFilename | outputFormat | exportPath =>
    refine (once_map _ _ _).trans ?_
    simp only [Parameter.repeats, Bool.false_eq_true, false_or]
    rfl

/-- The arguments `a` are those of `start` and of the occurrences. -/
structure Reads (start : Arguments) (occurrences : List Occurrence) (a : Arguments) : Prop where
  files : a.files = start.files ++ filesOf occurrences
  flags : ∀ f, (a.flags f).toNat = (start.flags f).toNat + occurrences.count (.flag f)
  given : ∀ p, ∃ new, (valuesOf p occurrences).mapM p.read = .ok new ∧
    a.given p = start.given p ++ new

theorem reads_nil : Reads start [] a ↔ start = a := by
  have toNat_inj : ∀ x y : Bool, x.toNat = y.toNat → x = y := by decide
  constructor
  · intro h
    refine ext_given ?_ (fun f => toNat_inj _ _ (h.flags f).symm) (fun p => ?_)
    · simpa [filesOf] using h.files.symm
    · obtain ⟨new, hnew, hgiven⟩ := h.given p
      obtain rfl : [] = new := Except.ok.inj hnew
      simpa using hgiven.symm
  · rintro rfl
    exact ⟨(List.append_nil _).symm, fun f => rfl, fun p => ⟨[], rfl, (List.append_nil _).symm⟩⟩

theorem Reads.cons_iff (h : Reads start [o] next) :
    Reads start (o :: rest) a ↔ Reads next rest a := by
  have hfiles : filesOf (o :: rest) = filesOf [o] ++ filesOf rest := filesOf_append [o] rest
  have hcount (f : Flag) :
      (o :: rest).count (.flag f) = [o].count (.flag f) + rest.count (.flag f) :=
    (List.count_append : ([o] ++ rest).count _ = _)
  have hvalues (p : Parameter) : valuesOf p (o :: rest) = valuesOf p [o] ++ valuesOf p rest :=
    valuesOf_append p [o] rest
  constructor
  · intro hall
    refine ⟨?_, fun f => ?_, fun p => ?_⟩
    · rw [hall.files, h.files, hfiles, List.append_assoc]
    · rw [hall.flags, h.flags, hcount, Nat.add_assoc]
    · obtain ⟨both, hboth, hgivenBoth⟩ := hall.given p
      rw [hvalues] at hboth
      obtain ⟨new, more, hnew, hmore, rfl⟩ := mapM_append_eq_ok_iff.mp hboth
      obtain ⟨first, hfirst, hgiven⟩ := h.given p
      obtain rfl : first = new := Except.ok.inj (hfirst.symm.trans hnew)
      exact ⟨more, hmore, by rw [hgivenBoth, hgiven, List.append_assoc]⟩
  · intro hrest
    refine ⟨?_, fun f => ?_, fun p => ?_⟩
    · rw [hrest.files, h.files, hfiles, List.append_assoc]
    · rw [hrest.flags, h.flags, hcount, Nat.add_assoc]
    · obtain ⟨new, hnew, hgiven⟩ := h.given p
      obtain ⟨more, hmore, hgivenMore⟩ := hrest.given p
      refine ⟨new ++ more, ?_, by rw [hgivenMore, hgiven, List.append_assoc]⟩
      rw [hvalues]
      exact mapM_append_eq_ok_iff.mpr ⟨new, more, hnew, hmore, rfl⟩

theorem reads_flag {f : Flag} (h : start.flags f = false) :
    Reads start [.flag f] { start with flags := fun g => g == f || start.flags g } := by
  refine ⟨(List.append_nil _).symm, fun g => ?_, fun p => ⟨[], rfl, ?_⟩⟩
  · show (g == f || start.flags g).toNat = _
    by_cases hg : g = f
    · subst hg
      simp [h]
    · rw [List.count_singleton, beq_eq_false_iff_ne.mpr hg,
        beq_eq_false_iff_ne.mpr fun heq => hg (Occurrence.flag.inj heq).symm]
      simp
  · cases p <;> exact (List.append_nil _).symm

theorem reads_parameter {value : String} {x : p.Value} (hread : p.read value = .ok x)
    (h : p.repeats = true ∨ start.given p = []) :
    Reads start [.parameter p value] (start.add p x) := by
  refine ⟨by simp [filesOf, Occurrence.file?], fun f => by simp, fun q => ?_⟩
  by_cases hq : q = p
  · subst hq
    refine ⟨[x], ?_, given_add_self h⟩
    rw [valuesOf_parameter_self, List.mapM_cons, hread]
    rfl
  · refine ⟨[], ?_, by rw [given_add_of_ne hq, List.append_nil]⟩
    rw [valuesOf_parameter_of_ne hq]
    rfl

/-- An occurrence that is accepted adds what it says and nothing else. -/
theorem reads_of_accept (h : start.accept o = .ok next) : Reads start [o] next := by
  cases o with
  | file name =>
    obtain rfl := Except.ok.inj h
    refine ⟨rfl, fun f => by simp, fun p => ⟨[], rfl, ?_⟩⟩
    cases p <;> exact (List.append_nil _).symm
  | flag f =>
    simp only [accept] at h
    split at h
    · cases h
    · next hoff =>
      obtain rfl := Except.ok.inj h
      exact reads_flag (Bool.eq_false_iff.mpr hoff)
  | parameter p value =>
    rw [accept_parameter] at h
    split at h
    · next hfirst =>
      cases hread : p.read value with
      | error fault =>
        rw [hread] at h
        cases h
      | ok x =>
        rw [hread] at h
        obtain rfl := Except.ok.inj h
        exact reads_parameter hread hfirst
    · cases h

theorem Reads.flag_off {f : Flag} (h : Reads start (.flag f :: rest) a) :
    start.flags f = false := by
  have hcount := h.flags f
  have hle := Bool.toNat_le (a.flags f)
  rw [List.count_cons_self] at hcount
  cases hf : start.flags f with
  | false => rfl
  | true =>
    rw [hf, Bool.toNat_true] at hcount
    omega

theorem Reads.read_first {value : String} (h : Reads start (.parameter p value :: rest) a) :
    (∃ x, p.read value = .ok x) ∧ (p.repeats = true ∨ start.given p = []) := by
  obtain ⟨new, hnew, hgiven⟩ := h.given p
  have hvalues := valuesOf_append p [.parameter p value] rest
  rw [List.singleton_append, valuesOf_parameter_self] at hvalues
  rw [hvalues] at hnew
  obtain ⟨one, more, hone, _, rfl⟩ := mapM_append_eq_ok_iff.mp hnew
  rw [List.mapM_cons] at hone
  cases hread : p.read value with
  | error fault =>
    rw [hread] at hone
    cases hone
  | ok x =>
    rw [hread] at hone
    obtain rfl : [x] = one := Except.ok.inj hone
    refine ⟨⟨x, rfl⟩, (Bool.eq_false_or_eq_true p.repeats).imp_right fun hrepeats => ?_⟩
    -- the one value that there can be is the new one
    have hle := length_given_le (a := a) hrepeats
    rw [hgiven, List.length_append, List.length_append, List.length_singleton] at hle
    exact List.eq_nil_of_length_eq_zero (by omega)

/-- What is read together with others is accepted when it comes first. -/
theorem Reads.exists_accept (h : Reads start (o :: rest) a) :
    ∃ next, start.accept o = .ok next := by
  cases o with
  | file name => exact ⟨_, rfl⟩
  | flag f => exact ⟨_, if_neg (Bool.eq_false_iff.mp h.flag_off)⟩
  | parameter p value =>
    obtain ⟨⟨x, hread⟩, hfirst⟩ := h.read_first
    refine ⟨start.add p x, ?_⟩
    rw [accept_parameter, if_pos hfirst, hread]
    rfl

/-! ## All occurrences -/

theorem foldlM_accept_eq_ok_iff {occurrences : List Occurrence} :
    occurrences.foldlM accept start = .ok a ↔ Reads start occurrences a := by
  -- each occurrence is read from where the one before it ended
  induction occurrences generalizing start with
  | nil =>
    rw [reads_nil]
    exact ⟨Except.ok.inj, congrArg Except.ok⟩
  | cons o rest ih =>
    rw [List.foldlM_cons]
    cases haccept : start.accept o with
    | error fault =>
      refine iff_of_false (by nofun) fun h => ?_
      obtain ⟨next, hnext⟩ := h.exists_accept
      rw [haccept] at hnext
      cases hnext
    | ok next => exact ih.trans (reads_of_accept haccept).cons_iff.symm

theorem ofOccurrences_eq_ok_iff {occurrences : List Occurrence} :
    ofOccurrences occurrences = .ok a ↔
      a.files = filesOf occurrences ∧ (∀ f, (a.flags f).toNat = occurrences.count (.flag f)) ∧
        ∀ p, (valuesOf p occurrences).mapM p.read = .ok (a.given p) := by
  have hgiven (p : Parameter) : given {} p = [] := by
    cases p <;> rfl
  refine foldlM_accept_eq_ok_iff.trans ⟨fun h => ⟨h.files, fun f => ?_, fun p => ?_⟩, ?_⟩
  · simpa using h.flags f
  · obtain ⟨new, hnew, hall⟩ := h.given p
    rw [hall, hgiven, List.nil_append, hnew]
  · rintro ⟨files, flags, values⟩
    exact ⟨files, fun f => by simpa using flags f, fun p => ⟨_, values p, by simp [hgiven]⟩⟩

end Arguments

end FormatRequest.CommandLine
