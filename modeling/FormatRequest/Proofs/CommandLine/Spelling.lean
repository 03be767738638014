import Mathlib.Data.List.Count
import Mathlib.Data.List.TakeDrop
import FormatRequest.Proofs.CommandLine.Arguments
import FormatRequest.Proofs.Decimal

/-!
# Spelling arguments out

Any arguments can be written on a command line. Each flag that is on is spelled by its long name,
each value together with the long name of its parameter in one word, and the files come last, after
a word `--` which keeps them from being mistaken for options. An export path that is empty is the
one value that cannot be given.

Results:
1. `scan_map_word`: the occurrences of a command line that is written like this.
2. `ofWords_spelled`: it is read as the arguments that it spells out.
3. `spells_spelling`: there is one for all arguments.
-/

namespace FormatRequest.CommandLine

/-! ## Long names -/

namespace Opt

/-- The long names of an option. -/
def names (o : Opt) : List String := o.name :: o.aliases

variable {o : Opt} {name : String}

theorem name_mem_names (o : Opt) : o.name ∈ o.names := List.mem_cons_self

theorem ne_nil_of_mem_names (h : name ∈ o.names) : name.toList ≠ [] := by
  have hall : ∀ o ∈ all, ∀ name ∈ o.names, name.toList ≠ [] := by decide +kernel
  exact hall o o.mem_all name h

theorem equals_not_mem_of_mem_names (h : name ∈ o.names) : '=' ∉ name.toList := by
  have hall : ∀ o ∈ all, ∀ name ∈ o.names, '=' ∉ name.toList := by decide +kernel
  exact hall o o.mem_all name h

theorem ofName?_of_mem_names (h : name ∈ o.names) : ofName? name.toList = some o := by
  have hall : ∀ o ∈ all, ∀ name ∈ o.names, ofName? name.toList = some o := by decide +kernel
  exact hall o o.mem_all name h

end Opt

/-- A name without an equals sign ends where the rest begins with one. -/
theorem span_name {name : List Char} (hname : '=' ∉ name) (rest : List Char)
    (hrest : ∀ c ∈ rest.head?, c = '=') : (name ++ rest).span (· != '=') = (name, rest) := by
  have hpos : ∀ c ∈ name, (c != '=') = true := fun c hc =>
    bne_iff_ne.mpr fun heq => hname (heq ▸ hc)
  rw [List.span_eq_takeWhile_dropWhile, List.takeWhile_append_of_pos hpos,
    List.dropWhile_append_of_pos hpos]
  cases rest with
  | nil => simp
  | cons c rest => simp [hrest c rfl]

/-- Two dashes alone are no long name. -/
theorem Word.of_dashes {text : List Char} (h : text ≠ []) :
    of ('-' :: '-' :: text) =
      match text.span (· != '=') with
      | (name, []) => .long name none
      | (name, _ :: value) => .long name (some value) := by
  cases text with
  | nil => exact absurd rfl h
  | cons c rest => rfl

theorem Word.of_name {o : Opt} {name : String} (h : name ∈ o.names) :
    of ('-' :: '-' :: name.toList) = .long name.toList none := by
  have hspan := span_name (Opt.equals_not_mem_of_mem_names h) [] (by nofun)
  rw [List.append_nil] at hspan
  rw [of_dashes (Opt.ne_nil_of_mem_names h), hspan]

theorem Word.of_name_value {o : Opt} {name : String} (h : name ∈ o.names) (value : List Char) :
    of ('-' :: '-' :: (name.toList ++ '=' :: value)) = .long name.toList (some value) := by
  have hspan := span_name (Opt.equals_not_mem_of_mem_names h) ('=' :: value) (by simp)
  rw [of_dashes (by simp), hspan]

/-! ## The scan of spelled options -/

namespace Occurrence

/-- The word that spells the occurrence. A file is spelled by its name, but may be mistaken for
something else before the word `--`. -/
def word : Occurrence → String
  | file name => name
  | flag f => "--" ++ f.name
  | parameter p value => "--" ++ p.name ++ "=" ++ value

end Occurrence

section

variable {f : Flag} {p : Parameter} {name : String}

theorem scanFrom_flag (h : name ∈ (Opt.flag f).names) (pending : Pending) (rest : List String) :
    scanFrom pending (("--" ++ name) :: rest) =
      Scan.complete pending ((scanFrom .nothing rest).cons (.flag f)) := by
  have hword : ("--" ++ name).toList = '-' :: '-' :: name.toList := by simp
  simp only [scanFrom, hword, Word.of_name h, Opt.ofName?_of_mem_names h]

theorem scanFrom_joined (h : name ∈ (Opt.parameter p).names) (value : String) (pending : Pending)
    (rest : List String) :
    scanFrom pending (("--" ++ name ++ "=" ++ value) :: rest) =
      Scan.complete pending ((scanFrom .nothing rest).cons (.parameter p value)) := by
  have hword : ("--" ++ name ++ "=" ++ value).toList =
      '-' :: '-' :: (name.toList ++ '=' :: value.toList) := by simp
  simp only [scanFrom, hword, Word.of_name_value h, Opt.ofName?_of_mem_names h,
    String.ofList_toList]

end

/-- Spelled options are found one by one up to the word `--`, and after it are files only. -/
theorem scan_map_word {options : List Occurrence} (h : filesOf options = []) (files : List String) :
    scan (options.map Occurrence.word ++ "--" :: files) =
      ⟨options ++ files.map .file, none⟩ := by
  unfold scan
  induction options with
  | nil => rfl
  | cons o rest ih =>
    cases o with
    | file name => cases h
    | flag f =>
      rw [List.map_cons, List.cons_append]
      refine (scanFrom_flag (Opt.name_mem_names (.flag f)) .nothing _).trans ?_
      rw [ih h]
      rfl
    | parameter p value =>
      rw [List.map_cons, List.cons_append]
      refine (scanFrom_joined (Opt.name_mem_names (.parameter p)) value .nothing _).trans ?_
      rw [ih h]
      rfl

/-! ## Values -/

theorem Arguments.number_text (p : Parameter) (n : UInt64) : number p (Decimal.text n) = .ok n := by
  unfold number Decimal.text
  rw [String.toList_ofList, Decimal.readWord_ofWord]
  rfl

namespace Parameter

/-- How a value of the parameter is written. -/
def word : (p : Parameter) → p.Value → String
  | lines, text | assumeFilename, text | exportPath, text => text
  | offset, n | length, n | lineLength, n => Decimal.text n
  | outputFormat, f => f.name

/-- A value is read as it was written, but no value of an export path is written as nothing. -/
theorem read_word {p : Parameter} {x : p.Value} (h : p = exportPath → p.word x ≠ "") :
    p.read (p.word x) = .ok x := by
  cases p with
  | lines | assumeFilename => rfl
  | offset | length | lineLength => exact Arguments.number_text _ x
  | outputFormat => cases x <;> rfl
  | exportPath => exact if_neg (h rfl)

end Parameter

namespace Arguments

variable {a : Arguments} {options : List Occurrence}

/-! ## Spelling -/

/-- The options spell out the arguments but for the files: each flag that is on once, and each value
by itself, those of one parameter in order. -/
structure Spells (options : List Occurrence) (a : Arguments) : Prop where
  files : filesOf options = []
  flags : ∀ f, options.count (.flag f) = (a.flags f).toNat
  values : ∀ p, valuesOf p options = (a.given p).map p.word

theorem mapM_read_word {p : Parameter} {values : List p.Value}
    (h : p = .exportPath → ∀ x ∈ values, p.word x ≠ "") :
    (values.map p.word).mapM p.read = .ok values := by
  induction values with
  | nil => rfl
  | cons x values ih =>
    have hx : p.read (p.word x) = .ok x :=
      Parameter.read_word fun hp => h hp x List.mem_cons_self
    rw [List.map_cons, List.mapM_cons, hx, ih fun hp y hy => h hp y (List.mem_cons_of_mem x hy)]
    rfl

/-- The command line of some options and then files. -/
def spelled (options : List Occurrence) (files : List String) : List String :=
  options.map Occurrence.word ++ "--" :: files

theorem ofWords_spelled (h : Spells options a) (hpath : a.exportPath ≠ some "") :
    ofWords (spelled options a.files) = .ok a := by
  have hread : ofOccurrences (options ++ a.files.map .file) = .ok a := by
    refine ofOccurrences_eq_ok_iff.mpr ⟨?_, fun f => ?_, fun p => ?_⟩
    · rw [filesOf_append, h.files, filesOf_map_file, List.nil_append]
    · have hnone : (a.files.map Occurrence.file).count (.flag f) = 0 :=
        List.count_eq_zero.mpr (by simp)
      rw [List.count_append, h.flags, hnone, Nat.add_zero]
    · rw [valuesOf_append, h.values, valuesOf_map_file, List.append_nil]
      refine mapM_read_word ?_
      rintro rfl path hgiven rfl
      exact hpath (Option.mem_toList.mp hgiven)
  unfold ofWords spelled
  rw [scan_map_word h.files]
  simp only [hread]
  rfl

/-! ## All arguments can be spelled -/

/-- The options that spell out the arguments, the flags before the parameters. -/
def spelling (a : Arguments) : List Occurrence :=
  (Flag.all.filter a.flags).map .flag ++
    Parameter.all.flatMap fun p => (a.given p).map fun x => .parameter p (p.word x)

theorem count_flag (a : Arguments) (f : Flag) :
    ((Flag.all.filter a.flags).map Occurrence.flag).count (.flag f) = (a.flags f).toNat := by
  rw [List.count_map_of_injective _ _ fun _ _ => Occurrence.flag.inj]
  cases hf : a.flags f with
  | false => exact List.count_eq_zero.mpr (by simp [hf])
  | true =>
    rw [List.count_filter hf]
    cases f <;> decide

theorem valuesOf_map_parameter (p q : Parameter) (values : List q.Value) :
    valuesOf p (values.map fun x => .parameter q (q.word x)) =
      if q = p then values.map q.word else [] := by
  unfold valuesOf
  rw [List.filterMap_map]
  by_cases h : q = p <;> simp [Function.comp_def, Occurrence.value?, h]

theorem filesOf_spelling (a : Arguments) : filesOf a.spelling = [] := by
  rw [filesOf, List.filterMap_eq_nil_iff]
  intro o ho
  rcases List.mem_append.mp ho with hflag | hparameter
  · obtain ⟨f, _, rfl⟩ := List.mem_map.mp hflag
    rfl
  · obtain ⟨p, _, hp⟩ := List.mem_flatMap.mp hparameter
    obtain ⟨x, _, rfl⟩ := List.mem_map.mp hp
    rfl

theorem valuesOf_spelling (a : Arguments) (p : Parameter) :
    valuesOf p a.spelling = (a.given p).map p.word := by
  have hflags : valuesOf p ((Flag.all.filter a.flags).map .flag) = [] := by
    rw [valuesOf, List.filterMap_eq_nil_iff]
    intro o ho
    obtain ⟨f, _, rfl⟩ := List.mem_map.mp ho
    rfl
  have hparameters : valuesOf p
      (Parameter.all.flatMap fun q => (a.given q).map fun x => .parameter q (q.word x)) =
        Parameter.all.flatMap fun q => if q = p then (a.given q).map q.word else [] :=
    List.filterMap_flatMap.trans
      (congrArg Parameter.all.flatMap (funext fun q => valuesOf_map_parameter p q _))
  rw [spelling, valuesOf_append, hflags, hparameters, List.nil_append]
  -- the other parameters contribute nothing
  cases p <;> simp [Parameter.all]

theorem spells_spelling (a : Arguments) : Spells a.spelling a where
  files := filesOf_spelling a
  flags := by
    intro f
    rw [spelling, List.count_append, count_flag, List.count_eq_zero.mpr (by simp), Nat.add_zero]
  values := valuesOf_spelling a

end Arguments

end FormatRequest.CommandLine
