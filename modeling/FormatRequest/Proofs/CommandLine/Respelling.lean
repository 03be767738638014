import Mathlib.Logic.Relation
import FormatRequest.Proofs.CommandLine.Pieces
import FormatRequest.Proofs.CommandLine.Spelling

/-!
# Other spellings

An option can be spelled in several ways. A flag has one long name or two and perhaps letters, and
the letters of several flags can share a word. A parameter can have a second name as well, and its
value is joined to the name or is the next word. A command line that is accepted says the same
however its options are spelled.

It has to be accepted. In a command line that is refused, a name with its value in a word of its own
is lost if an unknown option comes next, but joined it is read, and its fault comes first. A value
that looks like an option has to be joined, so only other values can be taken apart.

Results:
1. `scanFrom_cons`: a word leaves the words after it to be scanned by themselves.
2. `Respelling.standsFor`, `StandsFor.append_left`: a spelling in place of another, wherever it is.
3. `Respelled.scan_eq`: a command line with other spellings.
-/

namespace FormatRequest.CommandLine

/-! ## Letters -/

/-- The word of some letters. -/
def lettersWord (letters : List Char) : String := String.ofList ('-' :: letters)

/-- `LettersOf letters flags`: each letter stands for one of the flags, in order. -/
def LettersOf (letters : List Char) (flags : List Flag) : Prop :=
  List.Forall₂ (fun c f => c ∈ f.letters) letters flags

/-- The words that spell a flag by itself. -/
def Flag.spellings (f : Flag) : List String :=
  (Opt.flag f).names.map ("--" ++ ·) ++ f.letters.map fun c => lettersWord [c]

theorem Flag.mem_spellings (f : Flag) : (Occurrence.flag f).word ∈ f.spellings :=
  List.mem_append_left _ (List.mem_map_of_mem (Opt.name_mem_names (.flag f)))

theorem Flag.dashes_not_mem_spellings (f : Flag) : "--" ∉ f.spellings := by
  cases f <;> decide

theorem Flag.dash_not_mem_letters (f : Flag) : '-' ∉ f.letters := by
  cases f <;> decide

theorem Opt.ofLetter?_eq_some_iff {c : Char} {f : Flag} :
    ofLetter? c = some f ↔ c ∈ f.letters := by
  constructor
  · intro h
    have hfound := List.find?_some h
    exact List.contains_iff_mem.mp hfound
  · intro h
    -- a test of the letters there are, and not of all characters
    have hall : (Flag.all.all fun f => f.letters.all (ofLetter? · == some f)) = true := by decide
    have hletters := List.all_eq_true.mp hall f f.mem_all
    exact beq_iff_eq.mp (List.all_eq_true.mp hletters c h)

theorem mapM_ofLetter?_eq_some_iff {letters : List Char} {flags : List Flag} :
    letters.mapM Opt.ofLetter? = some flags ↔ LettersOf letters flags := by
  unfold LettersOf
  induction letters generalizing flags with
  | nil =>
    rw [List.forall₂_nil_left_iff]
    exact ⟨fun h => (Option.some.inj h).symm, fun h => h ▸ rfl⟩
  | cons c letters ih =>
    rw [List.forall₂_cons_left_iff, List.mapM_cons]
    simp only [Option.bind_eq_bind, Option.bind_eq_some_iff, Opt.ofLetter?_eq_some_iff, ih]
    constructor
    · rintro ⟨f, hf, more, hmore, hflags⟩
      exact ⟨f, more, hf, hmore, (Option.some.inj hflags).symm⟩
    · rintro ⟨f, more, hf, hmore, rfl⟩
      exact ⟨f, hf, more, hmore, rfl⟩

theorem Word.of_letters {letters : List Char} {flags : List Flag} (hne : letters ≠ [])
    (hletters : LettersOf letters flags) : of ('-' :: letters) = .letters letters := by
  cases hletters with
  | nil => exact absurd rfl hne
  | @cons c f letters flags hc _ =>
    have hdash : c ≠ '-' := fun heq => f.dash_not_mem_letters (heq ▸ hc)
    simp [of, hdash]

/-! ## Spellings -/

/-- `Respelling words others`: the words `others` spell the same options as the words `words`. -/
inductive Respelling : List String → List String → Prop
  /-- A flag by another of its names or letters. -/
  | flag {f : Flag} {word other : String} (hword : word ∈ f.spellings)
    (hother : other ∈ f.spellings) : Respelling [word] [other]
  /-- The letters of one word, each in a word of its own. -/
  | split {letters : List Char} {flags : List Flag} (hne : letters ≠ [])
    (hletters : LettersOf letters flags) :
    Respelling [lettersWord letters] (letters.map fun c => lettersWord [c])
  /-- Letters in words of their own, put into one word. -/
  | group {letters : List Char} {flags : List Flag} (hne : letters ≠ [])
    (hletters : LettersOf letters flags) :
    Respelling (letters.map fun c => lettersWord [c]) [lettersWord letters]
  /-- Another name of a parameter, with its value in the next word. -/
  | name {p : Parameter} {name other : String} (hname : name ∈ (Opt.parameter p).names)
    (hother : other ∈ (Opt.parameter p).names) (value : String) :
    Respelling ["--" ++ name, value] ["--" ++ other, value]
  /-- Another name of a parameter, with its value in the same word. -/
  | joinedName {p : Parameter} {name other : String} (hname : name ∈ (Opt.parameter p).names)
    (hother : other ∈ (Opt.parameter p).names) (value : String) :
    Respelling ["--" ++ name ++ "=" ++ value] ["--" ++ other ++ "=" ++ value]
  /-- A value joined to the name of its parameter. -/
  | join {p : Parameter} {name : String} (hname : name ∈ (Opt.parameter p).names)
    (value : String) : Respelling ["--" ++ name, value] ["--" ++ name ++ "=" ++ value]
  /-- A value that does not look like an option, taken apart from the name of its parameter. -/
  | part {p : Parameter} {name value : String} (hname : name ∈ (Opt.parameter p).names)
    (hvalue : Word.of value.toList = .plain) :
    Respelling ["--" ++ name ++ "=" ++ value] ["--" ++ name, value]

/-- `Respells words others`: the command line `others` is the command line `words` with one other
spelling before the word `--`. -/
inductive Respells : List String → List String → Prop
  | within (before after : List String) {old new : List String} (hbefore : "--" ∉ before)
    (h : Respelling old new) : Respells (before ++ old ++ after) (before ++ new ++ after)

/-- `Respelled words others`: the command line `others` comes from the command line `words` by any
number of other spellings, one after the other. -/
abbrev Respelled : List String → List String → Prop := Relation.ReflTransGen Respells

/-! ## The scan, word by word -/

theorem Scan.fault_of_complete {pending : Pending} {s : Scan}
    (h : (complete pending s).fault = none) : s.fault = none := by
  cases pending with
  | nothing => exact h
  | value p => cases h
  | occurrence p value => exact h

variable {words others rest : List String} {pending : Pending} {s : Scan}

theorem fault_of_scanLetters {letters : List Char}
    (h : (scanLetters pending s letters).fault = none) : s.fault = none := by
  induction letters generalizing pending with
  | nil => exact Scan.fault_of_complete h
  | cons c letters ih =>
    unfold scanLetters at h
    split at h
    · cases h
    · next f _ =>
      have hmore : ((scanLetters .nothing s letters).cons (.flag f)).fault = none :=
        Scan.fault_of_complete h
      exact ih hmore

/-- What comes after a word is scanned by itself, and keeps its fault. What the word leaves open and
what it adds do not depend on it. -/
theorem scanFrom_cons (pending : Pending) {word : String} (hword : word ≠ "--") :
    ∃ (next : Pending) (add : Scan → Scan), (∀ s, (add s).fault = none → s.fault = none) ∧
      ∀ rest, scanFrom pending (word :: rest) = add (scanFrom next rest) := by
  simp only [scanFrom]
  cases hkind : Word.of word.toList with
  | filesOnly => exact absurd (Word.eq_of_filesOnly hkind) hword
  | long name value =>
    dsimp only
    split
    · exact ⟨.nothing, fun _ => .stop _, fun _ h => absurd h (Option.some_ne_none _), fun _ => rfl⟩
    · next f _ =>
      exact ⟨.nothing, fun s => .complete pending (s.cons (.flag f)),
        fun s => Scan.fault_of_complete (s := s.cons (.flag f)), fun _ => rfl⟩
    · exact ⟨.nothing, fun _ => .stop _, fun _ h => absurd h (Option.some_ne_none _), fun _ => rfl⟩
    · next p _ =>
      exact ⟨.value p, .complete pending, fun _ => Scan.fault_of_complete, fun _ => rfl⟩
    · next p value _ =>
      exact ⟨.nothing, fun s => .complete pending (s.cons (.parameter p (String.ofList value))),
        fun s => Scan.fault_of_complete (s := s.cons _), fun _ => rfl⟩
  | letters letters =>
    exact ⟨.nothing, fun s => scanLetters pending s letters, fun _ => fault_of_scanLetters,
      fun _ => rfl⟩
  | plain =>
    cases pending with
    | value p => exact ⟨.occurrence p word, fun s => s, fun _ h => h, fun _ => rfl⟩
    | nothing => exact ⟨.nothing, fun s => s.cons (.file word), fun _ h => h, fun _ => rfl⟩
    | occurrence p value =>
      exact ⟨.nothing, fun s => .complete (.occurrence p value) (s.cons (.file word)),
        fun _ h => h, fun _ => rfl⟩

/-! ## The scan of a spelling -/

theorem scanFrom_letters {letters : List Char} {flags : List Flag} (hne : letters ≠ [])
    (hletters : LettersOf letters flags) (pending : Pending) (rest : List String) :
    scanFrom pending (lettersWord letters :: rest) =
      Scan.complete pending ((scanFrom .nothing rest).prepend (flags.map .flag)) := by
  simp only [scanFrom, lettersWord, String.toList_ofList, Word.of_letters hne hletters]
  exact scanLetters_of_mapM (mapM_ofLetter?_eq_some_iff.mpr hletters) pending _

theorem scanFrom_letter {f : Flag} {c : Char} (h : c ∈ f.letters) (pending : Pending)
    (rest : List String) :
    scanFrom pending (lettersWord [c] :: rest) =
      Scan.complete pending ((scanFrom .nothing rest).cons (.flag f)) :=
  scanFrom_letters (List.cons_ne_nil c []) (.cons h .nil) pending rest

theorem scanFrom_spelling {f : Flag} {word : String} (h : word ∈ f.spellings) (pending : Pending)
    (rest : List String) :
    scanFrom pending (word :: rest) =
      Scan.complete pending ((scanFrom .nothing rest).cons (.flag f)) := by
  rcases List.mem_append.mp h with hlong | hletter
  · obtain ⟨name, hname, rfl⟩ := List.mem_map.mp hlong
    exact scanFrom_flag hname pending rest
  · obtain ⟨c, hc, rfl⟩ := List.mem_map.mp hletter
    exact scanFrom_letter hc pending rest

theorem scanFrom_map_letters {letters : List Char} {flags : List Flag} (hne : letters ≠ [])
    (hletters : LettersOf letters flags) (pending : Pending) (rest : List String) :
    scanFrom pending (letters.map (fun c => lettersWord [c]) ++ rest) =
      Scan.complete pending ((scanFrom .nothing rest).prepend (flags.map .flag)) := by
  induction hletters generalizing pending with
  | nil => exact absurd rfl hne
  | @cons c f letters flags hc hmore ih =>
    rw [List.map_cons, List.cons_append, scanFrom_letter hc]
    cases letters with
    | nil =>
      cases hmore
      rfl
    | cons c' letters =>
      rw [ih (List.cons_ne_nil c' letters)]
      rfl

theorem scanFrom_name {p : Parameter} {name : String} (h : name ∈ (Opt.parameter p).names)
    (pending : Pending) (rest : List String) :
    scanFrom pending (("--" ++ name) :: rest) =
      Scan.complete pending (scanFrom (.value p) rest) := by
  have hword : ("--" ++ name).toList = '-' :: '-' :: name.toList := by simp
  simp only [scanFrom, hword, Word.of_name h, Opt.ofName?_of_mem_names h]

/-- Words without a fault complete what is pending before them. -/
theorem scannedAs_of_fault (h : (scanFrom .nothing words).fault = none) :
    ScannedAs words (scanFrom .nothing words) := by
  intro pending hpending
  obtain ⟨pieces, files, rfl⟩ := exists_pieces words h
  rw [scannedAs_words pieces files pending hpending,
    scannedAs_words pieces files .nothing settled_nothing]
  rfl

/-- A value in a word of its own, when nothing after it is at fault. -/
theorem scanFrom_value {p : Parameter} {value : String} (hvalue : Word.of value.toList = .plain)
    (hrest : (scanFrom .nothing rest).fault = none) :
    scanFrom (.value p) (value :: rest) = (scanFrom .nothing rest).cons (.parameter p value) := by
  have hscan : scanFrom (.value p) (value :: rest) = scanFrom (.occurrence p value) rest := by
    simp only [scanFrom, hvalue]
  rw [hscan]
  exact scannedAs_of_fault hrest _ (settled_occurrence p value)

theorem scanFrom_value_of_fault {p : Parameter} {value : String}
    (h : (scanFrom (.value p) (value :: rest)).fault = none) :
    scanFrom (.value p) (value :: rest) = (scanFrom .nothing rest).cons (.parameter p value) := by
  obtain ⟨_, _, hwords, hvalue, hrest⟩ := exists_value h
  obtain ⟨rfl, rfl⟩ := List.cons_eq_cons.mp hwords
  exact scanFrom_value hvalue (fault_of_settled (settled_occurrence p value) hrest)

/-! ## Words in place of others -/

/-- `StandsFor others words`: the words `others` are scanned as the words `words` are, if those have
no fault, whatever is pending before them. -/
def StandsFor (others words : List String) : Prop :=
  ∀ pending, (scanFrom pending words).fault = none →
    scanFrom pending others = scanFrom pending words

theorem StandsFor.append_left {before : List String} (hbefore : "--" ∉ before)
    (h : StandsFor others words) : StandsFor (before ++ others) (before ++ words) := by
  -- word by word, the words before lead both command lines to the same pending state
  induction before with
  | nil => exact h
  | cons word before ih =>
    intro pending hfault
    have hword : word ≠ "--" := Ne.symm (List.ne_of_not_mem_cons hbefore)
    obtain ⟨next, add, hadd, hscan⟩ := scanFrom_cons pending hword
    rw [List.cons_append, hscan] at hfault ⊢
    rw [List.cons_append, hscan, ih (List.not_mem_of_not_mem_cons hbefore) next (hadd _ hfault)]

/-- Whatever is pending before it and comes after it, a spelling can be used for another. -/
theorem Respelling.standsFor {old new : List String} (h : Respelling old new)
    (after : List String) : StandsFor (new ++ after) (old ++ after) := by
  intro pending hfault
  cases h with
  | flag hword hother =>
    simp only [List.singleton_append]
    rw [scanFrom_spelling hother, scanFrom_spelling hword]
  | split hne hletters =>
    rw [List.singleton_append, scanFrom_map_letters hne hletters, scanFrom_letters hne hletters]
  | group hne hletters =>
    rw [List.singleton_append, scanFrom_map_letters hne hletters, scanFrom_letters hne hletters]
  | name hname hother value =>
    simp only [List.cons_append]
    rw [scanFrom_name hother, scanFrom_name hname]
  | joinedName hname hother value =>
    simp only [List.singleton_append]
    rw [scanFrom_joined hother, scanFrom_joined hname]
  | join hname value =>
    -- the command line is not at fault, so the next word is the value
    simp only [List.cons_append, List.nil_append] at hfault ⊢
    rw [scanFrom_name hname] at hfault ⊢
    rw [scanFrom_joined hname, scanFrom_value_of_fault (Scan.fault_of_complete hfault)]
  | @part p name value hname hvalue =>
    simp only [List.cons_append, List.nil_append] at hfault ⊢
    rw [scanFrom_joined hname] at hfault ⊢
    have hrest : ((scanFrom .nothing after).cons (.parameter p value)).fault = none :=
      Scan.fault_of_complete hfault
    rw [scanFrom_name hname, scanFrom_value hvalue hrest]

/-! ## Command lines -/

theorem Respells.scan_eq (h : Respells words others) (hfault : (scan words).fault = none) :
    scan others = scan words := by
  cases h with
  | within before after hbefore hspelling =>
    unfold scan at hfault ⊢
    rw [List.append_assoc] at hfault ⊢
    rw [List.append_assoc]
    exact (hspelling.standsFor after).append_left hbefore .nothing hfault

theorem Respelled.scan_eq (h : Respelled words others) (hfault : (scan words).fault = none) :
    scan others = scan words := by
  -- no spelling on the way brings in a fault, because the scan stays what it was
  induction h with
  | refl => rfl
  | tail _ hstep ih => rw [hstep.scan_eq (ih ▸ hfault), ih]

-- the scan must not have a fault
example : scan ["--offset=x", "--bogus"] ≠ scan ["--offset", "x", "--bogus"] := by decide

theorem Arguments.ofWords_of_scan_eq (h : scan others = scan words) :
    ofWords others = ofWords words := by
  unfold ofWords
  rw [h]

end FormatRequest.CommandLine
