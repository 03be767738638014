import Mathlib.Data.List.Basic
import FormatRequest.CommandLine.Arguments

/-!
# The pieces of a command line

What a word says depends on the word before it: after `--offset` it is an offset. But the words of a
command line without a fault fall into pieces that say the same wherever they stand: a file, a flag
or several flags in one word, a parameter with its value in one word or in two. The command line is
a row of pieces, and perhaps the word `--` with files after it.

Results:
1. `scan_words`: the pieces say what they say, one after the other.
2. `exists_pieces`: a command line without a fault falls into pieces.
3. `ofWords_words`, `exists_pieces_of_ofWords`: the arguments of pieces.
-/

namespace FormatRequest.CommandLine

/-- `Means words occurrences`: the words mean the occurrences, whatever stands before and after
them. -/
inductive Means : List String → List Occurrence → Prop
  | file {name : String} (hname : Word.of name.toList = .plain) : Means [name] [.file name]
  | flag {word : String} {name : List Char} {f : Flag}
    (hword : Word.of word.toList = .long name none) (hname : Opt.ofName? name = some (.flag f)) :
    Means [word] [.flag f]
  | letters {word : String} {letters : List Char} {flags : List Flag}
    (hword : Word.of word.toList = .letters letters)
    (hletters : letters.mapM Opt.ofLetter? = some flags) : Means [word] (flags.map .flag)
  | joined {word : String} {name value : List Char} {p : Parameter}
    (hword : Word.of word.toList = .long name (some value))
    (hname : Opt.ofName? name = some (.parameter p)) :
    Means [word] [.parameter p (String.ofList value)]
  | apart {word value : String} {name : List Char} {p : Parameter}
    (hword : Word.of word.toList = .long name none)
    (hname : Opt.ofName? name = some (.parameter p)) (hvalue : Word.of value.toList = .plain) :
    Means [word, value] [.parameter p value]

/-- Some words with what they say. -/
structure Piece where
  words : List String
  occurrences : List Occurrence
  means : Means words occurrences

/-- The words of a row of pieces. -/
def wordsOf (pieces : List Piece) : List String := pieces.flatMap Piece.words

/-- What a row of pieces says. -/
def occurrencesOf (pieces : List Piece) : List Occurrence := pieces.flatMap Piece.occurrences

/-- The end of a command line: nothing, or the word `--` and the files after it. -/
def ending : Option (List String) → List String
  | none => []
  | some files => "--" :: files

/-- What the end of a command line says. -/
def endingFiles (files : Option (List String)) : List Occurrence := (files.getD []).map .file

@[simp] theorem wordsOf_append (pieces more : List Piece) :
    wordsOf (pieces ++ more) = wordsOf pieces ++ wordsOf more :=
  List.flatMap_append

@[simp] theorem occurrencesOf_append (pieces more : List Piece) :
    occurrencesOf (pieces ++ more) = occurrencesOf pieces ++ occurrencesOf more :=
  List.flatMap_append

@[simp] theorem wordsOf_cons (piece : Piece) (pieces : List Piece) :
    wordsOf (piece :: pieces) = piece.words ++ wordsOf pieces :=
  List.flatMap_cons

@[simp] theorem occurrencesOf_cons (piece : Piece) (pieces : List Piece) :
    occurrencesOf (piece :: pieces) = piece.occurrences ++ occurrencesOf pieces :=
  List.flatMap_cons

/-- A parameter is no part of a larger piece. -/
theorem Means.eq_singleton {words : List String} {occurrences : List Occurrence} {p : Parameter}
    {value : String} (h : Means words occurrences) (hmem : .parameter p value ∈ occurrences) :
    occurrences = [.parameter p value] := by
  cases h with
  | file => simp at hmem
  | flag => simp at hmem
  | letters => simp at hmem
  | joined => rw [List.mem_singleton.mp hmem]
  | apart => rw [List.mem_singleton.mp hmem]

/-! ## The scan of a piece -/

/-- No parameter wants its value. -/
def Pending.Settled (pending : Pending) : Prop := ∀ p, pending ≠ .value p

namespace Scan

/-- The scan of a command line that has some occurrences before the rest. -/
def prepend (occurrences : List Occurrence) (s : Scan) : Scan :=
  { s with occurrences := occurrences ++ s.occurrences }

theorem fault_complete {pending : Pending} {s : Scan} (h : pending.Settled) :
    (complete pending s).fault = s.fault := by
  cases pending with
  | nothing => rfl
  | value p => exact absurd rfl (h p)
  | occurrence p value => rfl

end Scan

/-- The words are scanned as `s`, and complete what is pending before them. -/
def ScannedAs (words : List String) (s : Scan) : Prop :=
  ∀ pending : Pending, pending.Settled → scanFrom pending words = Scan.complete pending s

variable {words rest : List String} {occurrences : List Occurrence} {s : Scan}

theorem settled_nothing : Pending.nothing.Settled := nofun

theorem settled_occurrence (p : Parameter) (value : String) :
    (Pending.occurrence p value).Settled := nofun

theorem scanLetters_of_mapM {letters : List Char} {flags : List Flag}
    (h : letters.mapM Opt.ofLetter? = some flags) (pending : Pending) (s : Scan) :
    scanLetters pending s letters = Scan.complete pending (s.prepend (flags.map .flag)) := by
  induction letters generalizing flags pending with
  | nil =>
    obtain rfl : [] = flags := Option.some.inj h
    rfl
  | cons c letters ih =>
    rw [List.mapM_cons] at h
    cases hc : Opt.ofLetter? c with
    | none =>
      rw [hc] at h
      cases h
    | some f =>
      cases hletters : letters.mapM Opt.ofLetter? with
      | none =>
        rw [hc, hletters] at h
        cases h
      | some more =>
        rw [hc, hletters] at h
        obtain rfl : f :: more = flags := Option.some.inj h
        simp only [scanLetters, hc, ih hletters]
        rfl

/-- A piece comes before what the rest says. The rest completes the value that ends the piece. -/
theorem Means.scannedAs (h : Means words occurrences) (hrest : ScannedAs rest s) :
    ScannedAs (words ++ rest) (s.prepend occurrences) := by
  intro pending hpending
  have hnothing : scanFrom .nothing rest = s := hrest .nothing settled_nothing
  cases h with
  | file hname =>
    simp only [List.cons_append, List.nil_append, scanFrom, hname, hnothing]
    cases pending with
    | nothing => rfl
    | value p => exact absurd rfl (hpending p)
    | occurrence p value => rfl
  | flag hword hname =>
    simp only [List.cons_append, List.nil_append, scanFrom, hword, hname, hnothing]
    rfl
  | letters hword hletters =>
    simp only [List.cons_append, List.nil_append, scanFrom, hword, hnothing]
    exact scanLetters_of_mapM hletters pending s
  | joined hword hname =>
    simp only [List.cons_append, List.nil_append, scanFrom, hword, hname, hnothing]
    rfl
  | apart hword hname hvalue =>
    simp only [List.cons_append, List.nil_append, scanFrom, hword, hname, hvalue]
    rw [hrest _ (settled_occurrence _ _)]
    rfl

theorem scannedAs_ending (files : Option (List String)) :
    ScannedAs (ending files) ⟨endingFiles files, none⟩ := by
  intro pending _
  cases files with
  | none => rfl
  | some files => rfl

theorem scannedAs_words (pieces : List Piece) (files : Option (List String)) :
    ScannedAs (wordsOf pieces ++ ending files)
      ⟨occurrencesOf pieces ++ endingFiles files, none⟩ := by
  induction pieces with
  | nil => exact scannedAs_ending files
  | cons piece pieces ih =>
    rw [wordsOf_cons, occurrencesOf_cons, List.append_assoc, List.append_assoc]
    exact piece.means.scannedAs ih

theorem scan_words (pieces : List Piece) (files : Option (List String)) :
    scan (wordsOf pieces ++ ending files) =
      ⟨occurrencesOf pieces ++ endingFiles files, none⟩ :=
  scannedAs_words pieces files .nothing settled_nothing

theorem scan_wordsOf (pieces : List Piece) :
    scan (wordsOf pieces) = ⟨occurrencesOf pieces, none⟩ := by
  have h := scan_words pieces none
  rw [ending, endingFiles, List.append_nil, Option.getD_none, List.map_nil, List.append_nil] at h
  exact h

/-! ## Every command line falls into pieces -/

theorem Word.eq_of_filesOnly {word : String} (h : Word.of word.toList = .filesOnly) :
    word = "--" := by
  refine String.toList_inj.mp ?_
  revert h
  generalize word.toList = text
  intro h
  unfold Word.of at h
  split at h
  · rfl
  · split at h <;> cases h
  · cases h
  · cases h

/-- Letters without a fault all stand for flags. -/
theorem mapM_of_scanLetters {pending : Pending} {letters : List Char} (hpending : pending.Settled)
    (h : (scanLetters pending s letters).fault = none) :
    ∃ flags, letters.mapM Opt.ofLetter? = some flags ∧ s.fault = none := by
  induction letters generalizing pending with
  | nil =>
    refine ⟨[], rfl, ?_⟩
    rw [← Scan.fault_complete hpending]
    exact h
  | cons c letters ih =>
    unfold scanLetters at h
    cases hc : Opt.ofLetter? c with
    | none =>
      rw [hc] at h
      cases h
    | some f =>
      rw [hc] at h
      have hletters := (Scan.fault_complete hpending).symm.trans h
      obtain ⟨flags, hflags, hs⟩ := ih settled_nothing hletters
      refine ⟨f :: flags, ?_, hs⟩
      rw [List.mapM_cons, hc, hflags]
      rfl

/-- A parameter that wants its value and meets no fault has it in the next word. -/
theorem exists_value {p : Parameter} (h : (scanFrom (.value p) words).fault = none) :
    ∃ value rest, words = value :: rest ∧ Word.of value.toList = .plain ∧
      (scanFrom (.occurrence p value) rest).fault = none := by
  cases words with
  | nil => cases h
  | cons word rest =>
    unfold scanFrom at h
    cases hword : Word.of word.toList with
    | filesOnly =>
      rw [hword] at h
      cases h
    | long name value =>
      rw [hword] at h
      dsimp only at h
      split at h <;> cases h
    | letters letters =>
      rw [hword] at h
      cases letters with
      | nil => cases h
      | cons c letters =>
        dsimp only [scanLetters] at h
        split at h <;> cases h
    | plain =>
      rw [hword] at h
      exact ⟨word, rest, rfl, hword, h⟩

/-- What is pending and complete makes no difference to whether there is a fault. -/
theorem fault_of_settled {pending : Pending} (hpending : pending.Settled)
    (h : (scanFrom pending words).fault = none) : (scanFrom .nothing words).fault = none := by
  cases words with
  | nil => rfl
  | cons word rest =>
    unfold scanFrom at h ⊢
    cases hword : Word.of word.toList with
    | filesOnly => rfl
    | long name value =>
      rw [hword] at h
      dsimp only at h ⊢
      split at h
      · cases h
      · exact (Scan.fault_complete hpending).symm.trans h
      · cases h
      · exact (Scan.fault_complete hpending).symm.trans h
      · exact (Scan.fault_complete hpending).symm.trans h
    | letters letters =>
      rw [hword] at h
      obtain ⟨flags, hflags, hs⟩ := mapM_of_scanLetters hpending h
      dsimp only
      rw [scanLetters_of_mapM hflags]
      exact hs
    | plain =>
      rw [hword] at h
      cases pending with
      | nothing => exact h
      | value p => exact absurd rfl (hpending p)
      | occurrence p value => exact h

theorem exists_pieces (words : List String) (h : (scanFrom .nothing words).fault = none) :
    ∃ pieces files, words = wordsOf pieces ++ ending files := by
  -- a piece is split off in front, and the scan of the rest begins with nothing pending
  have extend {said rest : List String} {occurrences : List Occurrence}
      (hmeans : Means said occurrences)
      (hrest : ∃ pieces files, rest = wordsOf pieces ++ ending files) :
      ∃ pieces files, said ++ rest = wordsOf pieces ++ ending files := by
    obtain ⟨pieces, files, rfl⟩ := hrest
    exact ⟨Piece.mk said _ hmeans :: pieces, files, (List.append_assoc ..).symm⟩
  cases words with
  | nil => exact ⟨[], none, rfl⟩
  | cons word rest =>
    unfold scanFrom at h
    cases hword : Word.of word.toList with
    | filesOnly =>
      obtain rfl := Word.eq_of_filesOnly hword
      exact ⟨[], some rest, rfl⟩
    | long name value =>
      rw [hword] at h
      dsimp only at h
      split at h
      · cases h
      · next f hname => exact extend (.flag hword hname) (exists_pieces rest h)
      · cases h
      · next p hname =>
        obtain ⟨value, rest, rfl, hvalue, hrest⟩ := exists_value h
        have hnothing := fault_of_settled (settled_occurrence p value) hrest
        exact extend (.apart hword hname hvalue) (exists_pieces rest hnothing)
      · next p value hname => exact extend (.joined hword hname) (exists_pieces rest h)
    | letters letters =>
      rw [hword] at h
      obtain ⟨flags, hflags, hrest⟩ := mapM_of_scanLetters settled_nothing h
      exact extend (.letters hword hflags) (exists_pieces rest hrest)
    | plain =>
      rw [hword] at h
      exact extend (.file hword) (exists_pieces rest h)
termination_by words.length

/-! ## The arguments of pieces -/

namespace Arguments

variable {a : Arguments}

theorem ofWords_eq_ok_iff :
    ofWords words = .ok a ↔
      (scan words).fault = none ∧ ofOccurrences (scan words).occurrences = .ok a := by
  unfold ofWords
  dsimp only
  cases ofOccurrences (scan words).occurrences with
  | error fault => exact iff_of_false nofun fun h => nomatch h.2
  | ok b =>
    cases (scan words).fault with
    | none => exact (and_iff_right rfl).symm
    | some fault => exact iff_of_false nofun fun h => nomatch h.1

theorem ofWords_words (pieces : List Piece) (files : Option (List String)) :
    ofWords (wordsOf pieces ++ ending files) = .ok a ↔
      ofOccurrences (occurrencesOf pieces ++ endingFiles files) = .ok a := by
  rw [ofWords_eq_ok_iff, scan_words]
  exact and_iff_right rfl

theorem ofWords_wordsOf (pieces : List Piece) :
    ofWords (wordsOf pieces) = .ok a ↔ ofOccurrences (occurrencesOf pieces) = .ok a := by
  rw [ofWords_eq_ok_iff, scan_wordsOf]
  exact and_iff_right rfl

/-- A command line that is accepted falls into pieces. -/
theorem exists_pieces_of_ofWords (h : ofWords words = .ok a) :
    ∃ pieces files, words = wordsOf pieces ++ ending files ∧
      ofOccurrences (occurrencesOf pieces ++ endingFiles files) = .ok a := by
  obtain ⟨pieces, files, rfl⟩ := exists_pieces words (ofWords_eq_ok_iff.mp h).1
  exact ⟨pieces, files, rfl, (ofWords_words pieces files).mp h⟩

theorem exists_pieces_of_not_mem (hdashes : "--" ∉ words) (h : ofWords words = .ok a) :
    ∃ pieces, words = wordsOf pieces ∧ ofOccurrences (occurrencesOf pieces) = .ok a := by
  obtain ⟨pieces, files, rfl, _⟩ := exists_pieces_of_ofWords h
  cases files with
  | none =>
    rw [ending, List.append_nil] at h ⊢
    exact ⟨pieces, rfl, (ofWords_wordsOf pieces).mp h⟩
  | some files => exact absurd (List.mem_append_right _ List.mem_cons_self) hdashes

end Arguments

end FormatRequest.CommandLine
