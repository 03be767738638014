import FormatRequest.CommandLine.Run
import FormatRequest.Proofs.CommandLine.Respelling

/-!
# All spellings

All spellings of an option are interchangeable. The rules for other spellings keep what an accepted
command line says, so it runs alike. And they miss no spelling: every piece can be spelled anew so
that each of its occurrences has a word with its long name and with its value joined to it, and it
can be spelled back. So two rows of pieces that say the same are spellings of each other.

Results:
1. `Word.eq_of_letters`, `Word.eq_of_long`: the text of a word of each kind.
2. `Means.interchangeable`: a piece and the words of its occurrences.
3. `respelled_iff`: the rules lead to all command lines whose pieces say the same, and to no others.
4. `run_respelled`: a run on a command line with other spellings.
-/

namespace FormatRequest.CommandLine

variable {words others : List String}

/-! ## The text of a word -/

theorem Word.eq_of_letters {text letters : List Char} (h : of text = .letters letters) :
    text = '-' :: letters ∧ letters ≠ [] := by
  unfold of at h
  split at h
  · cases h
  · split at h <;> cases h
  · cases h
    exact ⟨rfl, List.cons_ne_nil _ _⟩
  · cases h

theorem Word.eq_of_long {text name : List Char} {value : Option (List Char)}
    (h : of text = .long name value) :
    text = '-' :: '-' :: (name ++ value.elim [] ('=' :: ·)) := by
  unfold of at h
  split at h
  · cases h
  · next rest _ =>
    have hrest := List.takeWhile_append_dropWhile (p := (· != '=')) (l := rest)
    have hequals := List.head?_dropWhile_not (· != '=') rest
    rw [List.span_eq_takeWhile_dropWhile] at h
    cases hdrop : rest.dropWhile (· != '=') with
    | nil =>
      rw [hdrop] at h hrest
      cases h
      exact congrArg ('-' :: '-' :: ·) hrest.symm
    | cons c value =>
      rw [hdrop] at h hrest hequals
      cases h
      obtain rfl : c = '=' := by simpa using hequals
      exact congrArg ('-' :: '-' :: ·) hrest.symm
  · cases h
  · cases h

theorem Opt.exists_name {name : List Char} {o : Opt} (h : ofName? name = some o) :
    ∃ n ∈ o.names, name = n.toList := by
  have hfound := List.find?_some h
  obtain ⟨n, hn, heq⟩ := List.any_eq_true.mp hfound
  exact ⟨n, hn, (beq_iff_eq.mp heq).symm⟩

/-! ## Spellings both ways -/

theorem Respells.append_left {before : List String} (hbefore : "--" ∉ before)
    (h : Respells words others) : Respells (before ++ words) (before ++ others) := by
  cases h with
  | within front after hfront hspelling =>
    have hdashes : "--" ∉ before ++ front := by simp [hbefore, hfront]
    simpa using Respells.within (before ++ front) after hdashes hspelling

theorem Respells.append_right (h : Respells words others) (after : List String) :
    Respells (words ++ after) (others ++ after) := by
  cases h with
  | within before back hbefore hspelling =>
    simpa using Respells.within before (back ++ after) hbefore hspelling

theorem Respelling.respelled (h : Respelling words others) : Respelled words others := by
  simpa using Relation.ReflTransGen.single (Respells.within [] [] List.not_mem_nil h)

theorem Respelled.append_left {before : List String} (hbefore : "--" ∉ before)
    (h : Respelled words others) : Respelled (before ++ words) (before ++ others) :=
  h.lift (before ++ ·) fun _ _ hstep => hstep.append_left hbefore

theorem Respelled.append_right (h : Respelled words others) (after : List String) :
    Respelled (words ++ after) (others ++ after) :=
  h.lift (· ++ after) fun _ _ hstep => hstep.append_right after

/-- `Interchangeable words others`: each of the two comes from the other by other spellings. -/
def Interchangeable (words others : List String) : Prop :=
  Respelled words others ∧ Respelled others words

namespace Interchangeable

theorem refl (words : List String) : Interchangeable words words := ⟨.refl, .refl⟩

theorem symm (h : Interchangeable words others) : Interchangeable others words := ⟨h.2, h.1⟩

theorem trans {more : List String} (h : Interchangeable words others)
    (hmore : Interchangeable others more) : Interchangeable words more :=
  ⟨h.1.trans hmore.1, hmore.2.trans h.2⟩

theorem of_respelling (h : Respelling words others) (hback : Respelling others words) :
    Interchangeable words others := ⟨h.respelled, hback.respelled⟩

theorem append_left {before : List String} (hbefore : "--" ∉ before)
    (h : Interchangeable words others) : Interchangeable (before ++ words) (before ++ others) :=
  ⟨h.1.append_left hbefore, h.2.append_left hbefore⟩

theorem append_right (h : Interchangeable words others) (after : List String) :
    Interchangeable (words ++ after) (others ++ after) :=
  ⟨h.1.append_right after, h.2.append_right after⟩

theorem append {more rest : List String} (hothers : "--" ∉ others)
    (h : Interchangeable words others) (hmore : Interchangeable more rest) :
    Interchangeable (words ++ more) (others ++ rest) :=
  (h.append_right more).trans (hmore.append_left hothers)

end Interchangeable

/-! ## Pieces -/

theorem interchangeable_letters {letters : List Char} {flags : List Flag}
    (h : LettersOf letters flags) :
    Interchangeable (letters.map fun c => lettersWord [c])
      ((flags.map Occurrence.flag).map Occurrence.word) := by
  induction h with
  | nil => exact .refl []
  | @cons c f letters flags hc _ ih =>
    have hletter : lettersWord [c] ∈ f.spellings :=
      List.mem_append_right _ (List.mem_map_of_mem hc)
    have hfirst : Interchangeable [lettersWord [c]] [(Occurrence.flag f).word] :=
      .of_respelling (.flag hletter f.mem_spellings) (.flag f.mem_spellings hletter)
    refine hfirst.append ?_ ih
    exact fun h => f.dashes_not_mem_spellings (List.mem_singleton.mp h ▸ f.mem_spellings)

/-- The words of a piece can be used for the words that spell its occurrences one by one, and the
other way round. -/
theorem Means.interchangeable {occurrences : List Occurrence} (h : Means words occurrences) :
    Interchangeable words (occurrences.map Occurrence.word) := by
  cases h with
  | file => exact .refl _
  | @flag word name f hword hname =>
    obtain ⟨n, hn, rfl⟩ := Opt.exists_name hname
    obtain rfl : word = "--" ++ n := String.toList_inj.mp (by simp [Word.eq_of_long hword])
    have hmem : "--" ++ n ∈ f.spellings := List.mem_append_left _ (List.mem_map_of_mem hn)
    exact .of_respelling (.flag hmem f.mem_spellings) (.flag f.mem_spellings hmem)
  | @letters word letters flags hword hletters =>
    obtain ⟨htext, hne⟩ := Word.eq_of_letters hword
    have hflags := mapM_ofLetter?_eq_some_iff.mp hletters
    obtain rfl : word = lettersWord letters :=
      String.toList_inj.mp (by simp [lettersWord, htext])
    exact (Interchangeable.of_respelling (.split hne hflags) (.group hne hflags)).trans
      (interchangeable_letters hflags)
  | @joined word name value p hword hname =>
    obtain ⟨n, hn, rfl⟩ := Opt.exists_name hname
    obtain rfl : word = "--" ++ n ++ "=" ++ String.ofList value :=
      String.toList_inj.mp (by simp [Word.eq_of_long hword])
    have hp := Opt.name_mem_names (.parameter p)
    exact .of_respelling (.joinedName hn hp _) (.joinedName hp hn _)
  | @apart word value name p hword hname hvalue =>
    obtain ⟨n, hn, rfl⟩ := Opt.exists_name hname
    obtain rfl : word = "--" ++ n := String.toList_inj.mp (by simp [Word.eq_of_long hword])
    have hp := Opt.name_mem_names (.parameter p)
    exact (Interchangeable.of_respelling (.join hn value) (.part hn hvalue)).trans
      (.of_respelling (.joinedName hn hp value) (.joinedName hp hn value))

theorem Means.plain_of_mem {occurrences : List Occurrence} {name : String}
    (h : Means words occurrences) (hmem : .file name ∈ occurrences) :
    Word.of name.toList = .plain := by
  cases h with
  | file hname =>
    obtain rfl := Occurrence.file.inj (List.mem_singleton.mp hmem)
    exact hname
  | flag => simp at hmem
  | letters => simp at hmem
  | joined => simp at hmem
  | apart => simp at hmem

theorem Means.dashes_not_mem {occurrences : List Occurrence} (h : Means words occurrences) :
    "--" ∉ occurrences.map Occurrence.word := by
  rw [List.mem_map]
  rintro ⟨o, ho, hword⟩
  cases o with
  | file name =>
    obtain rfl : name = "--" := hword
    exact absurd (h.plain_of_mem ho) (by decide)
  | flag f => exact f.dashes_not_mem_spellings (hword ▸ f.mem_spellings)
  | parameter p value =>
    have htext := congrArg String.toList hword
    simp [Occurrence.word] at htext

theorem interchangeable_wordsOf (pieces : List Piece) :
    Interchangeable (wordsOf pieces) ((occurrencesOf pieces).map Occurrence.word) := by
  induction pieces with
  | nil => exact .refl []
  | cons piece pieces ih =>
    rw [wordsOf_cons, occurrencesOf_cons, List.map_append]
    exact piece.means.interchangeable.append piece.means.dashes_not_mem ih

/-- Pieces say the same exactly when the rules lead from the words of the ones to the words of the
others. -/
theorem respelled_iff (pieces others : List Piece) (files : Option (List String)) :
    Respelled (wordsOf pieces ++ ending files) (wordsOf others ++ ending files) ↔
      occurrencesOf others = occurrencesOf pieces := by
  constructor
  · intro h
    have hscan := h.scan_eq (by rw [scan_words])
    rw [scan_words, scan_words] at hscan
    exact List.append_cancel_right (congrArg Scan.occurrences hscan)
  · intro h
    have hboth := (interchangeable_wordsOf pieces).trans (h ▸ (interchangeable_wordsOf others).symm)
    exact (hboth.append_right (ending files)).1

/-! ## Runs -/

theorem run_eq_of_ofWords_eq (h : Arguments.ofWords others = Arguments.ofWords words)
    (folder : Folder) : run folder others = run folder words := by
  unfold run plan
  rw [h]

namespace Arguments

/-- Whatever command line is accepted, it is accepted with the same arguments and runs alike when
options before the word `--` are spelled differently, any of them and any number of times. The
command line is a row of pieces, and other pieces are reached exactly if they say the same. -/
theorem run_respelled (words : List String) (a : Arguments) (h : ofWords words = .ok a) :
    (∀ others, Respelled words others →
        ofWords others = .ok a ∧ ∀ folder : Folder, run folder others = run folder words) ∧
      ∃ pieces files, words = wordsOf pieces ++ ending files ∧
        ∀ others : List Piece, Respelled words (wordsOf others ++ ending files) ↔
          occurrencesOf others = occurrencesOf pieces := by
  constructor
  · intro others hothers
    have hscan := hothers.scan_eq (ofWords_eq_ok_iff.mp h).1
    have hread := ofWords_of_scan_eq hscan
    exact ⟨hread.trans h, run_eq_of_ofWords_eq hread⟩
  · obtain ⟨pieces, files, rfl, _⟩ := exists_pieces_of_ofWords h
    exact ⟨pieces, files, rfl, fun others => respelled_iff pieces others files⟩

/-- A command line with two flags in one word, and a file that looks like a third. -/
def exGrouped : List String :=
  ["-ar", "--offset", "4", "--line=9", "--length", "2", "--", "-n"]

/-- The same with other spellings. -/
def exLong : List String :=
  ["--aosp", "-i", "--offset=4", "--lines=9", "--length", "2", "--", "-n"]

theorem respelled_exLong : Respelled exGrouped exLong := by
  have hletters : LettersOf ['a', 'r'] [.aosp, .replace] :=
    .cons (by decide) (.cons (by decide) .nil)
  have hsplit : Respelling ["-ar"] ["-a", "-r"] := .split (by decide) hletters
  have haosp : Respelling ["-a"] ["--aosp"] := .flag (f := .aosp) (by decide) (by decide)
  have hreplace : Respelling ["-r"] ["-i"] := .flag (f := .replace) (by decide) (by decide)
  have hoffset : "offset" ∈ (Opt.parameter .offset).names := by decide
  have hjoin : Respelling ["--offset", "4"] ["--offset=4"] := .join hoffset "4"
  have hline : "line" ∈ (Opt.parameter .lines).names := by decide
  have hlines : Respelling ["--line=9"] ["--lines=9"] :=
    .joinedName hline (Opt.name_mem_names (.parameter .lines)) "9"
  calc Respelled exGrouped
        ["-a", "-r", "--offset", "4", "--line=9", "--length", "2", "--", "-n"] :=
        .single (.within [] _ (by decide) hsplit)
    Respelled _ ["--aosp", "-r", "--offset", "4", "--line=9", "--length", "2", "--", "-n"] :=
        .single (.within [] _ (by decide) haosp)
    Respelled _ ["--aosp", "-i", "--offset", "4", "--line=9", "--length", "2", "--", "-n"] :=
        .single (.within ["--aosp"] _ (by decide) hreplace)
    Respelled _ ["--aosp", "-i", "--offset=4", "--line=9", "--length", "2", "--", "-n"] :=
        .single (.within ["--aosp", "-i"] _ (by decide) hjoin)
    Respelled _ exLong := .single (.within ["--aosp", "-i", "--offset=4"] _ (by decide) hlines)

theorem run_exLong :
    (∃ a, ofWords exGrouped = .ok a) ∧ Respelled exGrouped exLong ∧
      (run Folder.empty exGrouped).exitCode = 0 ∧
      run Folder.empty exLong = run Folder.empty exGrouped := by
  have hread : ∃ a, ofWords exGrouped = .ok a := ⟨_, rfl⟩
  refine ⟨hread, respelled_exLong, by decide +kernel, ?_⟩
  obtain ⟨a, ha⟩ := hread
  exact ((run_respelled exGrouped a ha).1 exLong respelled_exLong).2 Folder.empty

end Arguments

end FormatRequest.CommandLine
