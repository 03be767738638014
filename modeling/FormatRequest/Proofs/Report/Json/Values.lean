import FormatRequest.Proofs.Decimal
import FormatRequest.Proofs.Report.Json.Grammar
import FormatRequest.Report

/-!
# JSON values are read as they are written

The writer of the report puts fixed space between tokens, escapes what has to be escaped and writes
words in digits. The reader of the grammar gives back every string, word and truth value, and arrays
of what it gives back. It has to know what comes next only for numbers, which end where no character
follows with which a number goes on.

Results:
1. `readCharacters_escape`, `readNumber_digits`: the characters of a string and the digits of a
   number.
2. `readList_intercalate`: lists of items that are read one by one.
3. `denotes_boolText`, `denotes_digits`, `denotes_quoted`, `denotes_array`: values.
-/

namespace FormatRequest.Json

variable {fuel : Nat} {c : Char} {text rest : List Char}

/-! ## Space -/

theorem skipSpace_newLine (depth : Nat) (text : List Char) :
    skipSpace (newLine depth ++ text) = skipSpace text := by
  refine List.dropWhile_append_of_pos fun c hc => ?_
  rcases List.mem_cons.mp hc with rfl | hc
  · rfl
  · rw [List.eq_of_mem_replicate hc]
    rfl

theorem skipSpace_cons (h : isSpace c = false) : skipSpace (c :: text) = c :: text := by
  unfold skipSpace
  rw [List.dropWhile_cons, h]
  rfl

/-! ## Strings -/

theorem hexValue?_digitChar : ∀ d < 16, hexValue? (Nat.digitChar d) = some d := by
  decide

theorem readUnit_hexLower {n : Nat} (h : n < 0x10000) (rest : List Char) :
    readUnit (Text.hexLower 4 n ++ rest) = some (n, rest) := by
  have hdigit (d : Nat) : hexValue? (Nat.digitChar (d % 16)) = some (d % 16) :=
    hexValue?_digitChar _ (Nat.mod_lt d (by decide))
  have hvalue : ((n / 16 / 16 / 16 % 16 * 16 + n / 16 / 16 % 16) * 16 + n / 16 % 16) * 16 + n % 16 =
      n := by omega
  simp only [Text.hexLower, List.nil_append, List.cons_append, readUnit, hdigit,
    Option.bind_eq_bind, Option.bind_some, hvalue]
  rfl

theorem readCodePoint_hexLower (h : c.toNat < 0x20) (rest : List Char) :
    readCodePoint (Text.hexLower 4 c.toNat ++ rest) = some (c, rest) := by
  unfold readCodePoint
  rw [readUnit_hexLower (by omega)]
  simp only [Option.bind_eq_bind, Option.bind_some]
  rw [if_neg (by omega), if_neg (by omega), Char.ofNat_toNat]
  rfl

theorem readCharacter_plain (hquote : c ≠ '"') (hbackslash : c ≠ '\\')
    (hcontrol : ¬ c.toNat < 0x20) : readCharacter (c :: rest) = some (c, rest) := by
  unfold readCharacter
  split
  · next h => cases h
  · next h => exact absurd (List.cons.inj h).1 hquote
  · next h => exact absurd (List.cons.inj h).1 hbackslash
  · next h => exact absurd (List.cons.inj h).1 hbackslash
  · next h => exact absurd (List.cons.inj h).1 hbackslash
  · next h =>
    obtain ⟨rfl, rfl⟩ := List.cons.inj h
    exact if_neg hcontrol

theorem readCharacter_escape (c : Char) (rest : List Char) :
    readCharacter (escape c ++ rest) = some (c, rest) := by
  -- one case for each escape of the writer, in its order
  unfold escape
  split
  · next h => rw [h]; rfl
  split
  · next h => rw [h]; rfl
  split
  · next h => rw [h]; rfl
  split
  · next h => rw [h]; rfl
  split
  · next h => rw [h]; rfl
  split
  · next h => rw [Char.toNat_inj.mp (h.trans (by rfl : _ = '\x08'.toNat))]; rfl
  split
  · next h => rw [Char.toNat_inj.mp (h.trans (by rfl : _ = '\x0C'.toNat))]; rfl
  split
  · next h => exact readCodePoint_hexLower h rest
  · next hquote hbackslash _ _ _ _ _ hcontrol =>
    exact readCharacter_plain hquote hbackslash hcontrol

theorem readCharacters_of_readCharacter {c : Char} (h : readCharacter text = some (c, rest)) :
    readCharacters (fuel + 1) text = do
      let (cs, rest) ← readCharacters fuel rest
      return (c :: cs, rest) := by
  have hopen : ∀ rest', text ≠ '"' :: rest' := by
    rintro rest' rfl
    cases h
  rw [readCharacters, h]
  · rfl
  · exact hopen

/-- A string is read as it was written, character by character. -/
theorem readCharacters_escape {cs : List Char} (h : cs.length < fuel) (rest : List Char) :
    readCharacters fuel (cs.flatMap escape ++ '"' :: rest) = some (cs, rest) := by
  induction cs generalizing fuel with
  | nil =>
    cases fuel with
    | zero => cases h
    | succ fuel => rfl
  | cons c cs ih =>
    cases fuel with
    | zero => cases h
    | succ fuel =>
      rw [List.flatMap_cons, List.append_assoc,
        readCharacters_of_readCharacter (readCharacter_escape c _), ih (Nat.lt_of_succ_lt_succ h)]
      rfl

/-! ## Numbers -/

/-- Characters with which a number goes on. -/
def continuesNumber (c : Char) : Bool := c.isDigit || c == '.' || c == 'e' || c == 'E'

theorem avoids_isDigit (h : Text.Avoids continuesNumber rest) : Text.Avoids Char.isDigit rest := by
  intro c hc
  have hall := h c hc
  simp only [continuesNumber, Bool.or_eq_false_iff] at hall
  exact hall.1.1.1

theorem readDigits_digits {n : Nat} (h : Text.Avoids Char.isDigit rest) :
    readDigits (Decimal.digits n ++ rest) = some (Decimal.digits n, rest) := by
  have hdrop : (Decimal.digits n ++ rest).dropWhile Char.isDigit = rest := by
    have hboth := (Decimal.digits n ++ rest).takeWhile_append_dropWhile (p := Char.isDigit)
    rw [Decimal.takeWhile_digits_append h] at hboth
    exact List.append_cancel_left hboth
  unfold readDigits
  rw [Decimal.takeWhile_digits_append h, hdrop]
  obtain ⟨c, cs, hdigits, _⟩ := Decimal.digits_eq_cons n
  rw [hdigits]

theorem readWhole_digits {n : Nat} (h : Text.Avoids Char.isDigit rest) :
    readWhole (Decimal.digits n ++ rest) = some (Decimal.digits n, rest) := by
  have hlead : ¬ ((Decimal.digits n).head? = some '0' ∧ Decimal.digits n ≠ ['0']) := by
    rintro ⟨hzero, hmore⟩
    have hn : n = 0 := Decidable.of_not_not fun hne => Decimal.head?_digits_ne_zero hne hzero
    exact hmore (hn ▸ rfl)
  unfold readWhole
  rw [readDigits_digits h]
  exact if_neg hlead

theorem readFraction_of_avoids (h : Text.Avoids continuesNumber rest) :
    readFraction rest = some ([], rest) := by
  unfold readFraction
  split
  · exact absurd (h '.' rfl) (by decide)
  · rfl

theorem readExponent_of_avoids (h : Text.Avoids continuesNumber rest) :
    readExponent rest = some (0, rest) := by
  unfold readExponent
  split
  · exact absurd (h 'e' rfl) (by decide)
  · exact absurd (h 'E' rfl) (by decide)
  · rfl

/-- Digits are a number, before anything with which a number does not go on. -/
theorem readNumber_digits {n : Nat} (h : Text.Avoids continuesNumber rest) :
    readNumber (Decimal.digits n ++ rest) = some (⟨n, 0⟩, rest) := by
  obtain ⟨c, cs, hdigits, hc⟩ := Decimal.digits_eq_cons n
  have hunsigned : readNumber (Decimal.digits n ++ rest) =
      readUnsigned (Decimal.digits n ++ rest) := by
    unfold readNumber
    split
    · next hminus =>
      rw [hdigits] at hminus
      rw [(List.cons.inj hminus).1] at hc
      exact absurd hc (by decide)
    · rfl
  have hvalue : Nat.ofDigitChars 10 (Decimal.digits n) 0 = n := Nat.ofDigitChars_ten_toDigits
  rw [hunsigned]
  unfold readUnsigned
  rw [readWhole_digits (avoids_isDigit h)]
  simp only [Option.bind_eq_bind, Option.bind_some, readFraction_of_avoids h,
    readExponent_of_avoids h, List.append_nil, hvalue]
  rfl

/-! ## Lengths -/

theorem length_le_flatMap {α : Type} {form : α → List Char} {as : List α}
    (h : ∀ a ∈ as, form a ≠ []) : as.length ≤ (as.flatMap form).length := by
  induction as with
  | nil => exact Nat.zero_le _
  | cons a as ih =>
    obtain ⟨ha, has⟩ := List.forall_mem_cons.mp h
    have hpos := List.length_pos_iff.mpr ha
    have hrest := ih has
    rw [List.flatMap_cons, List.length_append, List.length_cons]
    omega

theorem length_le_length_intercalate {parts : List (List Char)} (h : ∀ part ∈ parts, part ≠ []) :
    parts.length ≤ ([','].intercalate parts).length := by
  cases parts with
  | nil => exact Nat.zero_le _
  | cons first parts =>
    have hfirst := List.length_pos_iff.mpr (List.forall_mem_cons.mp h).1
    have hrest : parts.length ≤ (parts.flatMap ([','] ++ ·)).length :=
      length_le_flatMap fun part _ => List.cons_ne_nil _ _
    rw [Text.Delimited.intercalate_cons, List.length_append, List.length_cons]
    omega

theorem length_le_intercalate_of_mem {part : List Char} {parts : List (List Char)}
    (h : part ∈ parts) : part.length ≤ ([','].intercalate parts).length := by
  cases parts with
  | nil => cases h
  | cons first parts =>
    rw [Text.Delimited.intercalate_cons, List.length_append]
    rcases List.mem_cons.mp h with rfl | h
    · exact Nat.le_add_right _ _
    · have hmem : [','] ++ part ∈ parts.map ([','] ++ ·) := List.mem_map_of_mem h
      have hsublist := (List.sublist_flatten_of_mem hmem).length_le
      rw [List.length_append] at hsublist
      show _ ≤ _ + (parts.map ([','] ++ ·)).flatten.length
      omega

/-! ## Values of one token -/

/-- `Reads read form a`: the reader takes the form for `a`, before anything with which a number does
not go on. -/
def Reads {α : Type} (read : List Char → Option (α × List Char)) (form : List Char) (a : α) :
    Prop :=
  ∀ ⦃rest⦄, Text.Avoids continuesNumber rest → read (form ++ rest) = some (a, rest)

/-- `Denotes form v`: the form is read as `v`, and fuel for each of its characters is enough. -/
def Denotes (form : List Char) (v : Value) : Prop :=
  ∀ ⦃fuel⦄, form.length ≤ fuel → Reads (readValue fuel) form v

theorem avoids_newLine (depth : Nat) (text : List Char) :
    Text.Avoids continuesNumber (newLine depth ++ text) :=
  Text.avoids_cons.mpr (by decide)

theorem readValue_of_skipSpace_eq {other : List Char} (h : skipSpace text = skipSpace other) :
    readValue fuel text = readValue fuel other := by
  cases fuel with
  | zero => rfl
  | succ fuel => rw [readValue, h, readValue]

theorem denotes_boolText (on : Bool) : Denotes (boolText on) (.bool on) := by
  intro fuel hfuel rest _
  cases fuel with
  | zero => cases on <;> cases hfuel
  | succ fuel => cases on <;> rfl

theorem isSpace_of_isDigit (h : c.isDigit = true) : isSpace c = false := by
  refine Bool.eq_false_iff.mpr fun hspace => ?_
  simp only [isSpace, Bool.or_eq_true, beq_iff_eq] at hspace
  rcases hspace with ((rfl | rfl) | rfl) | rfl <;> exact absurd h (by decide)

theorem readValue_of_isDigit (h : c.isDigit = true) :
    readValue (fuel + 1) (c :: text) =
      (readNumber (c :: text)).map fun (n, rest) => (.number n, rest) := by
  unfold readValue
  rw [skipSpace_cons (isSpace_of_isDigit h)]
  split
  case h_7 => rfl
  -- any other value begins with a character that is no digit
  all_goals
    next hother =>
    obtain ⟨rfl, _⟩ := List.cons.inj hother
    exact absurd h (by decide)

theorem denotes_digits (n : Nat) : Denotes (Decimal.digits n) (.number ⟨n, 0⟩) := by
  intro fuel hfuel rest h
  obtain ⟨c, cs, hdigits, hc⟩ := Decimal.digits_eq_cons n
  have hnumber := readNumber_digits (n := n) h
  rw [hdigits] at hfuel
  rw [hdigits, List.cons_append] at hnumber ⊢
  obtain ⟨fuel, rfl⟩ := Nat.exists_eq_add_one_of_ne_zero (Nat.ne_zero_of_lt hfuel)
  rw [readValue_of_isDigit hc, hnumber]
  rfl

theorem quoted_append (s : String) (rest : List Char) :
    quoted s ++ rest = '"' :: (s.toList.flatMap escape ++ '"' :: rest) := by
  simp [quoted]

theorem length_add_two_le_quoted (s : String) : s.toList.length + 2 ≤ (quoted s).length := by
  have hescape : s.toList.length ≤ (s.toList.flatMap escape).length := by
    refine length_le_flatMap fun c _ hnil => ?_
    have hread := readCharacter_escape c []
    rw [hnil] at hread
    cases hread
  simp only [quoted, List.length_append, List.length_singleton]
  omega

theorem denotes_quoted (s : String) : Denotes (quoted s) (.string s) := by
  intro fuel hfuel rest _
  have hlength := length_add_two_le_quoted s
  obtain ⟨fuel, rfl⟩ := Nat.exists_eq_add_one_of_ne_zero (n := fuel) (by omega)
  have hcharacters := readCharacters_escape (show s.toList.length < fuel by omega) rest
  rw [quoted_append, readValue, skipSpace_cons (by decide)]
  simp only [hcharacters, Option.map_some, String.ofList_toList]

/-! ## Lists -/

section Lists

variable {α β : Type} {read : List Char → Option (α × List Char)} {close : Char}

theorem readItems_last {item : α} {after : List Char} (h : read text = some (item, after))
    (hspace : skipSpace after = close :: rest) :
    readItems read close (fuel + 1) text = some ([item], rest) := by
  unfold readItems
  simp only [h, Option.bind_eq_bind, Option.bind_some, hspace, if_pos]
  rfl

theorem readItems_more {item : α} {after : List Char} (h : read text = some (item, after))
    (hspace : skipSpace after = ',' :: rest) (hcomma : ',' ≠ close) :
    readItems read close (fuel + 1) text =
      (readItems read close fuel rest).map fun (items, rest) => (item :: items, rest) := by
  rw [readItems]
  simp only [h, Option.bind_eq_bind, Option.bind_some, hspace, if_neg hcomma, if_pos]
  cases readItems read close fuel rest <;> rfl

/-- Items are read up to the end of their list, each from its own form. -/
theorem readItems_intercalate {form : β → List Char} {item : β → α} {bs : List β}
    (h : ∀ b ∈ bs, Reads read (form b) (item b)) (hne : bs ≠ []) (hfuel : bs.length ≤ fuel)
    (hclose : isSpace close = false) (hcomma : ',' ≠ close) (depth : Nat) (rest : List Char) :
    readItems read close fuel
        ([','].intercalate (bs.map form) ++ (newLine depth ++ close :: rest)) =
      some (bs.map item, rest) := by
  -- whether an item is the last shows only in what comes after it: the end of the list or a comma
  induction bs generalizing fuel with
  | nil => exact absurd rfl hne
  | cons b bs ih =>
    obtain ⟨fuel, rfl⟩ := Nat.exists_eq_add_one_of_ne_zero (Nat.ne_zero_of_lt hfuel)
    obtain ⟨hb, hbs⟩ := List.forall_mem_cons.mp h
    cases bs with
    | nil =>
      have hspace : skipSpace (newLine depth ++ close :: rest) = close :: rest := by
        rw [skipSpace_newLine, skipSpace_cons hclose]
      rw [List.map_singleton, List.intercalate_singleton]
      exact readItems_last (hb (avoids_newLine depth _)) hspace
    | cons next bs =>
      have htext : [','].intercalate ((b :: next :: bs).map form) ++
          (newLine depth ++ close :: rest) = form b ++ ',' ::
            ([','].intercalate ((next :: bs).map form) ++ (newLine depth ++ close :: rest)) := by
        rw [List.map_cons, List.map_cons, List.intercalate_cons_cons, List.append_assoc,
          List.append_assoc]
        rfl
      rw [htext, readItems_more (hb (Text.avoids_cons.mpr (by decide))) (skipSpace_cons (by decide))
        hcomma, ih hbs (List.cons_ne_nil _ _) (Nat.le_of_succ_le_succ hfuel)]
      rfl

theorem readList_nil (h : skipSpace text = close :: rest) :
    readList read close fuel text = some ([], rest) := by
  unfold readList
  rw [h]
  exact if_pos rfl

/-- What does not begin like the end of a list begins with an item. -/
theorem readList_of_readItems {items : List α}
    (hrefuse : ∀ text, (skipSpace text).head? = some close → read text = none)
    (h : readItems read close fuel text = some (items, rest)) :
    readList read close fuel text = some (items, rest) := by
  have hhead : (skipSpace text).head? ≠ some close := by
    intro hclose
    cases fuel with
    | zero => cases h
    | succ fuel =>
      rw [readItems, hrefuse text hclose] at h
      cases h
  exact (if_neg hhead).trans h

/-- A list is read up to its end, whether it has items or not. -/
theorem readList_intercalate {form : β → List Char} {item : β → α} {bs : List β}
    (hrefuse : ∀ text, (skipSpace text).head? = some close → read text = none)
    (h : ∀ b ∈ bs, Reads read (form b) (item b)) (hform : ∀ b ∈ bs, form b ≠ [])
    (hfuel : ([','].intercalate (bs.map form)).length ≤ fuel) (hclose : isSpace close = false)
    (hcomma : ',' ≠ close) (depth : Nat) (rest : List Char) :
    readList read close fuel ([','].intercalate (bs.map form) ++ (newLine depth ++ close :: rest)) =
      some (bs.map item, rest) := by
  by_cases hne : bs = []
  · subst hne
    exact readList_nil ((skipSpace_newLine depth _).trans (skipSpace_cons hclose))
  · have hcount : (bs.map form).length ≤ ([','].intercalate (bs.map form)).length :=
      length_le_length_intercalate (by simpa using hform)
    rw [List.length_map] at hcount
    exact readList_of_readItems hrefuse
      (readItems_intercalate h hne (Nat.le_trans hcount hfuel) hclose hcomma depth rest)

end Lists

/-! ## Arrays -/

theorem readValue_of_close (h : (skipSpace text).head? = some ']') :
    readValue fuel text = none := by
  obtain ⟨rest, hrest⟩ := List.head?_eq_some_iff.mp h
  cases fuel with
  | zero => rfl
  | succ fuel =>
    rw [readValue, hrest]
    rfl

theorem Denotes.newLine {form : List Char} {v : Value} (h : Denotes form v)
    (depth : Nat) : Denotes (newLine depth ++ form) v := by
  intro fuel hfuel rest hrest
  rw [List.length_append] at hfuel
  rw [List.append_assoc, readValue_of_skipSpace_eq (skipSpace_newLine depth _)]
  exact h (Nat.le_of_add_left_le hfuel) hrest

theorem denotes_array {β : Type} {form : β → List Char} {value : β → Value} {bs : List β}
    (h : ∀ b ∈ bs, Denotes (form b) (value b)) (depth : Nat) :
    Denotes (array depth (bs.map form)) (.array (bs.map value)) := by
  intro fuel hfuel rest _
  have hopen (fuel : Nat) (text : List Char) : readValue (fuel + 1) ('[' :: text) =
      (readList (readValue fuel) ']' fuel text).map fun read => (.array read.1, read.2) := rfl
  cases bs with
  | nil =>
    obtain ⟨fuel, rfl⟩ := Nat.exists_eq_add_one_of_ne_zero (Nat.ne_zero_of_lt hfuel)
    show readValue (fuel + 1) ('[' :: ']' :: rest) = _
    rw [hopen, readList_nil (skipSpace_cons (by decide))]
    rfl
  | cons b bs =>
    have htext (rest : List Char) : array depth ((b :: bs).map form) ++ rest = '[' ::
        ([','].intercalate ((b :: bs).map fun b => newLine (depth + 1) ++ form b) ++
          (newLine depth ++ ']' :: rest)) := by
      simp [array, Function.comp_def]
    have hlength := congrArg List.length (htext [])
    rw [List.append_nil, List.length_cons, List.length_append] at hlength
    obtain ⟨fuel, rfl⟩ := Nat.exists_eq_add_one_of_ne_zero (n := fuel) (by omega)
    have hitems : ∀ b' ∈ b :: bs,
        Reads (readValue fuel) (newLine (depth + 1) ++ form b') (value b') := by
      intro b' hb'
      refine (h b' hb').newLine (depth + 1) ?_
      have hle := length_le_intercalate_of_mem
        (List.mem_map_of_mem (f := fun b => newLine (depth + 1) ++ form b) hb')
      omega
    have hbody : ([','].intercalate
        ((b :: bs).map fun b => newLine (depth + 1) ++ form b)).length ≤ fuel := by omega
    have hread := readList_intercalate (fun _ => readValue_of_close) hitems
      (fun _ _ => List.cons_ne_nil _ _) hbody (by decide) (by decide) depth rest
    rw [htext, hopen, hread]
    rfl

end FormatRequest.Json
