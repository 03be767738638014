import FormatRequest.Proofs.Report.Fields
import FormatRequest.Proofs.Text.Escape
import FormatRequest.Proofs.Text.Scheme
import FormatRequest.Report

/-!
# What the TOML report tells

Every form of a string shows where it ends. A basic form escapes all quotes, or all from the third
in a row on, and a literal form is only taken for a string without long rows of quotes. Which form
it is shows in the opening quotes, since neither the inside of a string nor what comes after it
makes the row of opening quotes longer. An array shows in its second character whether it is empty,
on one line or on several.

Results:
1. `read_escape`, `StringForm.quoting_scheme`: the inside of a string.
2. `delimited_quoted`, `delimited_array`: strings and arrays.
3. `tells_value`: the values of fields.
4. `Request.render_toml_injective`: the report of a request.
-/

namespace FormatRequest

namespace Toml

open Text (Avoids Delimited EscapeTable Scheme)

/-! ## Inside a string -/

section Inside

variable {multiline : Bool} {free run : Nat} {c : Char} {s t rest : List Char}

/-- The escapes of the basic forms. -/
def escapes : EscapeTable where
  letters := [('"', '"'), ('\\', '\\'), ('t', '\t'), ('n', '\n'), ('r', '\r'), ('b', '\x08'),
    ('f', '\x0C')]
  widths := [('u', 4), ('U', 8)]

theorem toNat_lt_of_isControl (h : isControl c = true) : c.toNat < Nat.pow 16 4 := by
  simp only [isControl, Bool.or_eq_true, Bool.and_eq_true, decide_eq_true_eq, beq_iff_eq] at h
  show c.toNat < 65536
  omega

theorem read_escape (multiline : Bool) (c : Char) (rest : List Char) :
    escapes.read (escape multiline c ++ rest) = some (c, rest) := by
  -- one case for each escape of the writer, in its order
  unfold escape
  split
  · next h => rw [h]; rfl
  split
  · next h => rw [h]; rfl
  split
  · next h => rw [h]; cases multiline <;> rfl
  split
  · next h => rw [h]; rfl
  split
  · next h => exact EscapeTable.read_letter_of_toNat (d := '\x08') h rfl rfl rest
  split
  · next h => exact EscapeTable.read_letter_of_toNat (d := '\x0C') h rfl rfl rest
  split
  · next h => exact EscapeTable.read_hex rfl (toNat_lt_of_isControl h) rest
  · next hbackslash _ _ _ _ _ _ => exact EscapeTable.read_plain hbackslash rest

theorem escape_cases (multiline : Bool) (c : Char) :
    escape multiline c = [c] ∨ ∃ rest, escape multiline c = '\\' :: rest := by
  have hread := read_escape multiline c []
  rw [List.append_nil] at hread
  exact EscapeTable.eq_of_read hread

/-- The basic forms. -/
def basicScheme (multiline : Bool) (free : Nat) : Scheme Nat where
  form run c :=
    if c = '"' then if run < free then ['"'] else ['\\', '"'] else escape multiline c
  next run c := if c = '"' ∧ run < free then run + 1 else 0
  close _ := List.replicate (free + 1) '"'

/-- The literal forms. -/
def literalScheme (free : Nat) : Scheme Nat where
  form _ c := [c]
  next run c := if c = '\'' then run + 1 else 0
  close _ := List.replicate (free + 1) '\''

theorem write_basicScheme : (basicScheme multiline free).write run s =
    basicBody multiline free run s ++ List.replicate (free + 1) '"' := by
  induction s generalizing run with
  | nil => rfl
  | cons c s ih =>
    rw [Scheme.write, ih, basicBody]
    by_cases hc : c = '"' <;> by_cases hrun : run < free <;>
      simp [basicScheme, hc, hrun]

theorem write_literalScheme :
    (literalScheme free).write run s = s ++ List.replicate (free + 1) '\'' := by
  induction s generalizing run with
  | nil => rfl
  | cons c s ih => exact congrArg (c :: ·) ih

theorem quoting_basicScheme :
    (basicScheme multiline free).Quoting (fun _ _ => True) '"' free where
  tail _ := trivial
  form run := by
    refine .of_reader escapes.read fun c rest => ?_
    show escapes.read ((if c = '"' then _ else _) ++ rest) = _
    split
    · next h =>
      rw [h]
      split <;> rfl
    · exact read_escape multiline c rest
  close_eq _ := rfl
  form_cases := by
    intro run c _ _
    by_cases hc : c = '"' <;> by_cases hrun : run < free
    · exact .inl (by simp [basicScheme, hc, hrun])
    · exact .inr ⟨'\\', ['"'], by simp [basicScheme, hc, hrun], by decide⟩
    all_goals
      have hform : (basicScheme multiline free).form run c = escape multiline c := if_neg hc
      rcases escape_cases multiline c with h | ⟨rest, h⟩
      · exact .inr ⟨c, [], hform.trans h, hc⟩
      · exact .inr ⟨'\\', rest, hform.trans h, by decide⟩

theorem le_longestRunFrom (c : Char) (run : Nat) (s : List Char) :
    run ≤ longestRunFrom c run s := by
  induction s generalizing run with
  | nil => exact Nat.le_refl _
  | cons d s ih =>
    rw [longestRunFrom]
    split
    · exact Nat.le_of_succ_le (ih (run + 1))
    · exact Nat.le_max_left _ _

theorem quoting_literalScheme :
    (literalScheme free).Quoting (fun run s => longestRunFrom '\'' run s ≤ free) '\'' free where
  tail := by
    intro run c s h
    rw [longestRunFrom] at h
    show longestRunFrom '\'' (if c = '\'' then run + 1 else 0) s ≤ free
    split
    · next hc => rwa [if_pos hc] at h
    · next hc =>
      rw [if_neg hc] at h
      exact Nat.le_trans (Nat.le_max_right _ _) h
  form _ := .singleton
  close_eq _ := rfl
  form_cases := by
    intro run c s h
    by_cases hc : c = '\''
    · rw [longestRunFrom, if_pos hc] at h
      exact .inl ⟨congrArg ([·]) hc, if_pos hc, Nat.le_trans (le_longestRunFrom _ _ _) h⟩
    · exact .inr ⟨c, [], rfl, hc⟩

end Inside

/-! ## Strings -/

/-- The characters that quote a string. -/
def isQuote (c : Char) : Bool := c == '"' || c == '\''

namespace StringForm

/-- The quotes of a form. -/
def quote : StringForm → Char
  | basic | multilineBasic => '"'
  | literal | multilineLiteral => '\''

/-- How many quotes in a row may stand inside a string. -/
def free : StringForm → Nat
  | basic | literal => 0
  | multilineBasic | multilineLiteral => 2

/-- How the inside of a string is written. -/
def scheme : StringForm → Scheme Nat
  | basic => basicScheme false 0
  | literal => literalScheme 0
  | multilineBasic => basicScheme true 2
  | multilineLiteral => literalScheme 2

/-- The strings that can be written in a form, after some quotes. -/
def Takes (run : Nat) (s : List Char) : StringForm → Prop
  | basic | multilineBasic => True
  | literal => longestRunFrom '\'' run s ≤ 0
  | multilineLiteral => longestRunFrom '\'' run s ≤ 2

/-- What follows the opening quotes. -/
def lead (s : List Char) : StringForm → List Char
  | basic | literal => []
  | multilineBasic | multilineLiteral => opening s

variable {form form' : StringForm} {run : Nat} {s s' t t' : List Char}

theorem quoting_scheme (form : StringForm) :
    form.scheme.Quoting (fun run s => form.Takes run s) form.quote form.free := by
  cases form
  · exact quoting_basicScheme
  · exact quoting_literalScheme
  · exact quoting_basicScheme
  · exact quoting_literalScheme

theorem fits_of (h : of s = form) :
    form.fits s = true ∨ form = basic ∨ form = multilineBasic := by
  unfold of at h
  cases hfind : [basic, literal, multilineBasic, multilineLiteral].find? (fits s) with
  | none =>
    rw [hfind, Option.getD_none] at h
    split at h
    · exact .inr (.inr h.symm)
    · exact .inr (.inl h.symm)
  | some found =>
    rw [hfind, Option.getD_some] at h
    exact .inl (h ▸ List.find?_some hfind)

theorem takes_of (s : List Char) : (of s).Takes 0 s := by
  cases hform : of s with
  | basic => trivial
  | multilineBasic => trivial
  | literal =>
    have hfits : literal.fits s = true := by simpa using fits_of hform
    simp only [fits, Bool.and_eq_true, beq_iff_eq] at hfits
    exact Nat.le_of_eq hfits.2
  | multilineLiteral =>
    have hfits : multilineLiteral.fits s = true := by simpa using fits_of hform
    simp only [fits, Bool.and_eq_true, decide_eq_true_eq] at hfits
    exact hfits.2

theorem quotedAs_eq (s : List Char) (form : StringForm) :
    quotedAs s form =
      List.replicate (form.free + 1) form.quote ++ (form.lead s ++ form.scheme.write 0 s) := by
  cases form <;>
    simp [quotedAs, quote, free, scheme, lead, write_basicScheme, write_literalScheme,
      List.replicate_succ]

/-! ### The opening quotes -/

theorem avoids_quote (h : Avoids isQuote t) (form : StringForm) : Avoids (· == form.quote) t := by
  refine h.mono fun c hc => ?_
  rw [eq_of_beq hc]
  cases form <;> rfl

theorem quotedAs_ne_triple (h : form.free = 0) (htakes : form.Takes 0 s) (ht : Avoids isQuote t) :
    quotedAs s form ++ t ≠ form.quote :: form.quote :: form.quote :: t' := by
  have hlead : form.lead s = [] := by
    cases form with
    | basic | literal => rfl
    | multilineBasic | multilineLiteral => cases h
  have hquoting := quoting_scheme form
  rw [h] at hquoting
  intro heq
  rw [quotedAs_eq, h, hlead] at heq
  exact hquoting.write_append_ne htakes (avoids_quote ht form) (List.cons.inj heq).2

theorem quotedAs_eq_triple (h : form.free ≠ 0) (s t : List Char) :
    ∃ t', quotedAs s form ++ t = form.quote :: form.quote :: form.quote :: t' := by
  cases form with
  | basic | literal => exact absurd rfl h
  | multilineBasic | multilineLiteral => exact ⟨_, rfl⟩

theorem eq_of_quote_of_free (hquote : form.quote = form'.quote)
    (hfree : form.free = 0 ↔ form'.free = 0) : form = form' := by
  cases form <;> cases form' <;> simp_all [quote, free]

/-- The opening quotes show the form of a string. -/
theorem eq_of_quotedAs_append (hs : form.Takes 0 s) (hs' : form'.Takes 0 s')
    (ht : Avoids isQuote t) (ht' : Avoids isQuote t')
    (h : quotedAs s form ++ t = quotedAs s' form' ++ t') : form = form' := by
  have hquote : form.quote = form'.quote := by
    have hhead := congrArg List.head? h
    simpa [quotedAs_eq, List.replicate_succ] using hhead
  refine eq_of_quote_of_free hquote ⟨fun hfree => ?_, fun hfree => ?_⟩
  · refine Decidable.of_not_not fun hne => ?_
    obtain ⟨rest, hrest⟩ := quotedAs_eq_triple hne s' t'
    exact quotedAs_ne_triple hfree hs ht (h.trans (hquote ▸ hrest))
  · refine Decidable.of_not_not fun hne => ?_
    obtain ⟨rest, hrest⟩ := quotedAs_eq_triple hne s t
    exact quotedAs_ne_triple hfree hs' ht' (h.symm.trans (hquote ▸ hrest))

/-! ### The line break after the opening quotes -/

theorem form_scheme_eq_cons (form : StringForm) (run : Nat) (c : Char) :
    ∃ d rest, form.scheme.form run c = d :: rest ∧ (d = '\n' → c = '\n') := by
  have hbasic (multiline : Bool) (free : Nat) :
      ∃ d rest, (basicScheme multiline free).form run c = d :: rest ∧ (d = '\n' → c = '\n') := by
    show ∃ d rest, (if c = '"' then _ else _) = d :: rest ∧ (d = '\n' → c = '\n')
    split
    · split
      · exact ⟨_, _, rfl, fun h => absurd h (by decide)⟩
      · exact ⟨_, _, rfl, fun h => absurd h (by decide)⟩
    · rcases escape_cases multiline c with h | ⟨rest, h⟩
      · exact ⟨c, [], h, id⟩
      · exact ⟨_, rest, h, fun h => absurd h (by decide)⟩
  cases form with
  | basic => exact hbasic false 0
  | multilineBasic => exact hbasic true 2
  | literal | multilineLiteral => exact ⟨c, [], rfl, id⟩

/-- The inside of a string begins with a line break only if the string has one. -/
theorem newline_mem_of_write_eq (h : form.scheme.write run s ++ t = '\n' :: t') : '\n' ∈ s := by
  cases s with
  | nil =>
    rw [Scheme.write, (quoting_scheme form).close_eq] at h
    cases form <;> exact absurd (List.head_eq_of_cons_eq h) (by decide)
  | cons c s =>
    obtain ⟨d, rest, hform, hd⟩ := form_scheme_eq_cons form run c
    rw [Scheme.write, hform] at h
    rw [hd (List.head_eq_of_cons_eq h)]
    exact List.mem_cons_self

theorem opening_append_inj
    (h : opening s ++ (form.scheme.write 0 s ++ t) = opening s' ++ (form.scheme.write 0 s' ++ t')) :
    form.scheme.write 0 s ++ t = form.scheme.write 0 s' ++ t' := by
  unfold opening at h
  split at h
  · split at h
    · exact (List.cons.inj h).2
    · next hnone => exact absurd (List.contains_iff_mem.mpr (newline_mem_of_write_eq h.symm)) hnone
  · next hnone =>
    split at h
    · exact absurd (List.contains_iff_mem.mpr (newline_mem_of_write_eq h)) hnone
    · exact h

theorem lead_append_inj
    (h : form.lead s ++ (form.scheme.write 0 s ++ t) =
      form.lead s' ++ (form.scheme.write 0 s' ++ t')) :
    form.scheme.write 0 s ++ t = form.scheme.write 0 s' ++ t' := by
  cases form with
  | basic | literal => exact h
  | multilineBasic | multilineLiteral => exact opening_append_inj h

end StringForm

theorem delimited_quoted : Delimited quoted isQuote := by
  intro a b s t hs ht h
  have ha := StringForm.takes_of a.toList
  have hb := StringForm.takes_of b.toList
  have hform := StringForm.eq_of_quotedAs_append ha hb hs ht h
  unfold quoted at h
  rw [← hform] at h hb
  simp only [StringForm.quotedAs_eq, List.append_assoc, List.append_cancel_left_eq] at h
  obtain ⟨hab, hst⟩ := (StringForm.quoting_scheme _).readable.append_inj ha hb
    (StringForm.avoids_quote hs _) (StringForm.avoids_quote ht _) (StringForm.lead_append_inj h)
  exact ⟨String.toList_inj.mp hab, hst⟩

/-! ## Arrays -/

section Arrays

variable {α : Type} {f : α → List Char} {p q : Char → Bool}

/-- A row of an array of several lines, with its line break after it. -/
def row (f : α → List Char) (a : α) : List Char := ' ' :: [' ', ' ', ' '] ++ (f a ++ [',', '\n'])

theorem flatMap_row (f : α → List Char) (as : List α) (t : List Char) :
    (as.map f).flatMap (fun item => "\n    ".toList ++ item ++ [',']) ++ '\n' :: t =
      '\n' :: (as.flatMap (row f) ++ t) := by
  have hindent : "\n    ".toList = ['\n', ' ', ' ', ' ', ' '] := by decide
  induction as with
  | nil => rfl
  | cons a as ih =>
    rw [List.map_cons, List.flatMap_cons, List.append_assoc, ih, hindent]
    simp [row]

theorem array_map_of_two_le {as : List α} (h : 2 ≤ as.length) :
    array (as.map f) = '[' :: '\n' :: (as.flatMap (row f) ++ [']']) := by
  match as, h with
  | a :: b :: as, _ =>
    rw [← flatMap_row]
    rfl

/-- The second character of an array shows how it is laid out. -/
theorem array_map_append_eq_cons (hfirst : ∀ a, ∃ c rest, f a = c :: rest ∧ c ≠ ']' ∧ c ≠ '\n')
    (as : List α) (s : List Char) :
    ∃ c rest, array (as.map f) ++ s = '[' :: c :: rest ∧ (c = ']' ↔ as = []) ∧
      (c = '\n' ↔ 2 ≤ as.length) := by
  match as with
  | [] => exact ⟨']', s, rfl, by simp, by simp⟩
  | [a] =>
    obtain ⟨c, rest, hform, hclose, hbreak⟩ := hfirst a
    exact ⟨c, rest ++ ']' :: s, by simp [array, hform], by simpa using hclose, by simpa using hbreak⟩
  | a :: b :: as => exact ⟨'\n', _, rfl, by simp, by simp⟩

theorem delimited_rows (h : Delimited f p) (hcomma : p ',' = false) :
    Delimited (fun as : List α => ['[', '\n'] ++ (as.flatMap (row f) ++ [']'])) q := by
  have hrow : Delimited (fun a => f a ++ [',', '\n']) fun _ => false := h.append hcomma ['\n']
  have hrows : Delimited (List.flatMap (row f)) (· == ' ') := hrow.flatMap [' ', ' ', ' '] rfl
  exact (hrows.append (c := ']') (by decide) []).prepend ['[', '\n']

theorem delimited_array (h : Delimited f p) (hcomma : p ',' = false) (hclose : p ']' = false)
    (hfirst : ∀ a, ∃ c rest, f a = c :: rest ∧ c ≠ ']' ∧ c ≠ '\n') :
    Delimited (fun as : List α => array (as.map f)) q := by
  intro as bs s t hs ht heq
  simp only at heq
  obtain ⟨c, rest, has, hnil, hmany⟩ := array_map_append_eq_cons hfirst as s
  obtain ⟨d, rest', hbs, hnil', hmany'⟩ := array_map_append_eq_cons hfirst bs t
  rw [heq, hbs, List.cons_inj_right] at has
  obtain rfl := List.head_eq_of_cons_eq has
  have hempty := hnil.symm.trans hnil'
  have hlong := hmany.symm.trans hmany'
  match as, bs with
  | [], [] => exact ⟨rfl, List.append_cancel_left heq⟩
  | [a], [b] =>
    have hone : Delimited (fun a => array [f a]) q := (h.append hclose []).prepend ['[']
    obtain ⟨rfl, hst⟩ := hone hs ht heq
    exact ⟨rfl, hst⟩
  | a :: a' :: as, b :: b' :: bs =>
    rw [array_map_of_two_le (Nat.le_add_left _ _), array_map_of_two_le (Nat.le_add_left _ _)] at heq
    exact delimited_rows h hcomma hs ht heq
  | [], b :: bs | a :: as, [] => simp at hempty
  | [a], b :: b' :: bs | a :: a' :: as, [b] => simp at hlong

end Arrays

/-! ## Fields -/

theorem exists_digit_cons {n : UInt64} :
    ∃ c rest, Decimal.ofWord n = c :: rest ∧ c ≠ ']' ∧ c ≠ '\n' := by
  obtain ⟨c, rest, hform, hc⟩ := Decimal.exists_digit_cons (n := n)
  refine ⟨c, rest, hform, ?_, ?_⟩ <;> rintro rfl <;> exact absurd hc (by decide)

theorem exists_quote_cons (s : String) : ∃ c rest, quoted s = c :: rest ∧ c ≠ ']' ∧ c ≠ '\n' := by
  unfold quoted
  rw [StringForm.quotedAs_eq, List.replicate_succ]
  refine ⟨_, _, rfl, ?_⟩
  cases StringForm.of s.toList <;> decide

theorem delimited_numbers {q : Char → Bool} :
    Delimited (fun ns : List UInt64 => array (ns.map Decimal.ofWord)) q :=
  delimited_array Decimal.delimited_ofWord (by decide) (by decide) fun _ => exists_digit_cons

theorem delimited_pair {q : Char → Bool} :
    Delimited (fun s : Span => array [Decimal.ofWord s.start, Decimal.ofWord s.stop]) q := by
  have hparts : Function.Injective fun s : Span => [s.start, s.stop] := by
    rintro ⟨start, stop⟩ ⟨start', stop'⟩ h
    simpa using h
  exact delimited_numbers.comap hparts

/-- A field ends its line. -/
theorem tells_value (p : Char → Bool) : FieldValue.Tells (fun v => value v ++ ['\n']) p := by
  refine .of_forms ?_ ?_ ?_ ?_ ?_ ?_
  · exact (delimited_boolText fun _ => false).append rfl []
  · exact Decimal.delimited_ofWord.append (by decide) []
  · exact delimited_quoted.append (by decide) []
  · have hstrings : Delimited (fun ss : List String => array (ss.map quoted)) fun _ => false :=
      delimited_array delimited_quoted (by decide) (by decide) exists_quote_cons
    exact hstrings.append rfl []
  · exact (delimited_numbers (q := fun _ => false)).append rfl []
  · have hspans : Delimited (fun spans : List Span =>
        array (spans.map fun s => array [Decimal.ofWord s.start, Decimal.ofWord s.stop]))
          fun _ => false :=
      delimited_array (delimited_pair (q := fun _ => false)) rfl rfl fun s =>
        ⟨'[', _, rfl, by decide, by decide⟩
    exact hspans.append rfl []

theorem report_eq_entries (fields : List Field) :
    report fields = Field.entries " = ".toList (fun v => value v ++ ['\n']) fields :=
  List.flatMap_congr fun _ _ => List.append_assoc _ _ _

end Toml

/-- Different requests have different TOML reports: every field shows, whatever the names are, and
whether a name is assumed for standard input shows as well. -/
theorem Request.render_toml_injective : Function.Injective fun r : Request => r.render .toml := by
  intro r r' h
  have hreport : Toml.report r.fields = Toml.report r'.fields := String.ofList_injective h
  rw [Toml.report_eq_entries, Toml.report_eq_entries] at hreport
  exact entries_fields_injective (Toml.tells_value fun _ => false) (by decide) (fun _ _ => rfl) hreport

end FormatRequest
