import FormatRequest.Proofs.Report.Fields
import FormatRequest.Proofs.Text.Escape
import FormatRequest.Proofs.Text.Scheme
import FormatRequest.Report

/-!
# What the YAML report tells

The first character of a string shows its style, since a plain string does not begin with a quote or
a bar. Plain strings end with their line and quoted strings with their quote. Literal strings have
no mark at the end: their lines are indented and what follows them is not, and the hint in their
first line says whether the last break belongs to the string. So no string can look like an item or
a key that comes after it.

Results:
1. `read_escape`, `readable_singleScheme`, `readable_doubleScheme`, `readable_literalScheme`: the
   inside of a string.
2. `delimited_scalar`, `delimited_items`: strings and lists.
3. `tells_value`: the values of fields.
4. `Request.render_yaml_injective`: the report of a request.
-/

namespace FormatRequest

namespace Yaml

open Text (Avoids Delimited EscapeTable Scheme)

variable {c : Char} {fresh : Bool} {s t rest rest' : List Char} {p : Char → Bool}

/-! ## Double quotes -/

/-- The escapes between double quotes. -/
def escapes : EscapeTable where
  letters := [('"', '"'), ('\\', '\\'), ('n', '\n'), ('r', '\r'), ('t', '\t'), ('N', '\u0085'),
    ('L', '\u2028'), ('P', '\u2029'), ('0', '\x00'), ('a', '\x07'), ('b', '\x08'), ('v', '\x0B'),
    ('f', '\x0C'), ('e', '\x1B')]
  widths := [('x', 2), ('u', 4), ('U', 8)]

theorem read_specialEscape (c : Char) (rest : List Char) :
    escapes.read (specialEscape c ++ rest) = some (c, rest) := by
  -- one case for each escape of the writer, in its order
  unfold specialEscape
  split
  · next h => exact EscapeTable.read_letter_of_toNat (d := '\x00') h rfl rfl rest
  split
  · next h => exact EscapeTable.read_letter_of_toNat (d := '\x07') h rfl rfl rest
  split
  · next h => exact EscapeTable.read_letter_of_toNat (d := '\x08') h rfl rfl rest
  split
  · next h => exact EscapeTable.read_letter_of_toNat (d := '\x0B') h rfl rfl rest
  split
  · next h => exact EscapeTable.read_letter_of_toNat (d := '\x0C') h rfl rfl rest
  split
  · next h => exact EscapeTable.read_letter_of_toNat (d := '\x1B') h rfl rfl rest
  split
  · next h => exact EscapeTable.read_hex rfl (Nat.lt_succ_of_le h) rest
  split
  · next h => exact EscapeTable.read_hex rfl (Nat.lt_succ_of_le h) rest
  · have hword : c.toNat < Nat.pow 16 8 := c.val.toNat_lt
    exact EscapeTable.read_hex rfl hword rest

theorem read_escape (c : Char) (rest : List Char) :
    escapes.read (escape c ++ rest) = some (c, rest) := by
  unfold escape
  split
  · next h => rw [h]; rfl
  split
  · next h => rw [h]; rfl
  split
  · next h => rw [h]; rfl
  split
  · next h => rw [h]; rfl
  split
  · next h => rw [h]; rfl
  split
  · next h => rw [h]; rfl
  split
  · next h => rw [h]; rfl
  split
  · next h => rw [h]; rfl
  split
  · exact read_specialEscape c rest
  · next hbackslash _ _ _ _ _ _ _ => exact EscapeTable.read_plain hbackslash rest

theorem escape_cases (c : Char) :
    (escape c = [c] ∧ c ≠ '"') ∨ ∃ rest, escape c = '\\' :: rest := by
  have hread := read_escape c []
  rw [List.append_nil] at hread
  refine (EscapeTable.eq_of_read hread).imp_left fun hself => ⟨hself, ?_⟩
  rintro rfl
  exact absurd hself (by decide)

/-- The inside of double quotes, with the quote and the line break that end it. -/
def doubleScheme : Scheme Unit where
  form _ c := escape c
  next _ _ := ()
  close _ := ['"', '\n']

theorem write_doubleScheme : doubleScheme.write () s = s.flatMap escape ++ ['"', '\n'] := by
  induction s with
  | nil => rfl
  | cons c s ih =>
    rw [Scheme.write, ih, List.flatMap_cons, List.append_assoc]
    rfl

theorem readable_doubleScheme : doubleScheme.Readable (fun _ _ => True) p where
  tail _ := trivial
  form _ := .of_reader escapes.read read_escape
  close_ne := by
    intro _ c cs s t _ _ _ heq
    have hform : '"' :: '\n' :: s = escape c ++ doubleScheme.write () cs ++ t := heq
    rcases escape_cases c with ⟨h, hquote⟩ | ⟨rest, h⟩
    all_goals rw [h] at hform
    · exact hquote (List.head_eq_of_cons_eq hform).symm
    · exact absurd (List.head_eq_of_cons_eq hform) (by decide)

/-! ## Indented lines

The state says whether a line has just begun. -/

/-- What stands at the start of a line that is not empty. -/
def start (fresh : Bool) : List Char := if fresh then indent else []

/-- A character, indented if it is the first of its line. -/
def lineForm (form : Char → List Char) (fresh : Bool) (c : Char) : List Char :=
  (if isBreak c then [] else start fresh) ++ form c

theorem delimited_lineForm {form : Char → List Char} (h : Delimited form p)
    (hbreak : ∀ c, isBreak c = true → form c = [c]) (fresh : Bool) :
    Delimited (lineForm form fresh) p := by
  have hindent {a b : Char} {s t : List Char} (ha : isBreak a = true) :
      form a ++ s ≠ indent ++ form b ++ t := by
    intro heq
    rw [hbreak a ha] at heq
    rw [List.head_eq_of_cons_eq heq] at ha
    exact absurd ha (by decide)
  intro a b s t hs ht heq
  unfold lineForm start at heq
  cases fresh with
  | false =>
    simp only [Bool.false_eq_true, if_false, ite_self, List.nil_append] at heq
    exact h hs ht heq
  | true =>
    simp only [if_true] at heq
    split at heq
    · next ha =>
      split at heq
      · exact h hs ht heq
      · exact absurd heq (hindent ha)
    · split at heq
      · next hb => exact absurd heq.symm (hindent hb)
      · simp only [List.append_assoc, List.append_cancel_left_eq] at heq
        exact h hs ht heq

/-! ## Single quotes -/

/-- A character between single quotes. -/
def singleForm (c : Char) : List Char := if c = '\'' then ['\'', '\''] else [c]

/-- Reads a character between single quotes. -/
def readSingle : List Char → Option (Char × List Char)
  | '\'' :: '\'' :: rest => some ('\'', rest)
  | c :: rest => some (c, rest)
  | [] => none

theorem read_singleForm (c : Char) (rest : List Char) :
    readSingle (singleForm c ++ rest) = some (c, rest) := by
  unfold singleForm
  split
  · next h => rw [h]; rfl
  · next h =>
    show readSingle (c :: rest) = some (c, rest)
    unfold readSingle
    split
    · next heq => exact absurd (List.cons.inj heq).1 h
    · next heq =>
      obtain ⟨rfl, rfl⟩ := List.cons.inj heq
      rfl
    · next heq => cases heq

theorem singleForm_of_isBreak (h : isBreak c = true) : singleForm c = [c] :=
  if_neg fun hquote => absurd (hquote ▸ h) (by decide)

/-- The inside of single quotes, with the quote and the line break that end it. -/
def singleScheme : Scheme Bool where
  form := lineForm singleForm
  next _ c := isBreak c
  close fresh := start fresh ++ ['\'', '\n']

theorem write_singleScheme :
    singleScheme.write fresh s = singleBody fresh s ++ ['\'', '\n'] := by
  induction s generalizing fresh with
  | nil => rfl
  | cons c s ih =>
    rw [Scheme.write, ih, singleBody]
    show lineForm singleForm fresh c ++ (singleBody (isBreak c) s ++ _) = _
    unfold lineForm
    split
    · next h => rw [h, singleForm_of_isBreak h]; rfl
    · next h =>
      rw [Bool.eq_false_iff.mpr h]
      simp [start, singleForm]

theorem readable_singleScheme : singleScheme.Readable (fun _ _ => True) p where
  tail _ := trivial
  form := delimited_lineForm (.of_reader readSingle read_singleForm) fun _ => singleForm_of_isBreak
  close_ne := by
    intro fresh c cs s t _ _ _ heq
    -- a quote inside is doubled, and the one that ends the string is not
    have hquote {rest : List Char} : '\'' :: '\n' :: s ≠ singleForm c ++ rest := by
      intro hform
      unfold singleForm at hform
      split at hform
      · exact absurd (List.head_eq_of_cons_eq (List.cons.inj hform).2) (by decide)
      · next hc => exact hc (List.head_eq_of_cons_eq hform).symm
    have hform : start fresh ++ '\'' :: '\n' :: s =
        lineForm singleForm fresh c ++ (singleScheme.write (isBreak c) cs ++ t) := by
      simpa [Scheme.write, singleScheme] using heq
    unfold lineForm at hform
    split at hform
    · next hbreak =>
      cases fresh with
      | false => exact hquote hform
      | true =>
        rw [singleForm_of_isBreak hbreak] at hform
        rw [← List.head_eq_of_cons_eq hform] at hbreak
        exact absurd hbreak (by decide)
    · rw [List.append_assoc, List.append_cancel_left_eq] at hform
      exact hquote hform

/-! ## Literal strings -/

/-- The characters with which the lines of a string go on. -/
def continuesLines (c : Char) : Bool := isBreak c || isSpace c

/-- The lines of a literal string. -/
def literalScheme : Scheme Bool where
  form := lineForm ([·])
  next _ c := isBreak c
  close fresh := if fresh then [] else ['\n']

theorem write_literalScheme : literalScheme.write fresh s = literalBody fresh s := by
  induction s generalizing fresh with
  | nil => rfl
  | cons c s ih =>
    rw [Scheme.write, ih, literalBody]
    show lineForm ([·]) fresh c ++ literalBody (isBreak c) s = _
    unfold lineForm
    split
    · next h => rw [h]; rfl
    · next h =>
      rw [Bool.eq_false_iff.mpr h]
      simp [start]

/-- Whether a text ends with a line break, or in the state it starts with if it is empty. -/
def endsFresh (fresh : Bool) (s : List Char) : Bool := s.foldl (fun _ c => isBreak c) fresh

theorem write_literalScheme_cons (c : Char) (s : List Char) :
    ∃ d rest, literalScheme.write true (c :: s) = d :: rest ∧ continuesLines d = true := by
  by_cases hc : isBreak c
  · refine ⟨c, literalScheme.write (isBreak c) s, ?_, by simp [continuesLines, hc]⟩
    simp [Scheme.write, literalScheme, lineForm, hc]
  · refine ⟨' ', ' ' :: c :: literalScheme.write (isBreak c) s, ?_, by decide⟩
    simp [Scheme.write, literalScheme, lineForm, start, indent, hc]

theorem readable_literalScheme (atBreak : Bool) :
    literalScheme.Readable (fun fresh s => endsFresh fresh s = atBreak) continuesLines where
  tail h := h
  form := delimited_lineForm .singleton fun _ _ => rfl
  close_ne := by
    intro fresh c cs s t hend hends hs heq
    cases fresh with
    | true =>
      obtain ⟨d, rest, hwrite, hd⟩ := write_literalScheme_cons c cs
      rw [hwrite] at heq
      exact hs.not_cons_append hd heq
    | false =>
      have hform : '\n' :: s = c :: (literalScheme.write (isBreak c) cs ++ t) := by
        simpa [Scheme.write, literalScheme, lineForm, start] using heq
      obtain ⟨rfl, hrest⟩ := List.cons.inj hform
      cases cs with
      | nil => exact Bool.noConfusion (hend.trans hends.symm)
      | cons d ds =>
        obtain ⟨e, rest, hwrite, he⟩ := write_literalScheme_cons d ds
        rw [show isBreak '\n' = true from rfl, hwrite] at hrest
        exact hs.not_cons_append he hrest

theorem hint_cases (s : List Char) :
    (indentHint s = [] ∨ indentHint s = ['2']) ∧
      (endHint s = [] ∨ endHint s = ['-'] ∨ endHint s = ['+']) := by
  unfold indentHint endHint
  constructor
  · split
    · exact .inr rfl
    · exact .inl rfl
  · split
    · exact .inr (.inl rfl)
    · split
      · exact .inr (.inr rfl)
      · exact .inr (.inl rfl)
    · split
      · exact .inr (.inl rfl)
      · split
        · exact .inr (.inr rfl)
        · exact .inl rfl

theorem newline_not_mem_hints (s : List Char) : '\n' ∉ indentHint s ++ endHint s := by
  obtain ⟨hindent | hindent, hend | hend | hend⟩ := hint_cases s <;> rw [hindent, hend] <;> decide

/-- A string that does not end with a break has the hint that takes the last one away. -/
theorem endHint_eq_minus_iff (h : s ≠ []) : endHint s = ['-'] ↔ endsFresh true s = false := by
  obtain rfl | ⟨front, last, rfl⟩ := List.eq_nil_or_concat' s
  · exact absurd rfl h
  have hends : endsFresh true (front ++ [last]) = isBreak last := List.foldl_concat ..
  rw [hends, endHint, List.reverse_append]
  cases front.reverse with
  | nil => cases hlast : isBreak last <;> simp [hlast]
  | cons before rest =>
    cases hlast : isBreak last <;> cases hbefore : isBreak before <;> simp [hlast, hbefore]

theorem minus_mem_hints_iff (h : s ≠ []) :
    '-' ∈ indentHint s ++ endHint s ↔ endsFresh true s = false := by
  rw [← endHint_eq_minus_iff h]
  obtain ⟨hindent | hindent, hend | hend | hend⟩ := hint_cases s <;> rw [hindent, hend] <;> decide

theorem endsFresh_eq_of_hints_eq (hs : s ≠ []) (ht : t ≠ [])
    (h : indentHint s ++ endHint s = indentHint t ++ endHint t) :
    endsFresh true s = endsFresh true t := by
  have hiff := minus_mem_hints_iff hs
  rw [h, minus_mem_hints_iff ht] at hiff
  cases hends : endsFresh true s with
  | false => exact (hiff.mpr hends).symm
  | true =>
    have hne : endsFresh true t ≠ false := fun hfalse =>
      Bool.noConfusion (hends.symm.trans (hiff.mp hfalse))
    exact (eq_true_of_ne_false hne).symm

/-! ## Strings -/

/-- The style that the first character of a string shows. -/
def styleOf (c : Char) : ScalarStyle :=
  if c = '\'' then .single else if c = '"' then .double else if c = '|' then .literal else .plain

theorem of_eq_plain (h : ScalarStyle.of s = .plain) :
    '\n' ∉ s ∧ readsAsOther s = false ∧ canBePlain s = true := by
  unfold ScalarStyle.of at h
  split at h
  · split at h <;> cases h
  · next hbreak =>
    split at h
    · next hplain =>
      simp only [Bool.and_eq_true, Bool.not_eq_true'] at hplain
      exact ⟨fun hmem => hbreak (List.contains_iff_mem.mpr hmem), hplain⟩
    · split at h <;> cases h

theorem of_eq_literal (h : ScalarStyle.of s = .literal) : s ≠ [] := by
  rintro rfl
  exact absurd h (by decide)

theorem styleOf_of_canBePlain (h : canBePlain (c :: s) = true) : styleOf c = .plain := by
  have hmarkup : startsMarkup (c :: s) = false := by
    simp only [canBePlain, Bool.not_eq_true', Bool.or_eq_false_iff] at h
    exact h.1.1.2
  have hne {d : Char} (hd : startsMarkup (d :: s) = true) : c ≠ d := by
    rintro rfl
    exact Bool.noConfusion (hd.symm.trans hmarkup)
  unfold styleOf
  rw [if_neg (hne rfl), if_neg (hne rfl), if_neg (hne rfl)]

theorem scalarAs_eq_cons (s : List Char) : ∃ c rest,
    scalarAs s (ScalarStyle.of s) = c :: rest ∧ styleOf c = ScalarStyle.of s := by
  cases hstyle : ScalarStyle.of s with
  | single => exact ⟨_, _, rfl, rfl⟩
  | double => exact ⟨_, _, rfl, rfl⟩
  | literal => exact ⟨_, _, rfl, rfl⟩
  | plain =>
    obtain ⟨_, hreads, hplain⟩ := of_eq_plain hstyle
    cases s with
    | nil => exact Bool.noConfusion hreads
    | cons c s => exact ⟨c, s ++ ['\n'], rfl, styleOf_of_canBePlain hplain⟩

theorem style_eq (h : scalarAs s (ScalarStyle.of s) ++ rest =
    scalarAs t (ScalarStyle.of t) ++ rest') : ScalarStyle.of s = ScalarStyle.of t := by
  obtain ⟨c, more, hs, hc⟩ := scalarAs_eq_cons s
  obtain ⟨d, more', ht, hd⟩ := scalarAs_eq_cons t
  rw [hs, ht] at h
  rw [← hc, ← hd, List.head_eq_of_cons_eq h]

theorem scalarAs_literal_append (s rest : List Char) :
    scalarAs s .literal ++ rest =
      '|' :: (indentHint s ++ endHint s ++ '\n' :: (literalScheme.write true s ++ rest)) := by
  rw [write_literalScheme]
  simp [scalarAs]

theorem scalarAs_single (s : List Char) :
    scalarAs s .single = '\'' :: singleScheme.write false s := by
  rw [write_singleScheme]
  simp [scalarAs]

theorem scalarAs_double (s : List Char) : scalarAs s .double = '"' :: doubleScheme.write () s := by
  rw [write_doubleScheme]
  simp [scalarAs]

theorem scalarAs_append_inj {style : ScalarStyle} (hs : ScalarStyle.of s = style)
    (ht : ScalarStyle.of t = style) (hrest : Avoids continuesLines rest)
    (hrest' : Avoids continuesLines rest')
    (h : scalarAs s style ++ rest = scalarAs t style ++ rest') : s = t ∧ rest = rest' := by
  cases style with
  | plain =>
    simp only [scalarAs, List.append_assoc, List.singleton_append] at h
    exact Text.append_mark_inj (of_eq_plain hs).1 (of_eq_plain ht).1 h
  | single =>
    rw [scalarAs_single, scalarAs_single, List.cons_append, List.cons_append,
      List.cons_inj_right] at h
    exact readable_singleScheme.append_inj trivial trivial hrest hrest' h
  | double =>
    rw [scalarAs_double, scalarAs_double, List.cons_append, List.cons_append,
      List.cons_inj_right] at h
    exact readable_doubleScheme.append_inj trivial trivial hrest hrest' h
  | literal =>
    rw [scalarAs_literal_append, scalarAs_literal_append, List.cons_inj_right] at h
    obtain ⟨hhints, hbody⟩ :=
      Text.append_mark_inj (newline_not_mem_hints s) (newline_not_mem_hints t) h
    have hends := endsFresh_eq_of_hints_eq (of_eq_literal hs) (of_eq_literal ht) hhints
    exact (readable_literalScheme _).append_inj hends rfl hrest hrest' hbody

theorem delimited_scalar : Delimited scalar continuesLines := by
  intro a b s t hs ht h
  have hstyle := style_eq h
  unfold scalar at h
  rw [← hstyle] at h
  obtain ⟨hab, hst⟩ := scalarAs_append_inj rfl hstyle.symm hs ht h
  exact ⟨String.toList_inj.mp hab, hst⟩

-- one string in each style
example : [" a\n\n", "a b", "a: b", "\t"].map scalar =
    ["|2+\n   a\n\n", "a b\n", "'a: b'\n", "\"\\t\"\n"].map String.toList := by decide

/-! ## Lists -/

theorem items_map_cons {α : Type} (f : α → List Char) (a : α) (as : List α) :
    items ((a :: as).map f) = '\n' :: (a :: as).flatMap fun a => '-' :: [' '] ++ f a := by
  have hitems : items ((a :: as).map f) = '\n' :: ((a :: as).map f).flatMap (['-', ' '] ++ ·) := rfl
  rw [hitems, List.flatMap_map]

theorem delimited_items {α : Type} {f : α → List Char} (h : Delimited f p) (hp : p '-' = false) :
    Delimited (fun as : List α => items (as.map f)) fun c => p c || c == '-' := by
  intro as bs s t hs ht heq
  simp only at heq
  match as, bs with
  | [], [] => exact ⟨rfl, List.append_cancel_left heq⟩
  | [], b :: bs =>
    rw [items_map_cons] at heq
    exact absurd (List.head_eq_of_cons_eq heq) (by decide)
  | a :: as, [] =>
    rw [items_map_cons] at heq
    exact absurd (List.head_eq_of_cons_eq heq) (by decide)
  | a :: as, b :: bs =>
    rw [items_map_cons, items_map_cons, List.cons_append, List.cons_append,
      List.cons_inj_right] at heq
    exact h.flatMap [' '] hp hs ht heq

/-! ## Fields -/

/-- The characters with which a field goes on. -/
def goesOn (c : Char) : Bool := continuesLines c || c == '-'

theorem goesOn_of_isKeyChar (h : isKeyChar c = true) : goesOn c = false := by
  refine Bool.eq_false_iff.mpr fun hgoes => ?_
  simp only [goesOn, continuesLines, isBreak, isSpace, Bool.or_eq_true, beq_iff_eq] at hgoes
  rcases hgoes with ((((((rfl | rfl) | rfl) | rfl) | rfl) | rfl) | rfl) <;>
    exact absurd h (by decide)

theorem delimited_number : Delimited number p := Decimal.delimited_ofWord.append (by decide) []

theorem delimited_pair : Delimited
    (fun s : Span => "- ".toList ++ number s.start ++ "  - ".toList ++ number s.stop) p := by
  have hparts : Delimited
      (fun s : Span => number s.start ++ ' ' :: " - ".toList ++ number s.stop) p :=
    (delimited_number (p := fun _ => false)).pair delimited_number rfl _ Span.eq_of_bounds
  exact hparts.prepend "- ".toList

theorem tells_value : FieldValue.Tells value goesOn := by
  refine .of_forms ?_ ?_ ?_ ?_ ?_ ?_
  · exact ((delimited_boolText fun _ => false).append rfl []).prepend [' ']
  · exact delimited_number.prepend [' ']
  · exact (delimited_scalar.mono fun c hc => by simp [goesOn, hc]).prepend [' ']
  · exact delimited_items delimited_scalar (by decide)
  · exact (delimited_items (delimited_number (p := continuesLines)) (by decide))
  · exact delimited_items (delimited_pair (p := continuesLines)) (by decide)

theorem report_eq_entries (fields : List Field) : report fields = Field.entries [':'] value fields :=
  rfl

end Yaml

/-- Different requests have different YAML reports: every field shows, whatever the names are, and
whether a name is assumed for standard input shows as well. -/
theorem Request.render_yaml_injective : Function.Injective fun r : Request => r.render .yaml := by
  intro r r' h
  have hreport : Yaml.report r.fields = Yaml.report r'.fields := String.ofList_injective h
  rw [Yaml.report_eq_entries, Yaml.report_eq_entries] at hreport
  exact entries_fields_injective Yaml.tells_value (by decide) (fun _ => Yaml.goesOn_of_isKeyChar)
    hreport

end FormatRequest
