import FormatRequest.Proofs.LineSpec.Grammar
import FormatRequest.Proofs.Traversal

/-!
# Line specifications are read as they are written

A specification is written in digits, with a colon between them where there are two numbers. No
character of it is blank and none is a comma, so it is read whole, alone or as an item of a list, and
neither blanks around it nor zeros before its numbers change what is read. Inverted specifications
are no exception; only a line zero is written in a way that is not read again.

What is read of a list can be written again. The new text need not be the old one, but from then on
reading and writing change nothing.

Results:
1. `parse_padded`, `parseAll_padded`: specifications and lists of them, with padding.
2. `parseAll_textAll`: a list that is written again.
3. `parseAll_textAll_inverse`: reading and writing undo each other.
-/

namespace FormatRequest.LineSpec

variable {text : List Char} {spec : LineSpec} {specs : List LineSpec}

/-! ## Padding -/

/-- What may be added to the text of a specification: blanks around it, and zeros before each of its
numbers. -/
structure Padding where
  lead : List Char
  trail : List Char
  firstZeros : Nat
  lastZeros : Nat
  blank_lead : Text.Blank lead
  blank_trail : Text.Blank trail

/-- Nothing is added. -/
def Padding.none : Padding := ⟨[], [], 0, 0, nofun, nofun⟩

/-- The text of the specification with zeros before its numbers. -/
def zeroPadded (spec : LineSpec) (firstZeros lastZeros : Nat) : List Char :=
  let first := List.replicate firstZeros '0' ++ Decimal.ofWord spec.first
  if spec.first = spec.last then first
  else first ++ [':'] ++ (List.replicate lastZeros '0' ++ Decimal.ofWord spec.last)

/-- The text of the specification with padding. -/
def padded (spec : LineSpec) (p : Padding) : List Char :=
  p.lead ++ spec.zeroPadded p.firstZeros p.lastZeros ++ p.trail

theorem padded_none (spec : LineSpec) : spec.padded .none = spec.text := List.append_nil _

theorem numbered_zeroPadded (spec : LineSpec) (firstZeros lastZeros : Nat) :
    Numbered (spec.zeroPadded firstZeros lastZeros) spec := by
  have hfirst := (Decimal.numeral_ofWord spec.first).zeros_append firstZeros
  have hlast := (Decimal.numeral_ofWord spec.last).zeros_append lastZeros
  obtain ⟨first, last⟩ := spec
  unfold zeroPadded
  split
  · next hsame =>
    obtain rfl : first = last := hsame
    exact .one hfirst
  · rw [List.append_assoc]
    exact .two hfirst hlast

/-! ## What does not stand in a specification -/

theorem Numbered.isDigit_or_colon (h : Numbered text spec) {c : Char} (hc : c ∈ text) :
    c.isDigit = true ∨ c = ':' := by
  cases h with
  | one hstart => exact .inl (hstart.digits c hc)
  | two hstart hstop =>
    rcases List.mem_append.mp hc with hc | hc
    · exact .inl (hstart.digits c hc)
    rcases List.mem_cons.mp hc with hcolon | hc
    · exact .inr hcolon
    · exact .inl (hstop.digits c hc)

theorem Numbered.not_blank (h : Numbered text spec) {c : Char} (hc : c ∈ text) :
    Text.isBlank c = false := by
  rcases h.isDigit_or_colon hc with hdigit | rfl
  · exact Text.isBlank_of_isDigit hdigit
  · rfl

theorem trim_padded (spec : LineSpec) (p : Padding) :
    Text.trim (spec.padded p) = spec.zeroPadded p.firstZeros p.lastZeros := by
  have hnumbered := numbered_zeroPadded spec p.firstZeros p.lastZeros
  unfold padded
  rw [Text.trim_around p.blank_lead p.blank_trail, Text.trim_eq_self]
  · exact fun c hc => hnumbered.not_blank (List.mem_of_mem_head? hc)
  · exact fun c hc => hnumbered.not_blank (List.mem_reverse.mp (List.mem_of_mem_head? hc))

/-- A text that is a specification, apart from the blanks around it, is one item of a list. -/
theorem Numbered.comma_not_mem (h : Numbered (Text.trim text) spec) : ',' ∉ text := by
  obtain ⟨lead, trail, hlead, htrail, hsplit⟩ := (Text.trimmed_trim text).around
  have hblank : ¬ Text.isBlank ',' = true := by decide
  rw [hsplit]
  intro hcomma
  rcases List.mem_append.mp hcomma with hcomma | hcomma
  · rcases List.mem_append.mp hcomma with hcomma | hcomma
    · exact hblank (hlead ',' hcomma)
    · rcases h.isDigit_or_colon hcomma with hdigit | hcolon
      · exact absurd hdigit (by decide)
      · exact absurd hcolon (by decide)
  · exact hblank (htrail ',' hcomma)

theorem numbered_trim_padded (spec : LineSpec) (p : Padding) :
    Numbered (Text.trim (spec.padded p)) spec := by
  rw [trim_padded]
  exact numbered_zeroPadded spec p.firstZeros p.lastZeros

theorem comma_not_mem_padded (spec : LineSpec) (p : Padding) : ',' ∉ spec.padded p :=
  (numbered_trim_padded spec p).comma_not_mem

/-! ## Reading what was written -/

/-- Padding changes neither what is read nor whether it is refused. -/
theorem parse_padded (spec : LineSpec) (p : Padding) :
    parse (spec.padded p) =
      if spec.first = 0 ∨ spec.last = 0 then
        .error (.zero (spec.zeroPadded p.firstZeros p.lastZeros))
      else .ok spec := by
  rw [parse_of_numbered (numbered_trim_padded spec p), trim_padded]

/-- A specification that can be read is a list of one. -/
theorem parseAll_of_parse (h : parse text = .ok spec) : parseAll text = .ok [spec] := by
  have hcomma : ∀ token ∈ [text], ',' ∉ token :=
    List.forall_mem_singleton.mpr (grammatical_of_parse h).numbered.comma_not_mem
  have hsplit := List.splitOn_intercalate ',' hcomma (List.cons_ne_nil text [])
  rw [List.intercalate_singleton] at hsplit
  rw [parseAll, hsplit, mapM_eq_ok_iff]
  exact .cons h .nil

theorem parseAll_padded (items : List (LineSpec × Padding)) (hne : items ≠ [])
    (hlines : ∀ item ∈ items, item.1.first ≠ 0 ∧ item.1.last ≠ 0) :
    parseAll ([','].intercalate (items.map fun item => item.1.padded item.2)) =
      .ok (items.map Prod.fst) := by
  have hcomma : ∀ token ∈ items.map fun item => item.1.padded item.2, ',' ∉ token := by
    intro token htoken
    obtain ⟨item, _, rfl⟩ := List.mem_map.mp htoken
    exact comma_not_mem_padded item.1 item.2
  unfold parseAll
  rw [List.splitOn_intercalate ',' hcomma (by simpa using hne), mapM_eq_ok_iff,
    List.forall₂_map_left_iff, List.forall₂_map_right_iff, List.forall₂_same]
  intro item hitem
  obtain ⟨hfirst, hlast⟩ := hlines item hitem
  rw [parse_padded, if_neg (not_or_intro hfirst hlast)]

/-- A list that is written without padding. -/
theorem parseAll_textAll (hne : specs ≠ [])
    (hlines : ∀ spec ∈ specs, spec.first ≠ 0 ∧ spec.last ≠ 0) :
    parseAll (textAll specs) = .ok specs := by
  have hitems := parseAll_padded (specs.map fun spec => (spec, .none))
    (by simpa using hne) (by simpa using hlines)
  rw [List.map_map, List.map_map] at hitems
  have hspecs : specs.map (Prod.fst ∘ fun spec => (spec, Padding.none)) = specs := List.map_id specs
  have htexts : specs.map ((fun item => item.1.padded item.2) ∘ fun spec => (spec, Padding.none)) =
      specs.map text := List.map_congr_left fun spec _ => padded_none spec
  rw [hspecs, htexts] at hitems
  exact hitems

theorem parseAll_text (hfirst : spec.first ≠ 0) (hlast : spec.last ≠ 0) :
    parseAll spec.text = .ok [spec] := by
  have hlist := parseAll_textAll (List.cons_ne_nil spec [])
    (List.forall_mem_singleton.mpr ⟨hfirst, hlast⟩)
  rwa [textAll, List.map_singleton, List.intercalate_singleton] at hlist

/-! ## Writing what was read -/

/-- There is one more item than there are commas. -/
theorem length_splitOn_comma (text : List Char) :
    (text.splitOn ',').length = text.count ',' + 1 := by
  induction text with
  | nil => rfl
  | cons c text ih =>
    rw [List.splitOn_cons_eq_if_modifyHead, List.count_cons]
    split
    · rw [List.length_cons, ih]
    · rw [List.length_modifyHead, ih]

theorem lines_of_parseAll (h : parseAll text = .ok specs) :
    ∀ spec ∈ specs, spec.first ≠ 0 ∧ spec.last ≠ 0 := by
  intro spec hspec
  obtain ⟨token, _, hparse⟩ := exists_of_mem_mapM h hspec
  have hgrammatical := grammatical_of_parse hparse
  exact ⟨hgrammatical.first_ne_zero, hgrammatical.last_ne_zero⟩

theorem length_of_parseAll (h : parseAll text = .ok specs) : specs.length = text.count ',' + 1 :=
  (mapM_eq_ok_iff.mp h).length_eq.symm.trans (length_splitOn_comma text)

/-- What is read of a list is read again when it is written without padding. -/
theorem parseAll_textAll_of_parseAll (h : parseAll text = .ok specs) :
    parseAll (textAll specs) = .ok specs := by
  refine parseAll_textAll (fun hnil => ?_) (lines_of_parseAll h)
  have hlength := length_of_parseAll h
  rw [hnil] at hlength
  exact absurd hlength (Nat.succ_ne_zero _).symm

/-- The list that is read of a text, written without padding. -/
def reprint (text : List Char) : Except Fault (List Char) := (parseAll text).map textAll

/-! ## There and back -/

/-- A list with an item that is refused is refused. -/
theorem exists_fault_of_mem {token : List Char} {cause : Fault} (hmem : token ∈ text.splitOn ',')
    (hrefused : parse token = .error cause) : ∃ fault, parseAll text = .error fault := by
  cases hparse : parseAll text with
  | error fault => exact ⟨fault, rfl⟩
  | ok specs =>
    obtain ⟨spec, hspec⟩ := exists_ok_of_mapM hparse hmem
    rw [hrefused] at hspec
    cases hspec

/-- Lists of specifications are read as they are written, whatever padding is added, unless a line is
zero: then they are refused. What is read of any text is written to a text of which the same is
read, and which is written to itself. -/
theorem parseAll_textAll_inverse :
    (∀ items : List (LineSpec × Padding), items ≠ [] →
      (∀ item ∈ items, item.1.first ≠ 0 ∧ item.1.last ≠ 0) →
      parseAll ([','].intercalate (items.map fun item => item.1.padded item.2)) =
        .ok (items.map Prod.fst)) ∧
    (∀ text specs, parseAll text = .ok specs →
      List.Forall₂ (fun token spec => parse token = .ok spec) (text.splitOn ',') specs ∧
      specs.length = text.count ',' + 1 ∧
      parseAll (textAll specs) = .ok specs ∧
      reprint (textAll specs) = .ok (textAll specs)) ∧
    ∀ spec : LineSpec, spec.first = 0 ∨ spec.last = 0 →
      parse spec.text = .error (.zero spec.text) ∧
      ∀ padding text, spec.padded padding ∈ text.splitOn ',' →
        ∃ fault, parseAll text = .error fault := by
  refine ⟨parseAll_padded, fun text specs h => ?_, fun spec hzero => ⟨?_, ?_⟩⟩
  · have hagain := parseAll_textAll_of_parseAll h
    refine ⟨mapM_eq_ok_iff.mp h, length_of_parseAll h, hagain, ?_⟩
    rw [reprint, hagain]
    rfl
  · have hparse := parse_padded spec .none
    rwa [if_pos hzero, padded_none] at hparse
  · intro padding text hmem
    have hparse := parse_padded spec padding
    rw [if_pos hzero] at hparse
    exact exists_fault_of_mem hmem hparse

/-- Specifications of two lines, of one and of lines in the wrong order. -/
def exPadded : List (LineSpec × Padding) :=
  [(⟨5, 10⟩, ⟨['\t'], [' ', '\u3000'], 0, 2, by decide, by decide⟩), (⟨7, 7⟩, .none),
    (⟨3, 1⟩, ⟨[], ['\n'], 1, 0, by decide, by decide⟩)]

/-- The padding is gone in what is read, and so in what is written again. No padding helps a line
zero. -/
theorem parseAll_exPadded :
    parseAll "\t5:0010 \u3000,7,03:1\n".toList = .ok [⟨5, 10⟩, ⟨7, 7⟩, ⟨3, 1⟩] ∧
      reprint "5:10,7,3:1".toList = .ok "5:10,7,3:1".toList ∧
      ∃ fault, parseAll "7, 4:00".toList = .error fault := by
  have hread : parseAll "\t5:0010 \u3000,7,03:1\n".toList = .ok [⟨5, 10⟩, ⟨7, 7⟩, ⟨3, 1⟩] :=
    parseAll_textAll_inverse.1 exPadded (by decide) (by decide)
  have hzero := parseAll_textAll_inverse.2.2 ⟨4, 0⟩ (.inr rfl)
  exact ⟨hread, (parseAll_textAll_inverse.2.1 _ _ hread).2.2.2,
    hzero.2 ⟨[' '], [], 0, 1, by decide, by decide⟩ _ (by decide)⟩

end FormatRequest.LineSpec
