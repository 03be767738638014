import Mathlib.Data.List.TakeDrop
import FormatRequest.LineSpec
import FormatRequest.Proofs.Decimal
import FormatRequest.Proofs.Text.Blank

/-!
# The grammar of a line specification

Between a text and a specification stand three layers that do not admit the same texts. Blanks around
the text are taken away. What is left must be one or two runs of digits, and these may be digits of
any script. The numbers are then read from ASCII digits, must be words, and must not be zero. The
texts that pass are those of a small grammar; of every other text the first layer that it fails is
reported, whatever else is wrong with it.

Results:
1. `Shaped.of_parts?`, `Shaped.parts?_eq`: the two shapes.
2. `parse_of_numbered`, `parse_of_firstFault`: texts with two numbers, and the faults.
3. `grammatical_or_firstFault`: every text is in the grammar or has a first fault.
4. `parse_outcome`: what is read of a text.
-/

namespace FormatRequest.LineSpec

open Decimal (Numeral NoNumeral)

variable {text start stop : List Char} {stop? : Option (List Char)} {spec : LineSpec}

/-! ## The texts -/

/-- Digits of any script, at least one. -/
structure DigitRun (text : List Char) : Prop where
  nonempty : text ≠ []
  digits : ∀ c ∈ text, Text.isDecimalDigit c = true

/-- `Shaped text start stop?`: the text is a run of digits, or two runs with a colon between
them. -/
inductive Shaped : List Char → List Char → Option (List Char) → Prop
  | one {start : List Char} : DigitRun start → Shaped start start none
  | two {start stop : List Char} : DigitRun start → DigitRun stop →
      Shaped (start ++ ':' :: stop) start (some stop)

/-- `Numbered text spec`: the text is the numeral of a line, or the numerals of two lines with a colon
between them. The lines may still be zero. -/
inductive Numbered : List Char → LineSpec → Prop
  | one {start : List Char} {m : UInt64} : Numeral start m → Numbered start ⟨m, m⟩
  | two {start stop : List Char} {m n : UInt64} : Numeral start m → Numeral stop n →
      Numbered (start ++ ':' :: stop) ⟨m, n⟩

/-- `Grammatical text spec`: the text is that of a specification, without blanks around it. -/
structure Grammatical (text : List Char) (spec : LineSpec) : Prop where
  numbered : Numbered text spec
  first_ne_zero : spec.first ≠ 0
  last_ne_zero : spec.last ≠ 0

/-- `FirstFault text fault`: the first fault of a text without blanks around it. Each fault is that of
a text for which those before it do not arise. -/
inductive FirstFault (text : List Char) : Fault → Prop
  | shape : (∀ start stop?, ¬ Shaped text start stop?) → FirstFault text (.shape text)
  | start {start : List Char} {stop? : Option (List Char)} {cause : Decimal.Fault} :
      Shaped text start stop? → NoNumeral start cause → FirstFault text (.start cause)
  | stop {start stop : List Char} {m : UInt64} {cause : Decimal.Fault} :
      Shaped text start (some stop) → Numeral start m → NoNumeral stop cause →
      FirstFault text (.stop cause)
  | zero {spec : LineSpec} :
      Numbered text spec → spec.first = 0 ∨ spec.last = 0 → FirstFault text (.zero text)

/-! ## The two shapes -/

theorem DigitRun.of_numeral {n : UInt64} (h : Numeral text n) : DigitRun text :=
  ⟨h.nonempty, fun c hc => Text.isDecimalDigit_of_isDigit (h.digits c hc)⟩

/-- No script writes a digit like a sign. -/
theorem DigitRun.sign_not_mem (h : DigitRun text) : '+' ∉ text := fun hsign =>
  absurd (h.digits '+' hsign) (by decide)

theorem Shaped.digitRun (h : Shaped text start stop?) : DigitRun start := by
  cases h with
  | one hstart => exact hstart
  | two hstart _ => exact hstart

theorem Shaped.digitRun_stop (h : Shaped text start (some stop)) : DigitRun stop := by
  cases h with
  | two _ hstop => exact hstop

/-- A shaped text is split at its colon. -/
theorem Shaped.parts?_eq (h : Shaped text start stop?) : parts? text = some (start, stop?) := by
  have hcolon : Text.isDecimalDigit ':' = false := by decide
  unfold parts?
  rw [List.span_eq_takeWhile_dropWhile]
  cases h with
  | one hstart =>
    rw [List.takeWhile_eq_self_iff.mpr hstart.digits, List.dropWhile_eq_nil_iff.mpr hstart.digits]
    cases text with
    | nil => exact absurd rfl hstart.nonempty
    | cons c text => rfl
  | @two _ stop hstart hstop =>
    rw [List.takeWhile_append_of_pos hstart.digits, List.dropWhile_append_of_pos hstart.digits,
      List.takeWhile_cons, List.dropWhile_cons, hcolon]
    cases start with
    | nil => exact absurd rfl hstart.nonempty
    | cons c start => simpa [hstop.nonempty] using hstop.digits

/-- Only a shaped text is split. -/
theorem Shaped.of_parts? (h : parts? text = some (start, stop?)) : Shaped text start stop? := by
  have hsplit : text.takeWhile Text.isDecimalDigit ++ text.dropWhile Text.isDecimalDigit = text :=
    List.takeWhile_append_dropWhile
  have hdigits : ∀ c ∈ text.takeWhile Text.isDecimalDigit, Text.isDecimalDigit c = true :=
    fun c => List.mem_takeWhile_imp
  unfold parts? at h
  rw [List.span_eq_takeWhile_dropWhile] at h
  rw [← hsplit]
  cases hrun : text.takeWhile Text.isDecimalDigit with
  | nil =>
    rw [hrun] at h
    cases h
  | cons d run =>
    rw [hrun] at h hdigits
    have hstart : DigitRun (d :: run) := ⟨List.cons_ne_nil d run, hdigits⟩
    cases hrest : text.dropWhile Text.isDecimalDigit with
    | nil =>
      rw [hrest] at h
      cases h
      rw [List.append_nil]
      exact .one hstart
    | cons c rest =>
      rw [hrest] at h
      simp only [Bool.and_eq_true, decide_eq_true_eq, Bool.not_eq_true', List.isEmpty_eq_false_iff,
        List.all_eq_true, Option.ite_none_right_eq_some, Option.some.injEq, Prod.mk.injEq] at h
      obtain ⟨⟨⟨rfl, hne⟩, hall⟩, rfl, rfl⟩ := h
      exact .two hstart ⟨hne, hall⟩

/-! ## Reading -/

theorem parse_of_shaped {t : List Char} (htrim : Text.trim text = t) (h : Shaped t start stop?) :
    parse text = ofParts t start stop? := by
  simp only [parse, htrim, h.parts?_eq]

theorem ofParts_of_start_error {cause : Decimal.Fault}
    (h : Decimal.readWord start = .error cause) :
    ofParts text start stop? = .error (.start cause) := by
  unfold ofParts
  rw [h]
  rfl

theorem ofParts_of_stop_error {m : UInt64} {cause : Decimal.Fault}
    (hstart : Decimal.readWord start = .ok m) (hstop : Decimal.readWord stop = .error cause) :
    ofParts text start (some stop) = .error (.stop cause) := by
  unfold ofParts
  simp only [hstart, hstop]
  rfl

theorem ofParts_none {m : UInt64} (hm : Decimal.readWord start = .ok m) :
    ofParts text start none = if m = 0 ∨ m = 0 then .error (.zero text) else .ok ⟨m, m⟩ := by
  unfold ofParts
  rw [hm]
  show (if m = 0 ∨ m = 0 then _ else _) = _
  split <;> rfl

theorem ofParts_some {m n : UInt64} (hm : Decimal.readWord start = .ok m)
    (hn : Decimal.readWord stop = .ok n) :
    ofParts text start (some stop) =
      if m = 0 ∨ n = 0 then .error (.zero text) else .ok ⟨m, n⟩ := by
  unfold ofParts
  simp only [hm, hn]
  show (if m = 0 ∨ n = 0 then _ else _) = _
  split <;> rfl

/-- Of a text with two numbers, only zero is refused. -/
theorem parse_of_numbered (h : Numbered (Text.trim text) spec) :
    parse text =
      if spec.first = 0 ∨ spec.last = 0 then .error (.zero (Text.trim text)) else .ok spec := by
  generalize htrim : Text.trim text = t at h ⊢
  cases h with
  | one hstart =>
    rw [parse_of_shaped htrim (.one (.of_numeral hstart))]
    exact ofParts_none (Decimal.readWord_of_numeral hstart)
  | two hstart hstop =>
    rw [parse_of_shaped htrim (.two (.of_numeral hstart) (.of_numeral hstop))]
    exact ofParts_some (Decimal.readWord_of_numeral hstart) (Decimal.readWord_of_numeral hstop)

theorem parse_of_grammatical (h : Grammatical (Text.trim text) spec) : parse text = .ok spec := by
  rw [parse_of_numbered h.numbered, if_neg (not_or_intro h.first_ne_zero h.last_ne_zero)]

theorem parse_of_firstFault {fault : Fault} (h : FirstFault (Text.trim text) fault) :
    parse text = .error fault := by
  cases h with
  | shape hshape =>
    have hparts : parts? (Text.trim text) = none :=
      Option.eq_none_iff_forall_ne_some.mpr fun parts hparts => hshape _ _ (.of_parts? hparts)
    simp only [parse, hparts]
  | start hshaped hcause =>
    have hrun := hshaped.digitRun
    rw [parse_of_shaped rfl hshaped]
    exact ofParts_of_start_error
      (Decimal.readWord_of_noNumeral hrun.sign_not_mem hrun.nonempty hcause)
  | stop hshaped hstart hcause =>
    have hrun := hshaped.digitRun_stop
    rw [parse_of_shaped rfl hshaped]
    exact ofParts_of_stop_error (Decimal.readWord_of_numeral hstart)
      (Decimal.readWord_of_noNumeral hrun.sign_not_mem hrun.nonempty hcause)
  | zero hnumbered hzero => rw [parse_of_numbered hnumbered, if_pos hzero]

/-! ## Every text -/

theorem Numbered.grammatical_or_firstFault (h : Numbered text spec) :
    (∃ spec, Grammatical text spec) ∨ ∃ fault, FirstFault text fault := by
  by_cases hzero : spec.first = 0 ∨ spec.last = 0
  · exact .inr ⟨_, .zero h hzero⟩
  · exact .inl ⟨spec, h, fun hfirst => hzero (.inl hfirst), fun hlast => hzero (.inr hlast)⟩

/-- A text that is not in the grammar fails one of the layers. -/
theorem grammatical_or_firstFault (text : List Char) :
    (∃ spec, Grammatical text spec) ∨ ∃ fault, FirstFault text fault := by
  by_cases hshape : ∃ start stop?, Shaped text start stop?
  · obtain ⟨start, stop?, hshaped⟩ := hshape
    rcases Decimal.numeral_or_noNumeral hshaped.digitRun.nonempty with ⟨m, hm⟩ | ⟨cause, hcause⟩
    · cases hshaped with
      | one => exact (Numbered.one hm).grammatical_or_firstFault
      | two hstart hstop =>
        rcases Decimal.numeral_or_noNumeral hstop.nonempty with ⟨n, hn⟩ | ⟨cause, hcause⟩
        · exact (Numbered.two hm hn).grammatical_or_firstFault
        · exact .inr ⟨_, .stop (.two hstart hstop) hm hcause⟩
    · exact .inr ⟨_, .start hshaped hcause⟩
  · exact .inr ⟨_, .shape fun start stop? hshaped => hshape ⟨start, stop?, hshaped⟩⟩

theorem grammatical_of_parse (h : parse text = .ok spec) : Grammatical (Text.trim text) spec := by
  rcases grammatical_or_firstFault (Text.trim text) with ⟨other, hother⟩ | ⟨fault, hfault⟩
  · obtain rfl := Except.ok.inj ((parse_of_grammatical hother).symm.trans h)
    exact hother
  · rw [parse_of_firstFault hfault] at h
    cases h

theorem firstFault_of_parse {fault : Fault} (h : parse text = .error fault) :
    FirstFault (Text.trim text) fault := by
  rcases grammatical_or_firstFault (Text.trim text) with ⟨spec, hspec⟩ | ⟨other, hother⟩
  · rw [parse_of_grammatical hspec] at h
    cases h
  · obtain rfl := Except.error.inj ((parse_of_firstFault hother).symm.trans h)
    exact hother

/-- A text is read exactly if it is in the grammar, apart from the blanks around it, and what is read
are the lines that it names. Otherwise it is refused, with its first fault. -/
theorem parse_outcome (text : List Char) :
    (∀ t, Text.Trimmed text t ↔ t = Text.trim text) ∧
    (∀ spec, parse text = .ok spec ↔ Grammatical (Text.trim text) spec) ∧
    ∀ fault, parse text = .error fault ↔ FirstFault (Text.trim text) fault :=
  ⟨fun _ => Text.trimmed_iff, fun _ => ⟨grammatical_of_parse, parse_of_grammatical⟩,
    fun _ => ⟨firstFault_of_parse, parse_of_firstFault⟩⟩

-- both numbers are read before zero is refused
example : parse " 0:18446744073709551616".toList = .error (.stop .tooLarge) := by rfl

end FormatRequest.LineSpec
