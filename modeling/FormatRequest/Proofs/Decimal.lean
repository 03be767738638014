import Mathlib.Data.List.TakeWhile
import FormatRequest.Decimal
import FormatRequest.Proofs.Text.Delimited

/-!
# Decimal numbers are read as they are written

Reading a run of digits gives its value, or fails because the value is no word: there is nothing
else that can go wrong with digits alone. The decimal form of a word is such a run, and it ends
where the digits end. A text of other characters is no word either, and what is wrong with it is said
of the first place where reading cannot go on.

Results:
1. `readFrom_eq`: reading a run of characters.
2. `readWord_of_numeral`, `readWord_of_noNumeral`: the texts that are read, and what is wrong with
   the others.
3. `readWord_ofWord`: reading the decimal form of a word.
4. `delimited_digits`, `delimited_ofWord`: the decimal form shows where it ends, before anything
   that is no digit.
-/

namespace FormatRequest.Decimal

variable {n : UInt64} {c : Char} {text : List Char}

theorem isDigit_of_mem_digits {n : Nat} (h : c ∈ digits n) : c.isDigit = true :=
  Nat.isDigit_of_mem_toDigits (by decide) (by decide) h

theorem digits_eq_cons (n : Nat) : ∃ c rest, digits n = c :: rest ∧ c.isDigit = true := by
  cases h : digits n with
  | nil => exact absurd h Nat.toDigits_ne_nil
  | cons c rest => exact ⟨c, rest, rfl, isDigit_of_mem_digits (h ▸ List.mem_cons_self)⟩

/-- A number does not begin with a needless zero. -/
theorem head?_digits_ne_zero {n : Nat} (h : n ≠ 0) : (digits n).head? ≠ some '0' := by
  induction n using Nat.strongRecOn with
  | ind n ih =>
    by_cases hsmall : n < 10
    · have hall : ∀ d < 10, d ≠ 0 → (digits d).head? ≠ some '0' := by decide
      exact hall n hsmall h
    · have hsplit : digits n = digits (n / 10) ++ [Nat.digitChar (n % 10)] :=
        Nat.toDigits_of_base_le (by decide) (Nat.le_of_not_lt hsmall)
      obtain ⟨c, rest, hdigits, _⟩ := digits_eq_cons (n / 10)
      have hrest := ih (n / 10) (by omega) (by omega)
      rw [hdigits] at hrest
      rw [hsplit, hdigits]
      exact hrest

theorem isDigit_of_mem_ofWord (h : c ∈ ofWord n) : c.isDigit = true := isDigit_of_mem_digits h

theorem ofWord_ne_nil : ofWord n ≠ [] := Nat.toDigits_ne_nil

theorem value_ofWord : Nat.ofDigitChars 10 (ofWord n) 0 = n.toNat :=
  Nat.ofDigitChars_ten_toDigits

/-! ## Reading digits -/

theorem le_ofDigitChars (text : List Char) (acc : Nat) : acc ≤ Nat.ofDigitChars 10 text acc := by
  induction text generalizing acc with
  | nil => exact Nat.le_refl acc
  | cons c rest ih =>
    rw [Nat.ofDigitChars_cons]
    have hrest := ih (10 * acc + (c.toNat - '0'.toNat))
    omega

/-- A text is read up to its end, unless the digits that it begins with stop being a word, or a
character comes that is no digit. -/
theorem readFrom_eq {acc : Nat} (hacc : acc < UInt64.size) :
    readFrom acc text =
      if UInt64.size ≤ Nat.ofDigitChars 10 (text.takeWhile Char.isDigit) acc then .error .tooLarge
      else if text.all Char.isDigit then .ok (Nat.ofDigitChars 10 text acc)
      else .error .invalidDigit := by
  induction text generalizing acc with
  | nil =>
    rw [List.takeWhile_nil, Nat.ofDigitChars_nil, if_neg (Nat.not_le.mpr hacc)]
    rfl
  | cons c rest ih =>
    by_cases hc : c.isDigit = true
    · have hvalue : digitValue? c = some (c.toNat - '0'.toNat) := if_pos hc
      simp only [readFrom, hvalue, List.takeWhile_cons_of_pos hc, Nat.ofDigitChars_cons,
        Nat.mul_comm 10 acc, List.all_cons, hc, Bool.true_and]
      by_cases hfits : acc * 10 + (c.toNat - '0'.toNat) < UInt64.size
      · rw [if_pos hfits]
        exact ih hfits
      · -- the digits that are not looked at cannot make up for it
        have hle := le_ofDigitChars (rest.takeWhile Char.isDigit)
          (acc * 10 + (c.toNat - '0'.toNat))
        rw [if_neg hfits, if_pos (Nat.le_trans (Nat.le_of_not_lt hfits) hle)]
    · have hvalue : digitValue? c = none := if_neg hc
      have hsome : ¬ (c :: rest).all Char.isDigit = true := fun h =>
        hc (List.all_eq_true.mp h c List.mem_cons_self)
      simp only [readFrom, hvalue]
      rw [List.takeWhile_cons_of_neg hc, Nat.ofDigitChars_nil, if_neg (Nat.not_le.mpr hacc),
        if_neg hsome]

theorem readWord_of_unsigned (hsign : '+' ∉ text) (hne : text ≠ []) :
    readWord text = (readFrom 0 text).map UInt64.ofNat := by
  unfold readWord
  split
  · exact absurd rfl hne
  · exact absurd List.mem_cons_self hsign
  · exact absurd List.mem_cons_self hsign
  · rfl

/-! ## Numerals -/

/-- `Numeral text n`: the text is ASCII digits of the value `n`. Zeros may stand before them. -/
structure Numeral (text : List Char) (n : UInt64) : Prop where
  nonempty : text ≠ []
  digits : ∀ c ∈ text, c.isDigit = true
  value : Nat.ofDigitChars 10 text 0 = n.toNat

/-- `NoNumeral text cause`: the text is no numeral, and the cause is what is wrong with it. The digits
that it begins with may be too many for a word, and otherwise there is a character that is no
digit. -/
inductive NoNumeral (text : List Char) : Fault → Prop
  | tooLarge (h : UInt64.size ≤ Nat.ofDigitChars 10 (text.takeWhile Char.isDigit) 0) :
      NoNumeral text .tooLarge
  | invalidDigit (hfits : Nat.ofDigitChars 10 (text.takeWhile Char.isDigit) 0 < UInt64.size)
      (h : ∃ c ∈ text, c.isDigit = false) : NoNumeral text .invalidDigit

theorem numeral_ofWord (n : UInt64) : Numeral (ofWord n) n :=
  ⟨ofWord_ne_nil, fun _ => isDigit_of_mem_ofWord, value_ofWord⟩

theorem Numeral.zeros_append (h : Numeral text n) (zeros : Nat) :
    Numeral (List.replicate zeros '0' ++ text) n := by
  refine ⟨List.append_ne_nil_of_right_ne_nil _ h.nonempty, fun c hc => ?_, ?_⟩
  · rcases List.mem_append.mp hc with hc | hc
    · rw [List.eq_of_mem_replicate hc]
      rfl
    · exact h.digits c hc
  · rw [Nat.ofDigitChars_append, Nat.ofDigitChars_replicate_zero, Nat.mul_zero, h.value]

theorem Numeral.sign_not_mem (h : Numeral text n) : '+' ∉ text := fun hsign =>
  absurd (h.digits '+' hsign) (by decide)

theorem readWord_of_numeral (h : Numeral text n) : readWord text = .ok n := by
  have hfits : ¬ UInt64.size ≤ Nat.ofDigitChars 10 (text.takeWhile Char.isDigit) 0 := by
    rw [List.takeWhile_eq_self_iff.mpr h.digits, h.value]
    exact Nat.not_le.mpr n.toNat_lt
  rw [readWord_of_unsigned h.sign_not_mem h.nonempty, readFrom_eq (by decide), if_neg hfits,
    if_pos (List.all_eq_true.mpr h.digits), h.value]
  exact congrArg Except.ok UInt64.ofNat_toNat

theorem readWord_of_noNumeral {cause : Fault} (hsign : '+' ∉ text) (hne : text ≠ [])
    (h : NoNumeral text cause) : readWord text = .error cause := by
  rw [readWord_of_unsigned hsign hne, readFrom_eq (by decide)]
  cases h with
  | tooLarge h =>
    rw [if_pos h]
    rfl
  | invalidDigit hfits h =>
    obtain ⟨c, hc, hno⟩ := h
    have hsome : ¬ text.all Char.isDigit = true := fun hall =>
      Bool.false_ne_true (hno.symm.trans (List.all_eq_true.mp hall c hc))
    rw [if_neg (Nat.not_le.mpr hfits), if_neg hsome]
    rfl

example : readWord "18446744073709551616x".toList = .error .tooLarge ∧
    readWord "1844674407370955161x".toList = .error .invalidDigit := ⟨rfl, rfl⟩

theorem numeral_or_noNumeral (hne : text ≠ []) :
    (∃ n, Numeral text n) ∨ ∃ cause, NoNumeral text cause := by
  by_cases hlarge : UInt64.size ≤ Nat.ofDigitChars 10 (text.takeWhile Char.isDigit) 0
  · exact .inr ⟨.tooLarge, .tooLarge hlarge⟩
  have hfits := Nat.lt_of_not_le hlarge
  by_cases hdigits : ∀ c ∈ text, c.isDigit = true
  · rw [List.takeWhile_eq_self_iff.mpr hdigits] at hfits
    exact .inl ⟨.ofNat _, hne, hdigits, (UInt64.toNat_ofNat_of_lt hfits).symm⟩
  · obtain ⟨c, hc⟩ := not_forall.mp hdigits
    obtain ⟨hmem, hno⟩ := Classical.not_imp.mp hc
    exact .inr ⟨.invalidDigit, .invalidDigit hfits ⟨c, hmem, Bool.eq_false_iff.mpr hno⟩⟩

@[simp] theorem readWord_ofWord (n : UInt64) : readWord (ofWord n) = .ok n :=
  readWord_of_numeral (numeral_ofWord n)

/-! ## Where a number ends -/

theorem digits_injective : Function.Injective digits := by
  intro m n h
  have hvalue := congrArg (Nat.ofDigitChars 10 · 0) h
  exact Nat.ofDigitChars_ten_toDigits.symm.trans (hvalue.trans Nat.ofDigitChars_ten_toDigits)

theorem takeWhile_digits_append {n : Nat} {s : List Char} (hs : Text.Avoids Char.isDigit s) :
    (digits n ++ s).takeWhile Char.isDigit = digits n := by
  rw [List.takeWhile_append_of_pos fun c => isDigit_of_mem_digits]
  cases s with
  | nil => exact List.append_nil _
  | cons c s => rw [List.takeWhile_cons, Text.avoids_cons.mp hs]; exact List.append_nil _

theorem delimited_digits : Text.Delimited digits Char.isDigit := by
  intro m n s t hs ht h
  have hdigits : digits m = digits n := by
    rw [← takeWhile_digits_append hs, h, takeWhile_digits_append ht]
  rw [hdigits, List.append_cancel_left_eq] at h
  exact ⟨digits_injective hdigits, h⟩

theorem delimited_ofWord : Text.Delimited ofWord Char.isDigit := by
  intro m n s t hs ht h
  obtain ⟨hmn, hst⟩ := delimited_digits hs ht h
  exact ⟨UInt64.toNat_inj.mp hmn, hst⟩

theorem exists_digit_cons : ∃ c rest, ofWord n = c :: rest ∧ c.isDigit = true :=
  digits_eq_cons n.toNat

end FormatRequest.Decimal
