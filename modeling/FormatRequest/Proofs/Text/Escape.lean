import FormatRequest.Proofs.Text.Delimited
import FormatRequest.Report.Field

/-!
# Reading escapes

Inside quotes a backslash and the character after it stand for another character, by a table of
letters, or say how many hexadecimal digits of a code point follow. Every other character stands for
itself.

Results:
1. `hexValue_hexUpper`: digits of a fixed width give back their number.
2. `EscapeTable.read_plain`, `EscapeTable.read_letter`, `EscapeTable.read_hex`: the three ways in
   which a character can be written.
3. `EscapeTable.eq_of_read`: how a form begins that is read back.
-/

namespace FormatRequest.Text

/-! ## Hexadecimal digits -/

/-- The number that has the hexadecimal digits. -/
def hexValue (digits : List Char) : Nat :=
  digits.foldl (fun acc c => acc * 16 + "0123456789ABCDEF".toList.idxOf c) 0

theorem idxOf_toUpper_digitChar :
    ∀ d < 16, "0123456789ABCDEF".toList.idxOf (Nat.digitChar d).toUpper = d := by
  decide

theorem length_hexUpper (width n : Nat) : (hexUpper width n).length = width := by
  unfold hexUpper
  rw [List.length_map]
  induction width generalizing n with
  | zero => rfl
  | succ width ih => rw [hexLower, List.length_append, ih, List.length_singleton]

theorem hexValue_hexUpper {width n : Nat} (h : n < Nat.pow 16 width) :
    hexValue (hexUpper width n) = n := by
  induction width generalizing n with
  | zero => exact (Nat.lt_one_iff.mp h).symm
  | succ width ih =>
    have hfront : hexValue (hexUpper width (n / 16)) = n / 16 :=
      ih ((Nat.div_lt_iff_lt_mul (by decide)).mpr h)
    have hlast := idxOf_toUpper_digitChar (n % 16) (Nat.mod_lt n (by decide))
    have hsplit : hexUpper (width + 1) n =
        hexUpper width (n / 16) ++ [(Nat.digitChar (n % 16)).toUpper] := by
      rw [hexUpper, hexLower, List.map_append]
      rfl
    unfold hexValue at hfront ⊢
    rw [hsplit, List.foldl_append, hfront, List.foldl_cons, List.foldl_nil, hlast]
    exact Nat.div_add_mod' n 16

/-! ## Escapes -/

/-- The meaning of the characters after a backslash: what each letter stands for, or the number of
digits that follow it. -/
structure EscapeTable where
  letters : List (Char × Char)
  widths : List (Char × Nat)

namespace EscapeTable

variable {table : EscapeTable} {c k : Char}

/-- Reads a character, as it is or as an escape. -/
def read (table : EscapeTable) : List Char → Option (Char × List Char)
  | [] => none
  | ['\\'] => none
  | '\\' :: k :: rest =>
    match table.widths.lookup k with
    | some width => some (Char.ofNat (hexValue (rest.take width)), rest.drop width)
    | none => (table.letters.lookup k).map fun c => (c, rest)
  | c :: rest => some (c, rest)

theorem read_plain (h : c ≠ '\\') (rest : List Char) : table.read (c :: rest) = some (c, rest) := by
  unfold read
  split
  · next heq => cases heq
  · next heq => exact absurd (List.cons.inj heq).1 h
  · next heq => exact absurd (List.cons.inj heq).1 h
  · next heq =>
    obtain ⟨rfl, rfl⟩ := List.cons.inj heq
    rfl

theorem read_letter (hwidth : table.widths.lookup k = none)
    (hletter : table.letters.lookup k = some c) (rest : List Char) :
    table.read ('\\' :: k :: rest) = some (c, rest) := by
  simp only [read, hwidth, hletter, Option.map_some]

/-- A control character is known by its code point. -/
theorem read_letter_of_toNat {d : Char} (h : c.toNat = d.toNat)
    (hwidth : table.widths.lookup k = none) (hletter : table.letters.lookup k = some d)
    (rest : List Char) : table.read ('\\' :: k :: rest) = some (c, rest) :=
  Char.toNat_inj.mp h ▸ read_letter hwidth hletter rest

theorem read_hex {width : Nat} (hwidth : table.widths.lookup k = some width)
    (h : c.toNat < Nat.pow 16 width) (rest : List Char) :
    table.read ('\\' :: k :: (hexUpper width c.toNat ++ rest)) = some (c, rest) := by
  have hlength := length_hexUpper width c.toNat
  simp only [read, hwidth, List.take_left' hlength, List.drop_left' hlength, hexValue_hexUpper h,
    Char.ofNat_toNat]

/-- What is read as one character stands for itself or begins with a backslash. -/
theorem eq_of_read {text : List Char} (h : table.read text = some (c, [])) :
    text = [c] ∨ ∃ rest, text = '\\' :: rest := by
  cases text with
  | nil => cases h
  | cons d rest =>
    by_cases hd : d = '\\'
    · exact .inr ⟨rest, by rw [hd]⟩
    · rw [read_plain hd] at h
      obtain ⟨rfl, rfl⟩ := Prod.mk.inj (Option.some.inj h)
      exact .inl rfl

end EscapeTable

end FormatRequest.Text
