import Mathlib.Data.List.TakeWhile
import FormatRequest.Proofs.Text.Delimited
import FormatRequest.LineSpec

/-!
# The text between the blanks

A text consists of blanks, of what is left without them, and of blanks again. What is left is the
only part of the text that can be left: it neither begins nor ends with a blank, while blanks inside
it stay.

Results:
1. `trim_around`: a text is trimmed to the same as with further blanks around it.
2. `trimmed_iff`: what trimming leaves.
-/

namespace FormatRequest.Text

variable {s t lead trail : List Char}

/-- All characters of the text are blank. -/
def Blank (s : List Char) : Prop := ∀ c ∈ s, isBlank c = true

instance (s : List Char) : Decidable (Blank s) :=
  decidable_of_iff (s.all isBlank = true) List.all_eq_true

/-- `Trimmed s t`: the text `t` is `s` without the blanks that `s` begins and ends with. -/
structure Trimmed (s t : List Char) : Prop where
  around : ∃ lead trail, Blank lead ∧ Blank trail ∧ s = lead ++ t ++ trail
  front : Avoids isBlank t
  back : Avoids isBlank t.reverse

theorem isBlank_of_isDigit {c : Char} (h : c.isDigit = true) : isBlank c = false := by
  have hc : 48 ≤ c.toNat ∧ c.toNat ≤ 57 := by
    simpa [Char.isDigit, UInt32.le_iff_toNat_le] using h
  simp only [isBlank, Bool.or_eq_false_iff, Bool.and_eq_false_iff, decide_eq_false_iff_not,
    beq_eq_false_iff_ne]
  omega

/-! ## What trimming takes away -/

theorem trimEnd_append_of_blank (h : Blank trail) : trimEnd (t ++ trail) = trimEnd t := by
  unfold trimEnd
  rw [List.reverse_append,
    List.dropWhile_append_of_pos fun c hc => h c (List.mem_reverse.mp hc)]

theorem dropWhile_of_avoids {p : Char → Bool} (h : Avoids p t) : t.dropWhile p = t := by
  cases t with
  | nil => rfl
  | cons c t => rw [List.dropWhile_cons, avoids_cons.mp h]; rfl

theorem avoids_dropWhile (p : Char → Bool) (t : List Char) : Avoids p (t.dropWhile p) := by
  intro c hc
  have hfirst := List.head?_dropWhile_not p t
  rw [Option.mem_def.mp hc] at hfirst
  exact hfirst

/-- Blanks around a text are not part of what is left. -/
theorem trim_around (hlead : Blank lead) (htrail : Blank trail) :
    trim (lead ++ t ++ trail) = trim t := by
  unfold trim
  rw [List.append_assoc, List.dropWhile_append_of_pos hlead, List.dropWhile_append]
  split
  · next h =>
    -- `t` is blank itself, so that nothing is left in either case
    rw [List.isEmpty_iff.mp h, List.dropWhile_eq_nil_iff.mpr htrail]
  · exact trimEnd_append_of_blank htrail

/-! ## What trimming leaves -/

/-- Nothing is taken away where no blank stands at either end. -/
theorem trim_eq_self (hfront : Avoids isBlank t) (hback : Avoids isBlank t.reverse) :
    trim t = t := by
  unfold trim trimEnd
  rw [dropWhile_of_avoids hfront, dropWhile_of_avoids hback, List.reverse_reverse]

theorem Trimmed.trim_eq (h : Trimmed s t) : trim s = t := by
  obtain ⟨lead, trail, hlead, htrail, rfl⟩ := h.around
  rw [trim_around hlead htrail, trim_eq_self h.front h.back]

theorem exists_trimEnd_append (s : List Char) : ∃ trail, Blank trail ∧ s = trimEnd s ++ trail := by
  refine ⟨(s.reverse.takeWhile isBlank).reverse, fun c hc => ?_, ?_⟩
  · exact List.mem_takeWhile_imp (List.mem_reverse.mp hc)
  · unfold trimEnd
    rw [← List.reverse_append, List.takeWhile_append_dropWhile, List.reverse_reverse]

/-- Trimming leaves the text between the blanks. -/
theorem trimmed_trim (s : List Char) : Trimmed s (trim s) := by
  obtain ⟨trail, htrail, hsplit⟩ := exists_trimEnd_append (s.dropWhile isBlank)
  refine ⟨⟨s.takeWhile isBlank, trail, fun c => List.mem_takeWhile_imp, htrail, ?_⟩, ?_, ?_⟩
  · rw [List.append_assoc]
    unfold trim
    rw [← hsplit, List.takeWhile_append_dropWhile]
  · -- the first character that is left is the first that is no blank
    intro c hc
    refine avoids_dropWhile isBlank s c ?_
    rw [hsplit, List.head?_append]
    exact Option.mem_def.mpr (congrArg (Option.or · _) (Option.mem_def.mp hc))
  · unfold trim trimEnd
    rw [List.reverse_reverse]
    exact avoids_dropWhile isBlank _

/-- Nothing else can be left. -/
theorem trimmed_iff : Trimmed s t ↔ t = trim s :=
  ⟨fun h => h.trim_eq.symm, fun h => h ▸ trimmed_trim s⟩

example : trim "\t 5:10\u00a0\u3000".toList = "5:10".toList := by decide

end FormatRequest.Text
