import Mathlib.Data.List.Basic

/-!
# Forms that show where they end

The values of a report or of a message are written one after another. A reader can tell them apart
if each of them shows where it ends, at least when the character after it is none that could belong
to it. Such forms can be put together: what is made of them shows where it ends too, and different
values are written differently.

Results:
1. `append_inj_of_prefix_free`, `append_mark_inj`: a few fixed words, and words before a mark.
2. `Delimited.of_reader`: forms that are read back.
3. `Delimited.prepend`, `Delimited.append`, `Delimited.pair`: forms with fixed text around them and
   between them.
4. `Delimited.flatMap`, `Delimited.intercalate`: lists of forms.
5. `Delimited.injective`: the form of a value shows which value it is.
-/

namespace FormatRequest.Text

variable {α β γ : Type _}

/-- The text does not begin with a character of the kind `p`. -/
def Avoids (p : Char → Bool) (s : List Char) : Prop := ∀ c ∈ s.head?, p c = false

/-- `Delimited form p`: before a text that does not begin with a character of the kind `p`, the form
of a value shows which value it is and where it ends. -/
def Delimited (form : α → List Char) (p : Char → Bool) : Prop :=
  ∀ ⦃a b : α⦄ ⦃s t : List Char⦄,
    Avoids p s → Avoids p t → form a ++ s = form b ++ t → a = b ∧ s = t

theorem avoids_nil {p : Char → Bool} : Avoids p [] := fun _ h => nomatch h

theorem avoids_cons {p : Char → Bool} {c : Char} {s : List Char} :
    Avoids p (c :: s) ↔ p c = false := by
  simp [Avoids]

/-- The text between forms and the text that follows them are told apart by their first
character. -/
theorem Avoids.not_cons_append {p : Char → Bool} {c : Char} {s t : List Char} (h : Avoids p s)
    (hc : p c = true) : s ≠ c :: t := by
  rintro rfl
  rw [avoids_cons.mp h] at hc
  exact Bool.noConfusion hc

theorem Avoids.mono {p q : Char → Bool} {s : List Char} (h : Avoids q s)
    (hpq : ∀ c, p c = true → q c = true) : Avoids p s := fun c hc =>
  Bool.eq_false_iff.mpr fun hp => Bool.false_ne_true ((h c hc).symm.trans (hpq c hp))

/-- Forms of which none begins with another can be told apart before anything. -/
theorem append_inj_of_prefix_free {form : α → List Char} (h : ∀ a b, form a <+: form b → a = b)
    {a b : α} {s t : List Char} (hab : form a ++ s = form b ++ t) : a = b ∧ s = t := by
  have hboth : form a <+: form b ++ t := hab ▸ List.prefix_append _ _
  obtain rfl : a = b := by
    rcases List.prefix_or_prefix_of_prefix hboth (List.prefix_append _ _) with hpre | hpre
    · exact h a b hpre
    · exact (h b a hpre).symm
  exact ⟨rfl, List.append_cancel_left hab⟩

/-- A mark shows where a text without it ends. -/
theorem append_mark_inj {c : Char} {x y s t : List Char} (hx : c ∉ x) (hy : c ∉ y)
    (h : x ++ c :: s = y ++ c :: t) : x = y ∧ s = t := by
  induction x generalizing y with
  | nil =>
    cases y with
    | nil => exact ⟨rfl, List.tail_eq_of_cons_eq h⟩
    | cons d y => exact absurd (List.head_eq_of_cons_eq h ▸ List.mem_cons_self) hy
  | cons d x ih =>
    cases y with
    | nil => exact absurd (List.head_eq_of_cons_eq h ▸ List.mem_cons_self) hx
    | cons e y =>
      obtain ⟨rfl, hrest⟩ := List.cons.inj h
      obtain ⟨rfl, hst⟩ :=
        ih (List.not_mem_of_not_mem_cons hx) (List.not_mem_of_not_mem_cons hy) hrest
      exact ⟨rfl, hst⟩

namespace Delimited

variable {f : α → List Char} {g : β → List Char} {p q : Char → Bool}

theorem injective (h : Delimited f p) : Function.Injective f := by
  intro a b hab
  exact (h avoids_nil avoids_nil (congrArg (· ++ []) hab)).1

/-- A form that a reader takes off the front of every text shows where it ends. -/
theorem of_reader (read : List Char → Option (α × List Char))
    (h : ∀ a rest, read (f a ++ rest) = some (a, rest)) : Delimited f p := by
  intro a b s t _ _ hab
  have hread := h a s
  rw [hab, h b t] at hread
  obtain ⟨hba, hts⟩ := Prod.mk.inj (Option.some.inj hread)
  exact ⟨hba.symm, hts.symm⟩

theorem singleton : Delimited (fun c : Char => [c]) p := fun _ _ _ _ _ _ hab => List.cons.inj hab

theorem mono (h : Delimited f p) (hpq : ∀ c, p c = true → q c = true) : Delimited f q :=
  fun _ _ _ _ hs ht hab => h (hs.mono hpq) (ht.mono hpq) hab

theorem comap (h : Delimited f p) {u : β → α} (hu : Function.Injective u) :
    Delimited (fun b => f (u b)) p := by
  intro a b s t hs ht hab
  obtain ⟨hvalue, hst⟩ := h hs ht hab
  exact ⟨hu hvalue, hst⟩

theorem prepend (h : Delimited f p) (lead : List Char) : Delimited (fun a => lead ++ f a) p := by
  intro a b s t hs ht hab
  rw [List.append_assoc, List.append_assoc, List.append_cancel_left_eq] at hab
  exact h hs ht hab

/-- A fixed text closes the form, so that anything may follow. -/
theorem append (h : Delimited f p) {c : Char} (hc : p c = false) (rest : List Char) :
    Delimited (fun a => f a ++ c :: rest) q := by
  intro a b s t _ _ hab
  simp only [List.append_assoc, List.cons_append] at hab
  obtain ⟨hvalue, hrest⟩ := h (avoids_cons.mpr hc) (avoids_cons.mpr hc) hab
  rw [List.cons_inj_right, List.append_cancel_left_eq] at hrest
  exact ⟨hvalue, hrest⟩

/-- Two parts of a value with a fixed text between them, where the parts determine the value. -/
theorem pair (hf : Delimited f p) (hg : Delimited g q) {c : Char} (hc : p c = false)
    (between : List Char) {u : γ → α} {v : γ → β} (hext : ∀ x y, u x = u y → v x = v y → x = y) :
    Delimited (fun x => f (u x) ++ c :: between ++ g (v x)) q := by
  intro x y s t hs ht hxy
  simp only [List.append_assoc, List.cons_append] at hxy
  obtain ⟨hu, hrest⟩ := hf (avoids_cons.mpr hc) (avoids_cons.mpr hc) hxy
  rw [List.cons_inj_right, List.append_cancel_left_eq] at hrest
  obtain ⟨hv, hst⟩ := hg hs ht hrest
  exact ⟨hext x y hu hv, hst⟩

/-! ## Lists -/

section Lists

variable {c : Char} (separator : List Char)

theorem avoids_flatMap_append (hc : p c = false) (as : List α) {s : List Char}
    (hs : Avoids (fun d => p d || d == c) s) :
    Avoids p ((as.flatMap fun a => c :: separator ++ f a) ++ s) := by
  cases as with
  | nil => exact fun d hd => (Bool.or_eq_false_iff.mp (hs d hd)).1
  | cons a as => exact avoids_cons.mpr hc

/-- A list with a separator before each element. The separator shows that there is another one. -/
theorem flatMap (h : Delimited f p) (hc : p c = false) :
    Delimited (fun as : List α => as.flatMap fun a => c :: separator ++ f a)
      (fun d => p d || d == c) := by
  intro as bs s t hs ht hab
  have hmark : (p c || c == c) = true := by simp
  induction as generalizing bs with
  | nil =>
    cases bs with
    | nil => exact ⟨rfl, hab⟩
    | cons b bs => exact absurd hab (hs.not_cons_append hmark)
  | cons a as ih =>
    cases bs with
    | nil => exact absurd hab.symm (ht.not_cons_append hmark)
    | cons b bs =>
      simp only [List.flatMap_cons, List.append_assoc, List.cons_append, List.cons_inj_right,
        List.append_cancel_left_eq] at hab
      obtain ⟨rfl, hrest⟩ := h (avoids_flatMap_append separator hc as hs)
        (avoids_flatMap_append separator hc bs ht) hab
      obtain ⟨rfl, hst⟩ := ih hrest
      exact ⟨rfl, hst⟩

theorem intercalate_cons (separator : List Char) (a : List Char) (as : List (List Char)) :
    separator.intercalate (a :: as) = a ++ as.flatMap (separator ++ ·) := by
  induction as generalizing a with
  | nil => simp
  | cons b as ih => rw [List.intercalate_cons_cons, ih, List.flatMap_cons, List.append_assoc]; simp

/-- A list with a separator between each two elements. That there is a first element shows in its
first character. -/
theorem intercalate (h : Delimited f p) (hc : p c = false)
    (hfirst : ∀ a, ∃ d s, f a = d :: s ∧ q d = true) :
    Delimited (fun as : List α => (c :: separator).intercalate (as.map f))
      (fun d => p d || d == c || q d) := by
  intro as bs s t hs ht hab
  have hs' : Avoids (fun d => p d || d == c) s := fun d hd => (Bool.or_eq_false_iff.mp (hs d hd)).1
  have ht' : Avoids (fun d => p d || d == c) t := fun d hd => (Bool.or_eq_false_iff.mp (ht d hd)).1
  cases as with
  | nil =>
    cases bs with
    | nil => exact ⟨rfl, hab⟩
    | cons b bs =>
      obtain ⟨d, rest, hb, hd⟩ := hfirst b
      simp only [List.map_cons, intercalate_cons, hb] at hab
      exact absurd hab (hs.not_cons_append (by simp [hd]))
  | cons a as =>
    cases bs with
    | nil =>
      obtain ⟨d, rest, ha, hd⟩ := hfirst a
      simp only [List.map_cons, intercalate_cons, ha] at hab
      exact absurd hab.symm (ht.not_cons_append (by simp [hd]))
    | cons b bs =>
      simp only [List.map_cons, intercalate_cons, List.append_assoc, List.flatMap_map] at hab
      obtain ⟨rfl, hrest⟩ := h (avoids_flatMap_append separator hc as hs')
        (avoids_flatMap_append separator hc bs ht') hab
      obtain ⟨rfl, hst⟩ := h.flatMap separator hc hs' ht' hrest
      exact ⟨rfl, hst⟩

end Lists

end Delimited

end FormatRequest.Text
