import FormatRequest.Proofs.Text.Delimited

/-!
# Texts written character by character

A string between quotes or in indented lines is written one character after another. What stands for
a character may depend on what stands before it: how many quotes in a row, or whether a line has
just begun. The mark that closes a text may begin like a text that goes on. It is told from one by
what the text can still hold and by what comes after the mark.

Results:
1. `Scheme.Readable.append_inj`: the text shows which characters it stands for and where it ends.
2. `Scheme.Quoting.readable`: a row of quotes closes a text with fewer quotes in a row.
-/

namespace FormatRequest.Text

variable {σ : Type} {p : Char → Bool}

/-- How characters are written in a row: in each state what stands for a character, the state that
it leads to, and what closes the text. -/
structure Scheme (σ : Type) where
  form : σ → Char → List Char
  next : σ → Char → σ
  close : σ → List Char

namespace Scheme

variable {m : Scheme σ} {P : σ → List Char → Prop} {state : σ} {cs ds s t : List Char}

/-- The text for some characters from a state on, closed at the end. -/
def write (m : Scheme σ) (state : σ) : List Char → List Char
  | [] => m.close state
  | c :: rest => m.form state c ++ m.write (m.next state c) rest

/-- What makes the texts of a scheme readable before a text that does not begin with a character of
the kind `p`. Only characters with the property `P` are written in a state. -/
structure Readable (m : Scheme σ) (P : σ → List Char → Prop) (p : Char → Bool) : Prop where
  tail : ∀ {state c cs}, P state (c :: cs) → P (m.next state c) cs
  /-- What stands for a character shows which one it is, whatever comes next. -/
  form : ∀ state, Delimited (m.form state) fun _ => false
  /-- The end of a text does not look like a text that goes on. -/
  close_ne : ∀ {state c cs s t}, P state [] → P state (c :: cs) → Avoids p s →
    m.close state ++ s ≠ m.write state (c :: cs) ++ t

theorem avoids_false (s : List Char) : Avoids (fun _ => false) s := fun _ _ => rfl

theorem Readable.append_inj (h : m.Readable P p) (hcs : P state cs) (hds : P state ds)
    (hs : Avoids p s) (ht : Avoids p t) (heq : m.write state cs ++ s = m.write state ds ++ t) :
    cs = ds ∧ s = t := by
  induction cs generalizing state ds with
  | nil =>
    cases ds with
    | nil => exact ⟨rfl, List.append_cancel_left heq⟩
    | cons d ds => exact absurd heq (h.close_ne hcs hds hs)
  | cons c cs ih =>
    cases ds with
    | nil => exact absurd heq.symm (h.close_ne hds hcs ht)
    | cons d ds =>
      simp only [write, List.append_assoc] at heq
      obtain ⟨rfl, hrest⟩ := h.form state (avoids_false _) (avoids_false _) heq
      obtain ⟨rfl, hst⟩ := ih (h.tail hcs) (h.tail hds) hrest
      exact ⟨rfl, hst⟩

/-! ## Rows of quotes

The state is the number of quotes that the text so far ends with. -/

section Quotes

variable {m : Scheme Nat} {P : Nat → List Char → Prop} {q : Char} {free run count : Nat}

/-- What makes a text readable that is closed by quotes: inside it there are fewer of them in a
row. -/
structure Quoting (m : Scheme Nat) (P : Nat → List Char → Prop) (q : Char) (free : Nat) : Prop where
  tail : ∀ {run c cs}, P run (c :: cs) → P (m.next run c) cs
  form : ∀ run, Delimited (m.form run) fun _ => false
  close_eq : ∀ run, m.close run = List.replicate (free + 1) q
  /-- Up to `free` quotes in a row stand for themselves. Anything else begins with another
  character. -/
  form_cases : ∀ {run c cs}, P run (c :: cs) →
    (m.form run c = [q] ∧ m.next run c = run + 1 ∧ run < free) ∨
      ∃ d rest, m.form run c = d :: rest ∧ d ≠ q

/-- A row of quotes that is too long for the inside of a text, those before it counted, is not the
start of one. -/
theorem Quoting.quotes_append_ne (h : m.Quoting P q free) (hP : P run cs)
    (hs : Avoids (· == q) s) (hlong : free ≤ count + run) (hcount : count ≤ free)
    (hnil : cs = [] → count < free) :
    List.replicate (count + 1) q ++ s ≠ m.write run cs ++ t := by
  induction cs generalizing run count with
  | nil =>
    -- the text ends, and its closing row is longer than the other row
    intro heq
    obtain ⟨more, rfl⟩ := Nat.exists_eq_add_of_lt (hnil rfl)
    have hmore : List.replicate (count + more + 1 + 1) q =
        List.replicate (count + 1) q ++ q :: List.replicate more q := by
      rw [← List.replicate_succ, List.replicate_append_replicate]
      congr 1
      omega
    rw [write, h.close_eq, hmore, List.append_assoc, List.append_cancel_left_eq,
      List.cons_append] at heq
    exact hs.not_cons_append (beq_self_eq_true q) heq
  | cons c cs ih =>
    intro heq
    rw [write, List.append_assoc, List.replicate_succ, List.cons_append] at heq
    rcases h.form_cases hP with ⟨hform, hnext, hfree⟩ | ⟨d, rest, hform, hd⟩
    · have hP' := h.tail hP
      rw [hform, List.singleton_append, List.cons_inj_right, hnext] at heq
      rw [hnext] at hP'
      obtain ⟨count, rfl⟩ := Nat.exists_eq_add_one_of_ne_zero (n := count) (by omega)
      exact ih hP' (by omega) (by omega) (fun _ => by omega) heq
    · rw [hform, List.cons_append] at heq
      exact hd (List.head_eq_of_cons_eq heq).symm

theorem Quoting.readable (h : m.Quoting P q free) : m.Readable P (· == q) where
  tail := h.tail
  form := h.form
  close_ne := by
    intro run c cs s t _ hP hs
    rw [h.close_eq]
    exact h.quotes_append_ne hP hs (Nat.le_add_right _ _) (Nat.le_refl _) nofun

/-- A text that is closed by a single quote does not begin with two of them, unless it is followed
by one. -/
theorem Quoting.write_append_ne (h : m.Quoting P q 0) (hP : P run cs) (hs : Avoids (· == q) s) :
    m.write run cs ++ s ≠ q :: q :: t := by
  intro heq
  cases cs with
  | nil =>
    rw [write, h.close_eq] at heq
    exact hs.not_cons_append (beq_self_eq_true q) (List.cons.inj heq).2
  | cons c cs =>
    rcases h.form_cases hP with ⟨_, _, hfree⟩ | ⟨d, rest, hform, hd⟩
    · exact Nat.not_lt_zero _ hfree
    · rw [write, hform] at heq
      exact hd (List.head_eq_of_cons_eq heq)

end Quotes

end Scheme

end FormatRequest.Text
