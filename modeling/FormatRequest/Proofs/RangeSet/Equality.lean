import Mathlib.Data.List.Forall2
import Mathlib.Tactic.TFAE
import FormatRequest.Proofs.Decimal
import FormatRequest.Proofs.RangeSet.Union

/-!
# Equality of range sets

However a set came about, it is canonical, so two sets with the same points are the same set. Both
ways of writing a set down show which spans it has: numbers are written in digits, and what stands
between them is no digit. So sets that are written alike are the same set as well.

Results:
1. `text_injective`, `compact_injective`: different sets are written differently, in both forms.
2. `obtained_iff_canonical`: the sets that can be made are the canonical ones.
3. `Splits.mem_iff`: the pieces of a span have the points of the span.
4. `obtained_eq_tfae`: points, equality and the two texts of sets that were made in any way.
-/

namespace FormatRequest

/-! ## Sets in writing -/

namespace Span

theorem delimited_text : Text.Delimited text Char.isDigit :=
  Decimal.delimited_ofWord.pair Decimal.delimited_ofWord (by decide) ['.'] eq_of_bounds

theorem exists_digit_text (s : Span) : ∃ c rest, s.text = c :: rest ∧ c.isDigit = true := by
  obtain ⟨c, rest, hstart, hc⟩ := Decimal.exists_digit_cons (n := s.start)
  refine ⟨c, rest ++ ['.', '.'] ++ Decimal.ofWord s.stop, ?_, hc⟩
  unfold text
  rw [hstart]
  rfl

/-- `s.pairText`: the pair `[start,stop]`. -/
def pairText (s : Span) : List Char :=
  ['['] ++ (Decimal.ofWord s.start ++ [','] ++ Decimal.ofWord s.stop ++ [']'])

theorem delimited_pairText : Text.Delimited pairText fun _ => false :=
  ((Decimal.delimited_ofWord.pair Decimal.delimited_ofWord (by decide) [] eq_of_bounds).append
    (by decide) []).prepend ['[']

end Span

namespace RangeSet

variable {r r' : RangeSet} {p : UInt64}

theorem eq_empty_of_isEmpty (h : r.isEmpty = true) : r = ∅ :=
  eq_of_toList_eq (congrArg Array.toList (Array.isEmpty_iff.mp h))

theorem compact_eq : r.compact = ['['] ++ [','].intercalate (r.toList.map Span.pairText) ++ [']'] :=
  rfl

theorem text_injective : Function.Injective text := by
  intro r r' h
  have hlist := Span.delimited_text.intercalate (c := ',') (q := Char.isDigit) [' '] (by decide)
    Span.exists_digit_text
  exact eq_of_toList_eq (hlist.injective h)

theorem compact_injective : Function.Injective compact := by
  intro r r' h
  have hlist := Span.delimited_pairText.intercalate (c := ',') (q := (· == '[')) [] rfl
    fun s => ⟨'[', _, rfl, rfl⟩
  have hcompact := (hlist.prepend ['[']).append (q := fun _ => false) (c := ']') rfl []
  rw [compact_eq, compact_eq] at h
  exact eq_of_toList_eq (hcompact.injective h)

/-! ## Where sets come from -/

/-- `r.Obtained`: the set was made in one of the ways there are. It is the empty set, or a span was
added to an obtained set, or it was collected from spans. A span that is refused leaves the set as
it is, and a set that is kept or copied is the set itself. -/
inductive Obtained : RangeSet → Prop
  | empty : Obtained ∅
  | insert {r r' : RangeSet} {s : Span} : Obtained r → r.insert s = .ok r' → Obtained r'
  | collect (spans : List Span) : Obtained (ofList spans)

theorem Obtained.canonical (h : r.Obtained) : r.Canonical := by
  induction h with
  | empty => exact canonical_empty
  | insert _ hr ih => exact canonical_of_insert ih hr
  | collect spans => exact canonical_ofList spans

theorem ofList_toList (h : r.Canonical) : ofList r.toList = r :=
  eq_of_mem_iff (canonical_ofList _) h fun _ => mem_ofList

theorem obtained_iff_canonical : r.Obtained ↔ r.Canonical := by
  refine ⟨Obtained.canonical, fun h => ?_⟩
  rw [← ofList_toList h]
  exact .collect _

theorem contains_eq_iff (h : r.Canonical) (h' : r'.Canonical) :
    (∀ p, r.contains p = r'.contains p) ↔ ∀ p, p ∈ r ↔ p ∈ r' := by
  refine forall_congr' fun p => ?_
  rw [Bool.eq_iff_iff, contains_iff_mem h, contains_iff_mem h']

end RangeSet

/-! ## The same points in other pieces -/

/-- `s.Splits pieces`: the span is cut into pieces, again and again, where the two pieces of a cut
overlap or touch. -/
inductive Span.Splits : Span → List Span → Prop
  | whole (s : Span) : Splits s [s]
  | cut {a b c d : UInt64} {pieces more : List Span} (hab : a ≤ b) (hbc : b ≤ c) (hcd : c ≤ d) :
      Splits ⟨a, c⟩ pieces → Splits ⟨b, d⟩ more → Splits ⟨a, d⟩ (pieces ++ more)

theorem Span.Splits.mem_iff {s : Span} {pieces : List Span} (h : s.Splits pieces) {p : UInt64} :
    p ∈ s ↔ ∃ t ∈ pieces, p ∈ t := by
  induction h with
  | whole s => simp
  | @cut a b c d pieces more hab hbc hcd _ _ ih ih' =>
    simp only [List.mem_append, or_and_right, exists_or]
    rw [← ih, ← ih', Span.mem_iff, Span.mem_iff, Span.mem_iff]
    rw [UInt64.le_iff_toNat_le] at hab hbc hcd
    show a.toNat ≤ _ ∧ _ < d.toNat ↔ (a.toNat ≤ _ ∧ _ < c.toNat) ∨ (b.toNat ≤ _ ∧ _ < d.toNat)
    omega

/-- `Recut spans others`: `others` are pieces of `spans`, in any order and each any number of times.
Spans without points may be among them or be left out. -/
def Recut (spans others : List Span) : Prop :=
  ∃ pieces, List.Forall₂ Span.Splits spans pieces ∧
    ∀ s : Span, s.Proper → (s ∈ others ↔ s ∈ pieces.flatten)

theorem mem_flatten_iff {spans : List Span} {pieces : List (List Span)}
    (h : List.Forall₂ Span.Splits spans pieces) {p : UInt64} :
    (∃ t ∈ pieces.flatten, p ∈ t) ↔ ∃ s ∈ spans, p ∈ s := by
  induction h with
  | nil => simp
  | cons hs _ ih =>
    simp only [List.flatten_cons, List.mem_append, List.mem_cons, or_and_right, exists_or,
      exists_eq_left]
    rw [ih, ← hs.mem_iff]

theorem Recut.mem_iff {spans others : List Span} (h : Recut spans others) {p : UInt64} :
    (∃ s ∈ others, p ∈ s) ↔ ∃ s ∈ spans, p ∈ s := by
  obtain ⟨pieces, hpieces, hothers⟩ := h
  rw [← mem_flatten_iff hpieces]
  refine exists_congr fun s => and_congr_left fun hp => ?_
  exact hothers s (Span.proper_of_mem hp)

namespace RangeSet

variable {r r' : RangeSet}

theorem foldl_eq_of_recut (h : r.Canonical) {spans others : List Span} (hcut : Recut spans others) :
    others.foldl insertIfProper r = spans.foldl insertIfProper r := by
  refine eq_of_mem_iff (canonical_foldl others h) (canonical_foldl spans h) fun p => ?_
  rw [mem_foldl others h, mem_foldl spans h, hcut.mem_iff]

/-- Sets that were made in any way have the same points exactly when they are equal, and when either
of their texts is equal. So a set is made again from its own spans, and it makes no difference in
which order, how often and in which pieces spans are added. -/
theorem obtained_eq_tfae (h : r.Obtained) (h' : r'.Obtained) :
    [∀ p, r.contains p = r'.contains p, (r == r') = true, r.text = r'.text,
      r.compact = r'.compact].TFAE ∧
    ofList r.toList = r ∧
    ∀ spans others, Recut spans others →
      others.foldl insertIfProper r = spans.foldl insertIfProper r := by
  refine ⟨?_, ofList_toList h.canonical, fun spans others => foldl_eq_of_recut h.canonical⟩
  tfae_have 1 → 2 := by
    intro hpoints
    rw [contains_eq_iff h.canonical h'.canonical] at hpoints
    exact beq_iff_eq.mpr (eq_of_mem_iff h.canonical h'.canonical hpoints)
  tfae_have 2 → 1 := by
    intro heq p
    rw [beq_iff_eq.mp heq]
  tfae_have 2 → 3 := fun heq => congrArg text (beq_iff_eq.mp heq)
  tfae_have 3 → 2 := fun htext => beq_iff_eq.mpr (text_injective htext)
  tfae_have 2 → 4 := fun heq => congrArg compact (beq_iff_eq.mp heq)
  tfae_have 4 → 2 := fun hcompact => beq_iff_eq.mpr (compact_injective hcompact)
  tfae_finish

/-- Two ways to make one set: from pieces that overlap, touch or have no points, and by adding the
whole to what was collected before. -/
theorem texts_of_pieces :
    (ofList [⟨3, 6⟩, ⟨9, 9⟩, ⟨1, 3⟩, ⟨2, 4⟩]).Obtained ∧
      ((∅ : RangeSet).insertIfProper ⟨1, 6⟩).Obtained ∧
      (ofList [⟨3, 6⟩, ⟨9, 9⟩, ⟨1, 3⟩, ⟨2, 4⟩]).compact =
        ((∅ : RangeSet).insertIfProper ⟨1, 6⟩).compact := by
  have h : (ofList [⟨3, 6⟩, ⟨9, 9⟩, ⟨1, 3⟩, ⟨2, 4⟩]).Obtained := .collect _
  have h' : ((∅ : RangeSet).insertIfProper ⟨1, 6⟩).Obtained :=
    .insert .empty (insert_of_proper (by decide))
  exact ⟨h, h', ((obtained_eq_tfae h h').1.out 1 3).mp (by decide +kernel)⟩

end RangeSet

end FormatRequest
