import FormatRequest.Proofs.RangeSet.Insert

/-!
# Range sets as unions of spans

A range set is filled by one insertion after another. Whatever spans are inserted, and in whatever
order, the set stays canonical, and its points are those of the spans that were not refused.

Results:
1. `canonical_insertIfProper`, `mem_insertIfProper`: what one attempt to insert does.
2. `canonical_ofList`, `mem_ofList`: what any sequence of attempts does.
3. `ofList_eq_of_mem_iff`, `ofList_eq_of_perm`: the order of the spans, and how they are cut into
   pieces, does not matter.
4. `ofList_canonical_union`: the stored spans, the search for a point and the refusals, after any
   sequence of attempts.
-/

namespace FormatRequest

namespace RangeSet

variable {r : RangeSet} {s : Span} {p : UInt64}

/-! ## One attempt -/

/-- A refused span leaves the set as it is. -/
theorem insertIfProper_of_not_proper (hs : ¬ s.Proper) : r.insertIfProper s = r := by
  unfold insertIfProper
  rw [insert_eq_error hs]

/-- Only a span without points is refused. -/
theorem insert_of_proper (hs : s.Proper) : r.insert s = .ok (r.insertIfProper s) := by
  unfold insertIfProper insert
  rw [if_pos hs]

theorem canonical_insertIfProper (h : r.Canonical) : (r.insertIfProper s).Canonical := by
  by_cases hs : s.Proper
  · exact canonical_of_insert h (insert_of_proper hs)
  · rw [insertIfProper_of_not_proper hs]
    exact h

/-- A span without points adds none, so whether it was refused makes no difference to the points. -/
theorem mem_insertIfProper (h : r.Canonical) : p ∈ r.insertIfProper s ↔ p ∈ s ∨ p ∈ r := by
  by_cases hs : s.Proper
  · exact mem_of_insert h (insert_of_proper hs)
  · rw [insertIfProper_of_not_proper hs]
    have hp : ¬ p ∈ s := fun hp => hs (Span.proper_of_mem hp)
    exact ⟨.inr, fun hor => hor.resolve_left hp⟩

/-! ## A sequence of attempts -/

theorem canonical_empty : (∅ : RangeSet).Canonical :=
  ⟨fun _ ht => absurd ht List.not_mem_nil, List.Pairwise.nil⟩

theorem not_mem_empty : ¬ p ∈ (∅ : RangeSet) := by
  rintro ⟨t, ht, _⟩
  exact absurd ht List.not_mem_nil

theorem canonical_foldl (spans : List Span) (h : r.Canonical) :
    (spans.foldl insertIfProper r).Canonical := by
  induction spans generalizing r with
  | nil => exact h
  | cons s spans ih => exact ih (canonical_insertIfProper h)

theorem mem_foldl (spans : List Span) (h : r.Canonical) :
    p ∈ spans.foldl insertIfProper r ↔ p ∈ r ∨ ∃ s ∈ spans, p ∈ s := by
  induction spans generalizing r with
  | nil => simp
  | cons s spans ih =>
    rw [List.foldl_cons, ih (canonical_insertIfProper h), mem_insertIfProper h]
    simp only [List.mem_cons, exists_eq_or_imp]
    rw [← or_assoc, or_comm (a := p ∈ r)]

theorem canonical_ofList (spans : List Span) : (ofList spans).Canonical :=
  canonical_foldl spans canonical_empty

theorem mem_ofList {spans : List Span} : p ∈ ofList spans ↔ ∃ s ∈ spans, p ∈ s := by
  refine (mem_foldl spans canonical_empty).trans ?_
  exact ⟨fun hor => hor.resolve_left not_mem_empty, .inr⟩

theorem ofList_append_singleton {spans : List Span} :
    ofList (spans ++ [s]) = (ofList spans).insertIfProper s := by
  rw [ofList, ofList, List.foldl_append, List.foldl_cons, List.foldl_nil]

/-- Spans with the same points make the same set. -/
theorem ofList_eq_of_mem_iff {spans spans' : List Span}
    (h : ∀ p : UInt64, (∃ s ∈ spans, p ∈ s) ↔ ∃ s ∈ spans', p ∈ s) : ofList spans = ofList spans' := by
  refine eq_of_mem_iff (canonical_ofList spans) (canonical_ofList spans') fun p => ?_
  rw [mem_ofList, mem_ofList]
  exact h p

/-- The order of the insertions does not matter. -/
theorem ofList_eq_of_perm {spans spans' : List Span} (h : spans.Perm spans') :
    ofList spans = ofList spans' := by
  refine ofList_eq_of_mem_iff fun p => ?_
  constructor
  · rintro ⟨s, hs, hp⟩
    exact ⟨s, h.mem_iff.mp hs, hp⟩
  · rintro ⟨s, hs, hp⟩
    exact ⟨s, h.mem_iff.mpr hs, hp⟩

/-! ## The set after any sequence of attempts -/

/-- After any sequence of attempts the stored spans have points, are in order and never touch, and
the search for a point answers whether one of the accepted spans has it. The next attempt succeeds
when its span has a point; otherwise it names the span and leaves the set as it is. A set that was
kept at any moment is the set of the attempts up to that moment, so all this holds of it too. -/
theorem ofList_canonical_union (spans : List Span) :
    ((∀ t ∈ (ofList spans).toList, t.start < t.stop) ∧
      (ofList spans).toList.Pairwise fun t u => t.stop < u.start) ∧
    (∀ p, (ofList spans).contains p = true ↔
      ∃ s ∈ spans, s.start < s.stop ∧ s.start ≤ p ∧ p < s.stop) ∧
    (∀ s : Span, s.start < s.stop →
      (ofList spans).insert s = .ok (ofList (spans ++ [s]))) ∧
    ∀ s : Span, s.stop ≤ s.start →
      (ofList spans).insert s = .error (.invalidRange s) ∧
        ofList (spans ++ [s]) = ofList spans := by
  have hcanonical := canonical_ofList spans
  refine ⟨⟨hcanonical.proper, hcanonical.ordered⟩, fun p => ?_, fun s hs => ?_, fun s hs => ?_⟩
  · rw [contains_iff_mem hcanonical, mem_ofList]
    constructor
    · rintro ⟨s, hs, hp⟩
      exact ⟨s, hs, Span.proper_of_mem hp, hp⟩
    · rintro ⟨s, hs, _, hp⟩
      exact ⟨s, hs, hp⟩
  · rw [ofList_append_singleton]
    exact insert_of_proper hs
  · have hs : ¬ s.Proper := UInt64.not_lt.mpr hs
    exact ⟨insert_eq_error hs, ofList_append_singleton.trans (insertIfProper_of_not_proper hs)⟩

end RangeSet

end FormatRequest
