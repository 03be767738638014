import Mathlib.Data.List.Pairwise
import Mathlib.Data.List.Perm.Subperm
import Mathlib.Order.Bounds.Defs
import FormatRequest.Proofs.RangeSet.Union

/-!
# No fewer spans would do

A point set is the union of spans in many ways. The stored way has the fewest spans: the point at
which a stored span stops is missing from the set, so a span of another way that has the starts of
two stored spans would have a point too many. Every stored span therefore has a span of the other way
for itself.

Results:
1. `stop_not_mem`: the missing points.
2. `size_le_length`: a span of its own for every stored span.
3. `accepted_eq_length_filter`: how many of a sequence of attempts succeed.
4. `ofList_size_least`: the number of stored spans after any sequence of attempts.
-/

namespace FormatRequest

/-- Of two separated spans one lies before the other. -/
theorem Span.Separated.eq_or_before {s t : Span} {spans : List Span} (h : Separated spans)
    (hs : s ∈ spans) (ht : t ∈ spans) : s = t ∨ s.Before t ∨ t.Before s := by
  have hsymm : Std.Symm fun s t : Span => s = t ∨ s.Before t ∨ t.Before s :=
    ⟨fun s t hst => hst.imp Eq.symm Or.symm⟩
  have hpairs : spans.Pairwise fun s t => s = t ∨ s.Before t ∨ t.Before s :=
    h.ordered.imp fun hst => .inr (.inl hst)
  exact hpairs.forall_of_forall (fun _ _ => .inl rfl) hs ht

namespace RangeSet

variable {r : RangeSet} {s t : Span} {spans : List Span}

/-! ## Missing points -/

/-- The point after a stored span is in no stored span, since they do not touch. -/
theorem stop_not_mem (h : r.Canonical) (hs : s ∈ r.toList) : ¬ s.stop ∈ r := by
  rintro ⟨t, ht, hstart, hstop⟩
  rcases h.eq_or_before hs ht with rfl | hst | hts
  · exact UInt64.lt_irrefl _ hstop
  · exact UInt64.not_le.mpr hst hstart
  · -- `t` has stopped even before `s` starts
    have hbefore : t.stop < s.stop := UInt64.lt_trans hts (h.proper s hs)
    exact UInt64.lt_irrefl _ (UInt64.lt_trans hstop hbefore)

/-- A span without a missing point has the start of one stored span at most. -/
theorem start_not_mem_of_before (h : r.Canonical) {u : Span} (hu : ∀ p ∈ u, p ∈ r)
    (hs : s ∈ r.toList) (hst : s.Before t) (hsu : s.start ∈ u) : ¬ t.start ∈ u := by
  intro htu
  have hle : s.start ≤ s.stop := UInt64.le_of_lt (h.proper s hs)
  have hstop : s.stop ∈ u :=
    ⟨UInt64.le_trans hsu.1 hle, UInt64.lt_trans hst htu.2⟩
  exact stop_not_mem h hs (hu s.stop hstop)

/-! ## Spans that make up the set -/

/-- `r.IsUnion spans`: the points of the set are those of the spans. These may be in any order and may
overlap. -/
def IsUnion (r : RangeSet) (spans : List Span) : Prop :=
  ∀ p, r.contains p = true ↔ ∃ s ∈ spans, p ∈ s

theorem isUnion_iff (h : r.Canonical) : r.IsUnion spans ↔ ∀ p, p ∈ r ↔ ∃ s ∈ spans, p ∈ s :=
  forall_congr' fun _ => iff_congr (contains_iff_mem h) Iff.rfl

theorem isUnion_toList (h : r.Canonical) : r.IsUnion r.toList :=
  (isUnion_iff h).mpr fun _ => Iff.rfl

theorem size_le_length (h : r.Canonical) (hunion : r.IsUnion spans) : r.size ≤ spans.length := by
  rw [isUnion_iff h] at hunion
  have hstart : ∀ s ∈ r.toList, ∃ u ∈ spans, s.start ∈ u := fun s hs =>
    (hunion s.start).mp ⟨s, hs, UInt64.le_refl _, h.proper s hs⟩
  choose! own hown hmem using hstart
  have hsub : r.toList.map own ⊆ spans := by
    intro u hu
    obtain ⟨s, hs, rfl⟩ := List.mem_map.mp hu
    exact hown s hs
  have hnodup : (r.toList.map own).Nodup := by
    refine List.pairwise_map.mpr (h.ordered.imp_of_mem fun {s t} hs ht hst hsame => ?_)
    have hwithin : ∀ p ∈ own s, p ∈ r := fun p hp => (hunion p).mpr ⟨own s, hown s hs, hp⟩
    exact start_not_mem_of_before h hwithin hs hst (hmem s hs) (hsame ▸ hmem t ht)
  calc
    r.size = (r.toList.map own).length := (List.length_map own).symm
    _ ≤ spans.length := (List.subperm_of_subset hnodup hsub).length_le

theorem size_eq_zero_iff (h : r.Canonical) : r.size = 0 ↔ ∀ p, r.contains p = false := by
  constructor
  · intro hsize p
    refine Bool.eq_false_iff.mpr fun hp => ?_
    obtain ⟨s, hs, _⟩ := (isUnion_toList h p).mp hp
    have hnil : r.toList = [] := List.length_eq_zero_iff.mp hsize
    rw [hnil] at hs
    exact List.not_mem_nil hs
  · intro hnone
    have hunion : r.IsUnion [] := fun p => by simp [hnone p]
    exact Nat.le_zero.mp (size_le_length h hunion)

/-! ## Attempts that succeed -/

/-- How many of the spans are accepted when they are inserted one after another. -/
def accepted (r : RangeSet) : List Span → Nat
  | [] => 0
  | s :: spans =>
    match r.insert s with
    | .ok r' => r'.accepted spans + 1
    | .error _ => r.accepted spans

/-- The set does not matter: accepted are the spans with points. -/
theorem accepted_eq_length_filter (r : RangeSet) (spans : List Span) :
    r.accepted spans = (spans.filter (·.Proper)).length := by
  induction spans generalizing r with
  | nil => rfl
  | cons s spans ih =>
    unfold accepted
    by_cases hs : s.Proper
    · rw [insert_of_proper hs, List.filter_cons_of_pos (by simpa using hs), List.length_cons]
      exact congrArg (· + 1) (ih _)
    · rw [insert_eq_error hs, List.filter_cons_of_neg (by simpa using hs)]
      exact ih r

/-- A set is the union of the spans that were accepted. -/
theorem isUnion_filter_proper (spans : List Span) :
    (ofList spans).IsUnion (spans.filter (·.Proper)) := by
  refine (isUnion_iff (canonical_ofList spans)).mpr fun p => mem_ofList.trans ?_
  refine exists_congr fun s => ?_
  simp only [List.mem_filter, decide_eq_true_eq]
  exact ⟨fun ⟨hs, hp⟩ => ⟨⟨hs, Span.proper_of_mem hp⟩, hp⟩, fun ⟨⟨hs, _⟩, hp⟩ => ⟨hs, hp⟩⟩

/-- After any sequence of attempts the number of stored spans is the least number of spans that make
up the set. In particular there are no more stored spans than attempts that succeeded, and there is
none exactly if the set has no point. -/
theorem ofList_size_least (calls : List Span) :
    IsLeast {n | ∃ spans, (ofList calls).IsUnion spans ∧ spans.length = n} (ofList calls).size ∧
    (ofList calls).size ≤ (∅ : RangeSet).accepted calls ∧
    ((ofList calls).size = 0 ↔ ∀ p, (ofList calls).contains p = false) := by
  have hcanonical := canonical_ofList calls
  refine ⟨⟨⟨_, isUnion_toList hcanonical, rfl⟩, ?_⟩, ?_, size_eq_zero_iff hcanonical⟩
  · rintro n ⟨spans, hunion, rfl⟩
    exact size_le_length hcanonical hunion
  · rw [accepted_eq_length_filter]
    exact size_le_length hcanonical (isUnion_filter_proper calls)

end RangeSet

end FormatRequest
