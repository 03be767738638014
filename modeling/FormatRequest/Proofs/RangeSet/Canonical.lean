import FormatRequest.Proofs.RangeSet.PartitionPoint
import FormatRequest.RangeSet

/-!
# The canonical form of a range set

The spans of a range set are kept sorted, with a gap between any two of them. The order of the spans
is then also the order of their starts and of their stops, which is what lets points and spans be
searched for by halving.

Results:
1. `toList_eq_append`: a span divides a canonical set into the spans before it, the spans that touch
   it and the spans after it.
2. `contains_iff_mem`: the search for a point finds it in whichever span it lies.
3. `eq_of_mem_iff`: a point set has one canonical form.
-/

namespace FormatRequest

/-! ## Spans by the numbers of their points -/

namespace Span

variable {s t u : Span} {p : UInt64}

/-- `s.Before t`: `s` ends before `t` starts, and a point between them lies in neither. -/
def Before (s t : Span) : Prop := s.stop < t.start

instance (s t : Span) : Decidable (s.Before t) := inferInstanceAs (Decidable (s.stop < t.start))

/-- `s.Touches t`: the spans overlap, or one starts where the other ends. -/
def Touches (s t : Span) : Prop := ¬ s.Before t ∧ ¬ t.Before s

instance (s t : Span) : Decidable (s.Touches t) :=
  inferInstanceAs (Decidable (¬ s.Before t ∧ ¬ t.Before s))

theorem eq_of_bounds (s t : Span) (hstart : s.start = t.start) (hstop : s.stop = t.stop) :
    s = t := by
  cases s
  cases t
  simp only [mk.injEq]
  exact ⟨hstart, hstop⟩

theorem proper_iff : s.Proper ↔ s.start.toNat < s.stop.toNat := UInt64.lt_iff_toNat_lt

theorem before_iff : s.Before t ↔ s.stop.toNat < t.start.toNat := UInt64.lt_iff_toNat_lt

theorem mem_iff : p ∈ s ↔ s.start.toNat ≤ p.toNat ∧ p.toNat < s.stop.toNat := Iff.rfl

theorem touches_iff :
    s.Touches t ↔ t.start.toNat ≤ s.stop.toNat ∧ s.start.toNat ≤ t.stop.toNat := by
  unfold Touches
  rw [before_iff, before_iff, Nat.not_lt, Nat.not_lt]

theorem start_hull : (s.hull t).start.toNat = min s.start.toNat t.start.toNat := by
  show (if s.start ≤ t.start then s.start else t.start).toNat = _
  split
  · next h => exact (Nat.min_eq_left h).symm
  · next h => exact (Nat.min_eq_right (Nat.le_of_not_le h)).symm

theorem stop_hull : (s.hull t).stop.toNat = max s.stop.toNat t.stop.toNat := by
  show (if s.stop ≤ t.stop then t.stop else s.stop).toNat = _
  split
  · next h => exact (Nat.max_eq_right h).symm
  · next h => exact (Nat.max_eq_left (Nat.le_of_not_le h)).symm

theorem proper_of_mem (hp : p ∈ s) : s.Proper := UInt64.lt_of_le_of_lt hp.1 hp.2

/-- What lies before a span lies before all that the span lies before. -/
theorem Before.trans (hst : s.Before t) (ht : t.Proper) (htu : t.Before u) : s.Before u := by
  rw [before_iff] at *
  rw [proper_iff] at ht
  omega

theorem Before.asymm (hs : s.Proper) (ht : t.Proper) (h : s.Before t) : ¬ t.Before s := by
  rw [before_iff] at *
  rw [proper_iff] at hs ht
  omega

/-! ## Separated spans -/

/-- Every span has a point, and each lies before all that follow it. -/
structure Separated (spans : List Span) : Prop where
  proper : ∀ t ∈ spans, t.Proper
  ordered : spans.Pairwise Before

namespace Separated

variable {spans more : List Span}

theorem tail (h : Separated (s :: spans)) : Separated spans :=
  ⟨fun t ht => h.proper t (List.mem_cons_of_mem s ht), h.ordered.tail⟩

theorem head_proper (h : Separated (s :: spans)) : s.Proper := h.proper s List.mem_cons_self

theorem head_before (h : Separated (s :: spans)) (ht : t ∈ spans) : s.Before t :=
  (List.pairwise_cons.mp h.ordered).1 t ht

theorem filter (h : Separated spans) (p : Span → Bool) : Separated (spans.filter p) :=
  ⟨fun t ht => h.proper t (List.mem_filter.mp ht).1, h.ordered.filter p⟩

theorem append_right (h : Separated (spans ++ more)) : Separated more :=
  ⟨fun t ht => h.proper t (List.mem_append_right spans ht),
    (List.pairwise_append.mp h.ordered).2.1⟩

/-- None of the spans starts before the first. -/
theorem start_le (h : Separated (s :: spans)) (ht : t ∈ s :: spans) :
    s.start.toNat ≤ t.start.toNat := by
  rcases List.mem_cons.mp ht with rfl | ht
  · exact Nat.le_refl _
  · have hs := proper_iff.mp h.head_proper
    have hst := before_iff.mp (h.head_before ht)
    omega

end Separated

end Span

namespace RangeSet

variable {r : RangeSet} {s : Span} {p : UInt64}

/-- `p ∈ r`: the point lies in one of the spans. -/
instance : Membership UInt64 RangeSet := ⟨fun r p => ∃ t ∈ r.toList, p ∈ t⟩

/-- The spans of the set are separated. -/
def Canonical (r : RangeSet) : Prop := Span.Separated r.toList

/-! ## How a span divides a set -/

/-- The spans that lie before `s`. -/
def before (r : RangeSet) (s : Span) : List Span := r.toList.filter (·.Before s)

/-- The spans that overlap or touch `s`. -/
def touching (r : RangeSet) (s : Span) : List Span := r.toList.filter (·.Touches s)

/-- The spans that `s` lies before. -/
def after (r : RangeSet) (s : Span) : List Span := r.toList.filter (s.Before ·)

/-- The three groups make up the set, in this order. -/
theorem toList_eq_append (h : r.Canonical) (hs : s.Proper) :
    r.toList = r.before s ++ (r.touching s ++ r.after s) := by
  obtain ⟨hproper, hordered⟩ := h
  have hbefore : r.toList.Pairwise fun t u => decide (u.Before s) → decide (t.Before s) := by
    refine hordered.imp_of_mem fun {t u} _ hu htu hus => ?_
    simp only [decide_eq_true_eq] at hus ⊢
    exact htu.trans (hproper u hu) hus
  have hupto : r.toList.Pairwise fun t u => (!decide (s.Before u)) → !decide (s.Before t) := by
    refine hordered.imp_of_mem fun {t u} ht _ htu hsu => ?_
    simp only [Bool.not_eq_true', decide_eq_false_iff_not] at hsu ⊢
    exact fun hst => hsu (hst.trans (hproper t ht) htu)
  -- cut after the spans before `s`, and then cut what is left before the spans after it
  have hsplit := filter_append_filter_not hbefore
  have hrest := filter_append_filter_not (hupto.filter fun t => !decide (t.Before s))
  rw [List.filter_filter, List.filter_filter] at hrest
  have htouching : r.toList.filter (fun t => !decide (s.Before t) && !decide (t.Before s)) =
      r.touching s := by
    refine List.filter_congr fun t _ => ?_
    by_cases hts : t.Before s <;> by_cases hst : s.Before t <;> simp [Span.Touches, hts, hst]
  have hafter : r.toList.filter (fun t => !!decide (s.Before t) && !decide (t.Before s)) =
      r.after s := by
    refine List.filter_congr fun t ht => ?_
    by_cases hst : s.Before t
    · simp [hst, hst.asymm hs (hproper t ht)]
    · simp [hst]
  rw [htouching, hafter] at hrest
  rw [hrest] at hsplit
  exact hsplit

theorem mem_before {t : Span} : t ∈ r.before s ↔ t ∈ r.toList ∧ t.Before s := by
  simp [before]

theorem mem_touching {t : Span} : t ∈ r.touching s ↔ t ∈ r.toList ∧ t.Touches s := by
  simp [touching]

theorem mem_after {t : Span} : t ∈ r.after s ↔ t ∈ r.toList ∧ s.Before t := by
  simp [after]

/-! ## Searching for a point -/

/-- A point divides a canonical set into the spans that stop before it or at it and those that stop
after it. -/
theorem exists_passed (h : r.Canonical) (p : UInt64) :
    ∃ passed rest, r.toList = passed ++ rest ∧ (∀ t ∈ passed, t.stop ≤ p) ∧
      ∀ t ∈ rest, p < t.stop := by
  have hpassed : r.toList.Pairwise fun t u => decide (u.stop ≤ p) → decide (t.stop ≤ p) := by
    refine h.ordered.imp_of_mem fun {t u} _ hu htu hup => ?_
    simp only [decide_eq_true_eq, UInt64.le_iff_toNat_le] at hup ⊢
    have hproper := Span.proper_iff.mp (h.proper u hu)
    rw [Span.before_iff] at htu
    omega
  refine ⟨_, _, filter_append_filter_not hpassed, ?_, ?_⟩
  · intro t ht
    simpa using (List.mem_filter.mp ht).2
  · intro t ht
    simpa using (List.mem_filter.mp ht).2

/-- The search for a point finds it in whichever span it lies. -/
theorem contains_iff_mem (h : r.Canonical) : r.contains p = true ↔ p ∈ r := by
  obtain ⟨passed, rest, hsplit, hpassed, hrest⟩ := exists_passed h p
  have hfind : partitionPoint (fun t => t.stop ≤ p) r.spans = passed.length := by
    refine partitionPoint_of_append hsplit ?_ ?_
    · exact fun t ht => decide_eq_true (hpassed t ht)
    · exact fun t ht => decide_eq_false (UInt64.not_le.mpr (hrest t ht))
  have hcandidate : r.spans[passed.length]? = rest[0]? := by
    rw [← Array.getElem?_toList]
    show r.toList[_]? = _
    rw [hsplit, List.getElem?_append_right (Nat.le_refl _), Nat.sub_self]
  have hseparated : Span.Separated (passed ++ rest) := hsplit ▸ h
  unfold contains
  rw [hfind, hcandidate]
  constructor
  · intro hcontains
    cases rest with
    | nil => exact absurd hcontains Bool.false_ne_true
    | cons t rest =>
      have ht : t ∈ r.toList := by
        rw [hsplit]
        exact List.mem_append_right _ List.mem_cons_self
      exact ⟨t, ht, of_decide_eq_true hcontains, hrest t List.mem_cons_self⟩
  · rintro ⟨u, hu, hpu⟩
    rw [hsplit] at hu
    rcases List.mem_append.mp hu with hu | hu
    · exact absurd hpu.2 (UInt64.not_lt.mpr (hpassed u hu))
    -- `u` need not be the span that is looked at, but that one starts no later
    cases rest with
    | nil => exact absurd hu List.not_mem_nil
    | cons t rest =>
      have htu := hseparated.append_right.start_le hu
      exact decide_eq_true (UInt64.le_trans htu hpu.1)

/-! ## One form for one set -/

section Uniqueness

variable {xs ys : List Span} {t : Span}

/-- Separated spans that hold the points of others start no later. -/
theorem start_le_of_subset (hxs : Span.Separated (s :: xs)) (hys : Span.Separated (t :: ys))
    (hsub : ∀ p : UInt64, (∃ u ∈ s :: xs, p ∈ u) → ∃ u ∈ t :: ys, p ∈ u) :
    t.start.toNat ≤ s.start.toNat := by
  have hs := Span.proper_iff.mp hxs.head_proper
  obtain ⟨u, hu, hpu⟩ := hsub s.start ⟨s, List.mem_cons_self, Span.mem_iff.mpr (by omega)⟩
  have htu := hys.start_le hu
  rw [Span.mem_iff] at hpu
  omega

/-- Where they start alike, the first of them stops no earlier, since the point at which it stops
lies in no span after it. -/
theorem stop_le_of_subset (hys : Span.Separated (t :: ys)) (hstart : s.start = t.start)
    (hsub : ∀ p : UInt64, (∃ u ∈ s :: xs, p ∈ u) → ∃ u ∈ t :: ys, p ∈ u) :
    s.stop.toNat ≤ t.stop.toNat := by
  refine Nat.le_of_not_lt fun hlt => ?_
  have ht := Span.proper_iff.mp hys.head_proper
  obtain ⟨u, hu, hpu⟩ := hsub t.stop
    ⟨s, List.mem_cons_self, Span.mem_iff.mpr ⟨by rw [hstart]; omega, hlt⟩⟩
  rw [Span.mem_iff] at hpu
  rcases List.mem_cons.mp hu with rfl | hu
  · omega
  · have htu := Span.before_iff.mp (hys.head_before hu)
    omega

/-- A point of a later span is no point of the first. -/
theorem subset_of_cons_subset (hxs : Span.Separated (s :: xs))
    (hsub : ∀ p : UInt64, (∃ u ∈ s :: xs, p ∈ u) → ∃ u ∈ s :: ys, p ∈ u) :
    ∀ p : UInt64, (∃ u ∈ xs, p ∈ u) → ∃ u ∈ ys, p ∈ u := by
  rintro p ⟨u, hu, hpu⟩
  obtain ⟨v, hv, hpv⟩ := hsub p ⟨u, List.mem_cons_of_mem _ hu, hpu⟩
  rcases List.mem_cons.mp hv with rfl | hv
  · have hvu := Span.before_iff.mp (hxs.head_before hu)
    rw [Span.mem_iff] at hpu hpv
    omega
  · exact ⟨v, hv, hpv⟩

theorem eq_nil_of_subset_nil (hxs : Span.Separated xs)
    (hsub : ∀ p : UInt64, (∃ u ∈ xs, p ∈ u) → ∃ u ∈ ([] : List Span), p ∈ u) : xs = [] := by
  cases xs with
  | nil => rfl
  | cons s xs =>
    have hs := Span.proper_iff.mp hxs.head_proper
    obtain ⟨u, hu, _⟩ := hsub s.start ⟨s, List.mem_cons_self, Span.mem_iff.mpr (by omega)⟩
    exact absurd hu List.not_mem_nil

theorem eq_of_same_points (hxs : Span.Separated xs) (hys : Span.Separated ys)
    (hmem : ∀ p : UInt64, (∃ u ∈ xs, p ∈ u) ↔ ∃ u ∈ ys, p ∈ u) : xs = ys := by
  induction xs generalizing ys with
  | nil => exact (eq_nil_of_subset_nil hys fun p => (hmem p).mpr).symm
  | cons s xs ih =>
    cases ys with
    | nil => exact eq_nil_of_subset_nil hxs fun p => (hmem p).mp
    | cons t ys =>
      -- each list holds the points of the other, so the first spans bound each other both ways
      have hsub := fun p => (hmem p).mp
      have hsup := fun p => (hmem p).mpr
      have hstart : s.start = t.start :=
        UInt64.le_antisymm (start_le_of_subset hys hxs hsup) (start_le_of_subset hxs hys hsub)
      have hstop : s.stop = t.stop :=
        UInt64.le_antisymm (stop_le_of_subset hys hstart hsub)
          (stop_le_of_subset hxs hstart.symm hsup)
      obtain rfl : s = t := Span.eq_of_bounds s t hstart hstop
      have htail : xs = ys := by
        refine ih hxs.tail hys.tail fun p => ?_
        exact ⟨subset_of_cons_subset hxs hsub p, subset_of_cons_subset hys hsup p⟩
      rw [htail]

end Uniqueness

theorem eq_of_toList_eq {r r' : RangeSet} (h : r.toList = r'.toList) : r = r' := by
  cases r
  cases r'
  exact congrArg RangeSet.mk (Array.toList_inj.mp h)

/-- A point set has one canonical form. -/
theorem eq_of_mem_iff {r r' : RangeSet} (h : r.Canonical) (h' : r'.Canonical)
    (hmem : ∀ p, p ∈ r ↔ p ∈ r') : r = r' :=
  eq_of_toList_eq (eq_of_same_points h h' hmem)

end RangeSet

end FormatRequest
