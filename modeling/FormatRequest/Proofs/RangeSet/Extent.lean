import FormatRequest.Proofs.RangeSet.Equality
import FormatRequest.Proofs.RangeSet.Linear
import FormatRequest.Proofs.RangeSet.Minimal

/-!
# The span that covers a set

To find the smallest span that covers a set only the first and the last stored span are looked at.
Since the spans are in order, the set begins where the first of them starts and ends where the last
stops. Any span that covers the set covers both of these places.

Results:
1. `IsExtent.least`, `IsExtent.eq`: the span from the first point to the last.
2. `isHull_of_span?`, `span?_eq_some_iff`, `span?_eq_none_iff`: the span that is found.
3. `exists_bound_gt_iff`: the last stop is the greatest of all bounds.
4. `span?_ofList_of_perm`: the spans of two sets collected together.
5. `span?_obtained`: sets that were made in any way.
-/

namespace FormatRequest

theorem Span.IsHull.mem {m s : Span} {spans : List Span} {p : UInt64} (h : m.IsHull spans)
    (hs : s ∈ spans) (hp : p ∈ s) : p ∈ m :=
  ⟨UInt64.le_trans (h.start_le s hs) hp.1, UInt64.lt_of_lt_of_le hp.2 (h.le_stop s hs)⟩

namespace RangeSet

variable {r r' u : RangeSet} {s t : Span} {spans : List Span}

/-! ## From the first point to the last -/

/-- `r.IsExtent s`: the span starts at a point of the set, the point before its stop is one too, and
all points of the set lie in it. -/
structure IsExtent (r : RangeSet) (s : Span) : Prop where
  proper : s.Proper
  first_mem : s.start ∈ r
  last_mem : s.stop - 1 ∈ r
  mem : ∀ p ∈ r, p ∈ s

theorem toNat_stop_sub_one (h : s.Proper) : (s.stop - 1).toNat + 1 = s.stop.toNat := by
  have hpos : 1 ≤ s.stop.toNat := Nat.one_le_of_lt (Span.proper_iff.mp h)
  rw [UInt64.toNat_sub_of_le s.stop 1 (UInt64.le_iff_toNat_le.mpr hpos)]
  exact Nat.sub_add_cancel hpos

theorem stop_sub_one_mem (h : s.Proper) : s.stop - 1 ∈ s := by
  have hpred := toNat_stop_sub_one h
  have hstart := Span.proper_iff.mp h
  rw [← hpred] at hstart
  rw [Span.mem_iff, ← hpred]
  exact ⟨Nat.le_of_lt_succ hstart, Nat.lt_succ_self _⟩

/-- Whatever covers the set covers its extent. -/
theorem IsExtent.least (h : r.IsExtent s) (ht : ∀ p ∈ r, p ∈ t) :
    t.start ≤ s.start ∧ s.stop ≤ t.stop := by
  refine ⟨(ht s.start h.first_mem).1, ?_⟩
  have hlast := UInt64.lt_iff_toNat_lt.mp (ht (s.stop - 1) h.last_mem).2
  rw [UInt64.le_iff_toNat_le, ← toNat_stop_sub_one h.proper]
  exact hlast

/-- A set has one extent only. -/
theorem IsExtent.eq (h : r.IsExtent s) (h' : r.IsExtent t) : s = t := by
  obtain ⟨hstart, hstop⟩ := h.least h'.mem
  obtain ⟨hstart', hstop'⟩ := h'.least h.mem
  exact Span.eq_of_bounds s t (UInt64.le_antisymm hstart' hstart) (UInt64.le_antisymm hstop hstop')

/-- Two sets together reach as far as the hull of their extents. -/
theorem IsExtent.hull (h : r.IsExtent s) (h' : r'.IsExtent t)
    (hu : ∀ p, p ∈ u ↔ p ∈ r ∨ p ∈ r') : u.IsExtent (s.hull t) := by
  have hhull : (s.hull t).IsHull [s, t] := Span.isHull_hull
  have hs : s ∈ [s, t] := List.mem_cons_self
  have ht : t ∈ [s, t] := List.mem_cons_of_mem s (List.mem_singleton_self t)
  constructor
  · exact Span.proper_of_mem (hhull.mem hs (h.mem s.start h.first_mem))
  · rcases @Span.start_hull_eq_or s t with heq | heq
    · rw [heq]
      exact (hu s.start).mpr (.inl h.first_mem)
    · rw [heq]
      exact (hu t.start).mpr (.inr h'.first_mem)
  · rcases @Span.stop_hull_eq_or s t with heq | heq
    · rw [heq]
      exact (hu (s.stop - 1)).mpr (.inl h.last_mem)
    · rw [heq]
      exact (hu (t.stop - 1)).mpr (.inr h'.last_mem)
  · intro p hp
    rcases (hu p).mp hp with hp | hp
    · exact hhull.mem hs (h.mem p hp)
    · exact hhull.mem ht (h'.mem p hp)

/-! ## The span that is found -/

theorem span?_eq (r : RangeSet) :
    r.span? = r.toList.head?.bind fun first =>
      r.toList.getLast?.map fun last => ⟨first.start, last.stop⟩ := by
  have hfirst : r.toList.head? = r.spans[0]? := List.head?_eq_getElem?.trans Array.getElem?_toList
  have hlast : r.toList.getLast? = r.spans.back? := Array.getLast?_toList r.spans
  rw [hfirst, hlast]
  unfold span?
  cases r.spans[0]? with
  | none => rfl
  | some first => cases r.spans.back? <;> rfl

theorem span?_eq_none_iff (h : r.Canonical) : r.span? = none ↔ ∀ p, r.contains p = false := by
  have hnil : r.size = 0 ↔ r.toList = [] := List.length_eq_zero_iff
  rw [← size_eq_zero_iff h, hnil, span?_eq]
  cases hspans : r.toList with
  | nil => exact iff_of_true rfl rfl
  | cons first rest =>
    rw [List.getLast?_cons]
    exact iff_of_false nofun nofun

/-- The span that is found is the hull of the stored spans, though only two of them are looked at. -/
theorem isHull_of_span? (h : r.Canonical) (hs : r.span? = some s) : s.IsHull r.toList := by
  rw [span?_eq, Option.bind_eq_some_iff] at hs
  obtain ⟨first, hfirst, hs⟩ := hs
  obtain ⟨last, hlast, rfl⟩ := Option.map_eq_some_iff.mp hs
  constructor
  · exact ⟨first, List.mem_of_mem_head? hfirst, rfl⟩
  · obtain ⟨rest, hrest⟩ := List.head?_eq_some_iff.mp hfirst
    unfold Canonical at h
    rw [hrest] at h ⊢
    exact fun t ht => h.start_le ht
  · exact ⟨last, List.mem_of_getLast? hlast, rfl⟩
  · intro t ht
    have hle : t.stop ≤ last.stop := stop_le_of_last h hlast ht
    exact hle

theorem isExtent_of_isHull (h : r.Canonical) (hs : s.IsHull r.toList) : r.IsExtent s := by
  obtain ⟨first, hfirst, hstart⟩ := hs.exists_start
  obtain ⟨last, hlast, hstop⟩ := hs.exists_stop
  have hmem : first.start ∈ first := ⟨UInt64.le_refl _, h.proper first hfirst⟩
  refine ⟨Span.proper_of_mem (hs.mem hfirst hmem), ?_, ?_, ?_⟩
  · rw [hstart]
    exact ⟨first, hfirst, hmem⟩
  · rw [hstop]
    exact ⟨last, hlast, stop_sub_one_mem (h.proper last hlast)⟩
  · rintro p ⟨t, ht, hp⟩
    exact hs.mem ht hp

theorem span?_eq_some_iff (h : r.Canonical) : r.span? = some s ↔ r.IsExtent s := by
  refine ⟨fun hs => isExtent_of_isHull h (isHull_of_span? h hs), fun hs => ?_⟩
  cases hspan : r.span? with
  | none =>
    have hnone := (span?_eq_none_iff h).mp hspan s.start
    rw [(contains_iff_mem h).mpr hs.first_mem] at hnone
    exact absurd hnone.symm Bool.false_ne_true
  | some t => rw [(isExtent_of_isHull h (isHull_of_span? h hspan)).eq hs]

theorem not_mem_of_span?_eq_none (h : r.Canonical) (hnone : r.span? = none) (p : UInt64) :
    ¬ p ∈ r := by
  rw [← contains_iff_mem h, (span?_eq_none_iff h).mp hnone p]
  exact Bool.false_ne_true

/-- Of all bounds of stored spans the last stop is the greatest. -/
theorem exists_bound_gt_iff {limit : UInt64} (h : r.Canonical) :
    (∃ s ∈ r.toList, limit < s.start ∨ limit < s.stop) ↔
      ∃ s, r.span? = some s ∧ limit < s.stop := by
  constructor
  · rintro ⟨s, hs, hlimit⟩
    have hstop : limit < s.stop :=
      hlimit.elim (fun hstart => UInt64.lt_trans hstart (h.proper s hs)) id
    cases hspan : r.span? with
    | none =>
      have hmem : s.start ∈ r := ⟨s, hs, UInt64.le_refl _, h.proper s hs⟩
      exact absurd hmem (not_mem_of_span?_eq_none h hspan s.start)
    | some whole =>
      have hle := (isHull_of_span? h hspan).le_stop s hs
      exact ⟨whole, rfl, UInt64.lt_of_lt_of_le hstop hle⟩
  · rintro ⟨whole, hspan, hlimit⟩
    obtain ⟨s, hs, hstop⟩ := (isHull_of_span? h hspan).exists_stop
    exact ⟨s, hs, .inr (hstop ▸ hlimit)⟩

/-! ## Two sets together -/

theorem mem_ofList_of_perm (hspans : spans.Perm (r.toList ++ r'.toList)) (p : UInt64) :
    p ∈ ofList spans ↔ p ∈ r ∨ p ∈ r' := by
  rw [mem_ofList]
  simp only [hspans.mem_iff, List.mem_append, or_and_right, exists_or]
  exact Iff.rfl

/-- The spans of two sets reach as far together as the hull of how far they reach. -/
theorem span?_ofList_of_perm (h : r.Canonical) (h' : r'.Canonical)
    (hspans : spans.Perm (r.toList ++ r'.toList)) :
    (ofList spans).span? = Option.merge Span.hull r.span? r'.span? := by
  have hmem := mem_ofList_of_perm hspans
  have hcanonical := canonical_ofList spans
  cases hr : r.span? with
  | none =>
    -- a set without points adds nothing to the other
    have hsame : ofList spans = r' := eq_of_mem_iff hcanonical h' fun p =>
      (hmem p).trans (or_iff_right (not_mem_of_span?_eq_none h hr p))
    rw [hsame, Option.merge_none_left]
  | some s =>
    cases hr' : r'.span? with
    | none =>
      have hsame : ofList spans = r := eq_of_mem_iff hcanonical h fun p =>
        (hmem p).trans (or_iff_left (not_mem_of_span?_eq_none h' hr' p))
      rw [hsame, hr, Option.merge_none_right]
    | some t =>
      have hs := (span?_eq_some_iff h).mp hr
      have ht := (span?_eq_some_iff h').mp hr'
      exact (span?_eq_some_iff hcanonical).mpr (hs.hull ht hmem)

/-- However a set was made, the span that is found is the smallest that covers it: it reaches from the
first point to the last, and there is none exactly if there is no point. The spans of two sets that
are collected together, in any order, reach as far as the hull of the two. -/
theorem span?_obtained (h : r.Obtained) (h' : r'.Obtained) :
    (r.span? = none ↔ ∀ p, r.contains p = false) ∧
    (∀ s, r.span? = some s →
      s.start < s.stop ∧ (∀ p, r.contains p = true → p ∈ s) ∧
      (∀ t : Span, (∀ p, r.contains p = true → p ∈ t) → t.start ≤ s.start ∧ s.stop ≤ t.stop) ∧
      r.contains s.start = true ∧ r.contains (s.stop - 1) = true) ∧
    ∀ spans, spans.Perm (r.toList ++ r'.toList) →
      (ofList spans).span? = Option.merge Span.hull r.span? r'.span? := by
  have hcontains : ∀ p, r.contains p = true ↔ p ∈ r := fun p => contains_iff_mem h.canonical
  refine ⟨span?_eq_none_iff h.canonical, fun s hspan => ?_,
    fun spans => span?_ofList_of_perm h.canonical h'.canonical⟩
  have hs := (span?_eq_some_iff h.canonical).mp hspan
  simp only [hcontains]
  exact ⟨hs.proper, hs.mem, fun t => hs.least, hs.first_mem, hs.last_mem⟩

/-- A set of two spans that was collected, and one to which a span was added in front of them. -/
theorem span?_collected :
    (ofList [⟨9, 12⟩, ⟨5, 5⟩, ⟨4, 7⟩]).Obtained ∧
      ((∅ : RangeSet).insertIfProper ⟨1, 2⟩).Obtained ∧
      (ofList [⟨9, 12⟩, ⟨1, 2⟩, ⟨4, 7⟩]).span? = some ⟨1, 12⟩ := by
  have h : (ofList [⟨9, 12⟩, ⟨5, 5⟩, ⟨4, 7⟩]).Obtained := .collect _
  have h' : ((∅ : RangeSet).insertIfProper ⟨1, 2⟩).Obtained :=
    .insert .empty (insert_of_proper (by decide))
  have hhull := (span?_obtained h h').2.2 [⟨9, 12⟩, ⟨1, 2⟩, ⟨4, 7⟩] (by decide +kernel)
  exact ⟨h, h', hhull.trans (by decide +kernel)⟩

end RangeSet

end FormatRequest
