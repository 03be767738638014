import FormatRequest.Proofs.RangeSet.Canonical

/-!
# Insertion into a range set

An insertion relies on the canonical form twice: for its two searches, and for looking only at the
first and the last of the spans that it replaces. It also keeps the form.

Results:
1. `insert_eq_ok`: the spans that touch the added span are the ones that are replaced, and the
   others stay as they are.
2. `mem_merge`: the replacing span has the points of the added span and of the replaced ones.
3. `canonical_of_insert`, `mem_of_insert`: an insertion keeps the form and adds the points of the
   span.
-/

namespace FormatRequest

namespace RangeSet

variable {r r' : RangeSet} {s : Span} {p : UInt64}

/-! ## What an insertion replaces -/

/-- The two searches find where the spans that touch `s` begin and end. -/
theorem window_eq (h : r.Canonical) (hs : s.Proper) :
    r.window s = ((r.before s).length, (r.before s).length + (r.touching s).length) := by
  have hsplit := toList_eq_append h hs
  unfold window
  -- the spans that touch `s` fail the test of the first search and pass that of the second
  refine Prod.ext ?_ ?_
  · refine partitionPoint_of_append hsplit ?_ ?_
    · intro t ht
      exact decide_eq_true (mem_before.mp ht).2
    · intro t ht
      refine decide_eq_false fun hts => ?_
      rcases List.mem_append.mp ht with ht | ht
      · exact (mem_touching.mp ht).2.1 hts
      · obtain ⟨ht, hst⟩ := mem_after.mp ht
        exact hst.asymm hs (h.proper t ht) hts
  · rw [← List.append_assoc] at hsplit
    show partitionPoint _ _ = _
    rw [← List.length_append]
    refine partitionPoint_of_append hsplit ?_ ?_
    · intro t ht
      refine decide_eq_true (UInt64.not_lt.mp fun hst : s.Before t => ?_)
      rcases List.mem_append.mp ht with ht | ht
      · obtain ⟨ht, hts⟩ := mem_before.mp ht
        exact hts.asymm (h.proper t ht) hs hst
      · exact (mem_touching.mp ht).2.2 hst
    · intro t ht
      exact decide_eq_false (UInt64.not_le.mpr (mem_after.mp ht).2)

theorem extract_before (h : r.Canonical) (hs : s.Proper) :
    r.spans.extract 0 (r.before s).length = (r.before s).toArray := by
  refine Array.toList_inj.mp ?_
  rw [Array.toList_extract, List.extract_eq_take_drop]
  show (r.toList.drop 0).take _ = _
  rw [toList_eq_append h hs, List.drop_zero, Nat.sub_zero, List.take_left]

theorem extract_touching (h : r.Canonical) (hs : s.Proper) :
    r.spans.extract (r.before s).length ((r.before s).length + (r.touching s).length) =
      (r.touching s).toArray := by
  refine Array.toList_inj.mp ?_
  rw [Array.toList_extract, List.extract_eq_take_drop]
  show (r.toList.drop _).take _ = _
  rw [toList_eq_append h hs, List.drop_left, Nat.add_sub_cancel_left, List.take_left]

theorem extract_after (h : r.Canonical) (hs : s.Proper) :
    r.spans.extract ((r.before s).length + (r.touching s).length) r.spans.size =
      (r.after s).toArray := by
  refine Array.toList_inj.mp ?_
  rw [Array.toList_extract, List.extract_eq_take_drop]
  show (r.toList.drop _).take (r.toList.length - _) = _
  rw [toList_eq_append h hs, ← List.append_assoc, ← List.length_append, List.drop_left,
    List.length_append, Nat.add_sub_cancel_left, List.take_length]

/-- An insertion puts one span in the place of all that touch it. -/
theorem insert_eq_ok (h : r.Canonical) (hs : s.Proper) :
    r.insert s =
      .ok ⟨(r.before s ++ merge s (r.touching s).toArray :: r.after s).toArray⟩ := by
  unfold insert
  rw [if_pos hs, window_eq h hs]
  refine congrArg (fun spans => Except.ok (RangeSet.mk spans)) ?_
  rw [extract_before h hs, extract_touching h hs, extract_after h hs]
  simp

/-- A span without points is refused. -/
theorem insert_eq_error (hs : ¬ s.Proper) : r.insert s = .error (.invalidRange s) :=
  if_neg hs

/-! ## The span that replaces a run -/

section Merge

variable {run : List Span}

/-- The replacing span covers the added one. -/
theorem le_merge :
    (merge s run.toArray).start.toNat ≤ s.start.toNat ∧
      s.stop.toNat ≤ (merge s run.toArray).stop.toNat := by
  unfold merge
  split
  · rw [Span.start_hull, Span.stop_hull]
    omega
  · exact ⟨Nat.le_refl _, Nat.le_refl _⟩

/-- It starts where the added span or a span of the run starts. -/
theorem start_merge :
    (merge s run.toArray).start = s.start ∨
      ∃ t ∈ run, (merge s run.toArray).start = t.start := by
  unfold merge
  split
  · next first last hfirst _ =>
    rw [List.getElem?_toArray] at hfirst
    show (if s.start ≤ first.start then s.start else first.start) = _ ∨
      ∃ t ∈ run, (if s.start ≤ first.start then s.start else first.start) = t.start
    split
    · exact .inl rfl
    · exact .inr ⟨first, List.mem_of_getElem? hfirst, rfl⟩
  · exact .inl rfl

/-- It stops where the added span or a span of the run stops. -/
theorem stop_merge :
    (merge s run.toArray).stop = s.stop ∨
      ∃ t ∈ run, (merge s run.toArray).stop = t.stop := by
  unfold merge
  split
  · next first last _ hlast =>
    rw [List.back?_toArray] at hlast
    show (if s.stop ≤ last.stop then last.stop else s.stop) = _ ∨
      ∃ t ∈ run, (if s.stop ≤ last.stop then last.stop else s.stop) = t.stop
    split
    · exact .inr ⟨last, List.mem_of_getLast? hlast, rfl⟩
    · exact .inl rfl
  · exact .inl rfl

theorem stop_le_of_last (h : Span.Separated run) {last t : Span}
    (hlast : run.getLast? = some last) (ht : t ∈ run) : t.stop.toNat ≤ last.stop.toNat := by
  obtain ⟨init, rfl⟩ := List.getLast?_eq_some_iff.mp hlast
  have hlp := Span.proper_iff.mp (h.proper last List.mem_concat_self)
  rcases List.mem_append.mp ht with ht | ht
  · have htl := Span.before_iff.mp
      ((List.pairwise_append.mp h.ordered).2.2 t ht last (List.mem_singleton_self last))
    omega
  · obtain rfl := List.mem_singleton.mp ht
    exact Nat.le_refl _

/-- It covers the spans between the first and the last too, since they are in order. -/
theorem merge_covers (h : Span.Separated run) {t : Span} (ht : t ∈ run) :
    (merge s run.toArray).start.toNat ≤ t.start.toNat ∧
      t.stop.toNat ≤ (merge s run.toArray).stop.toNat := by
  have hne : run ≠ [] := List.ne_nil_of_mem ht
  unfold merge
  split
  · next first last hfirst hlast =>
    rw [List.getElem?_toArray, ← List.head?_eq_getElem?] at hfirst
    rw [List.back?_toArray] at hlast
    have hstop := stop_le_of_last h hlast ht
    obtain ⟨rest, rfl⟩ := List.head?_eq_some_iff.mp hfirst
    have hstart := h.start_le ht
    rw [Span.start_hull, Span.stop_hull]
    exact ⟨Nat.le_trans (Nat.min_le_right _ _) hstart, Nat.le_trans hstop (Nat.le_max_right _ _)⟩
  · next hnone =>
    refine (hnone (run.head hne) (run.getLast hne) ?_ ?_).elim
    · rw [List.getElem?_toArray, ← List.head?_eq_getElem?, List.head?_eq_some_head hne]
    · rw [List.back?_toArray, List.getLast?_eq_some_getLast hne]

/-- When all spans of the run touch the added span there is no gap in between: the replacing span
has the points of the added span and of the run, and no others. -/
theorem mem_merge (h : Span.Separated run) (htouch : ∀ t ∈ run, t.Touches s) :
    p ∈ merge s run.toArray ↔ p ∈ s ∨ ∃ t ∈ run, p ∈ t := by
  obtain ⟨hstart, hstop⟩ := @le_merge s run
  constructor
  · intro hp
    by_cases hlow : p.toNat < s.start.toNat
    · rcases @start_merge s run with heq | ⟨t, ht, heq⟩
      · rw [Span.mem_iff, heq] at hp
        omega
      · -- the points below `s` are those of the first span, which reaches up to `s`
        have htp := Span.touches_iff.mp (htouch t ht)
        rw [Span.mem_iff, heq] at hp
        exact .inr ⟨t, ht, Span.mem_iff.mpr (by omega)⟩
    by_cases hhigh : s.stop.toNat ≤ p.toNat
    · rcases @stop_merge s run with heq | ⟨t, ht, heq⟩
      · rw [Span.mem_iff, heq] at hp
        omega
      · -- and those above it are those of the last span, which reaches down to it
        have htp := Span.touches_iff.mp (htouch t ht)
        rw [Span.mem_iff, heq] at hp
        exact .inr ⟨t, ht, Span.mem_iff.mpr (by omega)⟩
    · exact .inl (Span.mem_iff.mpr (by omega))
  · rintro (hp | ⟨t, ht, hp⟩)
    · rw [Span.mem_iff] at *
      omega
    · obtain ⟨htstart, htstop⟩ := @merge_covers s run h t ht
      rw [Span.mem_iff] at *
      omega

end Merge

/-! ## What an insertion keeps -/

theorem before_merge (h : r.Canonical) (hs : s.Proper) {t : Span} (ht : t ∈ r.before s) :
    t.Before (merge s (r.touching s).toArray) := by
  have hordered := h.ordered
  rw [toList_eq_append h hs] at hordered
  unfold Span.Before
  rcases @start_merge s (r.touching s) with heq | ⟨u, hu, heq⟩
  · rw [heq]
    exact (mem_before.mp ht).2
  · rw [heq]
    exact (List.pairwise_append.mp hordered).2.2 t ht u (List.mem_append_left _ hu)

theorem merge_before (h : r.Canonical) (hs : s.Proper) {t : Span} (ht : t ∈ r.after s) :
    (merge s (r.touching s).toArray).Before t := by
  have hordered := h.ordered
  rw [toList_eq_append h hs] at hordered
  have hlater := (List.pairwise_append.mp (List.pairwise_append.mp hordered).2.1).2.2
  unfold Span.Before
  rcases @stop_merge s (r.touching s) with heq | ⟨u, hu, heq⟩
  · rw [heq]
    exact (mem_after.mp ht).2
  · rw [heq]
    exact hlater u hu t ht

theorem merge_proper (hs : s.Proper) : (merge s (r.touching s).toArray).Proper := by
  obtain ⟨hstart, hstop⟩ := @le_merge s (r.touching s)
  rw [Span.proper_iff] at *
  omega

/-- An insertion keeps the canonical form. -/
theorem canonical_of_insert (h : r.Canonical) (hr : r.insert s = .ok r') : r'.Canonical := by
  by_cases hs : s.Proper
  · rw [insert_eq_ok h hs] at hr
    obtain rfl := Except.ok.inj hr
    have hbefore : Span.Separated (r.before s) := h.filter _
    have hafter : Span.Separated (r.after s) := h.filter _
    constructor
    · intro t ht
      rcases List.mem_append.mp ht with ht | ht
      · exact hbefore.proper t ht
      rcases List.mem_cons.mp ht with rfl | ht
      · exact merge_proper hs
      · exact hafter.proper t ht
    · refine List.pairwise_append.mpr
        ⟨hbefore.ordered, List.pairwise_cons.mpr ⟨?_, hafter.ordered⟩, ?_⟩
      · exact fun t ht => merge_before h hs ht
      · intro t ht u hu
        rcases List.mem_cons.mp hu with rfl | hu
        · exact before_merge h hs ht
        · exact (mem_before.mp ht).2.trans hs (mem_after.mp hu).2
  · rw [insert_eq_error hs] at hr
    cases hr

/-- An insertion adds the points of the span and no others. -/
theorem mem_of_insert (h : r.Canonical) (hr : r.insert s = .ok r') :
    p ∈ r' ↔ p ∈ s ∨ p ∈ r := by
  by_cases hs : s.Proper
  · rw [insert_eq_ok h hs] at hr
    obtain rfl := Except.ok.inj hr
    have hmerge : p ∈ merge s (r.touching s).toArray ↔ p ∈ s ∨ ∃ t ∈ r.touching s, p ∈ t :=
      mem_merge (h.filter _) fun t ht => (mem_touching.mp ht).2
    constructor
    · rintro ⟨t, ht, hp⟩
      rcases List.mem_append.mp ht with ht | ht
      · exact .inr ⟨t, (mem_before.mp ht).1, hp⟩
      rcases List.mem_cons.mp ht with rfl | ht
      · rcases hmerge.mp hp with hp | ⟨u, hu, hp⟩
        · exact .inl hp
        · exact .inr ⟨u, (mem_touching.mp hu).1, hp⟩
      · exact .inr ⟨t, (mem_after.mp ht).1, hp⟩
    · rintro (hp | ⟨t, ht, hp⟩)
      · exact ⟨_, List.mem_append_right _ List.mem_cons_self, hmerge.mpr (.inl hp)⟩
      rw [toList_eq_append h hs] at ht
      rcases List.mem_append.mp ht with ht | ht
      · exact ⟨t, List.mem_append_left _ ht, hp⟩
      rcases List.mem_append.mp ht with ht | ht
      · exact ⟨_, List.mem_append_right _ List.mem_cons_self, hmerge.mpr (.inr ⟨t, ht, hp⟩)⟩
      · exact ⟨t, List.mem_append_right _ (List.mem_cons_of_mem _ ht), hp⟩
  · rw [insert_eq_error hs] at hr
    cases hr

end RangeSet

end FormatRequest
