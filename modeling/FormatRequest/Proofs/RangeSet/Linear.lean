import Mathlib.Data.List.Sort
import FormatRequest.Proofs.RangeSet.Union

/-!
# Insertion by looking at every span

The simple way to add a span is to look at every stored one: those that overlap or touch the added
span are taken out, and the hull of all of them is put where it belongs by its start. The stored
insertion looks at few of them. It searches by halving for the two ends of a window and trusts that
exactly the spans to be replaced stand in it, and of these it looks at the first and the last only.
On a canonical set it makes the same list.

Results:
1. `Span.touches_iff_overlap`: what it means that spans touch.
2. `touches_getElem_iff`, `isWindow_window`: the window, whose ends are positions of the list.
3. `isHull_merge`, `isHull_foldl_hull`: the replacing span, in both ways of finding it.
4. `replaces_of_insert`: what is replaced and what is kept.
5. `insert_refines_linear`: both insertions make the same list.
-/

namespace FormatRequest

namespace Span

variable {s t m m' : Span} {spans run : List Span}

/-- Of spans with points, those touch that share a point or of which one starts where the other
ends. -/
theorem touches_iff_overlap (hs : s.Proper) (ht : t.Proper) :
    t.Touches s ↔ (∃ p, p ∈ t ∧ p ∈ s) ∨ t.stop = s.start ∨ s.stop = t.start := by
  rw [touches_iff, ← UInt64.toNat_inj, ← UInt64.toNat_inj]
  rw [proper_iff] at hs ht
  constructor
  · rintro ⟨hst, hts⟩
    by_cases htouch : t.stop.toNat = s.start.toNat ∨ s.stop.toNat = t.start.toNat
    · exact .inr htouch
    -- the later of the two starts is a point of both
    rcases Nat.le_total s.start.toNat t.start.toNat with hle | hle
    · exact .inl ⟨t.start, mem_iff.mpr (by omega), mem_iff.mpr (by omega)⟩
    · exact .inl ⟨s.start, mem_iff.mpr (by omega), mem_iff.mpr (by omega)⟩
  · rintro (⟨p, hpt, hps⟩ | htouch)
    · rw [mem_iff] at hpt hps
      omega
    · omega

/-! ## Hulls -/

/-- `m.IsHull spans`: the span goes from the least start to the greatest stop of the spans. -/
structure IsHull (m : Span) (spans : List Span) : Prop where
  exists_start : ∃ t ∈ spans, m.start = t.start
  start_le : ∀ t ∈ spans, m.start ≤ t.start
  exists_stop : ∃ t ∈ spans, m.stop = t.stop
  le_stop : ∀ t ∈ spans, t.stop ≤ m.stop

/-- There is one hull only. -/
theorem IsHull.eq (h : m.IsHull spans) (h' : m'.IsHull spans) : m = m' := by
  obtain ⟨t, ht, hstart⟩ := h.exists_start
  obtain ⟨t', ht', hstart'⟩ := h'.exists_start
  obtain ⟨u, hu, hstop⟩ := h.exists_stop
  obtain ⟨u', hu', hstop'⟩ := h'.exists_stop
  refine eq_of_bounds m m' ?_ ?_
  · exact UInt64.le_antisymm (hstart' ▸ h.start_le t' ht') (hstart ▸ h'.start_le t ht)
  · exact UInt64.le_antisymm (hstop ▸ h'.le_stop u hu) (hstop' ▸ h.le_stop u' hu')

theorem start_hull_eq_or : (s.hull t).start = s.start ∨ (s.hull t).start = t.start := by
  have hmin := @start_hull s t
  rw [← UInt64.toNat_inj, ← UInt64.toNat_inj]
  omega

theorem stop_hull_eq_or : (s.hull t).stop = s.stop ∨ (s.hull t).stop = t.stop := by
  have hmax := @stop_hull s t
  rw [← UInt64.toNat_inj, ← UInt64.toNat_inj]
  omega

theorem isHull_hull : (s.hull t).IsHull [s, t] := by
  have hmin := @start_hull s t
  have hmax := @stop_hull s t
  constructor
  · simpa using start_hull_eq_or
  · simp only [List.forall_mem_cons, UInt64.le_iff_toNat_le]
    exact ⟨by omega, by omega, nofun⟩
  · simpa using stop_hull_eq_or
  · simp only [List.forall_mem_cons, UInt64.le_iff_toNat_le]
    exact ⟨by omega, by omega, nofun⟩

theorem isHull_singleton (s : Span) : s.IsHull [s] := by
  constructor <;> simp

/-- In place of some spans their hull can be taken. -/
theorem IsHull.append {u : Span} {pieces : List Span} (hu : u.IsHull pieces)
    (h : m.IsHull (u :: spans)) : m.IsHull (pieces ++ spans) := by
  obtain ⟨hstart, hstarts⟩ := List.forall_mem_cons.mp h.start_le
  obtain ⟨hstop, hstops⟩ := List.forall_mem_cons.mp h.le_stop
  constructor
  · obtain ⟨t, ht, heq⟩ := h.exists_start
    rcases List.mem_cons.mp ht with rfl | ht
    · obtain ⟨t', ht', heq'⟩ := hu.exists_start
      exact ⟨t', List.mem_append_left _ ht', heq.trans heq'⟩
    · exact ⟨t, List.mem_append_right _ ht, heq⟩
  · refine List.forall_mem_append.mpr ⟨fun t ht => ?_, hstarts⟩
    exact UInt64.le_trans hstart (hu.start_le t ht)
  · obtain ⟨t, ht, heq⟩ := h.exists_stop
    rcases List.mem_cons.mp ht with rfl | ht
    · obtain ⟨t', ht', heq'⟩ := hu.exists_stop
      exact ⟨t', List.mem_append_left _ ht', heq.trans heq'⟩
    · exact ⟨t, List.mem_append_right _ ht, heq⟩
  · refine List.forall_mem_append.mpr ⟨fun t ht => ?_, hstops⟩
    exact UInt64.le_trans (hu.le_stop t ht) hstop

/-- The hull is found by taking in one span after another. -/
theorem isHull_foldl_hull (s : Span) (run : List Span) : (run.foldl hull s).IsHull (s :: run) := by
  induction run generalizing s with
  | nil => exact isHull_singleton s
  | cons t run ih => exact isHull_hull.append (ih (s.hull t))

end Span

namespace RangeSet

variable {r r' : RangeSet} {s t : Span} {run : List Span}

/-- Of separated spans the hull with another is found from the first and the last. -/
theorem isHull_merge (h : Span.Separated run) : (merge s run.toArray).IsHull (s :: run) := by
  obtain ⟨hstart, hstop⟩ := @le_merge s run
  constructor
  · rcases @start_merge s run with heq | ⟨t, ht, heq⟩
    · exact ⟨s, List.mem_cons_self, heq⟩
    · exact ⟨t, List.mem_cons_of_mem s ht, heq⟩
  · exact List.forall_mem_cons.mpr ⟨hstart, fun t ht => (merge_covers h ht).1⟩
  · rcases @stop_merge s run with heq | ⟨t, ht, heq⟩
    · exact ⟨s, List.mem_cons_self, heq⟩
    · exact ⟨t, List.mem_cons_of_mem s ht, heq⟩
  · exact List.forall_mem_cons.mpr ⟨hstop, fun t ht => (merge_covers h ht).2⟩

/-! ## The window -/

/-- `r.IsWindow s lo hi`: the positions from `lo` up to `hi` are positions of the list, and the spans
that stand there are the ones that touch `s`. -/
structure IsWindow (r : RangeSet) (s : Span) (lo hi : Nat) : Prop where
  le : lo ≤ hi
  le_size : hi ≤ r.size
  touches_iff : ∀ i (h : i < r.spans.size), r.spans[i].Touches s ↔ lo ≤ i ∧ i < hi

/-- The spans that touch `s` stand between those before it and those after it. -/
theorem touches_getElem_iff (h : r.Canonical) (hs : s.Proper) {i : Nat} (hi : i < r.spans.size) :
    r.spans[i].Touches s ↔
      (r.before s).length ≤ i ∧ i < (r.before s).length + (r.touching s).length := by
  have hget : (r.before s ++ (r.touching s ++ r.after s))[i]? = some r.spans[i] := by
    rw [← toList_eq_append h hs]
    exact Array.getElem?_toList.trans (Array.getElem?_eq_getElem hi)
  -- the position tells the group in which the span stands
  rcases Nat.lt_or_ge i (r.before s).length with hlow | hlow
  · rw [List.getElem?_append_left hlow] at hget
    have hbefore := (mem_before.mp (List.mem_of_getElem? hget)).2
    exact iff_of_false (fun htouch => htouch.1 hbefore) (by omega)
  rw [List.getElem?_append_right hlow] at hget
  rcases Nat.lt_or_ge (i - (r.before s).length) (r.touching s).length with hhigh | hhigh
  · rw [List.getElem?_append_left hhigh] at hget
    exact iff_of_true (mem_touching.mp (List.mem_of_getElem? hget)).2 (by omega)
  · rw [List.getElem?_append_right hhigh] at hget
    have hafter := (mem_after.mp (List.mem_of_getElem? hget)).2
    exact iff_of_false (fun htouch => htouch.2 hafter) (by omega)

/-- The set is as long as the three groups together. -/
theorem size_eq_add (h : r.Canonical) (hs : s.Proper) :
    r.size = (r.before s).length + ((r.touching s).length + (r.after s).length) := by
  have hlength := congrArg List.length (toList_eq_append h hs)
  rwa [List.length_append, List.length_append] at hlength

theorem isWindow_window (h : r.Canonical) (hs : s.Proper) :
    r.IsWindow s (r.window s).1 (r.window s).2 := by
  have hsize := size_eq_add h hs
  rw [window_eq h hs]
  exact ⟨Nat.le_add_right _ _, by omega, fun i hi => touches_getElem_iff h hs hi⟩

/-! ## What is replaced -/

/-- `r.Replaces s r'`: the set `r'` has the hull of `s` and the spans that touch it in the place of
these, and all other spans of `r` as they are. -/
structure Replaces (r : RangeSet) (s : Span) (r' : RangeSet) : Prop where
  toList_eq : ∃ m : Span, m.IsHull (s :: r.touching s) ∧
    r'.toList = r.before s ++ m :: r.after s
  size_eq : (r'.size : Int) = r.size + (1 - (r.touching s).length)
  others_eq : r'.toList.filter (¬ ·.Touches s) = r.toList.filter (¬ ·.Touches s)

theorem touches_merge (hs : s.Proper) : (merge s run.toArray).Touches s := by
  obtain ⟨hstart, hstop⟩ := @le_merge s run
  rw [Span.touches_iff]
  rw [Span.proper_iff] at hs
  omega

/-- Without the spans that touch `s` only those before and after it are left. -/
theorem filter_not_touches (hrun : ∀ t ∈ run, t.Touches s) :
    (r.before s ++ (run ++ r.after s)).filter (¬ ·.Touches s) = r.before s ++ r.after s := by
  have hbefore : (r.before s).filter (¬ ·.Touches s) = r.before s :=
    List.filter_eq_self.mpr fun t ht => decide_eq_true fun htouch => htouch.1 (mem_before.mp ht).2
  have hnone : run.filter (¬ ·.Touches s) = [] :=
    List.filter_eq_nil_iff.mpr fun t ht hnot => of_decide_eq_true hnot (hrun t ht)
  have hafter : (r.after s).filter (¬ ·.Touches s) = r.after s :=
    List.filter_eq_self.mpr fun t ht => decide_eq_true fun htouch => htouch.2 (mem_after.mp ht).2
  rw [List.filter_append, List.filter_append, hbefore, hnone, hafter, List.nil_append]

theorem others_eq (h : r.Canonical) (hs : s.Proper) :
    r.toList.filter (¬ ·.Touches s) = r.before s ++ r.after s := by
  rw [toList_eq_append h hs]
  exact filter_not_touches fun t ht => (mem_touching.mp ht).2

theorem toList_of_insert (h : r.Canonical) (hs : s.Proper) (hr : r.insert s = .ok r') :
    r'.toList = r.before s ++ merge s (r.touching s).toArray :: r.after s := by
  rw [insert_eq_ok h hs] at hr
  obtain rfl := Except.ok.inj hr
  rfl

theorem replaces_of_insert (h : r.Canonical) (hs : s.Proper) (hr : r.insert s = .ok r') :
    r.Replaces s r' := by
  have hlist := toList_of_insert h hs hr
  refine ⟨⟨_, isHull_merge (h.filter _), hlist⟩, ?_, ?_⟩
  · have hsize := size_eq_add h hs
    have hnew : r'.size = _ := congrArg List.length hlist
    rw [List.length_append, List.length_cons] at hnew
    omega
  · rw [others_eq h hs, hlist]
    exact filter_not_touches (List.forall_mem_singleton.mpr (touches_merge hs))

/-! ## The simple insertion -/

/-- Adds the points of `s` to spans in order, looking at each of them. -/
def insertLinearly (spans : List Span) (s : Span) : List Span :=
  (spans.filter (¬ ·.Touches s)).orderedInsert (fun t u => t.start ≤ u.start)
    ((spans.filter (·.Touches s)).foldl Span.hull s)

theorem orderedInsert_append {m : Span} {low high : List Span}
    (hlow : ∀ t ∈ low, ¬ m.start ≤ t.start) (hhigh : ∀ t ∈ high, m.start ≤ t.start) :
    (low ++ high).orderedInsert (fun t u => t.start ≤ u.start) m = low ++ m :: high := by
  induction low with
  | nil =>
    cases high with
    | nil => rfl
    | cons t high => exact if_pos (hhigh t List.mem_cons_self)
  | cons t low ih =>
    obtain ⟨ht, hlow⟩ := List.forall_mem_cons.mp hlow
    rw [List.cons_append, List.orderedInsert_cons, if_neg ht, ih hlow, List.cons_append]

theorem insertLinearly_eq (h : r.Canonical) (hs : s.Proper) :
    insertLinearly r.toList s = r.before s ++ merge s (r.touching s).toArray :: r.after s := by
  have hhull : (r.touching s).foldl Span.hull s = merge s (r.touching s).toArray :=
    (Span.isHull_foldl_hull s _).eq (isHull_merge (h.filter _))
  have hmerge := Span.proper_iff.mp (merge_proper (r := r) hs)
  unfold insertLinearly
  rw [others_eq h hs]
  show (r.before s ++ r.after s).orderedInsert _ ((r.touching s).foldl Span.hull s) = _
  rw [hhull]
  refine orderedInsert_append (fun t ht => ?_) (fun t ht => ?_)
  · have hbefore := Span.before_iff.mp (before_merge h hs ht)
    have hproper := Span.proper_iff.mp (h.proper t (mem_before.mp ht).1)
    rw [UInt64.le_iff_toNat_le]
    omega
  · have hafter := Span.before_iff.mp (merge_before h hs ht)
    rw [UInt64.le_iff_toNat_le]
    omega

/-- On a canonical set the insertion by searching succeeds for every span with points. Its window
holds exactly the spans that overlap or touch the added one; these are replaced by their hull with
it and no other span changes, which is what the simple insertion does. -/
theorem insert_refines_linear (h : r.Canonical) (hs : s.start < s.stop) :
    r.IsWindow s (r.window s).1 (r.window s).2 ∧
    (∀ t ∈ r.toList,
      t.Touches s ↔ (∃ p, p ∈ t ∧ p ∈ s) ∨ t.stop = s.start ∨ s.stop = t.start) ∧
    ∃ r', r.insert s = .ok r' ∧ r.Replaces s r' ∧ r'.toList = insertLinearly r.toList s := by
  have hinsert : r.insert s = .ok (r.insertIfProper s) := insert_of_proper hs
  refine ⟨isWindow_window h hs, fun t ht => Span.touches_iff_overlap hs (h.proper t ht),
    r.insertIfProper s, hinsert, replaces_of_insert h hs hinsert, ?_⟩
  rw [toList_of_insert h hs hinsert, insertLinearly_eq h hs]

/-- Four spans, of which the first three are bridged by a span that touches two of them. -/
def exBridged : RangeSet := ofList [⟨20, 22⟩, ⟨5, 7⟩, ⟨9, 11⟩, ⟨1, 3⟩]

theorem insert_exBridged :
    exBridged.Canonical ∧ (3 : UInt64) < 9 ∧
      exBridged.insert ⟨3, 9⟩ = .ok ⟨#[⟨1, 11⟩, ⟨20, 22⟩]⟩ := by
  have h : exBridged.Canonical := canonical_ofList _
  obtain ⟨_, _, r', hinsert, _, hlist⟩ := @insert_refines_linear exBridged ⟨3, 9⟩ h (by decide)
  have hspans : insertLinearly exBridged.toList ⟨3, 9⟩ = [⟨1, 11⟩, ⟨20, 22⟩] := by decide +kernel
  obtain rfl : r' = ⟨#[⟨1, 11⟩, ⟨20, 22⟩]⟩ := eq_of_toList_eq (hlist.trans hspans)
  exact ⟨h, by decide, hinsert⟩

end RangeSet

end FormatRequest
