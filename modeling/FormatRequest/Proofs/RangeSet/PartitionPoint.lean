import FormatRequest.RangeSet

/-!
# The partition point of a partitioned array

The search by halving never leaves the part of the array that holds the partition point. So the
point is found wherever there is one: on an array whose elements satisfy the predicate up to a
position and not from there on, `partitionPoint` is that position.

Results:
1. `partitionPoint_of_append`: the position, for an array given as two parts.
2. `filter_append_filter_not`: a list along which the predicate can only stop holding is made of
   such parts.
-/

namespace FormatRequest

variable {α : Type _} {holds : α → Bool}

/-! ## The search -/

/-- The search finds the partition point `n` when it lies in the part that is searched. -/
theorem partitionPointIn_eq {xs : Array α} {n : Nat}
    (below : ∀ i (h : i < xs.size), i < n → holds xs[i] = true)
    (above : ∀ i (h : i < xs.size), n ≤ i → holds xs[i] = false)
    {lo hi : Nat} (h : hi ≤ xs.size) (hlo : lo ≤ n) (hhi : n ≤ hi) :
    partitionPointIn holds xs lo hi h = n := by
  fun_induction partitionPointIn holds xs lo hi h with
  | case1 lo hi h hlt mid hmid hholds ih =>
    have hn : mid < n := by
      refine Nat.lt_of_not_le fun hle => ?_
      rw [above mid hmid hle] at hholds
      exact Bool.noConfusion hholds
    exact ih hn hhi
  | case2 lo hi h hlt mid hmid hfails ih =>
    have hn : n ≤ mid := by
      refine Nat.le_of_not_lt fun hlt => ?_
      exact hfails (below mid hmid hlt)
    exact ih hlo hn
  | case3 lo hi h hle =>
    omega

/-- The partition point of an array of two parts, the predicate true on the first and false on the
second, is the length of the first. -/
theorem partitionPoint_of_append {xs : Array α} {as bs : List α} (hxs : xs.toList = as ++ bs)
    (has : ∀ a ∈ as, holds a = true) (hbs : ∀ b ∈ bs, holds b = false) :
    partitionPoint holds xs = as.length := by
  have hsize : xs.size = as.length + bs.length := by
    rw [← Array.length_toList, hxs, List.length_append]
  have hget : ∀ i (h : i < xs.size), (as ++ bs)[i]? = some xs[i] := by
    intro i h
    rw [← hxs, Array.getElem?_toList, Array.getElem?_eq_getElem h]
  refine partitionPointIn_eq ?_ ?_ (Nat.le_refl _) (Nat.zero_le _) (by omega)
  · intro i h hi
    exact has _ (List.mem_of_getElem? ((List.getElem?_append_left hi).symm.trans (hget i h)))
  · intro i h hi
    exact hbs _ (List.mem_of_getElem? ((List.getElem?_append_right hi).symm.trans (hget i h)))

/-! ## Partitioned lists -/

/-- A list is its elements that satisfy the predicate and then those that do not, if no element
satisfies it after one that does not. -/
theorem filter_append_filter_not {xs : List α}
    (h : xs.Pairwise fun a b => holds b = true → holds a = true) :
    xs = xs.filter holds ++ xs.filter (fun a => !holds a) := by
  induction h with
  | nil => rfl
  | @cons a xs hfirst _ ih =>
    by_cases ha : holds a = true
    · rw [List.filter_cons_of_pos ha, List.filter_cons_of_neg (by simp [ha]), List.cons_append,
        ← ih]
    · have hnone : xs.filter holds = [] := by
        refine List.filter_eq_nil_iff.mpr fun b hb hholds => ?_
        exact ha (hfirst b hb hholds)
      rw [hnone, List.nil_append] at ih
      rw [List.filter_cons_of_neg ha, hnone, List.filter_cons_of_pos (by simp [ha]),
        List.nil_append, ← ih]

end FormatRequest
