import Mathlib.Data.List.Forall2

/-!
# Reading the items of a list

A list is read item by item, and the first item that cannot be read ends the reading. So what is read
has one value for each item, in order, or the fault is that of the first item that has one.

Results:
1. `mapM_eq_ok_iff`, `mapM_append_eq_ok_iff`: what is read.
2. `mapM_eq_error_iff`: what is wrong with a list that is not read.
-/

namespace FormatRequest

variable {α β ε : Type} {f : α → Except ε β} {xs : List α} {ys : List β}

theorem mapM_eq_ok_iff :
    xs.mapM f = .ok ys ↔ List.Forall₂ (fun x y => f x = .ok y) xs ys := by
  induction xs generalizing ys with
  | nil =>
    rw [List.forall₂_nil_left_iff]
    exact ⟨fun h => (Except.ok.inj h).symm, fun h => h ▸ rfl⟩
  | cons x xs ih =>
    rw [List.forall₂_cons_left_iff, List.mapM_cons]
    cases hx : f x with
    | error e =>
      refine iff_of_false nofun ?_
      rintro ⟨y, _, hy, _⟩
      cases hy
    | ok y =>
      cases hxs : xs.mapM f with
      | error e =>
        refine iff_of_false nofun ?_
        rintro ⟨_, more, _, hmore, _⟩
        rw [← ih, hxs] at hmore
        cases hmore
      | ok more =>
        simp only [← ih, hxs]
        constructor
        · intro h
          exact ⟨y, more, rfl, rfl, (Except.ok.inj h).symm⟩
        · rintro ⟨_, _, hy, hmore, rfl⟩
          obtain rfl := Except.ok.inj hy
          obtain rfl := Except.ok.inj hmore
          rfl

/-- What is read comes from one of the items. -/
theorem exists_of_mem_mapM {y : β} (h : xs.mapM f = .ok ys) (hy : y ∈ ys) : ∃ x ∈ xs, f x = .ok y := by
  induction mapM_eq_ok_iff.mp h with
  | nil => cases hy
  | @cons x y' xs ys hx hxs ih =>
    rcases List.mem_cons.mp hy with rfl | hy
    · exact ⟨x, List.mem_cons_self, hx⟩
    · obtain ⟨x', hx', hfx'⟩ := ih (mapM_eq_ok_iff.mpr hxs) hy
      exact ⟨x', List.mem_cons_of_mem x hx', hfx'⟩

theorem mapM_append_eq_ok_iff {more : List α} :
    (xs ++ more).mapM f = .ok ys ↔
      ∃ us vs, xs.mapM f = .ok us ∧ more.mapM f = .ok vs ∧ ys = us ++ vs := by
  rw [List.mapM_append]
  constructor
  · intro h
    cases hxs : xs.mapM f with
    | error e => rw [hxs] at h; cases h
    | ok us =>
      cases hmore : more.mapM f with
      | error e => rw [hxs, hmore] at h; cases h
      | ok vs =>
        rw [hxs, hmore] at h
        exact ⟨us, vs, rfl, rfl, (Except.ok.inj h).symm⟩
  · rintro ⟨us, vs, hxs, hmore, rfl⟩
    rw [hxs, hmore]
    rfl

/-- No item of a list that is read is refused. -/
theorem exists_ok_of_mapM {x : α} (h : xs.mapM f = .ok ys) (hx : x ∈ xs) : ∃ y, f x = .ok y := by
  obtain ⟨before, after, rfl⟩ := List.append_of_mem hx
  obtain ⟨_, _, _, hrest, _⟩ := mapM_append_eq_ok_iff.mp h
  obtain ⟨y, _, hy, _⟩ := List.forall₂_cons_left_iff.mp (mapM_eq_ok_iff.mp hrest)
  exact ⟨y, hy⟩

theorem mapM_cons_eq_error_iff {x : α} {e : ε} :
    (x :: xs).mapM f = .error e ↔
      f x = .error e ∨ (∃ y, f x = .ok y) ∧ xs.mapM f = .error e := by
  rw [List.mapM_cons]
  cases hx : f x with
  | error e' => simp [bind, Except.bind]
  | ok y => cases xs.mapM f <;> simp [bind, Except.bind, pure, Except.pure]

/-- The first item that cannot be read is reported, whatever comes after it. -/
theorem mapM_eq_error_iff {e : ε} :
    xs.mapM f = .error e ↔ ∃ before x after, xs = before ++ x :: after ∧
      (∀ x' ∈ before, ∃ y, f x' = .ok y) ∧ f x = .error e := by
  constructor
  · intro h
    induction xs with
    | nil => cases h
    | cons x xs ih =>
      rcases mapM_cons_eq_error_iff.mp h with hx | ⟨hx, hxs⟩
      · exact ⟨[], x, xs, rfl, nofun, hx⟩
      · obtain ⟨before, x', after, rfl, hbefore, hx'⟩ := ih hxs
        exact ⟨x :: before, x', after, rfl, List.forall_mem_cons.mpr ⟨hx, hbefore⟩, hx'⟩
  · rintro ⟨before, x, after, rfl, hbefore, hx⟩
    induction before with
    | nil => exact mapM_cons_eq_error_iff.mpr (.inl hx)
    | cons x' before ih =>
      obtain ⟨hx', hbefore⟩ := List.forall_mem_cons.mp hbefore
      exact mapM_cons_eq_error_iff.mpr (.inr ⟨hx', ih hbefore⟩)

end FormatRequest
