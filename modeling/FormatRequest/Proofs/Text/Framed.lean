import Mathlib.Data.List.Basic

/-!
# Items that stand apart in a text

A number can be a part of the digits of another one, so that to find its digits in a text says little.
It is there for a reader if the characters before and after it are no digits. An item that stands
apart in a part of a text stands apart in the whole.

Results:
1. `framed_between`, `framed_append`: an item with other text around it.
2. `Framed.widen`, `infix_flatMap`, `exists_infix_intercalate`: parts of a text, and items of a list.
-/

namespace FormatRequest.Text

variable {item s t : List Char} {c d : Char}

/-- `Framed item text`: the item stands in the text between characters that are no digits. A number
that is framed is not part of a longer one. -/
def Framed (item text : List Char) : Prop :=
  ∃ c d, c.isDigit = false ∧ d.isDigit = false ∧ c :: (item ++ [d]) <:+: text

theorem Framed.widen (h : Framed item s) (hst : s <:+: t) : Framed item t := by
  obtain ⟨c, d, hc, hd, hitem⟩ := h
  exact ⟨c, d, hc, hd, hitem.trans hst⟩

theorem Framed.isInfix (h : Framed item t) : item <:+: t := by
  obtain ⟨c, d, _, _, hitem⟩ := h
  exact List.IsInfix.trans ⟨[c], [d], rfl⟩ hitem

theorem framed_between (hc : c.isDigit = false) (hd : d.isDigit = false)
    (before after : List Char) : Framed item (before ++ c :: (item ++ d :: after)) := by
  refine ⟨c, d, hc, hd, before, after, ?_⟩
  simp

/-- An item between texts of which the one ends, and the other begins, with no digit. -/
theorem framed_append {before after : List Char}
    (hbefore : before.getLast?.map Char.isDigit = some false)
    (hafter : after.head?.map Char.isDigit = some false) :
    Framed item (before ++ item ++ after) := by
  obtain ⟨c, hlast, hc⟩ := Option.map_eq_some_iff.mp hbefore
  obtain ⟨d, hfirst, hd⟩ := Option.map_eq_some_iff.mp hafter
  obtain ⟨lead, rfl⟩ := List.getLast?_eq_some_iff.mp hlast
  obtain ⟨rest, rfl⟩ := List.head?_eq_some_iff.mp hfirst
  rw [List.append_assoc, List.append_assoc]
  exact framed_between hc hd lead rest

theorem infix_flatMap {α : Type _} {a : α} {as : List α} (h : a ∈ as) (f : α → List Char) :
    f a <:+: as.flatMap f := by
  rw [List.flatMap_def]
  exact List.infix_of_mem_flatten (List.mem_map_of_mem h)

/-- An item of a separated list is followed by a separator, or by what follows the list. -/
theorem exists_infix_intercalate {items : List (List Char)} (h : item ∈ items)
    (hc : c.isDigit = false) (hd : d.isDigit = false) (rest : List Char) :
    ∃ e, e.isDigit = false ∧ item ++ [e] <:+: [c].intercalate items ++ d :: rest := by
  induction items with
  | nil => exact absurd h List.not_mem_nil
  | cons first items ih =>
    cases items with
    | nil =>
      obtain rfl := List.mem_singleton.mp h
      refine ⟨d, hd, [], rest, ?_⟩
      simp
    | cons next items =>
      rw [List.intercalate_cons_cons]
      rcases List.mem_cons.mp h with rfl | h
      · refine ⟨c, hc, [], [c].intercalate (next :: items) ++ d :: rest, ?_⟩
        simp
      · obtain ⟨e, he, hitem⟩ := ih h
        refine ⟨e, he, hitem.trans ⟨first ++ [c], [], ?_⟩⟩
        simp

end FormatRequest.Text
