import Mathlib.Tactic.Lemma

/-!
# Lists that change at one place

What stands at a place of a list of which one place was changed, or that is longer by one.
-/

namespace SchemaCatalog

variable {α : Type} {l : List α} {i j : Nat} {a b : α}

lemma modify_cases {g : α → α} (h : (l.modify i g)[j]? = some b) :
    (i = j ∧ ∃ a, l[j]? = some a ∧ b = g a) ∨ (i ≠ j ∧ l[j]? = some b) := by
  by_cases e : i = j
  · subst e
    rw [List.getElem?_modify_eq] at h
    obtain ⟨a, ha, rfl⟩ := Option.map_eq_some_iff.1 h
    exact .inl ⟨rfl, a, ha, rfl⟩
  · rw [List.getElem?_modify_ne _ _ e] at h
    exact .inr ⟨e, h⟩

lemma concat_cases (h : (l ++ [a])[i]? = some b) :
    l[i]? = some b ∨ (i = l.length ∧ b = a) := by
  rcases Nat.lt_trichotomy i l.length with lt | rfl | gt
  · rw [List.getElem?_append_left lt] at h
    exact .inl h
  · rw [List.getElem?_concat_length] at h
    cases h
    exact .inr ⟨rfl, rfl⟩
  · obtain ⟨lt, -⟩ := List.getElem?_eq_some_iff.1 h
    rw [List.length_append, List.length_singleton] at lt
    omega

lemma getElem?_grow {l' : List α} (hl : l <+: l') (h : l[i]? = some b) :
    l'[i]? = some b := by
  obtain ⟨r, rfl⟩ := hl
  obtain ⟨lt, -⟩ := List.getElem?_eq_some_iff.1 h
  rw [List.getElem?_append_left lt, h]

lemma getElem?_concat (h : l[i]? = some b) (a : α) : (l ++ [a])[i]? = some b :=
  getElem?_grow (List.prefix_append ..) h

end SchemaCatalog
