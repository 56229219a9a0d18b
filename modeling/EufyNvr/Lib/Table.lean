import Mathlib

/-!
# Tables

A list as a table: entries are found by their index, new ones are added at
the end, and an entry can be changed in place. Each lemma reads an entry of
the new table as an entry of the old one.
-/

namespace EufyNvr.Table

variable {α : Type*} {xs ys : List α} {x y : α} {j k : Nat} {f : α → α}

theorem getElem?_snoc (h : (xs ++ [x])[k]? = some y) : xs[k]? = some y ∨ k = xs.length ∧ y = x := by
  rcases lt_trichotomy k xs.length with hlt | rfl | hgt
  · exact .inl (by rwa [List.getElem?_append_left hlt] at h)
  · exact .inr ⟨rfl, by simpa using h.symm⟩
  · rw [List.getElem?_append_right hgt.le, List.getElem?_eq_none (by simp; omega)] at h
    cases h

theorem getElem?_append_some (h : xs[k]? = some x) : (xs ++ ys)[k]? = some x := by
  rw [List.getElem?_append_left (List.getElem?_eq_some_iff.mp h).1, h]

theorem getElem?_modify (h : (xs.modify k f)[j]? = some y) :
    (j ≠ k ∧ xs[j]? = some y) ∨ j = k ∧ ∃ x, xs[k]? = some x ∧ y = f x := by
  rw [List.getElem?_modify] at h
  obtain ⟨x, hx, rfl⟩ := Option.map_eq_some_iff.mp h
  by_cases hj : j = k
  · subst hj
    exact .inr ⟨rfl, x, hx, by simp⟩
  · exact .inl ⟨hj, by simpa [Ne.symm hj] using hx⟩

theorem getElem?_modify_self (h : xs[k]? = some x) : (xs.modify k f)[k]? = some (f x) := by
  simp [h]

theorem getElem?_modify_ne (h : j ≠ k) : (xs.modify k f)[j]? = xs[j]? := by
  simp [Ne.symm h]

theorem set_self (h : xs[k]? = some x) : xs.set k x = xs := by
  obtain ⟨hk, rfl⟩ := List.getElem?_eq_some_iff.mp h
  exact List.set_getElem_self hk

end EufyNvr.Table
