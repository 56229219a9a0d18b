import EufyNvr.Lib.Machine

/-!
# Orderings in a growing trace

A trace is a list of events that a run extends at its end. `Before a b` says
that `a` has happened whenever `b` happens, `NoneAfter p b` that no event
that satisfies `p` happens once `b` has. Each comes with the rule for one
more event.
-/

namespace EufyNvr.Trace

variable {α : Type*} {tr : List α} {a b e : α} {p : α → Prop}

def Before (a b : α) (tr : List α) : Prop := ∀ pre post, tr = pre ++ b :: post → a ∈ pre

def NoneAfter (p : α → Prop) (b : α) (tr : List α) : Prop :=
  ∀ pre post, tr = pre ++ b :: post → ∀ e ∈ post, ¬ p e

/-- Where `b` can stand in a trace with one more event. -/
theorem snoc_split {pre post : List α} (h : tr ++ [e] = pre ++ b :: post) :
    (post = [] ∧ e = b ∧ pre = tr) ∨ ∃ post', post = post' ++ [e] ∧ tr = pre ++ b :: post' := by
  rcases List.eq_nil_or_concat post with rfl | ⟨post', x, rfl⟩
  · obtain ⟨rfl, hb⟩ := List.append_inj' h rfl
    exact .inl ⟨rfl, by simpa using hb, rfl⟩
  · have h' : tr ++ [e] = (pre ++ b :: post') ++ [x] := by simpa using h
    obtain ⟨htr, hx⟩ := List.append_inj' h' rfl
    obtain rfl : e = x := by simpa using hx
    exact .inr ⟨post', by simp, htr⟩

theorem Before.nil : Before a b [] := by
  intro pre post h
  cases pre <;> cases h

theorem Before.snoc (h : Before a b tr) (he : e = b → a ∈ tr) : Before a b (tr ++ [e]) := by
  intro pre post hs
  rcases snoc_split hs with ⟨-, heb, rfl⟩ | ⟨post', -, htr⟩
  · exact he heb
  · exact h pre post' htr

theorem NoneAfter.snoc (h : NoneAfter p b tr) (he : b ∈ tr → ¬ p e) :
    NoneAfter p b (tr ++ [e]) := by
  intro pre post hs
  rcases snoc_split hs with ⟨rfl, -, -⟩ | ⟨post', rfl, rfl⟩
  · simp
  · intro x hx
    rcases List.mem_append.mp hx with hx | hx
    · exact h pre post' rfl x hx
    · rw [List.mem_singleton.mp hx]
      exact he (by simp)

theorem count_snoc_of_ne [DecidableEq α] (h : e ≠ b) : (tr ++ [e]).count b = tr.count b := by
  rw [List.count_append, List.count_singleton]
  simp [h]

theorem count_snoc_self [DecidableEq α] : (tr ++ [b]).count b = tr.count b + 1 := by
  rw [List.count_append, List.count_singleton_self]

end EufyNvr.Trace
