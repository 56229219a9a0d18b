import Mathlib

/-!
# Counting up to a free name

`firstFree` tries a candidate, then `f k`, `f (k + 1)` and so on until one is
not used. Where `f` gives no value twice, more tries than there are used
values are enough.
-/

namespace EufyNvr

variable {α : Type*} [DecidableEq α] {used : List α} {f : Nat → α} {fuel k : Nat} {c : α}

def firstFree (used : List α) (f : Nat → α) : Nat → Nat → α → α
  | 0, _, candidate => candidate
  | fuel + 1, k, candidate =>
    if candidate ∈ used then firstFree used f fuel (k + 1) (f k) else candidate

/-- What the search tries, in order. -/
def attempt (f : Nat → α) (k : Nat) (c : α) : Nat → α
  | 0 => c
  | j + 1 => f (k + j)

omit [DecidableEq α] in
theorem attempt_succ (f : Nat → α) (k : Nat) (c : α) (j : Nat) :
    attempt f k c (j + 1) = attempt f (k + 1) (f k) j := by
  cases j with
  | zero => rfl
  | succ j => exact congrArg f (by omega)

theorem firstFree_rule {P : α → Prop} (hc : P c) (hf : ∀ k, P (f k)) :
    P (firstFree used f fuel k c) := by
  induction fuel generalizing k c with
  | zero => exact hc
  | succ fuel ih =>
    rw [firstFree]
    split
    · exact ih (hf k)
    · exact hc

/-- A search that ends at a used value has found every try used. -/
theorem tried_of_mem (h : firstFree used f fuel k c ∈ used) :
    c ∈ used ∧ ∀ j < fuel, f (k + j) ∈ used := by
  induction fuel generalizing k c with
  | zero => exact ⟨h, nofun⟩
  | succ fuel ih =>
    rw [firstFree] at h
    split at h
    · obtain ⟨hk, hrest⟩ := ih h
      refine ⟨‹_›, fun j hj => ?_⟩
      cases j with
      | zero => exact hk
      | succ j =>
        have hj' := hrest j (by omega)
        rwa [show k + 1 + j = k + (j + 1) by omega] at hj'
    · contradiction

theorem firstFree_not_mem (hf : Function.Injective f) (hfuel : used.length < fuel) :
    firstFree used f fuel k c ∉ used := by
  intro h
  have htried := (tried_of_mem h).2
  have hnodup : ((List.range fuel).map fun j => f (k + j)).Nodup :=
    List.nodup_range.map fun i j hij => by have := hf hij; omega
  have hsub : ∀ x ∈ (List.range fuel).map fun j => f (k + j), x ∈ used := by
    intro x hx
    obtain ⟨j, hj, rfl⟩ := List.mem_map.mp hx
    exact htried j (List.mem_range.mp hj)
  have hle := (List.subperm_of_subset hnodup hsub).length_le
  rw [List.length_map, List.length_range] at hle
  omega

/-- A search that finds a value stops at the first that is free. -/
theorem firstFree_first (h : firstFree used f fuel k c ∉ used) :
    ∃ j ≤ fuel, firstFree used f fuel k c = attempt f k c j ∧ ∀ i < j, attempt f k c i ∈ used := by
  induction fuel generalizing k c with
  | zero => exact ⟨0, le_rfl, rfl, nofun⟩
  | succ fuel ih =>
    rw [firstFree] at h ⊢
    split at h
    · rename_i hc
      obtain ⟨j, hj, heq, hused⟩ := ih h
      refine ⟨j + 1, by omega, ?_, fun i hi => ?_⟩
      · rw [if_pos hc, heq, attempt_succ]
      · cases i with
        | zero => exact hc
        | succ i =>
          rw [attempt_succ]
          exact hused i (by omega)
    · rename_i hc
      exact ⟨0, by omega, if_neg hc, nofun⟩

end EufyNvr
