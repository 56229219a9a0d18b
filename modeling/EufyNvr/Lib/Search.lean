import EufyNvr.Lib.Infix

/-!
# Searching a text for a mark

The leftmost place where a mark is followed by characters of one kind, which
is what a search for the mark and one or more of these characters finds. A
character that is neither in the mark nor of the kind ends all that begins
before it, so that the lines of a text are searched one by one.
-/

namespace EufyNvr.Search

variable {α : Type*} {p : α → Bool} {mark l rest v : List α} {c d : α}

theorem prefix_separated (h : c ∉ mark) : mark <+: l ++ c :: rest ↔ mark <+: l := by
  constructor
  · intro hp
    rcases List.prefix_or_prefix_of_prefix hp (List.prefix_append l (c :: rest)) with hl | hl
    · exact hl
    · obtain ⟨t, rfl⟩ := hl
      cases t with
      | nil => simp
      | cons d t =>
        obtain ⟨rfl, -⟩ := List.cons_prefix_cons.mp ((List.prefix_append_right_inj l).mp hp)
        exact absurd (by simp) h
  · exact fun hp => hp.trans (List.prefix_append _ _)

theorem takeWhile_separated (h : p c = false) : (l ++ c :: rest).takeWhile p = l.takeWhile p := by
  induction l with
  | nil => simp [h]
  | cons d l ih =>
    rw [List.cons_append, List.takeWhile_cons, List.takeWhile_cons, ih]

variable [DecidableEq α]

/-- The characters after a mark that the text begins with. -/
def group (p : α → Bool) (mark text : List α) : List α :=
  if mark <+: text then (text.drop mark.length).takeWhile p else []

def search (p : α → Bool) (mark : List α) : List α → Option (List α)
  | [] => none
  | c :: cs => if group p mark (c :: cs) = [] then search p mark cs else some (group p mark (c :: cs))

theorem group_separated (hm : c ∉ mark) (hp : p c = false) :
    group p mark (l ++ c :: rest) = group p mark l := by
  by_cases h : mark <+: l
  · rw [group, if_pos ((prefix_separated hm).mpr h), group, if_pos h,
      List.drop_append_of_le_length h.length_le, takeWhile_separated hp]
  · rw [group, if_neg (mt (prefix_separated hm).mp h), group, if_neg h]

theorem group_nil : group p mark [] = [] := by simp [group]

/-- Before the character, or else after it. -/
theorem search_separated (hm : c ∉ mark) (hp : p c = false) :
    search p mark (l ++ c :: rest) = (search p mark l).or (search p mark rest) := by
  induction l with
  | nil =>
    have hnone : group p mark (c :: rest) = [] := (group_separated (l := []) hm hp).trans group_nil
    simp only [List.nil_append, search, hnone, if_true, Option.none_or]
  | cons d l ih =>
    have hgroup : group p mark (d :: (l ++ c :: rest)) = group p mark (d :: l) :=
      group_separated (l := d :: l) hm hp
    rw [List.cons_append]
    rw [search, search, hgroup]
    split
    · exact ih
    · rfl

/-- The mark is nowhere in the text. -/
theorem search_eq_none (h : ¬ mark <:+: l) : search p mark l = none := by
  induction l with
  | nil => rfl
  | cons d l ih =>
    have hhere : group p mark (d :: l) = [] := if_neg fun hd => h hd.isInfix
    rw [search, if_pos hhere]
    exact ih fun hl => h (hl.trans (List.suffix_cons d l).isInfix)

/-- The mark stands first in the text, and all the rest is of the kind. -/
theorem search_mark (hm : mark ≠ []) (hv : v ≠ []) (h : ∀ c ∈ v, p c = true) :
    search p mark (mark ++ v) = some v := by
  have hgroup : group p mark (mark ++ v) = v := by
    rw [group, if_pos (List.prefix_append _ _), List.drop_left, List.takeWhile_eq_self_iff.mpr h]
  cases mark with
  | nil => exact absurd rfl hm
  | cons d mark =>
    rw [List.cons_append] at hgroup ⊢
    rw [search, hgroup, if_neg hv]

/-- What is found is not empty, all of it is of the kind, and it follows the mark in the text. -/
theorem search_eq_some (h : search p mark l = some v) :
    v ≠ [] ∧ (∀ c ∈ v, p c = true) ∧ mark ++ v <:+: l := by
  induction l with
  | nil => cases h
  | cons d l ih =>
    rw [search] at h
    split at h
    · obtain ⟨hne, hall, hin⟩ := ih h
      exact ⟨hne, hall, hin.trans (List.suffix_cons d l).isInfix⟩
    · rename_i hne
      cases h
      refine ⟨hne, ?_, ?_⟩
      · intro c hc
        rw [group] at hc
        split at hc
        · exact List.mem_takeWhile_imp hc
        · cases hc
      · unfold group
        split
        · rename_i hp
          obtain ⟨t, ht⟩ := hp
          rw [← ht, List.drop_left]
          exact ((List.prefix_append_right_inj mark).mpr (List.takeWhile_prefix p)).isInfix
        · rename_i hp
          rw [group, if_neg hp] at hne
          exact absurd rfl hne

end EufyNvr.Search
