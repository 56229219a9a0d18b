import Mathlib

/-!
# Where a word can occur

A word in a text that is put together from parts is in one of the parts,
where no part ends with what the word begins with. A character that the word
does not have keeps the parts around it apart.
-/

namespace EufyNvr.Infix

variable {α : Type*} {w a b l : List α} {c : α}

-- ---------------------------------------------------------------------------
-- Around a character
-- ---------------------------------------------------------------------------

theorem infix_append_cons : w <:+: a ++ c :: b → w <:+: a ∨ w <:+: b ∨
    ∃ u v, w = u ++ c :: v ∧ u <:+ a ∧ v <+: b := by
  rintro ⟨s, t, h⟩
  rw [List.append_assoc] at h
  rcases List.append_eq_append_iff.mp h with ⟨a', rfl, hw⟩ | ⟨s', rfl, hb⟩
  · rcases List.append_eq_append_iff.mp hw with ⟨u, rfl, -⟩ | ⟨u, rfl, hu⟩
    · exact .inl ⟨s, u, by rw [List.append_assoc]⟩
    · cases u with
      | nil => exact .inl ⟨s, [], by simp⟩
      | cons d v =>
        obtain ⟨rfl, rfl⟩ := List.cons.inj hu
        exact .inr (.inr ⟨a', v, rfl, List.suffix_append _ _, List.prefix_append _ _⟩)
  · cases s' with
    | cons d s' =>
      obtain ⟨rfl, rfl⟩ := List.cons.inj hb
      exact .inr (.inl ⟨s', t, List.append_assoc s' w t⟩)
    | nil =>
      cases w with
      | nil => exact .inl (List.nil_infix)
      | cons d v =>
        obtain ⟨rfl, rfl⟩ := List.cons.inj hb
        exact .inr (.inr ⟨[], v, rfl, List.nil_suffix, List.prefix_append _ _⟩)

/-- A character that the word does not have. -/
theorem infix_separated (h : c ∉ w) : w <:+: a ++ c :: b ↔ w <:+: a ∨ w <:+: b := by
  constructor
  · intro hw
    rcases infix_append_cons hw with ha | hb | ⟨u, v, rfl, -⟩
    · exact .inl ha
    · exact .inr hb
    · exact absurd (by simp) h
  · rintro (ha | hb)
    · exact ha.trans (List.prefix_append _ _).isInfix
    · exact hb.trans ((List.suffix_cons c b).trans (List.suffix_append _ _)).isInfix

/-- All texts between the separators, and each of them. -/
theorem infix_intercalate (h : c ∉ w) (hw : w ≠ []) {ls : List (List α)} :
    w <:+: [c].intercalate ls ↔ ∃ l ∈ ls, w <:+: l := by
  induction ls with
  | nil => simp [List.intercalate, hw]
  | cons l ls ih =>
    cases ls with
    | nil => simp
    | cons l' ls =>
      rw [List.intercalate_cons_cons, List.append_assoc, List.singleton_append, infix_separated h,
        ih]
      exact (List.exists_mem_cons_iff _ l (l' :: ls)).symm

/-- The pieces do not contain what they are cut at. -/
theorem not_mem_of_mem_splitOn [DecidableEq α] {s l : List α} (h : l ∈ s.splitOn c) : c ∉ l := by
  induction s generalizing l with
  | nil =>
    obtain rfl : l = [] := by simpa using h
    exact List.not_mem_nil
  | cons d s ih =>
    rw [List.splitOn_cons_eq_if_modifyHead] at h
    split at h
    · rcases List.mem_cons.mp h with rfl | h
      · exact List.not_mem_nil
      · exact ih h
    · rename_i hd
      cases hs : s.splitOn c with
      | nil => exact absurd hs (List.splitOn_ne_nil c s)
      | cons u us =>
        rw [hs] at h ih
        rcases List.mem_cons.mp h with rfl | h
        · intro hc
          rcases List.mem_cons.mp hc with rfl | hc
          · simp at hd
          · exact ih List.mem_cons_self hc
        · exact ih (List.mem_cons_of_mem u h)

theorem infix_splitOn [DecidableEq α] (h : c ∉ w) (hw : w ≠ []) :
    w <:+: a ↔ ∃ l ∈ a.splitOn c, w <:+: l := by
  rw [← infix_intercalate h hw, List.intercalate_splitOn]

-- ---------------------------------------------------------------------------
-- Pieces of an image
-- ---------------------------------------------------------------------------

section

variable {β : Type*} [DecidableEq α] [DecidableEq β] {f : α → List β} {d : β}

theorem splitOn_append {u v : List β} (h : d ∉ u) :
    (u ++ v).splitOn d = (v.splitOn d).modifyHead (u ++ ·) := by
  induction u with
  | nil =>
    obtain ⟨l, ls, hl⟩ := List.exists_cons_of_ne_nil (List.splitOn_ne_nil d v)
    rw [List.nil_append, hl]
    rfl
  | cons e u ih =>
    obtain ⟨he, hu⟩ := not_or.mp (mt List.mem_cons.mpr h)
    have hne : ¬ (e == d) = true := by simpa using Ne.symm he
    obtain ⟨l, ls, hl⟩ := List.exists_cons_of_ne_nil (List.splitOn_ne_nil d v)
    rw [List.cons_append, List.splitOn_cons_eq_if_modifyHead, if_neg hne, ih hu, hl]
    rfl

/-- The separator is the image of a separator, and of no other image a part. -/
theorem splitOn_flatMap (hc : f c = [d]) (h : ∀ x, x ≠ c → d ∉ f x) :
    (a.flatMap f).splitOn d = (a.splitOn c).map (·.flatMap f) := by
  induction a with
  | nil => rfl
  | cons x a ih =>
    obtain ⟨l, ls, hl⟩ := List.exists_cons_of_ne_nil (List.splitOn_ne_nil c a)
    rw [List.flatMap_cons, List.splitOn_cons_eq_if_modifyHead]
    by_cases hx : x = c
    · subst hx
      rw [hc, List.singleton_append, List.splitOn_cons_eq_if_modifyHead, ih, if_pos (beq_self_eq_true _),
        if_pos (beq_self_eq_true _), List.map_cons, List.flatMap_nil]
    · rw [splitOn_append (h x hx), ih, hl, if_neg (by simpa using hx), List.modifyHead_cons,
        List.map_cons, List.map_cons, List.modifyHead_cons, List.flatMap_cons]

end

-- ---------------------------------------------------------------------------
-- Beside a part that is known
-- ---------------------------------------------------------------------------

/-- The word does not begin within `l`. -/
def Apart (w l : List α) : Prop := ∀ u ∈ l.tails, u ≠ [] → ¬ u <+: w ∧ ¬ w <+: u

instance [DecidableEq α] (w l : List α) : Decidable (Apart w l) :=
  inferInstanceAs (Decidable (∀ u ∈ l.tails, _))

theorem infix_after (h : Apart w l) : w <:+: l ++ b ↔ w <:+: b := by
  refine ⟨fun hw => ?_, fun hb => hb.trans (List.suffix_append _ _).isInfix⟩
  induction l with
  | nil => exact hw
  | cons d l ih =>
    rw [Apart, List.tails, List.forall_mem_cons] at h
    obtain ⟨hhere, hlater⟩ := h
    rcases List.infix_cons_iff.mp hw with hbegins | hwithin
    · have hl : d :: l <+: d :: (l ++ b) := List.prefix_append (d :: l) b
      obtain ⟨hlw, hwl⟩ := hhere (List.cons_ne_nil d l)
      rcases List.prefix_or_prefix_of_prefix hl hbegins with hp | hp
      · exact absurd hp hlw
      · exact absurd hp hwl
    · exact ih hlater hwithin

theorem infix_before (h : Apart w.reverse l.reverse) : w <:+: a ++ l ↔ w <:+: a := by
  rw [← List.reverse_infix, List.reverse_append, infix_after h, List.reverse_infix]

end EufyNvr.Infix
