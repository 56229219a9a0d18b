import EufyNvr.Lib.Partition
import EufyNvr.Lib.Unicode

/-!
# Words of a text

What the language makes of the line ends of a text file, and the splits at
white space and at the last occurrence of a character.
-/

namespace EufyNvr

variable {c : Nat} {s a b w : Str}

/-- A text file as it is read: every line end is a newline. -/
def newlines : Str → Str
  | [] => []
  | 13 :: 10 :: s => 10 :: newlines s
  | c :: s => (if c = 13 then 10 else c) :: newlines s

/-- `str.split()` -/
def words (s : Str) : List Str := (s.splitOnP isSpace).filter (!·.isEmpty)

/-- `str.rsplit(_, 1)` -/
def rsplitOnce (c : Nat) (s : Str) : List Str :=
  if c ∈ s then [(rpartition c s).before, (rpartition c s).after] else [s]

theorem rsplitOnce_absent (h : c ∉ s) : rsplitOnce c s = [s] := if_neg h

theorem rsplitOnce_present (h : c ∉ b) : rsplitOnce c (a ++ c :: b) = [a, b] := by
  rw [rsplitOnce, if_pos (by simp), rpartition_present h]

-- ---------------------------------------------------------------------------
-- White space at the ends
-- ---------------------------------------------------------------------------

theorem mem_of_mem_strip (h : c ∈ strip s) : c ∈ s :=
  (List.dropWhile_suffix _).subset ((List.rdropWhile_prefix _ _).subset h)

theorem strip_strip (s : Str) : strip (strip s) = strip s := by
  have hfirst : (strip s).dropWhile isSpace = strip s := by
    cases hs : strip s with
    | nil => rfl
    | cons c t =>
      -- The first character of what is left is the first of what was left in front.
      obtain ⟨u, hu⟩ : c :: t <+: s.dropWhile isSpace := hs ▸ List.rdropWhile_prefix _ _
      have hc := List.head?_dropWhile_not isSpace s
      rw [← hu] at hc
      exact List.dropWhile_cons_of_neg (by simpa using hc)
  rw [strip, hfirst, strip, List.rdropWhile_idempotent]

-- ---------------------------------------------------------------------------
-- Words
-- ---------------------------------------------------------------------------

/-- White space is between the words, not in them. -/
theorem words_append (h : isSpace c = true) : words (a ++ c :: b) = words a ++ words b := by
  rw [words, List.splitOnP_append_cons a b h, List.filter_append, words, words]

theorem words_space (h : isSpace c = true) : words (c :: s) = words s :=
  words_append (a := []) h

theorem words_word (hw : w ≠ []) (hword : ∀ d ∈ w, isSpace d = false) : words w = [w] := by
  rw [words, List.splitOnP_eq_singleton hword, List.filter_cons_of_pos (by simpa using hw),
    List.filter_nil]

/-- Words with a space before each. -/
theorem words_spaced {ws : List Str} (hws : ∀ w ∈ ws, w ≠ [] ∧ ∀ d ∈ w, isSpace d = false) :
    words (ws.flatMap (32 :: ·)) = ws := by
  induction ws using List.reverseRecOn with
  | nil => rfl
  | append_singleton ws w ih =>
    obtain ⟨hws, hw⟩ := List.forall_mem_append.mp hws
    obtain ⟨hne, hword⟩ := hw w (by simp)
    rw [List.flatMap_append, List.flatMap_singleton, words_append (by rfl), ih hws,
      words_word hne hword]

/-- A newline at the end makes no word. -/
theorem words_ended (hs : s = [] ∨ s = [10]) : words (a ++ s) = words a := by
  rcases hs with rfl | rfl
  · rw [List.append_nil]
  · rw [words_append (by rfl)]
    exact List.append_nil _

-- ---------------------------------------------------------------------------
-- Line ends
-- ---------------------------------------------------------------------------

theorem newlines_cons (h : c ≠ 13) : newlines (c :: s) = c :: newlines s := by
  rw [newlines.eq_def]
  split
  · rename_i heq
    cases heq
  · rename_i heq
    cases heq
    exact absurd rfl h
  · rename_i heq
    cases heq
    rw [if_neg h]

/-- Line ends are only between the parts of a text if they are in one of
them. -/
theorem newlines_append (h : c ≠ 10) (h' : c ≠ 13) :
    newlines (a ++ c :: b) = newlines a ++ c :: newlines b := by
  induction a using newlines.induct with
  | case1 => exact newlines_cons h'
  | case2 a ih => simp only [List.cons_append, newlines, ih]
  | case3 d a hd ih =>
    have hnot : ∀ t, d = 13 → a ++ c :: b ≠ 10 :: t := fun t hd' ht => by
      cases a with
      | nil => exact h (List.cons.inj ht).1
      | cons e a =>
        obtain ⟨rfl, -⟩ := List.cons.inj ht
        exact hd a hd' rfl
    rw [List.cons_append, newlines, newlines, ih, List.cons_append]
    · exact fun t h1 h2 => hd t h1 h2
    · exact fun t h1 h2 => hnot t h1 h2

theorem newlines_self (h : 13 ∉ s) : newlines s = s := by
  induction s with
  | nil => rfl
  | cons c s ih =>
    obtain ⟨hc, hs⟩ := not_or.mp (mt List.mem_cons.mpr h)
    rw [newlines_cons (Ne.symm hc), ih hs]

theorem mem_newlines (h : c ≠ 10) (h' : c ≠ 13) : c ∈ newlines s ↔ c ∈ s := by
  induction s using newlines.induct with
  | case1 => rfl
  | case2 s ih => simp [newlines, ih, h, h']
  | case3 d s hd ih =>
    rw [newlines, List.mem_cons, List.mem_cons, ih]
    · split
      · rename_i hd'
        subst hd'
        simp [h, h']
      · rfl
    · exact fun t h1 h2 => hd t h1 h2

/-- A line end is white space in each of its forms. -/
theorem words_newlines (s : Str) : words (newlines s) = words s := by
  have hafter : ∀ a, words (a ++ newlines s) = words (a ++ s) := by
    induction s using newlines.induct with
    | case1 => exact fun _ => rfl
    | case2 s ih =>
      intro a
      rw [newlines, words_append (by rfl), words_append (by rfl), words_space (c := 10) (by rfl)]
      exact congrArg _ (ih [])
    | case3 d s hd ih =>
      intro a
      rw [newlines]
      · split
        · rename_i hd'
          subst hd'
          rw [words_append (by rfl), words_append (by rfl)]
          exact congrArg _ (ih [])
        · rw [List.append_cons, List.append_cons a d s]
          exact ih (a ++ [d])
      · exact hd
  exact hafter []

end EufyNvr
