import EufyNvr.Lib.Json

/-!
# Cutting and joining texts

The methods that cut a text at a character, and the one that replaces the
first occurrence of a text.
-/

namespace EufyNvr

variable {c : Nat} {s a b : Str}

structure Partition where
  before : Str
  /-- Empty when the character is not there. -/
  separator : Str
  after : Str
  deriving DecidableEq

/-- `str.partition` -/
def partition (c : Nat) : Str → Partition
  | [] => ⟨[], [], []⟩
  | d :: s =>
    if d = c then ⟨[], [c], s⟩ else { partition c s with before := d :: (partition c s).before }

/-- `str.rpartition` -/
def rpartition (c : Nat) (s : Str) : Partition :=
  let p := partition c s.reverse
  ⟨p.after.reverse, p.separator, p.before.reverse⟩

theorem partition_absent (h : c ∉ s) : partition c s = ⟨s, [], []⟩ := by
  induction s with
  | nil => rfl
  | cons d s ih =>
    obtain ⟨hd, hs⟩ := not_or.mp (mt List.mem_cons.mpr h)
    rw [partition, if_neg (Ne.symm hd), ih hs]

theorem partition_present (h : c ∉ a) : partition c (a ++ c :: b) = ⟨a, [c], b⟩ := by
  induction a with
  | nil => exact if_pos rfl
  | cons d a ih =>
    obtain ⟨hd, ha⟩ := not_or.mp (mt List.mem_cons.mpr h)
    rw [List.cons_append, partition, if_neg (Ne.symm hd), ih ha]

/-- The first occurrence, or none. -/
theorem partition_cases (c : Nat) (s : Str) : c ∉ s ∧ partition c s = ⟨s, [], []⟩ ∨
    ∃ a b, s = a ++ c :: b ∧ c ∉ a ∧ partition c s = ⟨a, [c], b⟩ := by
  by_cases h : c ∈ s
  · obtain ⟨a, b, rfl, ha⟩ := List.eq_append_cons_of_mem h
    exact .inr ⟨a, b, rfl, ha, partition_present ha⟩
  · exact .inl ⟨h, partition_absent h⟩

theorem rpartition_absent (h : c ∉ s) : rpartition c s = ⟨[], [], s⟩ := by
  rw [rpartition, partition_absent (by simpa using h)]
  simp

theorem rpartition_present (h : c ∉ b) : rpartition c (a ++ c :: b) = ⟨a, [c], b⟩ := by
  have hreverse : (a ++ c :: b).reverse = b.reverse ++ c :: a.reverse := by simp
  rw [rpartition, hreverse, partition_present (by simpa using h)]
  simp

/-- `str.replace` of the first occurrence. -/
def replaceFirst (old new : Str) : Str → Str
  | [] => []
  | c :: s =>
    if old <+: c :: s then new ++ (c :: s).drop old.length else c :: replaceFirst old new s

theorem replaceFirst_absent {old new : Str} (h : ¬ old <:+: s) : replaceFirst old new s = s := by
  induction s with
  | nil => rfl
  | cons c s ih =>
    obtain ⟨hc, hs⟩ := not_or.mp (mt List.infix_cons_iff.mpr h)
    rw [replaceFirst, if_neg hc, ih hs]

/-- It begins after every text without its first character. -/
theorem replaceFirst_append (old new : Str) (h : c ∉ a) :
    replaceFirst (c :: old) new (a ++ b) = a ++ replaceFirst (c :: old) new b := by
  induction a with
  | nil => rfl
  | cons d a ih =>
    obtain ⟨hd, ha⟩ := not_or.mp (mt List.mem_cons.mpr h)
    have hold : ¬ c :: old <+: d :: (a ++ b) := fun hold => hd (List.cons_prefix_cons.mp hold).1
    rw [List.cons_append, replaceFirst, if_neg hold, ih ha, List.cons_append]

theorem replaceFirst_present (old new : Str) (h : c ∉ a) :
    replaceFirst (c :: old) new (a ++ c :: (old ++ b)) = a ++ (new ++ b) := by
  have hold : c :: old <+: c :: (old ++ b) := List.prefix_append (c :: old) b
  rw [replaceFirst_append old new h, replaceFirst, if_pos hold, List.length_cons,
    List.drop_succ_cons, List.drop_left]

theorem subset_replaceFirst {old : Str} (new : Str) (h : c :: old <:+: s) :
    new ⊆ replaceFirst (c :: old) new s := by
  induction s with
  | nil => exact absurd (List.infix_nil.mp h) (List.cons_ne_nil c old)
  | cons d s ih =>
    rw [replaceFirst]
    split
    · exact List.subset_append_left _ _
    · rename_i hold
      exact List.subset_cons_of_subset d (ih ((List.infix_cons_iff.mp h).resolve_left hold))

/-- A text that begins with `c` is not where there is no `c`. -/
theorem infix_of_append_left {t : Str} (h : c ∉ a) (ht : c :: t <:+: a ++ b) : c :: t <:+: b := by
  induction a with
  | nil => exact ht
  | cons d a ih =>
    obtain ⟨hd, ha⟩ := not_or.mp (mt List.mem_cons.mpr h)
    rcases List.infix_cons_iff.mp ht with hbegins | hwithin
    · exact absurd (List.cons_prefix_cons.mp hbegins).1 hd
    · exact ih ha hwithin

theorem infix_of_append_right {t : Str} (h : c ∉ b) (ht : t ++ [c] <:+: a ++ b) :
    t ++ [c] <:+: a := by
  rw [← List.reverse_infix, List.reverse_append] at ht ⊢
  rw [List.reverse_append] at ht
  exact infix_of_append_left (by simpa using h) ht

-- ---------------------------------------------------------------------------
-- All pieces of a text
-- ---------------------------------------------------------------------------

theorem mem_intercalate {c x : Nat} {ls : List Str} (h : c ∈ [x].intercalate ls) :
    c = x ∨ ∃ l ∈ ls, c ∈ l := by
  induction ls with
  | nil => cases h
  | cons l ls ih =>
    cases ls with
    | nil =>
      rw [List.intercalate_singleton] at h
      exact .inr ⟨l, by simp, h⟩
    | cons l' ls =>
      rw [List.intercalate_cons_cons, List.mem_append, List.mem_append, List.mem_singleton] at h
      rcases h with (h | h) | h
      · exact .inr ⟨l, by simp, h⟩
      · exact .inl h
      · exact (ih h).imp_right fun ⟨p, hp, hc⟩ => ⟨p, List.mem_cons_of_mem l hp, hc⟩

theorem mem_intercalate_of_mem {c x : Nat} {l : Str} {ls : List Str} (hl : l ∈ ls) (hc : c ∈ l) :
    c ∈ [x].intercalate ls := by
  induction ls with
  | nil => cases hl
  | cons l' ls ih =>
    cases ls with
    | nil =>
      rwa [List.intercalate_singleton, ← List.mem_singleton.mp hl]
    | cons l'' ls =>
      rw [List.intercalate_cons_cons, List.mem_append, List.mem_append]
      rcases List.mem_cons.mp hl with rfl | hl
      · exact .inl (.inl hc)
      · exact .inr (ih hl)

theorem length_splitOn (c : Nat) (s : Str) : (s.splitOn c).length = s.count c + 1 := by
  induction s with
  | nil => rfl
  | cons d s ih =>
    rw [List.splitOn_cons_eq_if_modifyHead, List.count_cons]
    split
    · rw [List.length_cons, ih]
    · rw [List.length_modifyHead, ih]

section

variable {α β : Type*} {f : α → Option β} {ps : List α} {ns : List β}

theorem map_of_mapM (h : ps.mapM f = some ns) : ps.map f = ns.map some := by
  induction ps generalizing ns with
  | nil =>
    cases h
    rfl
  | cons p ps ih =>
    rw [List.mapM_cons] at h
    obtain ⟨n, hn, h⟩ := Option.bind_eq_some_iff.mp h
    obtain ⟨ns', hns, h⟩ := Option.bind_eq_some_iff.mp h
    cases h
    rw [List.map_cons, List.map_cons, hn, ih hns]

theorem mapM_length (h : ps.mapM f = some ns) : ns.length = ps.length := by
  simpa using (congrArg List.length (map_of_mapM h)).symm

theorem mapM_mem (h : ps.mapM f = some ns) {p : α} (hp : p ∈ ps) : ∃ n ∈ ns, f p = some n := by
  have hmem : f p ∈ ns.map some := map_of_mapM h ▸ List.mem_map_of_mem hp
  obtain ⟨n, hn, hf⟩ := List.mem_map.mp hmem
  exact ⟨n, hn, hf.symm⟩

theorem mem_of_mapM (h : ps.mapM f = some ns) {n : β} (hn : n ∈ ns) : ∃ p ∈ ps, f p = some n := by
  have hmem : some n ∈ ps.map f := map_of_mapM h ▸ List.mem_map_of_mem hn
  exact List.mem_map.mp hmem

end

end EufyNvr
