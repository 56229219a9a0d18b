import EufyNvr.Lib.Machine

/-!
# Insertion-ordered dictionaries

`Dict κ ν` is a key-value map that remembers the order of its entries, the
first being the oldest. No key occurs twice, by a field of the structure.
The operations are those of an ordered dictionary: reading, writing (in
place for a key that is present, at the end for a new one), moving a key to
the end, popping the oldest entry, deleting a key, and keeping only the
entries a test accepts. Each has one lemma that says what it does to `get?`,
and the ones that change the size have a lemma about `size`.
-/

namespace EufyNvr

/-- What is looked up is an entry. -/
theorem mem_of_lookup {κ ν : Type*} [BEq κ] [LawfulBEq κ] {items : List (κ × ν)} {k : κ} {v : ν}
    (h : items.lookup k = some v) : (k, v) ∈ items := by
  obtain ⟨l, l', rfl, -⟩ := List.lookup_eq_some_iff.mp h
  exact List.mem_append_right l List.mem_cons_self

structure Dict (κ ν : Type*) where
  items : List (κ × ν)
  nodup : (items.map Prod.fst).Nodup

namespace Dict

variable {κ ν : Type*}

def empty : Dict κ ν := ⟨[], List.nodup_nil⟩

def keys (d : Dict κ ν) : List κ := d.items.map Prod.fst

def size (d : Dict κ ν) : Nat := d.items.length

def filter (d : Dict κ ν) (p : κ × ν → Bool) : Dict κ ν :=
  ⟨d.items.filter p, d.nodup.sublist (List.filter_sublist.map _)⟩

def popFirst (d : Dict κ ν) : Dict κ ν :=
  ⟨d.items.tail, d.nodup.sublist ((List.tail_sublist _).map _)⟩

def mapValues {μ : Type*} (d : Dict κ ν) (f : κ → ν → μ) : Dict κ μ :=
  ⟨d.items.map fun e => (e.1, f e.1 e.2), by simpa [List.map_map, Function.comp_def] using d.nodup⟩

theorem keys_nodup (d : Dict κ ν) : d.keys.Nodup := d.nodup

theorem length_keys (d : Dict κ ν) : d.keys.length = d.size := by simp [keys, size]

@[simp] theorem size_empty : (empty : Dict κ ν).size = 0 := rfl

theorem size_popFirst (d : Dict κ ν) : d.popFirst.size = d.size - 1 := by simp [size, popFirst]

/-- `while n < size: pop the oldest`, with the size as fuel. -/
def popDownTo (n : Nat) : Nat → Dict κ ν → Dict κ ν
  | 0, d => d
  | fuel + 1, d => if n < d.size then popDownTo n fuel d.popFirst else d

theorem size_popDownTo {n fuel : Nat} {d : Dict κ ν} (h : d.size ≤ n + fuel) :
    (popDownTo n fuel d).size ≤ n := by
  induction fuel generalizing d with
  | zero => simpa [popDownTo] using h
  | succ fuel ih =>
    simp only [popDownTo]
    split
    · apply ih
      rw [size_popFirst]
      omega
    · omega

/-- A dictionary whose keys are all keys of another is no larger. -/
theorem size_le_of_subset {d e : Dict κ ν} (h : ∀ k ∈ d.keys, k ∈ e.keys) : d.size ≤ e.size := by
  rw [← length_keys, ← length_keys]
  exact (List.subperm_of_subset d.keys_nodup h).length_le

theorem popDownTo_of_le {n fuel : Nat} {d : Dict κ ν} (h : d.size ≤ n) :
    popDownTo n fuel d = d := by
  cases fuel with
  | zero => rfl
  | succ fuel => rw [popDownTo, if_neg (not_lt.mpr h)]

variable [DecidableEq κ]

theorem size_le_card {d : Dict κ ν} {s : Finset κ} (h : ∀ k ∈ d.keys, k ∈ s) :
    d.size ≤ s.card := by
  rw [← length_keys, ← List.toFinset_card_of_nodup d.keys_nodup]
  exact Finset.card_le_card fun k hk => h k (List.mem_toFinset.mp hk)

def get? (d : Dict κ ν) (k : κ) : Option ν := (d.items.find? (·.1 = k)).map Prod.snd

def erase (d : Dict κ ν) (k : κ) : Dict κ ν := d.filter (·.1 ≠ k)

theorem not_mem_erase (d : Dict κ ν) (k : κ) : k ∉ (d.erase k).items.map Prod.fst := by
  simp [erase, filter]

/-- The entry of `k` goes last, replacing the one `k` had. -/
def push (d : Dict κ ν) (k : κ) (v : ν) : Dict κ ν :=
  ⟨(d.erase k).items ++ [(k, v)], by
    rw [List.map_append, List.nodup_append]
    refine ⟨(d.erase k).nodup, by simp, ?_⟩
    intro a ha b hb hab
    obtain rfl : b = k := by simpa using hb
    exact d.not_mem_erase b (hab ▸ ha)⟩

/-- Overwriting in place. -/
def replace (d : Dict κ ν) (k : κ) (v : ν) : Dict κ ν :=
  ⟨d.items.map fun e => if e.1 = k then (k, v) else e, by
    have h : (d.items.map fun e => if e.1 = k then (k, v) else e).map Prod.fst =
        d.items.map Prod.fst := by
      rw [List.map_map]
      apply List.map_congr_left
      intro e _
      by_cases he : e.1 = k <;> simp [he]
    rw [h]
    exact d.nodup⟩

def set (d : Dict κ ν) (k : κ) (v : ν) : Dict κ ν :=
  if (d.get? k).isSome then d.replace k v else d.push k v

/-- The dictionary of a list of entries: of two with one key the last. -/
def ofList (es : List (κ × ν)) : Dict κ ν := es.foldl (fun d e => d.set e.1 e.2) empty

def moveToEnd (d : Dict κ ν) (k : κ) : Dict κ ν :=
  match d.get? k with
  | some v => d.push k v
  | none => d

-- ---------------------------------------------------------------------------
-- Entries and keys
-- ---------------------------------------------------------------------------

theorem get?_eq_some {d : Dict κ ν} {k : κ} {v : ν} : d.get? k = some v ↔ (k, v) ∈ d.items := by
  obtain ⟨items, hn⟩ := d
  simp only [get?]
  induction items with
  | nil => simp
  | cons e es ih =>
    simp only [List.map_cons, List.nodup_cons] at hn
    by_cases he : e.1 = k
    · subst he
      have hv : ∀ v, (e.1, v) ∉ es := fun v hm => hn.1 (List.mem_map.mpr ⟨_, hm, rfl⟩)
      simp only [List.find?_cons, decide_true, Option.map_some, Option.some.injEq, List.mem_cons, hv,
        or_false]
      constructor
      · rintro rfl; rfl
      · intro h; rw [← h]
    · have hne : (k, v) ≠ e := fun h => he (by rw [← h])
      simpa [List.find?_cons, he, hne] using ih hn.2

theorem get?_eq_none {d : Dict κ ν} {k : κ} : d.get? k = none ↔ k ∉ d.keys := by
  simp only [get?, keys, Option.map_eq_none_iff, List.find?_eq_none, List.mem_map]
  constructor
  · rintro h ⟨e, he, rfl⟩
    exact h e he (by simp)
  · intro h e he hk
    exact h ⟨e, he, by simpa using hk⟩

theorem mem_keys {d : Dict κ ν} {k : κ} : k ∈ d.keys ↔ ∃ v, d.get? k = some v := by
  rw [← Option.isSome_iff_exists, ← Option.ne_none_iff_isSome, Ne, get?_eq_none, not_not]

@[simp] theorem get?_empty (k : κ) : (empty : Dict κ ν).get? k = none := rfl

-- ---------------------------------------------------------------------------
-- What each operation does to `get?`
-- ---------------------------------------------------------------------------

theorem get?_filter {d : Dict κ ν} {p : κ × ν → Bool} {k : κ} {v : ν} :
    (d.filter p).get? k = some v ↔ d.get? k = some v ∧ p (k, v) = true := by
  simp [get?_eq_some, filter, List.mem_filter]

theorem get?_mapValues {μ : Type*} {d : Dict κ ν} {f : κ → ν → μ} {k : κ} {u : μ} :
    (d.mapValues f).get? k = some u ↔ ∃ v, d.get? k = some v ∧ f k v = u := by
  simp only [get?_eq_some, mapValues, List.mem_map, Prod.exists, Prod.mk.injEq]
  constructor
  · rintro ⟨k', v, hm, rfl, rfl⟩
    exact ⟨v, hm, rfl⟩
  · rintro ⟨v, hm, rfl⟩
    exact ⟨k, v, hm, rfl, rfl⟩

theorem get?_erase (d : Dict κ ν) (k j : κ) :
    (d.erase k).get? j = if j = k then none else d.get? j := by
  ext v
  rw [erase, get?_filter]
  by_cases h : j = k <;> simp [h]

theorem get?_push (d : Dict κ ν) (k j : κ) (v : ν) :
    (d.push k v).get? j = if j = k then some v else d.get? j := by
  ext u
  rw [get?_eq_some]
  by_cases h : j = k
  · subst h
    have hn : ∀ u, (j, u) ∉ (d.erase j).items := fun u hu =>
      d.not_mem_erase j (List.mem_map.mpr ⟨_, hu, rfl⟩)
    simp [push, hn, eq_comm]
  · have he : (j, u) ∈ (d.erase k).items ↔ d.get? j = some u := by
      rw [← get?_eq_some, get?_erase, if_neg h]
    simp [push, h, he]

theorem get?_replace (d : Dict κ ν) (k j : κ) (v : ν) (hk : (d.get? k).isSome) :
    (d.replace k v).get? j = if j = k then some v else d.get? j := by
  obtain ⟨u, hu⟩ := Option.isSome_iff_exists.mp hk
  rw [get?_eq_some] at hu
  ext w
  rw [get?_eq_some]
  simp only [replace, List.mem_map]
  by_cases h : j = k
  · subst h
    simp only [if_true, Option.some.injEq]
    constructor
    · rintro ⟨e, _, he⟩
      by_cases hj : e.1 = j
      · rw [if_pos hj] at he; exact congrArg Prod.snd he
      · rw [if_neg hj] at he; exact absurd (by rw [he]) hj
    · rintro rfl
      exact ⟨(j, u), hu, by simp⟩
  · simp only [if_neg h, get?_eq_some]
    constructor
    · rintro ⟨e, hm, he⟩
      by_cases hj : e.1 = k
      · rw [if_pos hj] at he; exact absurd (congrArg Prod.fst he).symm h
      · rw [if_neg hj] at he; exact he ▸ hm
    · intro hm
      exact ⟨(j, w), hm, by simp [h]⟩

theorem get?_set (d : Dict κ ν) (k j : κ) (v : ν) :
    (d.set k v).get? j = if j = k then some v else d.get? j := by
  unfold set
  split
  · rename_i h; exact get?_replace d k j v h
  · exact get?_push d k j v

@[simp] theorem get?_moveToEnd (d : Dict κ ν) (k j : κ) : (d.moveToEnd k).get? j = d.get? j := by
  unfold moveToEnd
  split
  · rename_i v hv
    rw [get?_push]
    split
    · rename_i h; rw [h, hv]
    · rfl
  · rfl

/-- Popping only removes entries. -/
theorem get?_of_popFirst {d : Dict κ ν} {k : κ} {v : ν} (h : d.popFirst.get? k = some v) :
    d.get? k = some v := by
  rw [get?_eq_some] at h ⊢
  exact List.mem_of_mem_tail h

theorem get?_of_popDownTo {n fuel : Nat} {d : Dict κ ν} {k : κ} {v : ν}
    (h : (popDownTo n fuel d).get? k = some v) : d.get? k = some v := by
  induction fuel generalizing d with
  | zero => exact h
  | succ fuel ih =>
    simp only [popDownTo] at h
    split at h
    · exact get?_of_popFirst (ih h)
    · exact h

-- ---------------------------------------------------------------------------
-- Entries in order
-- ---------------------------------------------------------------------------

theorem getLast?_moveToEnd {d : Dict κ ν} {k : κ} {v : ν} (h : d.get? k = some v) :
    (d.moveToEnd k).items.getLast? = some (k, v) := by
  simp [moveToEnd, h, push]

omit [DecidableEq κ] in
/-- Popping down to at least one entry keeps the last. -/
theorem getLast?_popDownTo {n fuel : Nat} {d : Dict κ ν} (hn : 1 ≤ n) :
    (popDownTo n fuel d).items.getLast? = d.items.getLast? := by
  induction fuel generalizing d with
  | zero => rfl
  | succ fuel ih =>
    simp only [popDownTo]
    split
    · rename_i hlt
      rw [ih, popFirst, List.getLast?_tail, if_neg]
      exact Nat.ne_of_gt (lt_of_le_of_lt hn hlt)
    · rfl

theorem get?_popDownTo_last {n fuel : Nat} {d : Dict κ ν} {k : κ} {v : ν} (hn : 1 ≤ n)
    (h : d.items.getLast? = some (k, v)) : (popDownTo n fuel d).get? k = some v := by
  have hlast : (popDownTo n fuel d).items.getLast? = d.items.getLast? := getLast?_popDownTo hn
  exact get?_eq_some.mpr (List.mem_of_getLast? (hlast.trans h))

theorem items_push {d : Dict κ ν} {k : κ} (h : k ∉ d.keys) (v : ν) :
    (d.push k v).items = d.items ++ [(k, v)] := by
  have herase : (d.erase k).items = d.items := List.filter_eq_self.mpr fun e he => by
    have hne : e.1 ≠ k := fun hk => h (hk ▸ List.mem_map.mpr ⟨e, he, rfl⟩)
    simpa using hne
  exact congrArg (· ++ [(k, v)]) herase

theorem items_foldl_set {es : List (κ × ν)} {d : Dict κ ν}
    (h : (d.keys ++ es.map Prod.fst).Nodup) :
    (es.foldl (fun d e => d.set e.1 e.2) d).items = d.items ++ es := by
  induction es generalizing d with
  | nil => simp
  | cons e es ih =>
    have he : e.1 ∉ d.keys := fun hk => (List.nodup_append.mp h).2.2 _ hk e.1 (by simp) rfl
    have hset : (d.set e.1 e.2).items = d.items ++ [e] := by
      have hnone : (d.get? e.1).isSome = false := by rw [get?_eq_none.mpr he]; rfl
      rw [set, hnone]
      exact items_push he e.2
    rw [List.foldl_cons, ih, hset, List.append_assoc, List.singleton_append]
    rw [keys, hset]
    simpa [keys] using h

/-- Entries with distinct keys are those of the dictionary they make. -/
theorem items_ofList {es : List (κ × ν)} (h : (es.map Prod.fst).Nodup) :
    (ofList es).items = es := items_foldl_set (d := .empty) h

omit [DecidableEq κ] in
theorem eq_of_items {d e : Dict κ ν} (h : d.items = e.items) : d = e := by
  obtain ⟨items, hd⟩ := d
  obtain ⟨items', he⟩ := e
  cases h
  rfl

theorem ofList_items (d : Dict κ ν) : ofList d.items = d := eq_of_items (items_ofList d.nodup)

theorem mem_items_set {d : Dict κ ν} {k : κ} {v : ν} {e : κ × ν} (h : e ∈ (d.set k v).items) :
    e ∈ d.items ∨ e = (k, v) := by
  obtain ⟨j, u⟩ := e
  rw [← get?_eq_some, get?_set] at h
  split at h
  · rename_i hj
    cases h
    exact .inr (by rw [hj])
  · exact .inl (get?_eq_some.mp h)

theorem mem_items_foldl_set {es : List (κ × ν)} {d : Dict κ ν} {e : κ × ν}
    (h : e ∈ (es.foldl (fun d e => d.set e.1 e.2) d).items) : e ∈ d.items ∨ e ∈ es := by
  induction es generalizing d with
  | nil => exact .inl h
  | cons f es ih =>
    rcases ih h with h | h
    · rcases mem_items_set h with h | rfl
      · exact .inl h
      · exact .inr (by simp)
    · exact .inr (List.mem_cons_of_mem _ h)

/-- The entries of the dictionary are among those it was made from. -/
theorem mem_of_mem_ofList {es : List (κ × ν)} {e : κ × ν} (h : e ∈ (ofList es).items) : e ∈ es :=
  (mem_items_foldl_set h).resolve_left (List.not_mem_nil)

theorem get?_foldl_set_absent {es : List (κ × ν)} {d : Dict κ ν} {k : κ}
    (h : k ∉ es.map Prod.fst) : (es.foldl (fun d e => d.set e.1 e.2) d).get? k = d.get? k := by
  induction es generalizing d with
  | nil => rfl
  | cons e es ih =>
    obtain ⟨hne, hes⟩ := not_or.mp (mt List.mem_cons.mpr h)
    rw [List.foldl_cons, ih hes, get?_set, if_neg hne]

/-- What is set, under keys of its own. -/
theorem get?_foldl_set_of_mem {es : List (κ × ν)} {d : Dict κ ν} {k : κ} {v : ν}
    (hnodup : (es.map Prod.fst).Nodup) (h : (k, v) ∈ es) :
    (es.foldl (fun d e => d.set e.1 e.2) d).get? k = some v := by
  induction es generalizing d with
  | nil => cases h
  | cons e es ih =>
    obtain ⟨hne, hes⟩ := List.nodup_cons.mp hnodup
    rcases List.mem_cons.mp h with rfl | h
    · rw [List.foldl_cons, get?_foldl_set_absent hne, get?_set, if_pos rfl]
    · rw [List.foldl_cons, ih hes h]

-- ---------------------------------------------------------------------------
-- Sizes
-- ---------------------------------------------------------------------------

theorem erase_keys (d : Dict κ ν) (k : κ) : (d.erase k).keys = d.keys.erase k := by
  rw [d.keys_nodup.erase_eq_filter]
  simp only [keys, erase, filter, List.filter_map]
  congr 1
  apply List.filter_congr
  intro e _
  by_cases h : e.1 = k <;> simp [h]

theorem size_erase_of_mem {d : Dict κ ν} {k : κ} (h : k ∈ d.keys) :
    (d.erase k).size + 1 = d.size := by
  rw [← length_keys, ← length_keys, erase_keys, List.length_erase_of_mem h]
  have := List.length_pos_of_mem h
  omega

theorem size_le_erase (d : Dict κ ν) (k : κ) : d.size ≤ (d.erase k).size + 1 := by
  by_cases h : k ∈ d.keys
  · exact (size_erase_of_mem h).ge
  · rw [← length_keys, ← length_keys, erase_keys, List.erase_of_not_mem h]
    exact Nat.le_succ _

end Dict

end EufyNvr
