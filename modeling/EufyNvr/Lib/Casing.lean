import EufyNvr.Lib.Unicode

/-!
# Upper case and folded case

`str.upper` and `str.casefold` take a text character by character. They are
exact on ASCII and follow the tables of Unicode elsewhere, which are a
parameter. `str.lower` looks at what stands around a character, so its table
is one of texts.
-/

namespace EufyNvr

structure Casing where
  upper : Nat → Str
  fold : Nat → Str
  lower : Str → Str

namespace Casing

variable {T : Casing} {s t : Str} {c d : Nat}

section

variable (T)

def upperOf (c : Nat) : Str := if c < 128 then [asciiUpper c] else T.upper c

def foldOf (c : Nat) : Str := if c < 128 then [asciiLower c] else T.fold c

/-- `str.upper` -/
def uppered (s : Str) : Str := s.flatMap T.upperOf

/-- `str.casefold` -/
def folded (s : Str) : Str := s.flatMap T.foldOf

/-- `str.lower` -/
def lowered (s : Str) : Str := if Ascii s then s.map asciiLower else T.lower s

/-- What the tables say of characters and texts that are not ASCII. -/
structure Documented : Prop where
  upper_upper : ∀ c, 128 ≤ c → (T.upper c).flatMap T.upperOf = T.upper c
  upper_ne_nil : ∀ c, 128 ≤ c → T.upper c ≠ []
  fold_nul : ∀ c, 128 ≤ c → 0 ∉ T.fold c
  /-- No upper case has an `E` or a `U` in it but that of the letter itself. -/
  upper_letters : ∀ c, 128 ≤ c → 69 ∉ T.upper c ∧ 85 ∉ T.upper c
  /-- The dotless `i` is the other letter whose upper case is `I`. -/
  upper_dotless : ∀ c, 128 ≤ c → (T.upper c = [73] ↔ c = 0x131)
  /-- Of what becomes ASCII there is only the Kelvin sign. -/
  lower_kelvin : ∀ s, ¬ Ascii s → Ascii (T.lower s) → 107 ∈ T.lower s

end

/-- Tables with the one letter that is told apart. -/
def dotless : Casing where
  upper c := if c = 0x131 then [73] else [c]
  fold c := [c]
  lower s := s

theorem dotless_documented : dotless.Documented where
  upper_upper c hc := by
    have hself : (c < 128) = False := eq_false (by omega)
    by_cases h : c = 0x131
    · simp [dotless, h, upperOf, asciiUpper]
    · simp [dotless, h, upperOf, hself]
  upper_ne_nil c hc := by
    simp only [dotless]
    split <;> exact List.cons_ne_nil _ _
  fold_nul c hc := by
    simp only [dotless, List.mem_singleton]
    omega
  upper_letters c hc := by
    simp only [dotless]
    split <;> simp
    omega
  upper_dotless c hc := by
    simp only [dotless]
    split
    · simp [*]
    · simp only [*, iff_false, List.cons.injEq, and_true]
      omega
  lower_kelvin s hs h := absurd h hs

-- ---------------------------------------------------------------------------
-- One character
-- ---------------------------------------------------------------------------

theorem upperOf_ascii (h : c < 128) : T.upperOf c = [asciiUpper c] := if_pos h

theorem upperOf_table (h : 128 ≤ c) : T.upperOf c = T.upper c := if_neg (by omega)

theorem foldOf_ascii (h : c < 128) : T.foldOf c = [asciiLower c] := if_pos h

theorem foldOf_table (h : 128 ≤ c) : T.foldOf c = T.fold c := if_neg (by omega)

theorem asciiUpper_lt (h : c < 128) : asciiUpper c < 128 := by
  unfold asciiUpper
  split <;> omega

theorem asciiUpper_asciiUpper (c : Nat) : asciiUpper (asciiUpper c) = asciiUpper c := by
  unfold asciiUpper
  split
  · rw [if_neg (by omega)]
  · rfl

/-- The upper case of a character is in upper case. -/
theorem uppered_upperOf (hT : T.Documented) (c : Nat) :
    T.uppered (T.upperOf c) = T.upperOf c := by
  rcases lt_or_ge c 128 with h | h
  · rw [upperOf_ascii h, uppered, List.flatMap_singleton, upperOf_ascii (asciiUpper_lt h),
      asciiUpper_asciiUpper]
  · rw [upperOf_table h]
    exact hT.upper_upper c h

theorem upperOf_ne_nil (hT : T.Documented) (c : Nat) : T.upperOf c ≠ [] := by
  rcases lt_or_ge c 128 with h | h
  · rw [upperOf_ascii h]
    exact List.cons_ne_nil _ _
  · rw [upperOf_table h]
    exact hT.upper_ne_nil c h

-- ---------------------------------------------------------------------------
-- Texts
-- ---------------------------------------------------------------------------

@[simp] theorem uppered_nil : T.uppered [] = [] := rfl

theorem uppered_cons (c : Nat) (s : Str) : T.uppered (c :: s) = T.upperOf c ++ T.uppered s := rfl

theorem uppered_uppered (hT : T.Documented) (s : Str) : T.uppered (T.uppered s) = T.uppered s := by
  induction s with
  | nil => rfl
  | cons c s ih =>
    rw [uppered_cons, uppered, List.flatMap_append, ← uppered, ← uppered, uppered_upperOf hT, ih]

theorem uppered_eq_nil (hT : T.Documented) : T.uppered s = [] ↔ s = [] := by
  cases s with
  | nil => simp
  | cons c s => simp [uppered_cons, upperOf_ne_nil hT c]

theorem nul_not_mem_folded (hT : T.Documented) (h : 0 ∉ s) : 0 ∉ T.folded s := by
  intro hm
  obtain ⟨c, hc, hm⟩ := List.mem_flatMap.mp hm
  rcases lt_or_ge c 128 with hlt | hge
  · rw [foldOf_ascii hlt, List.mem_singleton, asciiLower] at hm
    split at hm
    · omega
    · exact h (hm ▸ hc)
  · rw [foldOf_table hge] at hm
    exact hT.fold_nul c hge hm

theorem lowered_ascii (h : Ascii s) : T.lowered s = s.map asciiLower := if_pos h

-- ---------------------------------------------------------------------------
-- Spellings of a name
-- ---------------------------------------------------------------------------

/-- `name` in any case. -/
def Spells (name s : Str) : Prop := Ascii s ∧ s.map asciiLower = name

instance (name s : Str) : Decidable (Spells name s) := inferInstanceAs (Decidable (_ ∧ _))

theorem Spells.unique {u : Str} (h : Spells t s) (h' : Spells u s) : t = u := h.2.symm.trans h'.2

/-- A name in ASCII without a `k` is the lower case of its spellings only. -/
theorem lowered_eq (hT : T.Documented) (ht : Ascii t) (hk : 107 ∉ t) :
    T.lowered s = t ↔ Spells t s := by
  by_cases hs : Ascii s
  · rw [lowered_ascii hs]
    exact ⟨fun h => ⟨hs, h⟩, And.right⟩
  · rw [lowered, if_neg hs]
    refine ⟨?_, fun h => absurd h.1 hs⟩
    rintro rfl
    exact absurd (hT.lower_kelvin s hs ht) hk

/-- `E` and `U` are upper cases of ASCII letters only. -/
theorem ascii_of_letter (hT : T.Documented) (hd : d = 69 ∨ d = 85) (h : d ∈ T.upperOf c) :
    c < 128 ∧ asciiLower c = d + 32 := by
  rcases lt_or_ge c 128 with hlt | hge
  · rw [upperOf_ascii hlt, List.mem_singleton, asciiUpper] at h
    refine ⟨hlt, ?_⟩
    rw [asciiLower]
    split at h <;> split <;> omega
  · rw [upperOf_table hge] at h
    have := hT.upper_letters c hge
    rcases hd with rfl | rfl
    · exact absurd h this.1
    · exact absurd h this.2

theorem upperOf_letter (hd : d = 69 ∨ d = 73 ∨ d = 85) (hlt : c < 128) :
    T.upperOf c = [d] ↔ asciiLower c = d + 32 := by
  rw [upperOf_ascii hlt, List.cons.injEq, and_iff_left rfl, asciiUpper, asciiLower]
  split <;> split <;> omega

/-- A text whose upper case is a letter and an `E` or a `U` has two characters. -/
theorem uppered_pair (hT : T.Documented) (hd : d = 69 ∨ d = 85) :
    T.uppered s = [c, d] ↔
      ∃ x y, s = [x, y] ∧ T.upperOf x = [c] ∧ y < 128 ∧ asciiLower y = d + 32 := by
  constructor
  · intro h
    cases s with
    | nil => cases h
    | cons x s =>
      rw [uppered_cons, List.append_eq_cons_iff] at h
      rcases h with ⟨hnil, -⟩ | ⟨u, hx, hu⟩
      · exact absurd hnil (upperOf_ne_nil hT x)
      · cases u with
        | cons e u =>
          -- One character would have both letters, but such a one is ASCII.
          obtain ⟨rfl, -⟩ := List.cons.inj hu
          obtain ⟨hlt, -⟩ := ascii_of_letter hT hd (show d ∈ T.upperOf x by rw [hx]; simp)
          rw [upperOf_ascii hlt] at hx
          cases hx
        | nil =>
          cases s with
          | nil => cases hu
          | cons y s =>
            rw [List.nil_append, uppered_cons] at hu
            have hmem : d ∈ T.upperOf y := by
              rcases List.append_eq_cons_iff.mp hu.symm with ⟨hnil, -⟩ | ⟨v, hy, -⟩
              · exact absurd hnil (upperOf_ne_nil hT y)
              · rw [hy]
                exact List.mem_cons_self
            obtain ⟨hlt, hlower⟩ := ascii_of_letter hT hd hmem
            rw [upperOf_ascii hlt, List.singleton_append, List.cons.injEq] at hu
            have hend := (uppered_eq_nil hT).mp hu.2.symm
            exact ⟨x, y, by rw [hend], hx, hlt, hlower⟩
  · rintro ⟨x, y, rfl, hx, hlt, hlower⟩
    have hy : T.upperOf y = [d] :=
      (upperOf_letter (hd.imp_right .inr) hlt).mpr hlower
    rw [uppered_cons, uppered_cons, uppered_nil, hx, hy]
    rfl

/-- The dotless `i` is the only other letter. -/
theorem upperOf_eq (hT : T.Documented) (hd : d = 69 ∨ d = 73 ∨ d = 85) :
    T.upperOf c = [d] ↔ c < 128 ∧ asciiLower c = d + 32 ∨ d = 73 ∧ c = 0x131 := by
  rcases lt_or_ge c 128 with hlt | hge
  · rw [upperOf_letter hd hlt]
    refine ⟨fun h => .inl ⟨hlt, h⟩, ?_⟩
    rintro (⟨-, h⟩ | ⟨-, rfl⟩)
    · exact h
    · omega
  · have hletters := hT.upper_letters c hge
    rw [upperOf_table hge]
    rcases hd with rfl | rfl | rfl
    · refine ⟨fun h => absurd (by rw [h]; simp) hletters.1, ?_⟩
      rintro (⟨hlt, -⟩ | ⟨h, -⟩) <;> omega
    · rw [hT.upper_dotless c hge]
      refine ⟨fun h => .inr ⟨rfl, h⟩, ?_⟩
      rintro (⟨hlt, -⟩ | ⟨-, h⟩) <;> omega
    · refine ⟨fun h => absurd (by rw [h]; simp) hletters.2, ?_⟩
      rintro (⟨hlt, -⟩ | ⟨h, -⟩) <;> omega

theorem spells_pair {a b : Nat} : Spells [a, b] s ↔
    ∃ x y, s = [x, y] ∧ (x < 128 ∧ asciiLower x = a) ∧ y < 128 ∧ asciiLower y = b := by
  constructor
  · rintro ⟨hascii, hmap⟩
    obtain ⟨x, u, rfl, hx, hu⟩ := List.map_eq_cons_iff.mp hmap
    obtain ⟨y, v, rfl, hy, hv⟩ := List.map_eq_cons_iff.mp hu
    obtain rfl := List.map_eq_nil_iff.mp hv
    simp only [Ascii, List.forall_mem_cons, isAscii, decide_eq_true_eq] at hascii
    exact ⟨x, y, rfl, ⟨hascii.1, hx⟩, hascii.2.1, hy⟩
  · rintro ⟨x, y, rfl, ⟨hx, rfl⟩, hy, rfl⟩
    exact ⟨by simp [Ascii, isAscii, hx, hy], rfl⟩

/-- What is in upper case two letters, of which an `I` may come from a dotless `i`. -/
theorem uppered_eq (hT : T.Documented) (hc : c = 69 ∨ c = 73 ∨ c = 85) (hd : d = 69 ∨ d = 85) :
    T.uppered s = [c, d] ↔ Spells [c + 32, d + 32] s ∨
      c = 73 ∧ ∃ y, s = [0x131, y] ∧ y < 128 ∧ asciiLower y = d + 32 := by
  rw [uppered_pair hT hd, spells_pair]
  constructor
  · rintro ⟨x, y, rfl, hx, hy⟩
    rcases (upperOf_eq hT hc).mp hx with hx | ⟨rfl, rfl⟩
    · exact .inl ⟨x, y, rfl, hx, hy⟩
    · exact .inr ⟨rfl, y, rfl, hy⟩
  · rintro (⟨x, y, rfl, hx, hy⟩ | ⟨rfl, y, rfl, hy⟩)
    · exact ⟨x, y, rfl, (upperOf_eq hT hc).mpr (.inl hx), hy⟩
    · exact ⟨_, y, rfl, (upperOf_eq hT hc).mpr (.inr ⟨rfl, rfl⟩), hy⟩

end Casing

end EufyNvr
