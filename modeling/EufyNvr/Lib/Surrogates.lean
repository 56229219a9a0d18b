import EufyNvr.Lib.JsonScan
import EufyNvr.Lib.JsonTokens
import EufyNvr.Lib.Unicode

/-!
# Surrogates in JSON strings

`dumps` writes a code point beyond the units as two escapes, and so it
writes a high surrogate with a low one after it. A string without such a
pair is read back as it is, and in a text of characters there are no other
strings.
-/

namespace EufyNvr.Json

variable {cs rest s t : Str} {c d e : Nat} {ps : List Piece} {ms : List (Str × Json)}

/-- Code points with no high surrogate right before a low one. -/
def Unpaired (s : Str) : Prop :=
  (∀ c ∈ s, c ≤ 0x10ffff) ∧ s.IsChain fun c d => (isHigh c && isLow d) = false

instance (s : Str) : Decidable (Unpaired s) := inferInstanceAs (Decidable (_ ∧ _))

theorem Unpaired.nil : Unpaired [] := ⟨nofun, .nil⟩

theorem unpaired_cons : Unpaired (c :: s) ↔
    c ≤ 0x10ffff ∧ (∀ d ∈ s.head?, (isHigh c && isLow d) = false) ∧ Unpaired s := by
  rw [Unpaired, Unpaired, List.forall_mem_cons, List.isChain_cons]
  exact ⟨fun ⟨⟨hc, hs⟩, hd, hchain⟩ => ⟨hc, hd, hs, hchain⟩,
    fun ⟨hc, hd, hs, hchain⟩ => ⟨⟨hc, hs⟩, hd, hchain⟩⟩

theorem Unpaired.of_no_high (h : ∀ c ∈ s, c ≤ 0x10ffff ∧ isHigh c = false) : Unpaired s := by
  induction s with
  | nil => exact .nil
  | cons c s ih =>
    obtain ⟨hc, hs⟩ := List.forall_mem_cons.mp h
    exact unpaired_cons.mpr ⟨hc.1, fun d _ => by rw [hc.2, Bool.false_and], ih hs⟩

-- ---------------------------------------------------------------------------
-- Reading what was written
-- ---------------------------------------------------------------------------

/-- The pieces as which a code point is read back. -/
def unitsOf (c : Nat) : List Piece :=
  if (shortEscapes.lookup c).isSome ∨ 32 ≤ c ∧ c ≤ 126 then [.plain c]
  else if c < 0x10000 then [.unit c]
  else [.unit (0xd800 + (c - 0x10000) / 1024 % 1024), .unit (0xdc00 + (c - 0x10000) % 1024)]

theorem pieces_escapeUnit (h : c < 0x10000) : pieces (escapeUnit c ++ rest) =
    (pieces rest).map fun r => (.unit c :: r.1, r.2) := by
  have hunit : escapeUnit c ++ rest = backslash :: 117 :: hexDigit (c / 4096) ::
      hexDigit (c / 256) :: hexDigit (c / 16) :: hexDigit c :: rest := rfl
  rw [hunit, pieces.eq_def]
  simp [hex4_hexDigit, Nat.mod_eq_of_lt h]

theorem pieces_short (h : shortEscapes.lookup c = some e) : pieces (backslash :: e :: rest) =
    (pieces rest).map fun r => (.plain c :: r.1, r.2) := by
  have hall : ∀ p ∈ shortEscapes, p.2 ≠ 117 ∧ unescape p.2 = some p.1 := by decide
  obtain ⟨hu, he⟩ := hall (c, e) (mem_of_lookup h)
  rw [pieces_escaped hu, he, Option.bind_some]

theorem pieces_unitsOf (c : Nat) : pieces (escape c ++ rest) =
    (pieces rest).map fun r => (unitsOf c ++ r.1, r.2) := by
  unfold escape unitsOf
  split
  · rename_i e he
    rw [if_pos (.inl (by rw [he]; rfl))]
    exact pieces_short he
  · rename_i hnone
    have hne : c ≠ quote ∧ c ≠ backslash := by
      constructor <;> · rintro rfl; cases hnone
    simp only [hnone, Option.isSome_none, Bool.false_eq_true, false_or]
    split
    · rename_i h
      exact pieces_plain hne.1 hne.2 h.1
    · split
      · exact pieces_escapeUnit ‹_›
      · rw [List.append_assoc, pieces_escapeUnit (by omega), pieces_escapeUnit (by omega),
          Option.map_map]
        rfl

theorem pieces_flatMap : pieces (s.flatMap escape ++ quote :: rest) =
    some (s.flatMap unitsOf, rest) := by
  induction s with
  | nil => exact pieces_quote
  | cons c s ih =>
    rw [List.flatMap_cons, List.append_assoc, pieces_unitsOf, ih]
    rfl

/-- A unit that makes no pair with what follows it. -/
theorem join_unit (h : ∀ d, ps.head? = some (.unit d) → (isHigh c && isLow d) = false) :
    join (.unit c :: ps) = c :: join ps := by
  cases ps with
  | nil => rfl
  | cons p ps =>
    cases p with
    | plain d => rfl
    | unit d =>
      rw [join, h d rfl]
      rfl

theorem join_pair (hc : isHigh c = true) (hd : isLow d = true) :
    join (.unit c :: .unit d :: ps) =
      (0x10000 + 1024 * (c - 0xd800) + (d - 0xdc00)) :: join ps := by
  rw [join, hc, hd]
  rfl

/-- The first piece of a code point stands for a low surrogate only if the
code point is one. -/
theorem head_unitsOf (h : (unitsOf c ++ ps).head? = some (.unit d)) (hlow : isLow d = true) :
    d = c := by
  unfold unitsOf at h
  split at h
  · cases h
  · split at h
    · cases h
      rfl
    · cases h
      simp only [isLow, decide_eq_true_eq] at hlow
      omega

theorem join_unitsOf (hc : c ≤ 0x10ffff) (h : ∀ d ∈ s.head?, (isHigh c && isLow d) = false) :
    join (unitsOf c ++ s.flatMap unitsOf) = c :: join (s.flatMap unitsOf) := by
  by_cases hplain : (shortEscapes.lookup c).isSome ∨ 32 ≤ c ∧ c ≤ 126
  · rw [unitsOf, if_pos hplain, List.singleton_append, join]
  by_cases hunit : c < 0x10000
  · rw [unitsOf, if_neg hplain, if_pos hunit, List.singleton_append, join_unit]
    intro d hd
    cases s with
    | nil => cases hd
    | cons e s =>
      cases hlow : isLow d with
      | false => rw [Bool.and_false]
      | true =>
        obtain rfl := head_unitsOf hd hlow
        rw [← hlow]
        exact h d rfl
  · have hhigh : isHigh (0xd800 + (c - 0x10000) / 1024 % 1024) = true := by
      simp only [isHigh, decide_eq_true_eq]
      omega
    have hlow : isLow (0xdc00 + (c - 0x10000) % 1024) = true := by
      simp only [isLow, decide_eq_true_eq]
      omega
    have hsum : 0x10000 + 1024 * (0xd800 + (c - 0x10000) / 1024 % 1024 - 0xd800) +
        (0xdc00 + (c - 0x10000) % 1024 - 0xdc00) = c := by omega
    rw [unitsOf, if_neg hplain, if_neg hunit, List.cons_append, List.singleton_append,
      join_pair hhigh hlow, hsum]

theorem join_flatMap (h : Unpaired s) : join (s.flatMap unitsOf) = s := by
  induction s with
  | nil => rfl
  | cons c s ih =>
    obtain ⟨hc, hnext, hs⟩ := unpaired_cons.mp h
    rw [List.flatMap_cons, join_unitsOf hc hnext, ih hs]

theorem scanString_unpaired (h : Unpaired s) :
    scanString (s.flatMap escape ++ quote :: rest) = some (s, rest) := by
  rw [scanString, pieces_flatMap, Option.map_some, join_flatMap h]

/-- What stands before the rest of a text is one string. -/
theorem quoted_append_injective (hs : Unpaired s) (ht : Unpaired t) {rest' : Str}
    (h : quoted s ++ rest = quoted t ++ rest') : s = t ∧ rest = rest' := by
  rw [quoted_append, quoted_append, List.cons.injEq] at h
  have hscan : scanString (s.flatMap escape ++ quote :: rest) = some (s, rest) :=
    scanString_unpaired hs
  rw [h.2, scanString_unpaired ht, Option.some.injEq, Prod.mk.injEq] at hscan
  exact ⟨hscan.1.symm, hscan.2.symm⟩

-- ---------------------------------------------------------------------------
-- Reading a text of characters
-- ---------------------------------------------------------------------------

/-- What a piece of a text of characters can be. -/
def Piece.Ok : Piece → Prop
  | .plain c => isCharacter c = true
  | .unit c => c < 0x10000

theorem isHigh_of_isCharacter (h : isCharacter c = true) : isHigh c = false ∧ isLow c = false := by
  simp only [isCharacter, decide_eq_true_eq, Nat.isValidChar] at h
  simp only [isHigh, isLow, decide_eq_false_iff_not]
  omega

theorem head_join (h : (join ps).head? = some d) (hps : ∀ p ∈ ps, p.Ok) (hlow : isLow d = true) :
    ps.head? = some (.unit d) := by
  fun_cases join ps with
  | case1 => cases h
  | case2 c ps =>
    rw [join] at h
    cases h
    have hc := (isHigh_of_isCharacter (hps (.plain d) (by simp))).2
    rw [hlow] at hc
    cases hc
  | case3 c d' ps hpair =>
    rw [join, if_pos hpair, List.head?_cons, Option.some.injEq] at h
    rw [← h] at hlow
    simp only [isLow, decide_eq_true_eq] at hlow
    omega
  | case4 c d' ps hpair =>
    rw [join, if_neg hpair] at h
    cases h
    rfl
  | case5 c ps hps' =>
    rw [join] at h
    · cases h
      rfl
    · exact hps'

theorem unpaired_join (hps : ∀ p ∈ ps, p.Ok) : Unpaired (join ps) := by
  fun_induction join ps with
  | case1 => exact .nil
  | case2 c ps ih =>
    have hc : isCharacter c = true := hps (.plain c) (by simp)
    have hhigh := (isHigh_of_isCharacter hc).1
    simp only [isCharacter, decide_eq_true_eq, Nat.isValidChar] at hc
    exact unpaired_cons.mpr ⟨by omega, fun d _ => by rw [hhigh, Bool.false_and],
      ih fun p hp => hps p (by simp [hp])⟩
  | case3 c d ps hpair ih =>
    simp only [Bool.and_eq_true, isHigh, isLow, decide_eq_true_eq] at hpair
    refine unpaired_cons.mpr ⟨by omega, fun e _ => ?_, ih fun p hp => hps p (by simp [hp])⟩
    have hhigh : isHigh (0x10000 + 1024 * (c - 0xd800) + (d - 0xdc00)) = false := by
      simp only [isHigh, decide_eq_false_iff_not]
      omega
    rw [hhigh, Bool.false_and]
  | case4 c d ps hpair ih =>
    have hc : c < 0x10000 := hps (.unit c) (by simp)
    have hrest : ∀ p ∈ Piece.unit d :: ps, p.Ok := fun p hp => hps p (List.mem_cons_of_mem _ hp)
    refine unpaired_cons.mpr ⟨by omega, fun e he => ?_, ih hrest⟩
    cases hlow : isLow e with
    | false => rw [Bool.and_false]
    | true =>
      cases head_join he hrest hlow
      rw [← hlow]
      exact Bool.not_eq_true _ ▸ hpair
  | case5 c ps hne ih =>
    have hc : c < 0x10000 := hps (.unit c) (by simp)
    have hrest : ∀ p ∈ ps, p.Ok := fun p hp => hps p (List.mem_cons_of_mem _ hp)
    refine unpaired_cons.mpr ⟨by omega, fun e he => ?_, ih hrest⟩
    cases hlow : isLow e with
    | false => rw [Bool.and_false]
    | true =>
      -- A unit after it would have been read together with it.
      have hunit := head_join he hrest hlow
      cases ps with
      | nil => cases hunit
      | cons p ps =>
        cases hunit
        exact absurd rfl (hne e ps)

theorem hexValue_lt {n : Nat} (h : hexValue c = some n) : n < 16 := by
  unfold hexValue at h
  split at h
  · cases h
    omega
  · split at h
    · cases h
      omega
    · split at h
      · cases h
        omega
      · cases h

theorem hex4_lt {a b n : Nat} (h : hex4 a b c d = some n) : n < 0x10000 := by
  simp only [hex4, Option.bind_eq_bind, Option.pure_def, Option.bind_eq_some_iff,
    Option.some.injEq] at h
  obtain ⟨n₁, h₁, n₂, h₂, n₃, h₃, n₄, h₄, rfl⟩ := h
  have := hexValue_lt h₁
  have := hexValue_lt h₂
  have := hexValue_lt h₃
  have := hexValue_lt h₄
  omega

theorem isCharacter_unescape {n : Nat} (h : unescape e = some n) : isCharacter n = true := by
  unfold unescape at h
  split at h
  · cases h
    rfl
  · obtain ⟨p, hp, rfl⟩ := Option.map_eq_some_iff.mp h
    have hall : ∀ p ∈ shortEscapes, isCharacter p.1 = true := by decide
    exact hall p (List.mem_of_find?_eq_some hp)

/-- The pieces of a string in a text of characters, and what follows it. -/
def Scanned (cs : Str) (r : List Piece × Str) : Prop := (∀ p ∈ r.1, p.Ok) ∧ r.2 <:+ cs

theorem Scanned.cons {q : Piece} {r : List Piece × Str} (h : Scanned t r) (hs : t <:+ cs)
    (hq : q.Ok) : Scanned cs (q :: r.1, r.2) :=
  ⟨List.forall_mem_cons.mpr ⟨hq, h.1⟩, h.2.trans hs⟩

theorem pieces_scanned {r : List Piece × Str} (h : pieces cs = some r) :
    Characters cs → Scanned cs r := by
  refine pieces_rec (Q := fun cs r => Characters cs → Scanned cs r) ?close ?unit ?escaped ?plain h
  case close => exact fun cs _ => ⟨nofun, List.suffix_cons _ _⟩
  case unit =>
    intro a b c d cs n r hn ih hcs
    have hs : cs <:+ backslash :: 117 :: a :: b :: c :: d :: cs :=
      List.suffix_append [_, _, _, _, _, _] cs
    exact (ih (Characters.suffix hcs hs)).cons hs (hex4_lt hn)
  case escaped =>
    intro e cs n r hn ih hcs
    have hs : cs <:+ backslash :: e :: cs := List.suffix_append [_, _] cs
    exact (ih (Characters.suffix hcs hs)).cons hs (isCharacter_unescape hn)
  case plain =>
    intro c cs r _ ih hcs
    have hs : cs <:+ c :: cs := List.suffix_cons _ _
    exact (ih (Characters.suffix hcs hs)).cons hs (hcs c (by simp))

theorem scanString_ok {r : Str × Str} (h : scanString cs = some r) (hcs : Characters cs) :
    Unpaired r.1 ∧ r.2 <:+ cs := by
  obtain ⟨f, hf, rfl⟩ := Option.map_eq_some_iff.mp h
  obtain ⟨hps, hs⟩ := pieces_scanned hf hcs
  exact ⟨unpaired_join hps, hs⟩

-- ---------------------------------------------------------------------------
-- The strings of a value
-- ---------------------------------------------------------------------------

mutual

def strings : Json → List Str
  | .str s => [s]
  | .arr vs => stringsItems vs
  | .obj ms => stringsMembers ms
  | _ => []

def stringsItems : List Json → List Str
  | [] => []
  | v :: vs => strings v ++ stringsItems vs

def stringsMembers : List (Str × Json) → List Str
  | [] => []
  | (k, v) :: ms => k :: (strings v ++ stringsMembers ms)

end

theorem mem_stringsMembers : t ∈ stringsMembers ms ↔ ∃ m ∈ ms, t = m.1 ∨ t ∈ strings m.2 := by
  induction ms with
  | nil => simp [stringsMembers]
  | cons m ms ih => simp [stringsMembers, ih, or_assoc]

end EufyNvr.Json
