import EufyNvr.Lib.JsonRoundTrip
import EufyNvr.Lib.Unicode

/-!
# Double-quoted scalars of YAML

One line of a scalar, and what it makes of a string that `dumps` wrote: the
escapes are those of YAML, and each denotes one character.
-/

namespace EufyNvr.Yaml

open Json

variable {s rest : Str} {c : Nat}

def escapes : List (Nat × Nat) :=
  [(48, 0), (97, 7), (98, 8), (116, 9), (9, 9), (110, 10), (118, 11), (102, 12), (114, 13),
    (101, 27), (32, 32), (34, 34), (47, 47), (92, 92), (78, 0x85), (95, 0xa0), (76, 0x2028),
    (80, 0x2029)]

def character (n : Nat) : Option Nat := if isCharacter n then some n else none

def hex2 (a b : Nat) : Option Nat := do return 16 * (← hexValue a) + (← hexValue b)

def isPlain (c : Nat) : Bool := (c == 9 || decide (32 ≤ c)) && isCharacter c

/-- The text up to the closing quote, and what follows it. -/
def content : Str → Option (Str × Str)
  | [] => none
  | c :: cs =>
    if c = quote then some ([], cs)
    else if c = backslash then
      match cs with
      | [] => none
      | e :: cs =>
        if e = 120 then
          match cs with
          | h₁ :: h₂ :: cs =>
            ((hex2 h₁ h₂).bind character).bind fun n => (content cs).map fun r => (n :: r.1, r.2)
          | _ => none
        else if e = 117 then
          match cs with
          | h₁ :: h₂ :: h₃ :: h₄ :: cs =>
            ((hex4 h₁ h₂ h₃ h₄).bind character).bind fun n =>
              (content cs).map fun r => (n :: r.1, r.2)
          | _ => none
        else if e = 85 then
          match cs with
          | h₁ :: h₂ :: h₃ :: h₄ :: h₅ :: h₆ :: h₇ :: h₈ :: cs =>
            ((hex4 h₁ h₂ h₃ h₄).bind fun m => (hex4 h₅ h₆ h₇ h₈).bind fun n =>
              character (0x10000 * m + n)).bind fun n => (content cs).map fun r => (n :: r.1, r.2)
          | _ => none
        else (escapes.lookup e).bind fun n => (content cs).map fun r => (n :: r.1, r.2)
    else if isPlain c then (content cs).map fun r => (c :: r.1, r.2)
    else none

/-- A double-quoted scalar and nothing else. -/
def scalar : Str → Option Str
  | quote :: cs => (content cs).bind fun r => if r.2 = [] then some r.1 else none
  | _ => none

-- ---------------------------------------------------------------------------
-- What `dumps` writes
-- ---------------------------------------------------------------------------

/-- One `\uXXXX` escape denotes it. -/
def isUnit (c : Nat) : Bool := isCharacter c && decide (c < 0x10000)

theorem content_escapeUnit (n : Nat) : content (escapeUnit n ++ rest) =
    (character (n % 0x10000)).bind fun n => (content rest).map fun r => (n :: r.1, r.2) := by
  have hunit : escapeUnit n ++ rest = backslash :: 117 :: hexDigit (n / 4096) ::
      hexDigit (n / 256) :: hexDigit (n / 16) :: hexDigit n :: rest := rfl
  rw [hunit, content.eq_def]
  simp [hex4_hexDigit]

theorem content_short {e : Nat} (h : shortEscapes.lookup c = some e) :
    content (backslash :: e :: rest) = (content rest).map fun r => (c :: r.1, r.2) := by
  have hall : ∀ p ∈ shortEscapes, p.2 ≠ 120 ∧ p.2 ≠ 117 ∧ p.2 ≠ 85 ∧
      escapes.lookup p.2 = some p.1 := by decide
  obtain ⟨hx, hu, hU, he⟩ := hall (c, e) (mem_of_lookup h)
  rw [content.eq_def]
  simp only [if_neg hx, if_neg hu, if_neg hU, he, Option.bind_some]
  rfl

theorem content_plain (hq : c ≠ quote) (hb : c ≠ backslash) (h : isPlain c = true) :
    content (c :: rest) = (content rest).map fun r => (c :: r.1, r.2) := by
  rw [content.eq_def]
  simp only [if_neg hq, if_neg hb, if_pos h]

/-- A character beyond the units is written as two surrogates, and the first
of them is no character. -/
theorem content_escape (c : Nat) : content (escape c ++ rest) =
    if isUnit c then (content rest).map fun r => (c :: r.1, r.2) else none := by
  have hascii (h : c < 128) : isUnit c = true := by
    simp only [isUnit, Bool.and_eq_true, decide_eq_true_eq]
    exact ⟨isCharacter_of_ascii (by simpa [isAscii] using h), by omega⟩
  unfold escape
  split
  · rename_i e he
    have hall : ∀ p ∈ shortEscapes, p.1 < 128 := by decide
    rw [if_pos (hascii (hall (c, e) (mem_of_lookup he)))]
    exact content_short he
  · rename_i hnone
    have hne : c ≠ quote ∧ c ≠ backslash := by
      constructor <;> · rintro rfl; cases hnone
    split
    · rename_i h
      have hc := isCharacter_of_ascii (c := c) (by simp only [isAscii, decide_eq_true_eq]; omega)
      rw [if_pos (hascii (by omega))]
      exact content_plain hne.1 hne.2 (by simp [isPlain, hc, h.1])
    · split
      · rename_i h
        rw [content_escapeUnit, Nat.mod_eq_of_lt h]
        by_cases hc : isCharacter c = true <;> simp [character, isUnit, hc, h]
      · rename_i h
        have hhigh : isCharacter ((0xd800 + (c - 0x10000) / 1024 % 1024) % 0x10000) = false := by
          simp only [isCharacter, decide_eq_false_iff_not, Nat.isValidChar]
          omega
        have hunit : isUnit c = false := by simp [isUnit, h]
        rw [List.append_assoc, content_escapeUnit, character, hhigh, hunit]
        rfl

theorem content_quoted : content (s.flatMap escape ++ quote :: rest) =
    if s.all isUnit then some (s, rest) else none := by
  induction s with
  | nil =>
    rw [content.eq_def]
    rfl
  | cons c s ih =>
    rw [List.flatMap_cons, List.append_assoc, content_escape, ih]
    cases hc : isUnit c <;> cases hs : s.all isUnit <;> simp [hc, hs]

theorem scalar_quoted : scalar (quoted s) = if s.all isUnit then some s else none := by
  rw [quoted, scalar, content_quoted]
  cases s.all isUnit <;> rfl

end EufyNvr.Yaml
