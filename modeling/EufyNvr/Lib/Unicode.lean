import EufyNvr.Lib.Json

/-!
# Characters

The methods of texts, exact on ASCII. What they do to other texts follows
the tables of Unicode, which are a parameter.
-/

namespace EufyNvr

variable {s : Str} {c : Nat}

/-- Not a surrogate, and not beyond the last code point. -/
def isCharacter (c : Nat) : Bool := decide c.isValidChar

def Characters (s : Str) : Prop := ∀ c ∈ s, isCharacter c = true

instance (s : Str) : Decidable (Characters s) := inferInstanceAs (Decidable (∀ c ∈ s, _))

def isAscii (c : Nat) : Bool := decide (c < 128)

def Ascii (s : Str) : Prop := ∀ c ∈ s, isAscii c = true

instance (s : Str) : Decidable (Ascii s) := inferInstanceAs (Decidable (∀ c ∈ s, _))

abbrev percent : Nat := 37

/-- An ASCII letter. -/
def isAlpha (c : Nat) : Bool := decide (65 ≤ c ∧ c ≤ 90 ∨ 97 ≤ c ∧ c ≤ 122)

theorem isCharacter_of_ascii (h : isAscii c = true) : isCharacter c = true := by
  simp only [isAscii, decide_eq_true_eq] at h
  simp only [isCharacter, decide_eq_true_eq, Nat.isValidChar]
  omega

theorem Characters.of_ascii (h : Ascii s) : Characters s := fun c hc =>
  isCharacter_of_ascii (h c hc)

theorem Characters.suffix {t : Str} (h : Characters s) (hs : t <:+ s) : Characters t :=
  fun c hc => h c (hs.subset hc)

/-- `str.isspace` of a character. -/
def isSpace (c : Nat) : Bool :=
  decide (9 ≤ c ∧ c ≤ 13 ∨ 28 ≤ c ∧ c ≤ 32 ∨ c = 0x85 ∨ c = 0xa0 ∨ c = 0x1680 ∨
    0x2000 ≤ c ∧ c ≤ 0x200a ∨ c = 0x2028 ∨ c = 0x2029 ∨ c = 0x202f ∨ c = 0x205f ∨ c = 0x3000)

/-- `str.strip` -/
def strip (s : Str) : Str := (s.dropWhile isSpace).rdropWhile isSpace

theorem strip_of_no_space (h : ∀ c ∈ s, isSpace c = false) : strip s = s := by
  have hdrop : s.dropWhile isSpace = s := by
    cases s with
    | nil => rfl
    | cons c cs => exact List.dropWhile_cons_of_neg (by simp [h c (by simp)])
  rw [strip, hdrop]
  refine List.rdropWhile_eq_self_iff.mpr fun hne => ?_
  simp [h _ (List.getLast_mem hne)]

def asciiLower (c : Nat) : Nat := if 65 ≤ c ∧ c ≤ 90 then c + 32 else c

def asciiUpper (c : Nat) : Nat := if 97 ≤ c ∧ c ≤ 122 then c - 32 else c

/-- What the tables say of texts that are not ASCII. -/
structure Unicode where
  lower : Str → Str
  upper : Str → Str
  /-- `unicodedata.normalize("NFKC", _)` -/
  nfkc : Str → Str
  /-- `encodings.idna.ToASCII` -/
  toAscii : Str → Option Str
  isDecimal : Nat → Bool

namespace Unicode

variable (U : Unicode)

/-- `str.lower` -/
def lowered (s : Str) : Str := if Ascii s then s.map asciiLower else U.lower s

/-- `str.upper` -/
def uppered (s : Str) : Str := if Ascii s then s.map asciiUpper else U.upper s

/-- `\d` -/
def isDigit (c : Nat) : Bool := if c < 128 then Json.isDigit c else U.isDecimal c

/-- Tables that leave every text as it is. -/
def plain : Unicode := ⟨id, id, id, some, fun _ => false⟩

end Unicode

end EufyNvr
