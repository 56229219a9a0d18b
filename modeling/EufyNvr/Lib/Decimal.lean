import Mathlib

/-!
# Numbers in names

Decimal numerals padded with zeros to a fixed width. For numbers that fit,
the order of the texts is the order of the numbers, whatever follows them.
`splitMax` is a split at the first few separators.
-/

namespace EufyNvr.Decimal

def decimal (n : Nat) : List Char := Nat.toDigits 10 n

/-- `n` with leading zeros, at least `width` characters. -/
def padded (width n : Nat) : List Char :=
  List.replicate (width - (decimal n).length) '0' ++ decimal n

def value (cs : List Char) : Nat := Nat.ofDigitChars 10 cs 0

def Digits (cs : List Char) : Prop := ∀ c ∈ cs, c.isDigit = true

instance (cs : List Char) : Decidable (Digits cs) :=
  decidable_of_iff (cs.all Char.isDigit = true) List.all_eq_true

-- ---------------------------------------------------------------------------
-- Numerals
-- ---------------------------------------------------------------------------

theorem digits_decimal (n : Nat) : Digits (decimal n) :=
  fun _ h => Nat.isDigit_of_mem_toDigits (by decide) (by decide) h

@[simp] theorem value_decimal (n : Nat) : value (decimal n) = n := Nat.ofDigitChars_ten_toDigits

theorem decimal_injective : Function.Injective decimal := fun m n h => by
  rw [← value_decimal m, h, value_decimal]

theorem digits_padded (width n : Nat) : Digits (padded width n) := by
  intro c hc
  rcases List.mem_append.mp hc with hc | hc
  · rw [List.eq_of_mem_replicate hc]
    rfl
  · exact digits_decimal n c hc

@[simp] theorem value_padded (width n : Nat) : value (padded width n) = n := by
  rw [value, padded, Nat.ofDigitChars_append, Nat.ofDigitChars_replicate_zero, Nat.mul_zero]
  exact value_decimal n

theorem length_padded {width n : Nat} (hw : 0 < width) (h : n < 10 ^ width) :
    (padded width n).length = width := by
  have hle : (decimal n).length ≤ width := (Nat.length_toDigits_le_iff (by decide) hw).mpr h
  simp [padded, hle]

theorem not_mem_of_digits {cs : List Char} {c : Char} (h : Digits cs) (hc : c.isDigit = false) :
    c ∉ cs := fun hm => by
  rw [h c hm] at hc
  cases hc

-- ---------------------------------------------------------------------------
-- Order
-- ---------------------------------------------------------------------------

theorem value_cons (c : Char) (cs : List Char) :
    value (c :: cs) = 10 ^ cs.length * (c.toNat - '0'.toNat) + value cs := by
  rw [value, Nat.ofDigitChars_cons, Nat.ofDigitChars_eq_ofDigitChars_zero]
  simp [value]

theorem isDigit_bounds {c : Char} (h : c.isDigit = true) :
    '0'.toNat ≤ c.toNat ∧ c.toNat < '0'.toNat + 10 := by
  simp only [Char.isDigit, Bool.and_eq_true, decide_eq_true_eq, UInt32.le_iff_toNat_le] at h
  change 48 ≤ c.toNat ∧ c.toNat ≤ 57 at h
  change 48 ≤ c.toNat ∧ c.toNat < 58
  omega

theorem value_lt {cs : List Char} (h : Digits cs) : value cs < 10 ^ cs.length := by
  induction cs with
  | nil => simp [value]
  | cons c cs ih =>
    have hc := isDigit_bounds (h c (by simp))
    have hcs := ih fun x hx => h x (by simp [hx])
    have hd : c.toNat - '0'.toNat ≤ 9 := by omega
    calc value (c :: cs) = 10 ^ cs.length * (c.toNat - '0'.toNat) + value cs := value_cons c cs
      _ < 10 ^ cs.length * 9 + 10 ^ cs.length :=
        Nat.add_lt_add_of_le_of_lt (Nat.mul_le_mul_left _ hd) hcs
      _ = 10 ^ (c :: cs).length := by rw [List.length_cons, pow_succ]; ring

/-- Numerals of one length are in the order of their values. -/
theorem append_lt_append {cs ds : List Char} (hlen : cs.length = ds.length) (hc : Digits cs)
    (hd : Digits ds) (h : value cs < value ds) (xs ys : List Char) : cs ++ xs < ds ++ ys := by
  induction cs generalizing ds with
  | nil =>
    obtain rfl : ds = [] := List.length_eq_zero_iff.mp hlen.symm
    exact absurd h (lt_irrefl _)
  | cons c cs ih =>
    cases ds with
    | nil => cases hlen
    | cons d ds =>
      have hlen' : cs.length = ds.length := by simpa using hlen
      have hcs : Digits cs := fun x hx => hc x (by simp [hx])
      have hds : Digits ds := fun x hx => hd x (by simp [hx])
      have bc := isDigit_bounds (hc c (by simp))
      have bd := isDigit_bounds (hd d (by simp))
      rw [value_cons, value_cons, hlen'] at h
      rw [List.cons_append, List.cons_append, List.cons_lt_cons_iff]
      rcases lt_trichotomy c.toNat d.toNat with hlt | heq | hgt
      · exact .inl hlt
      · obtain rfl : c = d := Char.toNat_inj.mp heq
        exact .inr ⟨rfl, ih hlen' hcs hds (by omega)⟩
      · -- A larger first digit outweighs everything that follows it.
        have hle : d.toNat - '0'.toNat + 1 ≤ c.toNat - '0'.toNat := by omega
        have hmul := Nat.mul_le_mul_left (10 ^ ds.length) hle
        have hv := value_lt hds
        rw [Nat.mul_add, Nat.mul_one] at hmul
        omega

theorem padded_append_lt {width m n : Nat} (hw : 0 < width) (hm : m < 10 ^ width)
    (hn : n < 10 ^ width) (h : m < n) (xs ys : List Char) :
    padded width m ++ xs < padded width n ++ ys :=
  append_lt_append (by rw [length_padded hw hm, length_padded hw hn]) (digits_padded _ _)
    (digits_padded _ _) (by simpa using h) xs ys

-- ---------------------------------------------------------------------------
-- Splitting
-- ---------------------------------------------------------------------------

/-- The parts of a text between separators, at most `k + 1` of them. -/
def splitMax (sep : Char) : Nat → List Char → List (List Char)
  | 0, cs => [cs]
  | k + 1, cs =>
    if sep ∈ cs then
      cs.takeWhile (· ≠ sep) :: splitMax sep k (cs.dropWhile (· ≠ sep)).tail
    else [cs]

theorem splitMax_append {sep : Char} {k : Nat} {cs ds : List Char} (h : sep ∉ cs) :
    splitMax sep (k + 1) (cs ++ sep :: ds) = cs :: splitMax sep k ds := by
  have hall : ∀ c ∈ cs, decide (c ≠ sep) = true := fun c hc => by
    simp only [ne_eq, decide_not, Bool.not_eq_true', decide_eq_false_iff_not]
    rintro rfl
    exact h hc
  rw [splitMax, if_pos (by simp), List.takeWhile_append_of_pos hall,
    List.dropWhile_append_of_pos hall]
  simp

end EufyNvr.Decimal
