import EufyNvr.Lib.Json

/-!
# The tokens that `dumps` writes

Each is read back with whatever follows it: white space, the pieces of a
string, and numbers.
-/

namespace EufyNvr.Json

variable {cs ws rest s : Str} {c d e n fuel level : Nat} {st : Style}

-- ---------------------------------------------------------------------------
-- White space
-- ---------------------------------------------------------------------------

theorem skip_white (h : White ws) : skip (ws ++ cs) = skip cs :=
  List.dropWhile_append_of_pos h

theorem skip_cons (h : isWhite c = false) : skip (c :: cs) = c :: cs := by
  rw [skip, List.dropWhile_cons_of_neg (by simp [h])]

theorem skip_white_cons (hw : White ws) (h : isWhite c = false) :
    skip (ws ++ c :: cs) = c :: cs := by rw [skip_white hw, skip_cons h]

-- ---------------------------------------------------------------------------
-- Strings
-- ---------------------------------------------------------------------------

theorem hexValue_hexDigit (d : Nat) : hexValue (hexDigit d) = some (d % 16) := by
  have h : ∀ r < 16, hexValue (hexDigit r) = some r := by decide
  have hmod : hexDigit d = hexDigit (d % 16) := by simp [hexDigit]
  rw [hmod, h _ (Nat.mod_lt _ (by decide))]

theorem hex4_hexDigit (n : Nat) :
    hex4 (hexDigit (n / 4096)) (hexDigit (n / 256)) (hexDigit (n / 16)) (hexDigit n) =
      some (n % 0x10000) := by
  have hn : 4096 * (n / 4096 % 16) + 256 * (n / 256 % 16) + 16 * (n / 16 % 16) + n % 16 =
      n % 0x10000 := by omega
  simp [hex4, hexValue_hexDigit, hn]

theorem pieces_quote : pieces (quote :: cs) = some ([], cs) := by
  rw [pieces.eq_def]
  simp only [if_true]

theorem pieces_plain (hq : c ≠ quote) (hb : c ≠ backslash) (h : 32 ≤ c) :
    pieces (c :: cs) = (pieces cs).map fun r => (.plain c :: r.1, r.2) := by
  rw [pieces.eq_def]
  simp only [if_neg hq, if_neg hb, if_neg (Nat.not_lt.mpr h)]

theorem pieces_escaped (h : e ≠ 117) : pieces (backslash :: e :: cs) =
    (unescape e).bind fun n => (pieces cs).map fun r => (.plain n :: r.1, r.2) := by
  rw [pieces.eq_def]
  simp only [if_neg h, if_true]
  rfl

theorem quoted_append : quoted s ++ cs = quote :: (s.flatMap escape ++ quote :: cs) := by
  simp [quoted]

-- ---------------------------------------------------------------------------
-- Numbers
-- ---------------------------------------------------------------------------

/-- What does not go on a number. -/
def Stops (cs : Str) : Prop :=
  ∀ c ∈ cs.head?, isDigit c = false ∧ c ≠ point ∧ c ≠ 101 ∧ c ≠ 69

theorem digitsValue_numeral (n : Nat) : digitsValue (numeral n) = n := by
  rw [digitsValue, numeral, List.foldl_map]
  exact Decimal.value_decimal n

/-- A zero comes first only in the numeral of zero. -/
theorem numeral_cons (n : Nat) : ∃ d ds, numeral n = d :: ds ∧ (d = 48 → ds = []) := by
  induction n using Nat.strong_induction_on with
  | h n ih =>
    by_cases hn : n < 10
    · refine ⟨n.digitChar.toNat, [], ?_, fun _ => rfl⟩
      rw [numeral, Decimal.decimal, Nat.toDigits_of_lt_base hn]
      rfl
    · obtain ⟨d, ds, hd, h48⟩ := ih (n / 10) (by omega)
      refine ⟨d, ds ++ [(n % 10).digitChar.toNat], ?_, fun h => ?_⟩
      · rw [numeral, Decimal.decimal, Nat.toDigits_of_base_le (by decide) (by omega),
          List.map_append]
        exact congrArg (· ++ _) hd
      · -- A quotient that is written with a zero first is zero.
        have hz : numeral (n / 10) = [48] := by rw [hd, h, h48 h]
        have hv := digitsValue_numeral (n / 10)
        rw [hz] at hv
        have h0 : digitsValue [48] = 0 := rfl
        omega

theorem Stops.digit (h : Stops rest) : ∀ c ∈ rest.head?, isDigit c = false := fun c hc => (h c hc).1

theorem span_numeral (h : ∀ c ∈ rest.head?, isDigit c = false) :
    (numeral n ++ rest).span isDigit = (numeral n, rest) := by
  have hall : ∀ c ∈ numeral n, isDigit c = true := fun _ hc => isDigit_numeral hc
  rw [List.span_eq_takeWhile_dropWhile, List.takeWhile_append_of_pos hall,
    List.dropWhile_append_of_pos hall]
  cases rest with
  | nil => simp
  | cons c cs =>
    have hc := h c rfl
    simp [hc]

theorem whole_numeral (h : ∀ c ∈ rest.head?, isDigit c = false) :
    whole (numeral n ++ rest) = some (numeral n, rest) := by
  obtain ⟨d, ds, hd, h48⟩ := numeral_cons n
  have hdig : isDigit d = true := isDigit_numeral (n := n) (by simp [hd])
  have hspan := span_numeral (n := n) h
  rw [hd] at hspan ⊢
  rw [List.cons_append] at hspan ⊢
  by_cases hz : d = 48
  · rw [h48 hz, whole, if_pos hz, hz]
    rfl
  · rw [whole, if_neg hz, if_pos hdig, hspan]

theorem fraction_stops (h : Stops rest) : fraction rest = none := by
  unfold fraction
  split
  · exact absurd rfl (h _ rfl).2.1
  · rfl

theorem exponent_stops (h : Stops rest) : exponent rest = none := by
  cases rest with
  | nil => rfl
  | cons c cs =>
    obtain ⟨-, -, he, hE⟩ := h c rfl
    rw [exponent, if_neg (by rintro (rfl | rfl) <;> contradiction)]

theorem unsignedNumber_numeral (negative : Bool) (h : Stops rest) (hn : (numeral n).length ≤ 4300) :
    unsignedNumber negative (numeral n ++ rest) = some (.int (signed negative n), rest) := by
  simp [unsignedNumber, whole_numeral h.digit, fraction_stops h, exponent_stops h, hn,
    digitsValue_numeral]

theorem signed_natAbs (i : Int) : signed (decide (i < 0)) i.natAbs = i := by
  unfold signed
  split
  · rename_i h
    have := of_decide_eq_true h
    omega
  · rename_i h
    have := of_decide_eq_false (Bool.not_eq_true _ ▸ h)
    omega

/-- The digits of a number after its sign. -/
theorem number_append (i : Int) (rest : Str) : number (intText i ++ rest) =
    unsignedNumber (decide (i < 0)) (numeral i.natAbs ++ rest) := by
  unfold intText
  split
  · rename_i hneg
    rw [List.cons_append, number, decide_eq_true hneg]
  · rename_i hpos
    rw [decide_eq_false hpos]
    obtain ⟨d, ds, hd, -⟩ := numeral_cons i.natAbs
    have hdig : isDigit d = true := isDigit_numeral (n := i.natAbs) (by simp [hd])
    have hne : d ≠ minus := by
      rintro rfl
      cases hdig
    rw [hd, List.cons_append]
    unfold number
    split
    · rename_i heq
      cases heq
      exact absurd rfl hne
    · rfl

theorem number_intText {i : Int} (h : Stops rest) (hi : (numeral i.natAbs).length ≤ 4300) :
    number (intText i ++ rest) = some (.int i, rest) := by
  rw [number_append, unsignedNumber_numeral _ h hi, signed_natAbs]

theorem exponentSign_append (i : Int) (rest : Str) :
    exponentSign (intText i ++ rest) = (decide (i < 0), numeral i.natAbs ++ rest) := by
  unfold intText
  split
  · rename_i hneg
    rw [List.cons_append, exponentSign, decide_eq_true hneg]
  · rename_i hpos
    rw [decide_eq_false hpos]
    obtain ⟨d, ds, hd, -⟩ := numeral_cons i.natAbs
    have hdig : isDigit d = true := isDigit_numeral (n := i.natAbs) (by simp [hd])
    rw [hd, List.cons_append]
    unfold exponentSign
    split
    · rename_i heq
      cases heq
      cases hdig
    · rename_i heq
      cases heq
      cases hdig
    · rfl

theorem exponent_intText (i : Int) (h : Stops rest) :
    exponent (101 :: (intText i ++ rest)) = some (i, rest) := by
  have hne : numeral i.natAbs ≠ [] := by
    obtain ⟨d, ds, hd, -⟩ := numeral_cons i.natAbs
    simp [hd]
  have hsigned := signed_natAbs i
  rw [signed] at hsigned
  rw [exponent, if_pos (Or.inl rfl), exponentSign_append]
  simp only [span_numeral h.digit, if_neg hne, digitsValue_numeral, hsigned]

theorem number_floatText (m e : Int) (h : Stops rest) :
    number (floatText (.finite m e) ++ rest) = some (.float (.finite m e), rest) := by
  have hdigit : ∀ c ∈ (101 :: (intText e ++ rest)).head?, isDigit c = false := by
    rintro c hc
    cases hc
    rfl
  have hfraction : fraction (101 :: (intText e ++ rest)) = none := rfl
  have htext : floatText (.finite m e) ++ rest = intText m ++ 101 :: (intText e ++ rest) := by
    simp [floatText, lit]
  rw [htext, number_append]
  simp only [unsignedNumber, whole_numeral hdigit, Option.bind_eq_bind, Option.bind_some,
    hfraction, Option.elim, exponent_intText e h, digitsValue_numeral, signed_natAbs]

theorem word_of_not_prefix (h : ∀ w ∈ words, w.1.isPrefixOf cs = false) : word cs = none := by
  rw [word, List.findSome?_eq_none_iff]
  intro w hw
  rw [h w hw]
  rfl

theorem isPrefixOf_digit (hd : isDigit d = true) (hc : isDigit c = false) :
    (c :: cs).isPrefixOf (d :: rest) = false := by
  have hne : (c == d) = false := by
    rw [beq_eq_false_iff_ne]
    rintro rfl
    rw [hd] at hc
    cases hc
  rw [List.isPrefixOf_cons_cons, hne, Bool.false_and]

/-- The first character of an integer's text, and that no word begins so. -/
theorem intText_cons (i : Int) : ∃ d ds, intText i = d :: ds ∧ (isDigit d = true ∨ d = minus) ∧
    ∀ cs, word (d :: (ds ++ cs)) = none := by
  obtain ⟨d, ds, hd, -⟩ := numeral_cons i.natAbs
  have hdig : isDigit d = true := isDigit_numeral (n := i.natAbs) (by simp [hd])
  unfold intText
  split
  · refine ⟨minus, d :: ds, by rw [hd], .inr rfl, fun cs => word_of_not_prefix ?_⟩
    have hI : isDigit 73 = false := rfl
    simp [words, lit, minus, List.isPrefixOf_cons_cons, isPrefixOf_digit hdig hI]
  · refine ⟨d, ds, hd, .inl hdig, fun cs => word_of_not_prefix ?_⟩
    simp only [words, List.forall_mem_cons, List.not_mem_nil, false_imp_iff, implies_true, and_true]
    exact ⟨isPrefixOf_digit hdig rfl, isPrefixOf_digit hdig rfl, isPrefixOf_digit hdig rfl,
      isPrefixOf_digit hdig rfl, isPrefixOf_digit hdig rfl, isPrefixOf_digit hdig rfl⟩

end EufyNvr.Json
