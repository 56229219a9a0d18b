import EufyNvr.Lib.Decimal
import EufyNvr.Lib.Dict

/-!
# JSON texts

Values, `dumps` with escapes for everything but printable ASCII, and
`loads`. A text is a list of code points, so a lone surrogate is a text too.
`loads` takes what the language's own scanner takes: `NaN` and the
infinities, integers of up to 4300 digits, control characters in no string,
a surrogate pair of two escapes as one code point, and of two entries with
one key the last.
-/

namespace EufyNvr

abbrev Str := List Nat

-- One proof for every test of membership in a list of texts.
instance : LawfulBEq Str := inferInstanceAs (LawfulBEq (List Nat))

def lit (s : String) : Str := s.toList.map Char.toNat

/-- The decimal digits of a number. -/
def numeral (n : Nat) : Str := (Decimal.decimal n).map Char.toNat

/-- A float literal, by its exact decimal value. -/
inductive FloatLiteral
  | finite (mantissa exponent : Int)
  | special (text : Str)
  deriving DecidableEq

inductive Json
  | null
  | bool (b : Bool)
  | int (n : Int)
  | float (f : FloatLiteral)
  | str (s : Str)
  | arr (items : List Json)
  | obj (members : List (Str × Json))

namespace Json

-- ---------------------------------------------------------------------------
-- Equality
-- ---------------------------------------------------------------------------

mutual

def beq : Json → Json → Bool
  | .null, .null => true
  | .bool a, .bool b => a == b
  | .int a, .int b => a == b
  | .float a, .float b => a == b
  | .str a, .str b => a == b
  | .arr items, .arr items' => beqItems items items'
  | .obj members, .obj members' => beqMembers members members'
  | _, _ => false

def beqItems : List Json → List Json → Bool
  | [], [] => true
  | j :: js, k :: ks => beq j k && beqItems js ks
  | _, _ => false

def beqMembers : List (Str × Json) → List (Str × Json) → Bool
  | [], [] => true
  | (s, j) :: js, (t, k) :: ks => s == t && beq j k && beqMembers js ks
  | _, _ => false

end

mutual

theorem beq_iff : ∀ j k : Json, beq j k = true ↔ j = k
  | .arr items, k => by cases k <;> simp [beq, beqItems_iff items]
  | .obj members, k => by cases k <;> simp [beq, beqMembers_iff members]
  | .null, k | .bool _, k | .int _, k | .float _, k | .str _, k => by cases k <;> simp [beq]

theorem beqItems_iff : ∀ js ks : List Json, beqItems js ks = true ↔ js = ks
  | [], ks => by cases ks <;> simp [beqItems]
  | j :: js, ks => by cases ks <;> simp [beqItems, beq_iff j, beqItems_iff js]

theorem beqMembers_iff : ∀ js ks : List (Str × Json), beqMembers js ks = true ↔ js = ks
  | [], ks => by cases ks <;> simp [beqMembers]
  | (s, j) :: js, ks => by
    rcases ks with _ | ⟨⟨t, k⟩, ks⟩
    · simp [beqMembers]
    · simp [beqMembers, beq_iff j, beqMembers_iff js]

end

instance : DecidableEq Json := fun j k => decidable_of_iff _ (beq_iff j k)

-- ---------------------------------------------------------------------------
-- Texts
-- ---------------------------------------------------------------------------

@[match_pattern] abbrev quote : Nat := 34
@[match_pattern] abbrev comma : Nat := 44
@[match_pattern] abbrev minus : Nat := 45
@[match_pattern] abbrev point : Nat := 46
@[match_pattern] abbrev colon : Nat := 58
@[match_pattern] abbrev lbracket : Nat := 91
@[match_pattern] abbrev backslash : Nat := 92
@[match_pattern] abbrev rbracket : Nat := 93
@[match_pattern] abbrev lbrace : Nat := 123
@[match_pattern] abbrev rbrace : Nat := 125

def isWhite (c : Nat) : Bool := c == 32 || c == 9 || c == 10 || c == 13

def isDigit (c : Nat) : Bool := decide (48 ≤ c ∧ c ≤ 57)

def White (cs : Str) : Prop := ∀ c ∈ cs, isWhite c = true

-- ---------------------------------------------------------------------------
-- `dumps`
-- ---------------------------------------------------------------------------

def hexDigit (d : Nat) : Nat := if d % 16 < 10 then 48 + d % 16 else 87 + d % 16

/-- `\uXXXX` -/
def escapeUnit (n : Nat) : Str :=
  lit "\\u" ++ [hexDigit (n / 4096), hexDigit (n / 256), hexDigit (n / 16), hexDigit n]

def shortEscapes : List (Nat × Nat) :=
  [(34, 34), (92, 92), (10, 110), (13, 114), (9, 116), (12, 102), (8, 98)]

def escape (c : Nat) : Str :=
  match shortEscapes.lookup c with
  | some e => [backslash, e]
  | none =>
    if 32 ≤ c ∧ c ≤ 126 then [c]
    else if c < 0x10000 then escapeUnit c
    else
      escapeUnit (0xd800 + (c - 0x10000) / 1024 % 1024) ++
        escapeUnit (0xdc00 + (c - 0x10000) % 1024)

def quoted (s : Str) : Str := quote :: (s.flatMap escape ++ [quote])

def intText (n : Int) : Str := if n < 0 then minus :: numeral n.natAbs else numeral n.natAbs

/-- A literal of the same value. -/
def floatText : FloatLiteral → Str
  | .finite m e => intText m ++ lit "e" ++ intText e
  | .special text => text

/-- What stands between the tokens. -/
structure Style where
  newline : Nat → Str
  afterComma : Str
  afterColon : Str
  newline_white : ∀ n, White (newline n)
  afterComma_white : White afterComma
  afterColon_white : White afterColon

def compact : Style where
  newline _ := []
  afterComma := []
  afterColon := []
  newline_white _ := List.forall_mem_nil _
  afterComma_white := List.forall_mem_nil _
  afterColon_white := List.forall_mem_nil _

def spaced : Style where
  newline _ := []
  afterComma := [32]
  afterColon := [32]
  newline_white _ := List.forall_mem_nil _
  afterComma_white := by simp [White, isWhite]
  afterColon_white := by simp [White, isWhite]

def indented (n : Nat) : Style where
  newline level := 10 :: List.replicate (n * level) 32
  afterComma := []
  afterColon := [32]
  newline_white level c hc := by
    rcases List.mem_cons.mp hc with rfl | hc
    · rfl
    · rw [List.eq_of_mem_replicate hc]
      rfl
  afterComma_white := List.forall_mem_nil _
  afterColon_white := by simp [White, isWhite]

mutual

def dump (st : Style) (level : Nat) : Json → Str
  | .null => lit "null"
  | .bool b => if b then lit "true" else lit "false"
  | .int n => intText n
  | .float f => floatText f
  | .str s => quoted s
  | .arr [] => lit "[]"
  | .arr (v :: vs) =>
    lbracket :: (st.newline (level + 1) ++ (dump st (level + 1) v ++
      (dumpItems st (level + 1) vs ++ (st.newline level ++ [rbracket]))))
  | .obj [] => lit "{}"
  | .obj ((k, v) :: ms) =>
    lbrace :: (st.newline (level + 1) ++ (quoted k ++ colon :: (st.afterColon ++
      (dump st (level + 1) v ++ (dumpMembers st (level + 1) ms ++
        (st.newline level ++ [rbrace]))))))

def dumpItems (st : Style) (level : Nat) : List Json → Str
  | [] => []
  | v :: vs =>
    comma :: (st.afterComma ++ (st.newline level ++ (dump st level v ++ dumpItems st level vs)))

def dumpMembers (st : Style) (level : Nat) : List (Str × Json) → Str
  | [] => []
  | (k, v) :: ms =>
    comma :: (st.afterComma ++ (st.newline level ++ (quoted k ++ colon :: (st.afterColon ++
      (dump st level v ++ dumpMembers st level ms)))))

end

def dumps (st : Style) (v : Json) : Str := dump st 0 v

mutual

/-- Every object with its entries in the order of the keys. -/
def sortKeys : Json → Json
  | .arr vs => .arr (sortKeysItems vs)
  | .obj ms => .obj ((sortKeysMembers ms).insertionSort fun a b => a.1 ≤ b.1)
  | v => v

def sortKeysItems : List Json → List Json
  | [] => []
  | v :: vs => sortKeys v :: sortKeysItems vs

def sortKeysMembers : List (Str × Json) → List (Str × Json)
  | [] => []
  | (k, v) :: ms => (k, sortKeys v) :: sortKeysMembers ms

end

-- ---------------------------------------------------------------------------
-- Printable ASCII
-- ---------------------------------------------------------------------------

def Printable (s : Str) : Prop := ∀ c ∈ s, 32 ≤ c ∧ c ≤ 126

instance (s : Str) : Decidable (Printable s) := inferInstanceAs (Decidable (∀ c ∈ s, _))

theorem Printable.append {s t : Str} (hs : Printable s) (ht : Printable t) : Printable (s ++ t) :=
  fun c hc => (List.mem_append.mp hc).elim (hs c) (ht c)

theorem Printable.cons {c : Nat} {s : Str} (hc : 32 ≤ c ∧ c ≤ 126) (hs : Printable s) :
    Printable (c :: s) := List.forall_mem_cons.mpr ⟨hc, hs⟩

theorem hexDigit_bounds (d : Nat) : 32 ≤ hexDigit d ∧ hexDigit d ≤ 126 := by
  unfold hexDigit
  split <;> omega

theorem printable_escapeUnit (n : Nat) : Printable (escapeUnit n) := by
  refine Printable.append (by decide) fun c hc => ?_
  simp only [List.mem_cons, List.not_mem_nil, or_false] at hc
  rcases hc with rfl | rfl | rfl | rfl <;> exact hexDigit_bounds _

theorem printable_escape (c : Nat) : Printable (escape c) := by
  unfold escape
  split
  · rename_i e he
    have hall : ∀ p ∈ shortEscapes, 32 ≤ p.2 ∧ p.2 ≤ 126 := by decide
    exact .cons (by decide) (.cons (hall _ (mem_of_lookup he)) nofun)
  · split
    · exact .cons ‹_› nofun
    · split
      · exact printable_escapeUnit c
      · exact (printable_escapeUnit _).append (printable_escapeUnit _)

theorem printable_quoted (s : Str) : Printable (quoted s) := by
  refine .cons (by decide) (Printable.append (fun c hc => ?_) (by decide))
  obtain ⟨d, -, hd⟩ := List.mem_flatMap.mp hc
  exact printable_escape d c hd

theorem isDigit_numeral {n c : Nat} (h : c ∈ numeral n) : isDigit c = true := by
  obtain ⟨d, hd, rfl⟩ := List.mem_map.mp h
  have hb := Decimal.isDigit_bounds (Decimal.digits_decimal n d hd)
  have h0 : '0'.toNat = 48 := rfl
  simp only [isDigit, decide_eq_true_eq]
  omega

theorem printable_numeral (n : Nat) : Printable (numeral n) := fun c hc => by
  have hd := isDigit_numeral hc
  simp only [isDigit, decide_eq_true_eq] at hd
  omega

theorem printable_intText (n : Int) : Printable (intText n) := by
  unfold intText
  split
  · exact .cons (by decide) (printable_numeral _)
  · exact printable_numeral _

-- ---------------------------------------------------------------------------
-- `loads`
-- ---------------------------------------------------------------------------

def skip (cs : Str) : Str := cs.dropWhile isWhite

def hexValue (c : Nat) : Option Nat :=
  if 48 ≤ c ∧ c ≤ 57 then some (c - 48)
  else if 97 ≤ c ∧ c ≤ 102 then some (c - 87)
  else if 65 ≤ c ∧ c ≤ 70 then some (c - 55)
  else none

def hex4 (a b c d : Nat) : Option Nat := do
  return 4096 * (← hexValue a) + 256 * (← hexValue b) + 16 * (← hexValue c) + (← hexValue d)

/-- A piece of a string: a code point, or one by its `\u` escape. -/
inductive Piece
  | plain (c : Nat)
  | unit (c : Nat)

def unescape (e : Nat) : Option Nat :=
  if e = 47 then some 47 else (shortEscapes.find? fun p => p.2 == e).map Prod.fst

/-- The pieces up to the closing quote, and what follows it. -/
def pieces : Str → Option (List Piece × Str)
  | [] => none
  | c :: cs =>
    if c = quote then some ([], cs)
    else if c = backslash then
      match cs with
      | [] => none
      | e :: cs =>
        if e = 117 then
          match cs with
          | h₁ :: h₂ :: h₃ :: h₄ :: cs =>
            (hex4 h₁ h₂ h₃ h₄).bind fun n => (pieces cs).map fun r => (.unit n :: r.1, r.2)
          | _ => none
        else (unescape e).bind fun n => (pieces cs).map fun r => (.plain n :: r.1, r.2)
    else if c < 32 then none
    else (pieces cs).map fun r => (.plain c :: r.1, r.2)

def isHigh (c : Nat) : Bool := decide (0xd800 ≤ c ∧ c ≤ 0xdbff)

def isLow (c : Nat) : Bool := decide (0xdc00 ≤ c ∧ c ≤ 0xdfff)

/-- An escaped high surrogate and an escaped low one after it are one code point. -/
def join : List Piece → Str
  | [] => []
  | .plain c :: ps => c :: join ps
  | .unit c :: .unit d :: ps =>
    if isHigh c && isLow d then (0x10000 + 1024 * (c - 0xd800) + (d - 0xdc00)) :: join ps
    else c :: join (.unit d :: ps)
  | .unit c :: ps => c :: join ps

def scanString (cs : Str) : Option (Str × Str) := (pieces cs).map fun r => (join r.1, r.2)

def digitsValue (ds : Str) : Nat := ds.foldl (fun n d => 10 * n + (d - 48)) 0

/-- The digits after a point, if there are any. -/
def fraction : Str → Option (Str × Str)
  | point :: d :: cs => if isDigit d then some ((d :: cs).span isDigit) else none
  | _ => none

def exponentSign : Str → Bool × Str
  | 43 :: cs => (false, cs)
  | minus :: cs => (true, cs)
  | cs => (false, cs)

def exponent : Str → Option (Int × Str)
  | c :: cs =>
    if c = 101 ∨ c = 69 then
      let (negative, cs) := exponentSign cs
      let (ds, rest) := cs.span isDigit
      if ds = [] then none
      else some (if negative then -(digitsValue ds : Int) else digitsValue ds, rest)
    else none
  | [] => none

/-- The integer part of a number: no zero comes first but a lone one. -/
def whole : Str → Option (Str × Str)
  | [] => none
  | d :: cs =>
    if d = 48 then some ([48], cs)
    else if isDigit d then some ((d :: cs).span isDigit)
    else none

def signed (negative : Bool) (n : Nat) : Int := if negative then -(n : Int) else n

def unsignedNumber (negative : Bool) (cs : Str) : Option (Json × Str) := do
  let (ds, cs) ← whole cs
  match fraction cs, exponent ((fraction cs).elim cs Prod.snd) with
  | none, none =>
    if ds.length ≤ 4300 then some (.int (signed negative (digitsValue ds)), cs) else none
  | none, some (e, cs) => some (.float (.finite (signed negative (digitsValue ds)) e), cs)
  | some (fs, cs), none =>
    some (.float (.finite (signed negative (digitsValue (ds ++ fs))) (-fs.length)), cs)
  | some (fs, _), some (e, cs) =>
    some (.float (.finite (signed negative (digitsValue (ds ++ fs))) (e - fs.length)), cs)

def number : Str → Option (Json × Str)
  | minus :: cs => unsignedNumber true cs
  | cs => unsignedNumber false cs

def words : List (Str × Json) :=
  [(lit "null", .null), (lit "true", .bool true), (lit "false", .bool false),
    (lit "NaN", .float (.special (lit "NaN"))), (lit "Infinity", .float (.special (lit "Infinity"))),
    (lit "-Infinity", .float (.special (lit "-Infinity")))]

def word (cs : Str) : Option (Json × Str) :=
  words.findSome? fun w => if w.1.isPrefixOf cs then some (w.2, cs.drop w.1.length) else none

mutual

def value : Nat → Str → Option (Json × Str)
  | 0, _ => none
  | fuel + 1, cs =>
    match cs with
    | quote :: cs => (scanString cs).map fun r => (.str r.1, r.2)
    | lbracket :: cs =>
      match skip cs with
      | rbracket :: cs => some (.arr [], cs)
      | cs => (elements fuel cs).map fun r => (.arr r.1, r.2)
    | lbrace :: cs =>
      match skip cs with
      | rbrace :: cs => some (.obj [], cs)
      | cs => (members fuel cs).map fun r => (.obj (Dict.ofList r.1).items, r.2)
    | cs => word cs <|> number cs

def elements : Nat → Str → Option (List Json × Str)
  | 0, _ => none
  | fuel + 1, cs =>
    (value fuel cs).bind fun r =>
      (moreElements fuel (skip r.2)).map fun q => (r.1 :: q.1, q.2)

def moreElements : Nat → Str → Option (List Json × Str)
  | 0, _ => none
  | fuel + 1, cs =>
    match cs with
    | comma :: cs => elements fuel (skip cs)
    | rbracket :: cs => some ([], cs)
    | _ => none

def members : Nat → Str → Option (List (Str × Json) × Str)
  | 0, _ => none
  | fuel + 1, cs =>
    match cs with
    | quote :: cs =>
      (scanString cs).bind fun k =>
        match skip k.2 with
        | colon :: cs =>
          (value fuel (skip cs)).bind fun r =>
            (moreMembers fuel (skip r.2)).map fun q => ((k.1, r.1) :: q.1, q.2)
        | _ => none
    | _ => none

def moreMembers : Nat → Str → Option (List (Str × Json) × Str)
  | 0, _ => none
  | fuel + 1, cs =>
    match cs with
    | comma :: cs => members fuel (skip cs)
    | rbrace :: cs => some ([], cs)
    | _ => none

end

def loads (cs : Str) : Option Json :=
  (value (cs.length + 1) (skip cs)).bind fun r => if skip r.2 = [] then some r.1 else none

-- ---------------------------------------------------------------------------
-- Reading values
-- ---------------------------------------------------------------------------

/-- `value.get(key)` for an object. -/
def get? (ms : List (Str × Json)) (key : Str) : Option Json := ms.lookup key

end Json

end EufyNvr
