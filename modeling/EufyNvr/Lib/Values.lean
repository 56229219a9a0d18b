import EufyNvr.Lib.Json

/-!
# Values of the language

What a JSON value is once it has been read: whether it is a given number,
whether it counts as true, and how it is printed. A text that is printed inside another value is quoted,
and of its characters only those that can be shown are left as they are.
-/

namespace EufyNvr

/-- The tables of the language, and the limits of its parser. -/
structure Interpreter where
  /-- `repr` of a float. -/
  floatRepr : FloatLiteral → Str
  /-- `str.isprintable`, beyond ASCII. -/
  isPrintable : Nat → Bool
  /-- Nested too deeply for `json.loads`. -/
  tooDeep : Str → Bool
  /-- What `json.loads` says of a text that it refuses. -/
  refusal : Str → Str

namespace Interpreter

variable (I : Interpreter)

/-- `json.loads`, or what it says. -/
def parse (text : Str) : Except Str Json :=
  if I.tooDeep text then .error (I.refusal text)
  else
    match Json.loads text with
    | some v => .ok v
    | none => .error (I.refusal text)

theorem parse_error {text e : Str} (h : I.parse text = .error e) : e = I.refusal text := by
  unfold parse at h
  split at h
  · exact (Except.error.inj h).symm
  · split at h
    · cases h
    · exact (Except.error.inj h).symm

/-- No limits, and every character can be shown. -/
def plain : Interpreter := ⟨Json.floatText, fun _ => true, fun _ => false, fun _ => []⟩

/-- The quote that `repr` takes: a double one if that saves an escape. -/
def quoteOf (s : Str) : Nat := if 39 ∈ s ∧ 34 ∉ s then 34 else 39

def hexDigits (width n : Nat) : Str :=
  (List.range width).reverse.map fun k => Json.hexDigit (n / 16 ^ k)

def reprChar (q c : Nat) : Str :=
  if c = q ∨ c = 92 then [92, c]
  else if c = 9 then lit "\\t"
  else if c = 10 then lit "\\n"
  else if c = 13 then lit "\\r"
  else if c < 32 ∨ c = 127 then lit "\\x" ++ hexDigits 2 c
  else if c < 127 ∨ I.isPrintable c then [c]
  else if c < 0x100 then lit "\\x" ++ hexDigits 2 c
  else if c < 0x10000 then lit "\\u" ++ hexDigits 4 c
  else lit "\\U" ++ hexDigits 8 c

def reprStr (s : Str) : Str := quoteOf s :: (s.flatMap (I.reprChar (quoteOf s)) ++ [quoteOf s])

mutual

def repr : Json → Str
  | .null => lit "None"
  | .bool b => if b then lit "True" else lit "False"
  | .int n => Json.intText n
  | .float f => I.floatRepr f
  | .str s => I.reprStr s
  | .arr [] => lit "[]"
  | .arr (v :: vs) => 91 :: (repr v ++ reprItems vs ++ [93])
  | .obj [] => lit "\x7b\x7d"
  | .obj ((k, v) :: ms) => 123 :: (I.reprStr k ++ lit ": " ++ repr v ++ reprMembers ms ++ [125])

def reprItems : List Json → Str
  | [] => []
  | v :: vs => lit ", " ++ repr v ++ reprItems vs

def reprMembers : List (Str × Json) → Str
  | [] => []
  | (k, v) :: ms => lit ", " ++ I.reprStr k ++ lit ": " ++ repr v ++ reprMembers ms

end

/-- `str`: a text is itself. -/
def str : Json → Str
  | .str s => s
  | v => I.repr v

end Interpreter

-- ---------------------------------------------------------------------------
-- Numbers
-- ---------------------------------------------------------------------------

/-- The double next to the literal is the number, for one below 2^52: an
even one, so it has what is half way to its neighbours. Below a power of two
the neighbour is at half the distance. -/
def FloatLiteral.roundsTo (n : Nat) : FloatLiteral → Bool
  | .finite m e =>
    let half : ℚ := if n = 0 then 1 / 2 ^ 1075 else 2 ^ Nat.log 2 n / 2 ^ 53
    decide (n - (if n = 2 ^ Nat.log 2 n then half / 2 else half) ≤ m * 10 ^ e ∧
      (m : ℚ) * 10 ^ e ≤ n + half)
  | .special _ => false

example : (FloatLiteral.finite 9999999999999999 (-16)).roundsTo 1 = false ∧
    (FloatLiteral.finite 99999999999999995 (-17)).roundsTo 1 = true ∧
    (FloatLiteral.finite 10000000000000001 (-16)).roundsTo 1 = true ∧
    (FloatLiteral.finite 2 (-324)).roundsTo 0 = true := by decide +kernel

/-- `value == n` -/
def Json.equals (n : Nat) : Json → Bool
  | .int m => m == n
  | .bool b => n == b.toNat
  | .float f => f.roundsTo n
  | _ => false

/-- `bool(value)` -/
def Json.truthy : Json → Bool
  | .null => false
  | .bool b => b
  | .int n => n != 0
  | .float f => !f.roundsTo 0
  | .str s => !s.isEmpty
  | .arr items => !items.isEmpty
  | .obj members => !members.isEmpty

example : Interpreter.plain.repr (.arr [.str (lit "it's"), .obj [(lit "a\n", .null)], .int (-3)]) =
    lit "[\"it's\", \x7b'a\\n': None\x7d, -3]" := by decide

end EufyNvr
