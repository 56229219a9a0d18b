import EufyNvr.Basic
import EufyNvr.Lib.Json

/-!
# Base64

The standard alphabet with padding: three bytes are four characters.
-/

namespace EufyNvr.Base64

variable {b : Bytes} {n : Nat}

def pad : Nat := 61

/-- The character of a value below 64. -/
def digit (n : Nat) : Nat :=
  if n < 26 then 65 + n
  else if n < 52 then 71 + n
  else if n < 62 then n - 4
  else if n = 62 then 43
  else 47

def value (c : Nat) : Option Nat :=
  if 65 ≤ c ∧ c ≤ 90 then some (c - 65)
  else if 97 ≤ c ∧ c ≤ 122 then some (c - 71)
  else if 48 ≤ c ∧ c ≤ 57 then some (c + 4)
  else if c = 43 then some 62
  else if c = 47 then some 63
  else none

/-- `base64.b64encode` -/
def encode : Bytes → Str
  | [] => []
  | [x] => [digit (x.toNat / 4), digit (x.toNat % 4 * 16), pad, pad]
  | [x, y] =>
    [digit (x.toNat / 4), digit (x.toNat % 4 * 16 + y.toNat / 16), digit (y.toNat % 16 * 4), pad]
  | x :: y :: z :: b =>
    digit (x.toNat / 4) :: digit (x.toNat % 4 * 16 + y.toNat / 16) ::
      digit (y.toNat % 16 * 4 + z.toNat / 64) :: digit (z.toNat % 64) :: encode b

/-- Padding stands at the end only. -/
def decode : Str → Option Bytes
  | [] => some []
  | c₁ :: c₂ :: c₃ :: c₄ :: cs => do
    let v₁ ← value c₁
    let v₂ ← value c₂
    let x := UInt8.ofNat (v₁ * 4 + v₂ / 16)
    if c₃ = pad ∧ c₄ = pad ∧ cs = [] then return [x]
    else
      let v₃ ← value c₃
      let y := UInt8.ofNat (v₂ % 16 * 16 + v₃ / 4)
      if c₄ = pad ∧ cs = [] then return [x, y]
      else
        let v₄ ← value c₄
        let b ← decode cs
        return x :: y :: UInt8.ofNat (v₃ % 4 * 64 + v₄) :: b
  | _ => none

theorem value_digit (h : n < 64) : value (digit n) = some n := by
  have hall : ∀ n < 64, value (digit n) = some n := by decide
  exact hall n h

theorem digit_ne_pad (h : n < 64) : digit n ≠ pad := by
  have hall : ∀ n < 64, digit n ≠ pad := by decide
  exact hall n h

theorem decode_encode (b : Bytes) : decode (encode b) = some b := by
  have hfirst (x : UInt8) (k : Nat) (hk : k < 16) :
      UInt8.ofNat (x.toNat / 4 * 4 + (x.toNat % 4 * 16 + k) / 16) = x := by
    have hx : x.toNat / 4 * 4 + (x.toNat % 4 * 16 + k) / 16 = x.toNat := by omega
    rw [hx, UInt8.ofNat_toNat]
  have hsecond (x y : UInt8) (k : Nat) (hk : k < 4) :
      UInt8.ofNat ((x.toNat % 4 * 16 + y.toNat / 16) % 16 * 16 + (y.toNat % 16 * 4 + k) / 4) =
        y := by
    have := y.toNat_lt
    have hy : (x.toNat % 4 * 16 + y.toNat / 16) % 16 * 16 + (y.toNat % 16 * 4 + k) / 4 =
        y.toNat := by omega
    rw [hy, UInt8.ofNat_toNat]
  fun_induction encode b with
  | case1 => rfl
  | case2 x =>
    have := x.toNat_lt
    rw [decode, value_digit (by omega), value_digit (by omega)]
    simpa using hfirst x 0 (by decide)
  | case3 x y =>
    have := x.toNat_lt
    have := y.toNat_lt
    have hpad : digit (y.toNat % 16 * 4) ≠ pad := digit_ne_pad (by omega)
    rw [decode, value_digit (by omega), value_digit (by omega), value_digit (by omega)]
    simp only [Option.bind_eq_bind, Option.bind_some, hpad, if_false, if_true,
      Option.pure_def, Option.some.injEq, List.cons.injEq, and_true]
    exact ⟨hfirst x (y.toNat / 16) (by omega), hsecond x y 0 (by decide)⟩
  | case4 x y z b ih =>
    have := x.toNat_lt
    have := y.toNat_lt
    have := z.toNat_lt
    have hpad : digit (y.toNat % 16 * 4 + z.toNat / 64) ≠ pad := digit_ne_pad (by omega)
    have hpad' : digit (z.toNat % 64) ≠ pad := digit_ne_pad (by omega)
    have hz : (y.toNat % 16 * 4 + z.toNat / 64) % 4 * 64 + z.toNat % 64 = z.toNat := by omega
    rw [decode, value_digit (by omega), value_digit (by omega), value_digit (by omega),
      value_digit (by omega), ih]
    simp only [Option.bind_eq_bind, Option.bind_some, hpad, hpad', false_and, if_false,
      Option.pure_def, Option.some.injEq, List.cons.injEq, and_true, hz, UInt8.ofNat_toNat]
    exact ⟨hfirst x (y.toNat / 16) (by omega), hsecond x y (z.toNat / 64) (by omega)⟩

end EufyNvr.Base64
