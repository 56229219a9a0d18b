import EufyNvr.Basic
import EufyNvr.Lib.JsonRoundTrip

/-!
# Bytes in hexadecimal

Two lower-case digits a byte, and the reading of them.
-/

namespace EufyNvr.Hex

open Json

variable {b : Bytes} {s : Str}

def byteDigits (x : UInt8) : Str := [hexDigit (x.toNat / 16), hexDigit x.toNat]

/-- `bytes.hex` -/
def hex (b : Bytes) : Str := b.flatMap byteDigits

/-- `bytes.fromhex`, for a text without white space. -/
def fromhex : Str → Option Bytes
  | [] => some []
  | [_] => none
  | a :: b :: cs => do
    let x ← hexValue a
    let y ← hexValue b
    let bs ← fromhex cs
    return UInt8.ofNat (16 * x + y) :: bs

/-- The text in pieces of two characters. -/
def pairs : Str → List Str
  | [] => []
  | [a] => [[a]]
  | a :: b :: cs => [a, b] :: pairs cs

@[simp] theorem hex_nil : hex [] = [] := rfl

@[simp] theorem hex_cons (x : UInt8) (b : Bytes) : hex (x :: b) = byteDigits x ++ hex b := rfl

@[simp] theorem length_byteDigits (x : UInt8) : (byteDigits x).length = 2 := rfl

theorem length_hex (b : Bytes) : (hex b).length = 2 * b.length := by
  induction b with
  | nil => rfl
  | cons x b ih =>
    rw [hex_cons, List.length_append, ih, length_byteDigits, List.length_cons]
    omega

theorem take_hex (n : Nat) (b : Bytes) : (hex b).take (2 * n) = hex (b.take n) := by
  induction b generalizing n with
  | nil => simp
  | cons x b ih =>
    cases n with
    | zero => rfl
    | succ n =>
      have htwo : 2 * (n + 1) = (byteDigits x).length + 2 * n := by rw [length_byteDigits]; omega
      rw [hex_cons, htwo, List.take_length_add_append, ih, List.take_succ_cons, hex_cons]

theorem fromhex_hex (b : Bytes) : fromhex (hex b) = some b := by
  induction b with
  | nil => rfl
  | cons x b ih =>
    have hx : 16 * (x.toNat / 16 % 16) + x.toNat % 16 = x.toNat := by
      have := x.toNat_lt
      omega
    rw [hex_cons, byteDigits, List.cons_append, List.singleton_append, fromhex, hexValue_hexDigit,
      hexValue_hexDigit, ih]
    simp only [Option.bind_eq_bind, Option.bind_some, Option.pure_def, hx, UInt8.ofNat_toNat]

theorem pairs_hex (b : Bytes) : pairs (hex b) = b.map byteDigits := by
  induction b with
  | nil => rfl
  | cons x b ih =>
    rw [hex_cons, byteDigits, List.cons_append, List.singleton_append, pairs, ih]
    rfl

/-- In lower case, and ASCII. -/
theorem isHexDigit_hex {c : Nat} (h : c ∈ hex b) : 48 ≤ c ∧ c ≤ 57 ∨ 97 ≤ c ∧ c ≤ 102 := by
  obtain ⟨x, -, hx⟩ := List.mem_flatMap.mp h
  have hdigit (d : Nat) :
      48 ≤ hexDigit d ∧ hexDigit d ≤ 57 ∨ 97 ≤ hexDigit d ∧ hexDigit d ≤ 102 := by
    unfold hexDigit
    split <;> omega
  simp only [byteDigits, List.mem_cons, List.not_mem_nil, or_false] at hx
  rcases hx with rfl | rfl <;> exact hdigit _

theorem ascii_hex (b : Bytes) : Ascii (hex b) := fun c hc => by
  have := isHexDigit_hex hc
  simp only [isAscii, decide_eq_true_eq]
  omega

theorem sound_hex (b : Bytes) : Sound (.str (hex b)) := Unpaired.of_printable fun c hc => by
  have := isHexDigit_hex hc
  omega

end EufyNvr.Hex
