import EufyNvr.Lib.Base64
import EufyNvr.Lib.Unicode

/-!
# Base64 as the language reads it

`base64.b64decode` of a text: characters outside the alphabet are passed
over, and reading ends at the padding of a group that is complete with it.
-/

namespace EufyNvr.Base64

variable {b : Bytes} {n : Nat}

/-- `quad` characters of a group have been read, which leave `left` over, and
`pads` times padding after the last of them. -/
def scan : Nat → Nat → Nat → Str → Option Bytes
  | quad, _, _, [] => if quad = 0 then some [] else none
  | quad, left, pads, c :: cs =>
    if c = pad then
      if 2 ≤ quad ∧ 4 ≤ quad + (pads + 1) then some []
      else scan quad left (if 2 ≤ quad then pads + 1 else pads) cs
    else
      match value c with
      | none => scan quad left pads cs
      | some v =>
        match quad with
        | 0 => scan 1 v 0 cs
        | 1 => (scan 2 (v % 16) 0 cs).map (UInt8.ofNat (left * 4 + v / 16) :: ·)
        | 2 => (scan 3 (v % 4) 0 cs).map (UInt8.ofNat (left * 16 + v / 4) :: ·)
        | _ => (scan 0 0 0 cs).map (UInt8.ofNat (left * 64 + v) :: ·)

/-- `base64.b64decode`, which raises for `none`. -/
def b64decode (s : Str) : Option Bytes := if Ascii s then scan 0 0 0 s else none

/-- The characters of an encoded text. -/
theorem mem_encode {c : Nat} (h : c ∈ encode b) : c = pad ∨ ∃ n < 64, c = digit n := by
  fun_induction encode b with
  | case1 => cases h
  | case2 x =>
    have := x.toNat_lt
    simp only [List.mem_cons, List.not_mem_nil, or_false] at h
    rcases h with rfl | rfl | rfl | rfl
    · exact .inr ⟨_, by omega, rfl⟩
    · exact .inr ⟨_, by omega, rfl⟩
    · exact .inl rfl
    · exact .inl rfl
  | case3 x y =>
    have := x.toNat_lt
    have := y.toNat_lt
    simp only [List.mem_cons, List.not_mem_nil, or_false] at h
    rcases h with rfl | rfl | rfl | rfl
    · exact .inr ⟨_, by omega, rfl⟩
    · exact .inr ⟨_, by omega, rfl⟩
    · exact .inr ⟨_, by omega, rfl⟩
    · exact .inl rfl
  | case4 x y z b ih =>
    have := x.toNat_lt
    have := y.toNat_lt
    have := z.toNat_lt
    simp only [List.mem_cons] at h
    rcases h with rfl | rfl | rfl | rfl | h
    · exact .inr ⟨_, by omega, rfl⟩
    · exact .inr ⟨_, by omega, rfl⟩
    · exact .inr ⟨_, by omega, rfl⟩
    · exact .inr ⟨_, by omega, rfl⟩
    · exact ih h

theorem ascii_encode (b : Bytes) : Ascii (encode b) := by
  have hdigit : ∀ n < 64, isAscii (digit n) = true := by decide
  intro c hc
  rcases mem_encode hc with rfl | ⟨n, hn, rfl⟩
  · rfl
  · exact hdigit n hn

theorem scan_zero (left pads : Nat) (cs : Str) (h : n < 64) :
    scan 0 left pads (digit n :: cs) = scan 1 n 0 cs := by
  rw [scan, if_neg (digit_ne_pad h), value_digit h]
  rfl

theorem scan_one (left pads : Nat) (cs : Str) (h : n < 64) : scan 1 left pads (digit n :: cs) =
    (scan 2 (n % 16) 0 cs).map (UInt8.ofNat (left * 4 + n / 16) :: ·) := by
  rw [scan, if_neg (digit_ne_pad h), value_digit h]
  rfl

theorem scan_two (left pads : Nat) (cs : Str) (h : n < 64) : scan 2 left pads (digit n :: cs) =
    (scan 3 (n % 4) 0 cs).map (UInt8.ofNat (left * 16 + n / 4) :: ·) := by
  rw [scan, if_neg (digit_ne_pad h), value_digit h]
  rfl

theorem scan_three (left pads : Nat) (cs : Str) (h : n < 64) : scan 3 left pads (digit n :: cs) =
    (scan 0 0 0 cs).map (UInt8.ofNat (left * 64 + n) :: ·) := by
  rw [scan, if_neg (digit_ne_pad h), value_digit h]
  rfl

/-- The groups of three bytes that make up a text are read back one by one. -/
theorem scan_encode (b : Bytes) : scan 0 0 0 (encode b) = some b := by
  have hfirst (x : UInt8) (k : Nat) (hk : k < 16) :
      UInt8.ofNat (x.toNat / 4 * 4 + (x.toNat % 4 * 16 + k) / 16) = x := by
    have hx : x.toNat / 4 * 4 + (x.toNat % 4 * 16 + k) / 16 = x.toNat := by omega
    rw [hx, UInt8.ofNat_toNat]
  have hsecond (x y : UInt8) (k : Nat) (hk : k < 4) :
      UInt8.ofNat ((x.toNat % 4 * 16 + y.toNat / 16) % 16 * 16 + (y.toNat % 16 * 4 + k) / 4) =
        y := by
    have := y.toNat_lt
    have hy : (x.toNat % 4 * 16 + y.toNat / 16) % 16 * 16 + (y.toNat % 16 * 4 + k) / 4 =
        y.toNat := by omega
    rw [hy, UInt8.ofNat_toNat]
  fun_induction encode b with
  | case1 => rfl
  | case2 x =>
    have := x.toNat_lt
    have hpads (left : Nat) : scan 2 left 0 [pad, pad] = some [] := rfl
    rw [scan_zero _ _ _ (by omega), scan_one _ _ _ (by omega), hpads, Option.map_some]
    exact congrArg (fun y => some [y]) (hfirst x 0 (by decide))
  | case3 x y =>
    have := x.toNat_lt
    have := y.toNat_lt
    have hpads (left : Nat) : scan 3 left 0 [pad] = some [] := rfl
    rw [scan_zero _ _ _ (by omega), scan_one _ _ _ (by omega), scan_two _ _ _ (by omega), hpads,
      Option.map_some, Option.map_some, hfirst x (y.toNat / 16) (by omega)]
    exact congrArg (fun z => some [x, z]) (hsecond x y 0 (by decide))
  | case4 x y z b ih =>
    have := x.toNat_lt
    have := y.toNat_lt
    have := z.toNat_lt
    have hz : (y.toNat % 16 * 4 + z.toNat / 64) % 4 * 64 + z.toNat % 64 = z.toNat := by omega
    rw [scan_zero _ _ _ (by omega), scan_one _ _ _ (by omega), scan_two _ _ _ (by omega),
      scan_three _ _ _ (by omega), ih, hz, UInt8.ofNat_toNat, Option.map_some, Option.map_some,
      Option.map_some, hfirst x (y.toNat / 16) (by omega), hsecond x y (z.toNat / 64) (by omega)]

theorem b64decode_encode (b : Bytes) : b64decode (encode b) = some b := by
  rw [b64decode, if_pos (ascii_encode b), scan_encode]

end EufyNvr.Base64
