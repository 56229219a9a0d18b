import EufyNvr.Lib.Hex

/-!
# The share key

`derive_share_key` of `eufy_cloud.py`, and what `aes_encrypt` and
`aes_decrypt` make of a key. The exchange of the curve is a parameter, and
so is the reading of the two keys.
-/

namespace EufyNvr.Cloud

open Json Hex

variable {b : Bytes} {s : Str}

/-- The digits of the shared secret: without its zeros in front, and with one
more than that, the last 64 of them, and of these the first 32. -/
def shareKey (shared : Bytes) : Str :=
  let s := (hex shared).dropWhile (· == 48)
  let s := 48 :: s
  (s.drop (s.length - 64)).take 32

/-- `derive_share_key`, where `exchange` gives what `priv.exchange` returns. -/
def deriveShareKey (exchange : Str → Str → Option Bytes) (clientPrivHex serverPubHex : Str) :
    Option Str := (exchange clientPrivHex serverPubHex).map shareKey

/-- The key with which `aes_encrypt` and `aes_decrypt` set up their cipher. -/
def aesKey (keyHex : Str) : Option Bytes := do
  let key ← fromhex keyHex
  if key.length < 16 then none
  else if key.length = 16 ∨ key.length = 24 ∨ key.length = 32 then return key
  else none

/-- What the key of a secret is to be: the first 32 of its 64 digits, and by
that the first 16 of its bytes. -/
structure Documented (shared : Bytes) (key : Str) : Prop where
  digits : key = (hex shared).take 32
  bytes : key = hex (shared.take 16)
  length : key.length = 32
  cipher : aesKey key = some (shared.take 16)

theorem documented_take (h : b.length = 32) : Documented b ((hex b).take 32) := by
  have htake : (hex b).take 32 = hex (b.take 16) := take_hex 16 b
  have hlen : (b.take 16).length = 16 := by rw [List.length_take, h]; rfl
  refine ⟨rfl, htake, ?_, ?_⟩
  · rw [htake, length_hex, hlen]
  · rw [htake, aesKey, fromhex_hex, Option.bind_eq_bind, Option.bind_some, hlen]
    rfl

-- ---------------------------------------------------------------------------
-- Zeros in front
-- ---------------------------------------------------------------------------

theorem hexDigit_eq_zero {d : Nat} : hexDigit d = 48 ↔ d % 16 = 0 := by
  unfold hexDigit
  split <;> omega

/-- The digits of a secret whose first byte is not zero: at most the first of
them is a zero, and the one in front stands for it. -/
theorem shareKey_of_first {x : UInt8} (h : (x :: b).length = 32) (hx : x ≠ 0) :
    shareKey (x :: b) = (hex (x :: b)).take 32 := by
  have hb : (hex b).length = 62 := by
    rw [length_hex]
    rw [List.length_cons] at h
    omega
  have hlow : hexDigit (x.toNat / 16) = 48 → hexDigit x.toNat ≠ 48 := by
    intro hhigh hlow
    rw [hexDigit_eq_zero] at hhigh hlow
    have := x.toNat_lt
    exact hx (UInt8.toNat_inj.mp (by rw [UInt8.toNat_zero]; omega))
  have hhex : hex (x :: b) = hexDigit (x.toNat / 16) :: hexDigit x.toNat :: hex b := rfl
  by_cases hhigh : hexDigit (x.toNat / 16) = 48
  · rw [shareKey, hhex, List.dropWhile_cons_of_pos (by simp [hhigh]),
      List.dropWhile_cons_of_neg (by simp [hlow hhigh]), hhigh]
    simp [hb]
  · rw [shareKey, hhex, List.dropWhile_cons_of_neg (by simp [hhigh])]
    simp [hb]

/-- Behind a zero byte there is one zero too few in front. -/
theorem shareKey_of_zero (h : ((0 : UInt8) :: b).length = 32) :
    shareKey (0 :: b) ≠ (hex (0 :: b)).take 32 := by
  have hhex : hex (0 :: b) = 48 :: 48 :: hex b := rfl
  have hdrop : (hex (0 :: b)).dropWhile (· == 48) = (hex b).dropWhile (· == 48) := rfl
  have hlen : ((hex b).dropWhile (· == 48)).length ≤ 62 := by
    have hle := List.length_dropWhile_le (p := (· == 48)) (hex b)
    rw [length_hex] at hle
    rw [List.length_cons] at h
    omega
  have hkey : shareKey (0 :: b) = (48 :: (hex b).dropWhile (· == 48)).take 32 := by
    have hzero : (48 :: (hex b).dropWhile (· == 48)).length - 64 = 0 := by
      rw [List.length_cons]
      omega
    rw [shareKey, hdrop, hzero, List.drop_zero]
  intro heq
  rw [hkey, hhex] at heq
  cases ht : (hex b).dropWhile (· == 48) with
  | nil =>
    rw [ht] at heq
    have hone := congrArg (·[1]?) heq
    simp at hone
  | cons c t =>
    -- The digit after the zero that was put in front is not a zero.
    have hc := List.head?_dropWhile_not (· == 48) (hex b)
    rw [ht] at heq hc
    have hone := congrArg (·[1]?) heq
    simp at hone hc
    exact hc hone

/-- The key of 32 bytes is the documented one if the first byte is not zero,
and only then. -/
theorem shareKey_documented {exchange : Str → Str → Option Bytes} {priv pub : Str} {shared : Bytes}
    (hx : exchange priv pub = some shared) (hlen : shared.length = 32) :
    (∃ key, deriveShareKey exchange priv pub = some key ∧ Documented shared key) ↔
      shared.head? ≠ some 0 := by
  rw [deriveShareKey, hx, Option.map_some]
  cases shared with
  | nil => cases hlen
  | cons x b =>
    rw [List.head?_cons, ne_eq, Option.some.injEq]
    constructor
    · rintro ⟨key, hkey, hdoc⟩ rfl
      cases hkey
      exact shareKey_of_zero hlen hdoc.digits
    · intro hne
      exact ⟨_, rfl, shareKey_of_first hlen hne ▸ documented_take hlen⟩

theorem shareKey_documented_nonzero : ∃ key,
    deriveShareKey (fun _ _ => some (0x0a :: List.replicate 31 0xbc)) (lit "1") (lit "04") =
      some key ∧ Documented (0x0a :: List.replicate 31 0xbc) key :=
  (shareKey_documented rfl rfl).mpr (by decide)

/-- Behind one zero byte the digits are out of place, and of a small secret
there are too few for a cipher. -/
theorem shareKey_shifted :
    deriveShareKey (fun _ _ => some (0 :: List.replicate 31 0xbc)) (lit "1") (lit "04") =
      some (lit "0bcbcbcbcbcbcbcbcbcbcbcbcbcbcbcb") ∧
    (hex (0 :: List.replicate 31 0xbc)).take 32 = lit "00bcbcbcbcbcbcbcbcbcbcbcbcbcbcbc" ∧
    deriveShareKey (fun _ _ => some (List.replicate 31 0 ++ [1])) (lit "1") (lit "04") =
      some (lit "01") ∧ aesKey (lit "01") = none := by
  decide +kernel

end EufyNvr.Cloud
