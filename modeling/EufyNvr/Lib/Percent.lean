import EufyNvr.Lib.JsonRoundTrip
import EufyNvr.Lib.Utf8

/-!
# Percent escapes

Every byte of a text but the unreserved characters, and those that are
declared safe, is written as two digits in upper case.
-/

namespace EufyNvr.Percent

open Json

variable {s t safe : Str} {c : Nat}

/-- A letter, a digit or one of `_.-~`. -/
def isUnreserved (c : Nat) : Bool :=
  isAlpha c || isDigit c || c == 95 || c == point || c == minus || c == 126

def digit (d : Nat) : Nat := if d % 16 < 10 then 48 + d % 16 else 55 + d % 16

def quoteByte (safe : Str) (b : UInt8) : Str :=
  if b.toNat < 128 ∧ (isUnreserved b.toNat = true ∨ b.toNat ∈ safe) then [b.toNat]
  else [percent, digit (b.toNat / 16), digit b.toNat]

/-- `urllib.parse.quote` -/
def quote (safe s : Str) : Option Str := (Utf8.encode s).map fun b => b.flatMap (quoteByte safe)

/-- The bytes that an ASCII text with escapes stands for. -/
def bytes : Str → Option Bytes
  | [] => some []
  | c :: cs =>
    if c = percent then
      match cs with
      | a :: b :: cs => do
        let x ← hexValue a
        let y ← hexValue b
        let bs ← bytes cs
        return UInt8.ofNat (16 * x + y) :: bs
      | _ => none
    else if c < 128 then (bytes cs).map (UInt8.ofNat c :: ·)
    else none

def decode (s : Str) : Option Str := (bytes s).bind Utf8.decode

theorem hexValue_digit (d : Nat) : hexValue (digit d) = some (d % 16) := by
  have hall : ∀ d < 16, hexValue (digit d) = some d := by decide
  have hmod : digit d = digit (d % 16) := by rw [digit, digit, Nat.mod_mod]
  rw [hmod, hall (d % 16) (Nat.mod_lt d (by decide))]

theorem bytes_escape (d : Nat) (hd : d < 256) (cs : Str) :
    bytes (percent :: digit (d / 16) :: digit d :: cs) = (bytes cs).map (UInt8.ofNat d :: ·) := by
  have hvalue : 16 * (d / 16 % 16) + d % 16 = d := by omega
  rw [bytes.eq_def]
  simp only [if_true, hexValue_digit, Option.bind_eq_bind, Option.bind_some, Option.pure_def,
    hvalue]
  exact Option.map_eq_bind.symm

theorem bytes_plain (hc : c ≠ percent) (hascii : c < 128) (cs : Str) :
    bytes (c :: cs) = (bytes cs).map (UInt8.ofNat c :: ·) := by
  rw [bytes.eq_def]
  simp only [if_neg hc, if_pos hascii]

theorem bytes_quoteByte (hsafe : percent ∉ safe) (b : UInt8) (cs : Str) :
    bytes (quoteByte safe b ++ cs) = (bytes cs).map (b :: ·) := by
  unfold quoteByte
  split
  · rename_i h
    have hne : b.toNat ≠ percent := by
      rintro hb
      rw [hb] at h
      rcases h.2 with h | h
      · exact absurd h (by decide)
      · exact hsafe h
    rw [List.singleton_append, bytes_plain hne h.1, UInt8.ofNat_toNat]
  · have hescape := bytes_escape b.toNat b.toNat_lt cs
    rw [UInt8.ofNat_toNat] at hescape
    exact hescape

theorem bytes_quote (hsafe : percent ∉ safe) (b : Bytes) :
    bytes (b.flatMap (quoteByte safe)) = some b := by
  induction b with
  | nil => rfl
  | cons x b ih => rw [List.flatMap_cons, bytes_quoteByte hsafe, ih, Option.map_some]

theorem decode_quote (hsafe : percent ∉ safe) (h : quote safe s = some t) : decode t = some s := by
  obtain ⟨b, hb, rfl⟩ := Option.map_eq_some_iff.mp h
  rw [decode, bytes_quote hsafe, Option.bind_some, Utf8.decode_encode hb]

/-- What a quoted text is made of. -/
theorem quote_char (h : quote safe s = some t) (hc : c ∈ t) :
    isUnreserved c = true ∨ c ∈ safe ∨ c = percent := by
  have hdigit (d : Nat) : isUnreserved (digit d) = true := by
    have hall : ∀ d < 16, isUnreserved (digit d) = true := by decide
    have hmod : digit d = digit (d % 16) := by rw [digit, digit, Nat.mod_mod]
    rw [hmod, hall (d % 16) (Nat.mod_lt d (by decide))]
  obtain ⟨b, -, rfl⟩ := Option.map_eq_some_iff.mp h
  obtain ⟨x, -, hx⟩ := List.mem_flatMap.mp hc
  unfold quoteByte at hx
  split at hx
  · rename_i hsafe
    rw [List.mem_singleton.mp hx]
    exact hsafe.2.imp_right .inl
  · simp only [List.mem_cons, List.not_mem_nil, or_false] at hx
    rcases hx with rfl | rfl | rfl
    · exact .inr (.inr rfl)
    · exact .inl (hdigit _)
    · exact .inl (hdigit _)

/-- A text that needs no escape stands for its own bytes. -/
theorem bytes_append (h : Ascii s) (hpercent : percent ∉ s) (cs : Str) :
    bytes (s ++ cs) = (bytes cs).map (s.map UInt8.ofNat ++ ·) := by
  induction s with
  | nil => simp
  | cons c s ih =>
    obtain ⟨hc, hs⟩ := not_or.mp (mt List.mem_cons.mpr hpercent)
    have hascii : c < 128 := of_decide_eq_true (h c (by simp))
    rw [List.cons_append, bytes_plain (Ne.symm hc) hascii, ih (fun x hx => h x (by simp [hx])) hs,
      Option.map_map]
    rfl

theorem decode_of_bytes (h : Ascii s) (ht : bytes t = some (s.map UInt8.ofNat)) :
    decode t = some s := by
  rw [decode, ht, Option.bind_some, Utf8.decode_encode (Utf8.encode_ascii h)]

/-- One that needs no escape is read as it is. -/
theorem decode_plain (h : Ascii s) (hpercent : percent ∉ s) : decode s = some s := by
  have hbytes := bytes_append h hpercent []
  rw [List.append_nil, bytes, Option.map_some, List.append_nil] at hbytes
  exact decode_of_bytes h hbytes

end EufyNvr.Percent
