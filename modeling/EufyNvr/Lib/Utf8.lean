import EufyNvr.Basic
import EufyNvr.Lib.Unicode

/-!
# UTF-8

The bytes of a text, where all of its code points are characters. The codec
is the language's own.
-/

namespace EufyNvr.Utf8

variable {s t : Str} {b : Bytes} {c : Nat}

def toChar (c : Nat) : Option Char :=
  if h : c.isValidChar then some (Char.ofNatAux c h) else none

/-- `str.encode` -/
def encode (s : Str) : Option Bytes :=
  (s.mapM toChar).map fun cs => cs.flatMap String.utf8EncodeChar

/-- `bytes.decode` -/
def decode (b : Bytes) : Option Str :=
  b.toByteArray.utf8Decode?.map fun cs => cs.toList.map Char.toNat

theorem toChar_of_isCharacter (h : isCharacter c = true) :
    ∃ x, toChar c = some x ∧ x.toNat = c := by
  simp only [isCharacter, decide_eq_true_eq] at h
  exact ⟨Char.ofNatAux c h, dif_pos h, rfl⟩

theorem toChar_eq_none (h : isCharacter c = false) : toChar c = none := by
  simp only [isCharacter, decide_eq_false_iff_not] at h
  exact dif_neg h

theorem mapM_toChar (h : Characters s) :
    ∃ cs, s.mapM toChar = some cs ∧ cs.map Char.toNat = s := by
  induction s with
  | nil => exact ⟨[], rfl, rfl⟩
  | cons c s ih =>
    obtain ⟨x, hx, rfl⟩ := toChar_of_isCharacter (h c (by simp))
    obtain ⟨cs, hcs, rfl⟩ := ih fun d hd => h d (by simp [hd])
    exact ⟨x :: cs, by simp [List.mapM_cons, hx, hcs], rfl⟩

theorem mapM_toChar_eq_none (h : ¬ Characters s) : s.mapM toChar = none := by
  induction s with
  | nil => exact absurd nofun h
  | cons c s ih =>
    by_cases hc : isCharacter c = true
    · obtain ⟨x, hx, -⟩ := toChar_of_isCharacter hc
      have hs : ¬ Characters s := fun hs => h (List.forall_mem_cons.mpr ⟨hc, hs⟩)
      simp [List.mapM_cons, hx, ih hs]
    · simp [List.mapM_cons, toChar_eq_none (Bool.not_eq_true _ ▸ hc)]

/-- What has bytes is made of characters, and is read back from them. -/
theorem decode_encode (h : encode s = some b) : decode b = some s := by
  have hs : Characters s := by
    by_contra hs
    rw [encode, mapM_toChar_eq_none hs] at h
    cases h
  obtain ⟨cs, hcs, hmap⟩ := mapM_toChar hs
  rw [encode, hcs] at h
  cases h
  have hutf8 : (cs.flatMap String.utf8EncodeChar).toByteArray.utf8Decode? = some cs.toArray :=
    List.utf8Decode?_utf8Encode
  rw [decode, hutf8, Option.map_some, hmap]

theorem encode_isSome : (encode s).isSome = true ↔ Characters s := by
  by_cases h : Characters s
  · obtain ⟨cs, hcs, -⟩ := mapM_toChar h
    simp [encode, hcs, h]
  · simp [encode, mapM_toChar_eq_none h, h]

theorem encode_of_characters (h : Characters s) : ∃ b, encode s = some b :=
  Option.isSome_iff_exists.mp (encode_isSome.mpr h)

theorem encode_eq_none (h : ¬ Characters s) : encode s = none :=
  Option.not_isSome_iff_eq_none.mp fun hs => h (encode_isSome.mp hs)

/-- An ASCII text is its own bytes. -/
theorem encode_ascii (h : Ascii s) : encode s = some (s.map UInt8.ofNat) := by
  have hchar (x : Char) (hx : x.toNat < 128) : String.utf8EncodeChar x = [UInt8.ofNat x.toNat] :=
    if_pos (Nat.le_of_lt_succ hx)
  obtain ⟨cs, hcs, rfl⟩ := mapM_toChar (Characters.of_ascii h)
  rw [encode, hcs, Option.map_some, List.map_map, Option.some.injEq]
  clear hcs
  induction cs with
  | nil => rfl
  | cons x cs ih =>
    rw [List.flatMap_cons, hchar x (of_decide_eq_true (h _ (by simp))),
      ih fun c hc => h c (by simp only [List.map_cons, List.mem_cons, hc, or_true])]
    rfl

end EufyNvr.Utf8
