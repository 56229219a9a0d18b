import EufyNvr.Lib.Infix
import EufyNvr.Lib.Partition
import EufyNvr.Lib.Utf8Bytes
import EufyNvr.Lib.Utf8Lossy
import EufyNvr.Lib.Values

/-!
# A text stream and its reader

What is written to the standard error stream: UTF-8, and an escape for a code
point that is no character. The reader takes the bytes line by line and
decodes each line with replacement. What is visible in the text is visible in
one of the lines, and nothing else is.
-/

namespace EufyNvr.TextStream

variable {s l w : Str} {c d : Nat}

/-- `backslashreplace` -/
def escape (c : Nat) : Str := lit "\\u" ++ Interpreter.hexDigits 4 c

/-- A code point as it is shown. -/
def shown (c : Nat) : Str := if isCharacter c then [c] else escape c

def charBytes (c : Nat) : Bytes :=
  match Utf8.toChar c with
  | some x => String.utf8EncodeChar x
  | none => (escape c).map UInt8.ofNat

/-- The bytes of a text. -/
def written (s : Str) : Bytes := s.flatMap charBytes

/-- The lines up to the end of the bytes, each without its newline. -/
def readLines (b : Bytes) : List Str :=
  let ps := b.splitOn 10
  (if ps.getLast? = some [] then ps.dropLast else ps).map Utf8.decodeReplace

-- ---------------------------------------------------------------------------
-- One code point
-- ---------------------------------------------------------------------------

theorem mem_escape (h : c ∈ escape d) :
    c = 92 ∨ c = 117 ∨ 48 ≤ c ∧ c ≤ 57 ∨ 97 ≤ c ∧ c ≤ 102 := by
  have hdigit (n : Nat) : 48 ≤ Json.hexDigit n ∧ Json.hexDigit n ≤ 57 ∨
      97 ≤ Json.hexDigit n ∧ Json.hexDigit n ≤ 102 := by
    unfold Json.hexDigit
    split <;> omega
  rcases List.mem_append.mp h with h | h
  · have hall : ∀ c ∈ lit "\\u", c = 92 ∨ c = 117 := by decide
    exact (hall c h).imp_right .inl
  · obtain ⟨k, -, rfl⟩ := List.mem_map.mp h
    exact .inr (.inr (hdigit _))

theorem ascii_escape (c : Nat) : Ascii (escape c) := fun d hd => by
  have := mem_escape hd
  simp only [isAscii, decide_eq_true_eq]
  omega

theorem decodeReplace_charBytes (c : Nat) (b : Bytes) :
    Utf8.decodeReplace (charBytes c ++ b) = shown c ++ Utf8.decodeReplace b := by
  unfold charBytes shown
  by_cases hc : isCharacter c = true
  · obtain ⟨x, hx, rfl⟩ := Utf8.toChar_of_isCharacter hc
    rw [hx, if_pos hc]
    exact Utf8.decodeReplace_encodeChar x b
  · rw [if_neg hc, Utf8.toChar_eq_none (Bool.not_eq_true _ ▸ hc)]
    exact Utf8.decodeReplace_append (ascii_escape c)

theorem decodeReplace_written (s : Str) : Utf8.decodeReplace (written s) = s.flatMap shown := by
  induction s with
  | nil => rfl
  | cons c s ih => rw [written, List.flatMap_cons, decodeReplace_charBytes, ← written, ih,
      List.flatMap_cons]

theorem charBytes_newline : charBytes 10 = [10] := rfl

theorem newline_not_mem_charBytes (h : c ≠ 10) : 10 ∉ charBytes c := by
  intro hm
  have hbyte {d : Nat} (hd : d < 128) (heq : (10 : UInt8) = UInt8.ofNat d) : d = 10 := by
    have := congrArg UInt8.toNat heq
    rw [UInt8.toNat_ofNat'] at this
    change 10 = d % 256 at this
    omega
  unfold charBytes at hm
  split at hm
  · rename_i x hx
    have hcharacter : isCharacter c = true := by
      by_contra hc
      rw [Utf8.toChar_eq_none (Bool.not_eq_true _ ▸ hc)] at hx
      cases hx
    obtain ⟨y, hy, hnat⟩ := Utf8.toChar_of_isCharacter hcharacter
    obtain rfl : y = x := Option.some.inj (hy.symm.trans hx)
    by_cases hascii : y.toNat < 128
    · rw [Utf8.encodeChar_ascii hascii, List.mem_singleton] at hm
      exact h (hnat ▸ hbyte hascii hm)
    · have hle := Utf8.le_of_mem_encodeChar (Nat.not_lt.mp hascii) hm
      change 128 ≤ 10 at hle
      omega
  · obtain ⟨d, hd, hten⟩ := List.mem_map.mp hm
    have hlt : d < 128 := of_decide_eq_true (ascii_escape c d hd)
    have := mem_escape hd
    have := hbyte hlt hten.symm
    omega

theorem splitOn_written (s : Str) : (written s).splitOn 10 = (s.splitOn 10).map written :=
  Infix.splitOn_flatMap charBytes_newline fun _ h => newline_not_mem_charBytes h

-- ---------------------------------------------------------------------------
-- What can be seen
-- ---------------------------------------------------------------------------

/-- A word on one line, of which no escape has a part. -/
def Visible (w : Str) : Prop :=
  w ≠ [] ∧ Ascii w ∧ 10 ∉ w ∧ 92 ∉ w ∧
    ∀ c ∈ w.head?, c ≠ 117 ∧ ¬ (48 ≤ c ∧ c ≤ 57) ∧ ¬ (97 ≤ c ∧ c ≤ 102)

instance (w : Str) : Decidable (Visible w) := inferInstanceAs (Decidable (_ ∧ _))

theorem prefix_of_shown (h : 92 ∉ w) (hw : w <+: s.flatMap shown) : w <+: s := by
  induction s generalizing w with
  | nil => exact hw
  | cons c s ih =>
    cases w with
    | nil => exact List.nil_prefix
    | cons d w =>
      obtain ⟨hd, hrest⟩ := not_or.mp (mt List.mem_cons.mpr h)
      rw [List.flatMap_cons, shown] at hw
      split at hw
      · rw [List.singleton_append, List.cons_prefix_cons] at hw
        exact List.cons_prefix_cons.mpr ⟨hw.1, ih hrest hw.2⟩
      · exact absurd (List.cons_prefix_cons.mp hw).1.symm hd

theorem infix_shown (h : Visible w) : w <:+: s.flatMap shown ↔ w <:+: s := by
  obtain ⟨hne, hascii, -, hbackslash, hhead⟩ := h
  constructor
  · intro hw
    induction s with
    | nil => exact hw
    | cons c s ih =>
      by_cases hc : isCharacter c = true
      · have hcons : (c :: s).flatMap shown = c :: s.flatMap shown := by
          rw [List.flatMap_cons, shown, if_pos hc, List.singleton_append]
        rw [hcons] at hw
        rcases List.infix_cons_iff.mp hw with hbegins | hwithin
        · exact (prefix_of_shown hbackslash (hcons ▸ hbegins)).isInfix
        · exact (ih hwithin).trans (List.suffix_cons c s).isInfix
      · rw [List.flatMap_cons, shown, if_neg hc] at hw
        obtain ⟨d, w, rfl⟩ := List.exists_cons_of_ne_nil hne
        have hd : d ∉ escape c := fun hd => by
          have hd₁ := mem_escape hd
          have hd₂ := hhead d rfl
          have hd₃ : d ≠ 92 := fun heq => hbackslash (heq ▸ List.mem_cons_self)
          omega
        exact (ih (infix_of_append_left hd hw)).trans (List.suffix_cons c s).isInfix
  · rintro ⟨a, b, rfl⟩
    have hw : w.flatMap shown = w := by
      have hone : ∀ c ∈ w, shown c = [c] := fun c hc => if_pos (isCharacter_of_ascii (hascii c hc))
      rw [List.flatMap_congr hone, List.flatMap_singleton']
    rw [List.flatMap_append, List.flatMap_append, hw]
    exact ⟨_, _, rfl⟩

/-- It is in one of the lines that are read if it is in the text that was written. -/
theorem infix_readLines (h : Visible w) :
    (∃ l ∈ readLines (written s), w <:+: l) ↔ w <:+: s := by
  obtain ⟨hne, -, hnewline, -⟩ := id h
  have hline (l : Str) : w <:+: Utf8.decodeReplace (written l) ↔ w <:+: l := by
    rw [decodeReplace_written, infix_shown h]
  rw [Infix.infix_splitOn hnewline hne, readLines, splitOn_written]
  constructor
  · rintro ⟨t, ht, hw⟩
    obtain ⟨b, hb, rfl⟩ := List.mem_map.mp ht
    have hb : b ∈ (s.splitOn 10).map written := by
      split at hb
      · exact List.dropLast_subset _ hb
      · exact hb
    obtain ⟨l, hl, rfl⟩ := List.mem_map.mp hb
    exact ⟨l, hl, (hline l).mp hw⟩
  · rintro ⟨l, hl, hw⟩
    refine ⟨_, List.mem_map_of_mem (a := written l) ?_, (hline l).mpr hw⟩
    have hmem := List.mem_map_of_mem (f := written) hl
    split
    · rename_i hlast
      -- The last piece, which is empty, is not this one.
      obtain ⟨ps, hps⟩ := List.getLast?_eq_some_iff.mp hlast
      rw [hps, List.dropLast_concat]
      rw [hps, List.mem_append, List.mem_singleton] at hmem
      refine hmem.resolve_right fun hnil => ?_
      have hw := (hline l).mpr hw
      rw [hnil] at hw
      exact hne (List.infix_nil.mp hw)
    · exact hmem

theorem characters_shown (s : Str) : Characters (s.flatMap shown) := fun c hc => by
  obtain ⟨d, -, hd⟩ := List.mem_flatMap.mp hc
  unfold shown at hd
  split at hd
  · rw [List.mem_singleton.mp hd]
    assumption
  · exact isCharacter_of_ascii (ascii_escape d c hd)

theorem characters_readLines (h : l ∈ readLines (written s)) : Characters l := by
  rw [readLines, splitOn_written] at h
  obtain ⟨b, hb, rfl⟩ := List.mem_map.mp h
  have hb : b ∈ (s.splitOn 10).map written := by
    split at hb
    · exact List.dropLast_subset _ hb
    · exact hb
  obtain ⟨t, -, rfl⟩ := List.mem_map.mp hb
  rw [decodeReplace_written]
  exact characters_shown t

end EufyNvr.TextStream
