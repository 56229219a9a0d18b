import EufyNvr.Lib.Utf8

/-!
# The bytes of a character

An ASCII character is its own byte, and any other has only bytes beyond
ASCII. So NUL bytes are NUL characters, and an ASCII end of the bytes is an
end of the text.
-/

namespace EufyNvr.Utf8

variable {s t : Str} {b : Bytes} {x : Char}

theorem encodeChar_ascii (h : x.toNat < 128) :
    String.utf8EncodeChar x = [UInt8.ofNat x.toNat] := if_pos (Nat.le_of_lt_succ h)

theorem le_of_mem_encodeChar (h : 128 ≤ x.toNat) {y : UInt8} (hy : y ∈ String.utf8EncodeChar x) :
    128 ≤ y.toNat := by
  have hx : ¬ x.val.toNat ≤ 0x7f := Nat.not_le.mpr h
  unfold String.utf8EncodeChar at hy
  rw [if_neg hx] at hy
  split at hy
  · simp only [List.mem_cons, List.not_mem_nil, or_false] at hy
    rcases hy with rfl | rfl <;> · rw [UInt8.toNat_ofNat']; omega
  · split at hy
    · simp only [List.mem_cons, List.not_mem_nil, or_false] at hy
      rcases hy with rfl | rfl | rfl <;> · rw [UInt8.toNat_ofNat']; omega
    · simp only [List.mem_cons, List.not_mem_nil, or_false] at hy
      rcases hy with rfl | rfl | rfl | rfl <;> · rw [UInt8.toNat_ofNat']; omega

theorem encode_cases (h : encode s = some b) :
    ∃ cs : List Char, cs.map Char.toNat = s ∧ cs.flatMap String.utf8EncodeChar = b := by
  by_cases hs : Characters s
  · obtain ⟨cs, hcs, hmap⟩ := mapM_toChar hs
    rw [encode, hcs] at h
    exact ⟨cs, hmap, Option.some.inj h⟩
  · rw [encode_eq_none hs] at h
    cases h

/-- What can be decoded is the bytes of the text. -/
theorem decode_cases (h : decode b = some s) :
    ∃ cs : List Char, cs.map Char.toNat = s ∧ cs.flatMap String.utf8EncodeChar = b := by
  obtain ⟨cs, hcs, rfl⟩ := Option.map_eq_some_iff.mp h
  refine ⟨cs.toList, rfl, ?_⟩
  have hsome : b.toByteArray.utf8Decode?.isSome = true := Option.isSome_iff_exists.mpr ⟨cs, hcs⟩
  have hbytes : cs.toList.utf8Encode = b.toByteArray := by
    have := ByteArray.utf8Encode_get_utf8Decode? (b := b.toByteArray) (h := hsome)
    simpa only [hcs, Option.get_some] using this
  have hdata := congrArg (fun a : ByteArray => a.data.toList) hbytes
  simpa [List.utf8Encode] using hdata

theorem decode_flatMap (cs : List Char) :
    decode (cs.flatMap String.utf8EncodeChar) = some (cs.map Char.toNat) := by
  have hutf8 : (cs.flatMap String.utf8EncodeChar).toByteArray.utf8Decode? = some cs.toArray :=
    List.utf8Decode?_utf8Encode
  rw [decode, hutf8, Option.map_some]

theorem zero_not_mem_encode (h : encode s = some b) (hs : 0 ∉ s) : 0 ∉ b := by
  obtain ⟨cs, rfl, rfl⟩ := encode_cases h
  intro hm
  obtain ⟨x, hx, hzero⟩ := List.mem_flatMap.mp hm
  by_cases hascii : x.toNat < 128
  · rw [encodeChar_ascii hascii, List.mem_singleton] at hzero
    have hx0 : x.toNat = 0 := by
      have := congrArg UInt8.toNat hzero
      rw [UInt8.toNat_ofNat', UInt8.toNat_zero] at this
      omega
    exact hs (List.mem_map.mpr ⟨x, hx, hx0⟩)
  · have := le_of_mem_encodeChar (Nat.not_lt.mp hascii) hzero
    rw [UInt8.toNat_zero] at this
    omega

/-- An ASCII end of the bytes is read as it is. -/
theorem decode_append_ascii (hs : Ascii s) (h : decode (b ++ s.map UInt8.ofNat) = some t) :
    ∃ t', decode b = some t' ∧ t = t' ++ s := by
  obtain ⟨cs, rfl, hcs⟩ := decode_cases h
  clear h
  induction s using List.reverseRecOn generalizing cs with
  | nil =>
    refine ⟨cs.map Char.toNat, ?_, by simp⟩
    rw [List.map_nil, List.append_nil] at hcs
    rw [← hcs, decode_flatMap]
  | append_singleton s c ih =>
    have hc : c < 128 := of_decide_eq_true (hs c (by simp))
    rw [List.map_append, List.map_singleton, ← List.append_assoc] at hcs
    rcases List.eq_nil_or_concat cs with rfl | ⟨cs, x, rfl⟩
    · simp at hcs
    rw [List.concat_eq_append, List.flatMap_append, List.flatMap_singleton] at hcs
    have hlast : UInt8.ofNat c ∈ String.utf8EncodeChar x := by
      have hne : String.utf8EncodeChar x ≠ [] := String.utf8EncodeChar_ne_nil
      have := congrArg List.getLast? hcs
      rw [List.getLast?_append_of_ne_nil _ hne, List.getLast?_concat] at this
      exact List.mem_of_getLast? this
    have hx : x.toNat < 128 := by
      by_contra hx
      have := le_of_mem_encodeChar (Nat.not_lt.mp hx) hlast
      rw [UInt8.toNat_ofNat'] at this
      omega
    have hxc : x.toNat = c := by
      rw [encodeChar_ascii hx, List.mem_singleton] at hlast
      have := congrArg UInt8.toNat hlast
      rw [UInt8.toNat_ofNat', UInt8.toNat_ofNat'] at this
      omega
    rw [encodeChar_ascii hx, hxc] at hcs
    obtain ⟨t', ht', hmap⟩ := ih (fun d hd => hs d (by simp [hd])) cs (List.append_cancel_right hcs)
    refine ⟨t', ht', ?_⟩
    rw [List.concat_eq_append, List.map_append, List.map_singleton, hmap, hxc, List.append_assoc]

end EufyNvr.Utf8
