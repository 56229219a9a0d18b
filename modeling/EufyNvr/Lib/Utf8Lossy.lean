import EufyNvr.Lib.Utf8

/-!
# UTF-8 with replacement

Decoding that never fails. Each longest beginning of a character that goes no
further, and each byte that begins none, is U+FFFD.
-/

namespace EufyNvr.Utf8

variable {s : Str} {b c : Bytes}

abbrev replacement : Nat := 0xfffd

/-- A character begun: what its bytes say so far, how many are still to come,
and between which bounds the next one is. -/
structure Begun where
  point : Nat
  needed : Nat
  lower : Nat
  upper : Nat
  deriving DecidableEq

/-- What a first byte says: a character, the beginning of one, or nothing. -/
def first (x : Nat) : Str × Option Begun :=
  if x < 0x80 then ([x], none)
  else if 0xc2 ≤ x ∧ x ≤ 0xdf then ([], some ⟨x - 0xc0, 1, 0x80, 0xbf⟩)
  else if x = 0xe0 then ([], some ⟨0, 2, 0xa0, 0xbf⟩)
  else if x = 0xed then ([], some ⟨0xd, 2, 0x80, 0x9f⟩)
  else if 0xe1 ≤ x ∧ x ≤ 0xef then ([], some ⟨x - 0xe0, 2, 0x80, 0xbf⟩)
  else if x = 0xf0 then ([], some ⟨0, 3, 0x90, 0xbf⟩)
  else if 0xf1 ≤ x ∧ x ≤ 0xf3 then ([], some ⟨x - 0xf0, 3, 0x80, 0xbf⟩)
  else if x = 0xf4 then ([], some ⟨4, 3, 0x80, 0x8f⟩)
  else ([replacement], none)

/-- The next byte of a character, which ends it or goes on with it. -/
def Begun.next (q : Begun) (x : Nat) : Str × Option Begun :=
  let point := q.point * 64 + (x - 0x80)
  if q.needed = 1 then ([point], none) else ([], some ⟨point, q.needed - 1, 0x80, 0xbf⟩)

def decodeFrom : Option Begun → Bytes → Str
  | none, [] => []
  | some _, [] => [replacement]
  | none, x :: b => (first x.toNat).1 ++ decodeFrom (first x.toNat).2 b
  | some q, x :: b =>
    if q.lower ≤ x.toNat ∧ x.toNat ≤ q.upper then
      (q.next x.toNat).1 ++ decodeFrom (q.next x.toNat).2 b
    else replacement :: ((first x.toNat).1 ++ decodeFrom (first x.toNat).2 b)

/-- `bytes.decode("utf-8", "replace")`, and `buffer.toString("utf8")` -/
def decodeReplace (b : Bytes) : Str := decodeFrom none b

/-- An ASCII text is read as it is, whatever follows it. -/
theorem decodeReplace_append (h : Ascii s) :
    decodeReplace (s.map UInt8.ofNat ++ b) = s ++ decodeReplace b := by
  induction s with
  | nil => rfl
  | cons c s ih =>
    have hc : c < 128 := of_decide_eq_true (h c (by simp))
    have hbyte : (UInt8.ofNat c).toNat = c := by
      rw [UInt8.toNat_ofNat']
      omega
    have hfirst : first c = ([c], none) := if_pos hc
    have hs := ih fun d hd => h d (by simp [hd])
    rw [decodeReplace] at hs
    rw [decodeReplace, List.map_cons, List.cons_append, decodeFrom, hbyte, hfirst, hs]
    rfl

theorem decodeReplace_ascii (h : Ascii s) : decodeReplace (s.map UInt8.ofNat) = s := by
  have happend := decodeReplace_append (b := []) h
  rw [List.append_nil] at happend
  rw [happend]
  exact List.append_nil s

example : decodeReplace [0x41, 0xe2, 0x82, 0xac, 0xf0, 0x9f, 0x41, 0xff, 0xc3] =
    [0x41, 0x20ac, replacement, 0x41, replacement, replacement] := by decide

-- ---------------------------------------------------------------------------
-- What was encoded
-- ---------------------------------------------------------------------------

variable {x : Char} {y z w u : UInt8} {q : Begun}

theorem decodeReplace_begun (h : first y.toNat = ([], some q)) :
    decodeReplace (y :: b) = decodeFrom (some q) b := by
  rw [decodeReplace, decodeFrom, h]
  rfl

theorem decodeFrom_more {p k lo hi : Nat} (h : lo ≤ y.toNat ∧ y.toNat ≤ hi) :
    decodeFrom (some ⟨p, k + 2, lo, hi⟩) (y :: b) =
      decodeFrom (some ⟨p * 64 + (y.toNat - 0x80), k + 1, 0x80, 0xbf⟩) b := by
  rw [decodeFrom, if_pos h, Begun.next, if_neg (by simp)]
  rfl

theorem decodeFrom_last {p lo hi : Nat} (h : lo ≤ y.toNat ∧ y.toNat ≤ hi) :
    decodeFrom (some ⟨p, 1, lo, hi⟩) (y :: b) =
      (p * 64 + (y.toNat - 0x80)) :: decodeReplace b := by
  rw [decodeFrom, if_pos h, Begun.next, if_pos rfl]
  rfl

theorem toNat_ofNat {n : Nat} (h : n < 256) : (UInt8.ofNat n).toNat = n := by
  rw [UInt8.toNat_ofNat']
  omega

/-- A byte within a character. -/
abbrev Within (z : UInt8) : Prop := 0x80 ≤ z.toNat ∧ z.toNat ≤ 0xbf

theorem decodeReplace_two (h : 0xc2 ≤ y.toNat ∧ y.toNat ≤ 0xdf) (hz : Within z) :
    decodeReplace (y :: z :: b) =
      ((y.toNat - 0xc0) * 64 + (z.toNat - 0x80)) :: decodeReplace b := by
  have hfirst : first y.toNat = ([], some ⟨y.toNat - 0xc0, 1, 0x80, 0xbf⟩) := by
    rw [first, if_neg (by omega), if_pos h]
  rw [decodeReplace_begun hfirst, decodeFrom_last hz]

theorem decodeReplace_three (h : 0xe0 ≤ y.toNat ∧ y.toNat ≤ 0xef)
    (hz : (if y.toNat = 0xe0 then 0xa0 else 0x80) ≤ z.toNat ∧
      z.toNat ≤ if y.toNat = 0xed then 0x9f else 0xbf) (hw : Within w) :
    decodeReplace (y :: z :: w :: b) =
      (((y.toNat - 0xe0) * 64 + (z.toNat - 0x80)) * 64 + (w.toNat - 0x80)) :: decodeReplace b := by
  have hfirst : first y.toNat = ([], some ⟨y.toNat - 0xe0, 2,
      if y.toNat = 0xe0 then 0xa0 else 0x80, if y.toNat = 0xed then 0x9f else 0xbf⟩) := by
    unfold first
    split_ifs <;> first | omega | simp_all
  rw [decodeReplace_begun hfirst, decodeFrom_more (k := 0) hz, decodeFrom_last hw]

theorem decodeReplace_four (h : 0xf0 ≤ y.toNat ∧ y.toNat ≤ 0xf4)
    (hz : (if y.toNat = 0xf0 then 0x90 else 0x80) ≤ z.toNat ∧
      z.toNat ≤ if y.toNat = 0xf4 then 0x8f else 0xbf) (hw : Within w) (hu : Within u) :
    decodeReplace (y :: z :: w :: u :: b) =
      ((((y.toNat - 0xf0) * 64 + (z.toNat - 0x80)) * 64 + (w.toNat - 0x80)) * 64 +
        (u.toNat - 0x80)) :: decodeReplace b := by
  have hfirst : first y.toNat = ([], some ⟨y.toNat - 0xf0, 3,
      if y.toNat = 0xf0 then 0x90 else 0x80, if y.toNat = 0xf4 then 0x8f else 0xbf⟩) := by
    unfold first
    split_ifs <;> first | omega | simp_all
  rw [decodeReplace_begun hfirst, decodeFrom_more (k := 1) hz, decodeFrom_more (k := 0) hw,
    decodeFrom_last hu]

/-- The bytes of a character are read as that. -/
theorem decodeReplace_encodeChar (x : Char) (b : Bytes) :
    decodeReplace (String.utf8EncodeChar x ++ b) = x.toNat :: decodeReplace b := by
  have hvalid : x.val.toNat < 0xd800 ∨ 0xdfff < x.val.toNat ∧ x.val.toNat < 0x110000 := x.valid
  have hnat : x.toNat = x.val.toNat := rfl
  rw [hnat]
  unfold String.utf8EncodeChar
  generalize x.val.toNat = v at hvalid
  dsimp only
  split
  · rename_i h
    have hascii : Ascii [v] := List.forall_mem_singleton.mpr (decide_eq_true (by omega))
    exact decodeReplace_append hascii
  · have hlast : (UInt8.ofNat (v % 64 + 128)).toNat = v % 64 + 128 := toNat_ofNat (by omega)
    split
    · have hy : (UInt8.ofNat (v / 64 % 32 + 192)).toNat = v / 64 % 32 + 192 :=
        toNat_ofNat (by omega)
      have htwo := @decodeReplace_two b (UInt8.ofNat (v / 64 % 32 + 192))
        (UInt8.ofNat (v % 64 + 128)) (by omega) (by omega)
      rw [hy, hlast] at htwo
      refine htwo.trans (congrArg (· :: decodeReplace b) ?_)
      omega
    · have hnext : (UInt8.ofNat (v / 64 % 64 + 128)).toNat = v / 64 % 64 + 128 :=
        toNat_ofNat (by omega)
      split
      · have hy : (UInt8.ofNat (v / 4096 % 16 + 224)).toNat = v / 4096 % 16 + 224 :=
          toNat_ofNat (by omega)
        have hthree := @decodeReplace_three b (UInt8.ofNat (v / 4096 % 16 + 224))
          (UInt8.ofNat (v / 64 % 64 + 128)) (UInt8.ofNat (v % 64 + 128)) (by omega)
          (by split_ifs <;> omega) (by omega)
        rw [hy, hnext, hlast] at hthree
        refine hthree.trans (congrArg (· :: decodeReplace b) ?_)
        omega
      · have hy : (UInt8.ofNat (v / 262144 % 8 + 240)).toNat = v / 262144 % 8 + 240 :=
          toNat_ofNat (by omega)
        have hz : (UInt8.ofNat (v / 4096 % 64 + 128)).toNat = v / 4096 % 64 + 128 :=
          toNat_ofNat (by omega)
        have hfour := @decodeReplace_four b (UInt8.ofNat (v / 262144 % 8 + 240))
          (UInt8.ofNat (v / 4096 % 64 + 128)) (UInt8.ofNat (v / 64 % 64 + 128))
          (UInt8.ofNat (v % 64 + 128)) (by omega) (by split_ifs <;> omega) (by omega) (by omega)
        rw [hy, hz, hnext, hlast] at hfour
        refine hfour.trans (congrArg (· :: decodeReplace b) ?_)
        omega

-- ---------------------------------------------------------------------------
-- Only characters
-- ---------------------------------------------------------------------------

/-- Whatever bytes end it, it is a character. -/
structure Begun.Good (q : Begun) : Prop where
  needed : 1 ≤ q.needed ∧ q.needed ≤ 3
  lower : 0x80 ≤ q.lower
  upper : q.upper ≤ 0xbf
  character : ∀ n, (q.point * 64 + (q.lower - 0x80)) * 64 ^ (q.needed - 1) ≤ n →
    n < (q.point * 64 + (q.upper - 0x80) + 1) * 64 ^ (q.needed - 1) → isCharacter n = true

theorem good_first {x : Nat} (h : (first x).2 = some q) : q.Good := by
  unfold first at h
  split_ifs at h
  all_goals
    rw [Option.some.injEq] at h
    subst h
    refine ⟨by simp, by simp, by simp, fun n hlow hhigh => ?_⟩
    simp only [isCharacter, decide_eq_true_eq, Nat.isValidChar]
    simp only [Nat.reduceSub, Nat.pow_zero, Nat.reducePow] at hlow hhigh
    omega

/-- A byte within the bounds ends a character, or goes on with it. -/
theorem Begun.Good.next {x : Nat} (h : q.Good) (hx : q.lower ≤ x ∧ x ≤ q.upper) :
    Characters (q.next x).1 ∧ ∀ r ∈ (q.next x).2, r.Good := by
  obtain ⟨point, needed, lower, upper⟩ := q
  obtain ⟨hneeded, hlower, hupper, hcharacter⟩ := h
  dsimp only at hx hneeded hlower hupper hcharacter
  obtain rfl | ⟨k, rfl⟩ : needed = 1 ∨ ∃ k, needed = k + 2 :=
    (Nat.lt_or_ge 1 needed).symm.imp (fun h => by omega) fun h => ⟨needed - 2, by omega⟩
  · have hnext : Begun.next ⟨point, 1, lower, upper⟩ x = ([point * 64 + (x - 0x80)], none) := rfl
    rw [Nat.sub_self, Nat.pow_zero] at hcharacter
    rw [hnext]
    exact ⟨List.forall_mem_singleton.mpr (hcharacter _ (by omega) (by omega)), nofun⟩
  · have hpow : 64 ^ (k + 2 - 1) = 64 * 64 ^ k := pow_succ' 64 k
    rw [hpow] at hcharacter
    have hnext : Begun.next ⟨point, k + 2, lower, upper⟩ x =
        ([], some ⟨point * 64 + (x - 0x80), k + 1, 0x80, 0xbf⟩) := by
      rw [Begun.next, if_neg (by simp)]
      rfl
    rw [hnext]
    refine ⟨List.forall_mem_nil _, fun r hr => ?_⟩
    obtain rfl := Option.some.inj hr
    have hneeded' : 1 ≤ k + 1 ∧ k + 1 ≤ 3 := by omega
    refine ⟨hneeded', le_rfl, le_rfl, fun n hlow hhigh => ?_⟩
    dsimp only at hlow hhigh
    rw [Nat.add_sub_cancel] at hlow hhigh
    refine hcharacter n ?_ ?_
    · rw [← Nat.mul_assoc]
      exact (Nat.mul_le_mul_right _ (by omega)).trans hlow
    · rw [← Nat.mul_assoc]
      exact hhigh.trans_le (Nat.mul_le_mul_right _ (by omega))

theorem characters_first (x : Nat) : Characters (first x).1 := by
  have hreplacement : Characters [replacement] := by decide
  unfold first
  split_ifs
  · rename_i hx
    exact List.forall_mem_singleton.mpr (isCharacter_of_ascii (by simpa [isAscii] using hx))
  all_goals first | exact hreplacement | exact List.forall_mem_nil _

theorem characters_decodeFrom (b : Bytes) (q : Option Begun) (hq : ∀ r ∈ q, r.Good) :
    Characters (decodeFrom q b) := by
  induction b generalizing q with
  | nil =>
    cases q with
    | none => exact nofun
    | some q => exact List.forall_mem_singleton.mpr (by decide)
  | cons x b ih =>
    have hfirst : Characters ((first x.toNat).1 ++ decodeFrom (first x.toNat).2 b) := fun c hc =>
      (List.mem_append.mp hc).elim (characters_first x.toNat c) (ih _ (fun r => good_first) c)
    cases q with
    | none =>
      rw [decodeFrom]
      exact hfirst
    | some q =>
      rw [decodeFrom]
      split
      · rename_i hx
        obtain ⟨hnow, hlater⟩ := (hq q rfl).next hx
        exact fun c hc => (List.mem_append.mp hc).elim (hnow c) (ih _ hlater c)
      · exact List.forall_mem_cons.mpr ⟨by decide, hfirst⟩

/-- What is read has no surrogates. -/
theorem characters_decodeReplace (b : Bytes) : Characters (decodeReplace b) :=
  characters_decodeFrom b none nofun

end EufyNvr.Utf8
