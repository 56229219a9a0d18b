import EufyNvr.Lib.Partition
import EufyNvr.Lib.Unicode

/-!
# Host names in ASCII

The `idna` codec. An ASCII name is checked only; in any other name each label
is written in ASCII.
-/

namespace EufyNvr.Idna

open Json

variable {U : Unicode} {s t : Str}

/-- The full stop and the ideographic ones. -/
def isDot (c : Nat) : Bool := c == point || c == 0x3002 || c == 0xff0e || c == 0xff61

def fits (label : Str) : Bool := decide (0 < label.length ∧ label.length < 64)

/-- `ToASCII` -/
def toAscii (U : Unicode) (label : Str) : Option Str :=
  if Ascii label then if fits label then some label else none else U.toAscii label

/-- `str.encode("idna")`, as the text of its bytes. -/
def encode (U : Unicode) (s : Str) : Option Str :=
  if s = [] then some []
  else if Ascii s then
    if (s.splitOn point).dropLast.all fits ∧ ((s.splitOn point).getLastD []).length < 64 then some s
    else none
  else
    let labels := s.splitOnP isDot
    if labels.getLastD [] = [] then
      (labels.dropLast.mapM (toAscii U)).map fun ls => [point].intercalate ls ++ [point]
    else (labels.mapM (toAscii U)).map [point].intercalate

/-- `bytes.decode("ascii")` -/
def decodeAscii (s : Str) : Option Str := if Ascii s then some s else none

theorem encode_ascii (h : Ascii s) (hfits : ∀ l ∈ s.splitOn point, fits l = true) :
    encode U s = some s := by
  have hlast : ((s.splitOn point).getLastD []).length < 64 := by
    rw [List.getLastD_eq_getLast?, List.getLast?_eq_some_getLast (List.splitOn_ne_nil point s),
      Option.getD_some]
    have := hfits _ (List.getLast_mem (List.splitOn_ne_nil point s))
    simp only [fits, decide_eq_true_eq] at this
    exact this.2
  have hall : (s.splitOn point).dropLast.all fits = true :=
    List.all_eq_true.mpr fun l hl => hfits l (List.mem_of_mem_dropLast hl)
  by_cases hs : s = []
  · rw [encode, if_pos hs, hs]
  · rw [encode, if_neg hs, if_pos h, if_pos ⟨hall, hlast⟩]

-- ---------------------------------------------------------------------------
-- What a name cannot be rid of
-- ---------------------------------------------------------------------------

/-- A delimiter of a URL, a control character or white space. -/
def isReserved (c : Nat) : Bool :=
  decide (c < 32 ∨ c = 127) || isSpace c || (lit "%/?#@[]:").contains c

/-- What the tables do to these. -/
structure Documented (U : Unicode) : Prop where
  /-- A text in lower case has none that it did not have. -/
  lower : ∀ s c, c ∈ U.lower s → isReserved c = true → c ∈ s
  /-- A label keeps its percent signs. -/
  toAscii : ∀ s t, U.toAscii s = some t → percent ∈ s → percent ∈ t

theorem Documented.lowered (hU : Documented U) {c : Nat} (hc : c ∈ U.lowered s)
    (h : isReserved c = true) : c ∈ s := by
  unfold Unicode.lowered at hc
  split at hc
  · obtain ⟨d, hd, rfl⟩ := List.mem_map.mp hc
    unfold asciiLower at h ⊢
    split at h
    · rename_i hupper
      have hall : ∀ d < 91, 65 ≤ d → isReserved (d + 32) = false := by decide
      rw [hall d (by omega) hupper.1] at h
      cases h
    · rename_i hupper
      rwa [if_neg hupper]
  · exact hU.lower s c hc h

theorem mem_splitOnP {p : Nat → Bool} {c : Nat} (hc : c ∈ s) (hp : p c = false) :
    ∃ l ∈ s.splitOnP p, c ∈ l := by
  induction s with
  | nil => cases hc
  | cons d s ih =>
    rw [List.splitOnP_cons_eq_if_modifyHead]
    split
    · rename_i hd
      have hs : c ∈ s := (List.mem_cons.mp hc).resolve_left fun h => by rw [h, hd] at hp; cases hp
      obtain ⟨l, hl, hcl⟩ := ih hs
      exact ⟨l, List.mem_cons_of_mem [] hl, hcl⟩
    · obtain ⟨l₀, ls, hls⟩ := List.exists_cons_of_ne_nil (List.splitOnP_ne_nil p s)
      rw [hls] at ih ⊢
      rw [List.modifyHead_cons]
      rcases List.mem_cons.mp hc with rfl | hs
      · exact ⟨c :: l₀, by simp, by simp⟩
      · obtain ⟨l, hl, hcl⟩ := ih hs
        rcases List.mem_cons.mp hl with rfl | hl
        · exact ⟨d :: l, by simp, by simp [hcl]⟩
        · exact ⟨l, by simp [hl], hcl⟩

theorem percent_mem_toAscii (hU : Documented U) (h : toAscii U s = some t) (hs : percent ∈ s) :
    percent ∈ t := by
  unfold toAscii at h
  split at h
  · split at h
    · cases h
      exact hs
    · cases h
  · exact hU.toAscii s t h hs

theorem percent_mem_encode (hU : Documented U) (h : encode U s = some t) (hs : percent ∈ s) :
    percent ∈ t := by
  have hlabels (ls ts : List Str) (hts : ls.mapM (toAscii U) = some ts)
      (hl : ∃ l ∈ ls, percent ∈ l) : percent ∈ [point].intercalate ts := by
    obtain ⟨l, hl, hpercent⟩ := hl
    obtain ⟨t, ht, htoAscii⟩ := mapM_mem hts hl
    exact mem_intercalate_of_mem ht (percent_mem_toAscii hU htoAscii hpercent)
  have hmem : ∃ l ∈ s.splitOnP isDot, percent ∈ l := mem_splitOnP hs (by decide)
  unfold encode at h
  split at h
  · rename_i hnil
    rw [hnil] at hs
    cases hs
  · split at h
    · split at h
      · cases h
        exact hs
      · cases h
    · dsimp only at h
      split at h
      · rename_i hlast
        obtain ⟨ts, hts, rfl⟩ := Option.map_eq_some_iff.mp h
        obtain ⟨l, hl, hpercent⟩ := hmem
        have hne : l ≠ (s.splitOnP isDot).getLastD [] := by
          rintro rfl
          rw [hlast] at hpercent
          cases hpercent
        exact List.mem_append_left [point]
          (hlabels _ ts hts ⟨l, List.mem_dropLast_of_mem_of_ne_getLastD hl hne, hpercent⟩)
      · obtain ⟨ts, hts, rfl⟩ := Option.map_eq_some_iff.mp h
        exact hlabels _ ts hts hmem

end EufyNvr.Idna
