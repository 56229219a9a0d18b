import EufyNvr.Lib.JsonRoundTrip

/-!
# Addresses

The texts of IPv4 and IPv6 addresses as the language's own library reads and
writes them: an IPv6 address is eight numbers of 16 bits, and is written with
its first longest run of zeros left out. Newer releases write the last two
numbers of a mapped IPv4 address as that address (`mixed`).
-/

namespace EufyNvr

open Json

-- ---------------------------------------------------------------------------
-- IPv4
-- ---------------------------------------------------------------------------

namespace Ipv4

variable {n : Nat} {os : List Nat}

/-- `_parse_octet` -/
def octet (s : Str) : Option Nat :=
  if s ≠ [] ∧ s.all isDigit = true ∧ s.length ≤ 3 ∧ (s.head? = some 48 → s = [48]) ∧
      digitsValue s ≤ 255 then some (digitsValue s)
  else none

def parse (s : Str) : Option (List Nat) :=
  if (s.splitOn point).length = 4 then (s.splitOn point).mapM octet else none

def text (os : List Nat) : Str := [point].intercalate (os.map numeral)

theorem octet_numeral (h : n ≤ 255) : octet (numeral n) = some n := by
  have hdigits : (numeral n).all isDigit = true :=
    List.all_eq_true.mpr fun c hc => isDigit_numeral hc
  have hlength : (numeral n).length ≤ 3 := by
    rw [numeral, List.length_map]
    exact (Nat.length_toDigits_le_iff (by decide) (by decide)).mpr (by omega)
  obtain ⟨d, ds, hd, hzero⟩ := numeral_cons n
  have hhead : (numeral n).head? = some 48 → numeral n = [48] := by
    rw [hd, List.head?_cons, Option.some.injEq]
    rintro rfl
    rw [hzero rfl]
  have hvalue := digitsValue_numeral n
  rw [octet, if_pos ⟨by simp [hd], hdigits, hlength, hhead, by omega⟩, hvalue]

theorem mapM_octet (h : ∀ o ∈ os, o ≤ 255) : (os.map numeral).mapM octet = some os := by
  induction os with
  | nil => rfl
  | cons o os ih =>
    rw [List.map_cons, List.mapM_cons, octet_numeral (h o (by simp)),
      ih fun x hx => h x (by simp [hx])]
    rfl

theorem parse_text (hlen : os.length = 4) (h : ∀ o ∈ os, o ≤ 255) : parse (text os) = some os := by
  have hsplit : (text os).splitOn point = os.map numeral := by
    refine List.splitOn_intercalate point (fun l hl hm => ?_) ?_
    · obtain ⟨o, -, rfl⟩ := List.mem_map.mp hl
      exact absurd (isDigit_numeral hm) (by decide)
    · rintro hnil
      rw [List.map_eq_nil_iff.mp hnil] at hlen
      cases hlen
  rw [parse, hsplit, List.length_map, if_pos hlen, mapM_octet h]

end Ipv4

-- ---------------------------------------------------------------------------
-- IPv6
-- ---------------------------------------------------------------------------

namespace Ipv6

variable {n : Nat} {s : Str} {hs : List Nat} {mixed : Bool}

def hexNumber (s : Str) : Option Nat :=
  (s.mapM hexValue).map fun ds => ds.foldl (fun n d => 16 * n + d) 0

/-- `_parse_hextet` -/
def hextet (s : Str) : Option Nat := if s ≠ [] ∧ s.length ≤ 4 then hexNumber s else none

/-- `"%x" % n`, below 2^16. -/
def hextetText (n : Nat) : Str :=
  if n < 16 then [hexDigit n]
  else if n < 256 then [hexDigit (n / 16), hexDigit n]
  else if n < 4096 then [hexDigit (n / 256), hexDigit (n / 16), hexDigit n]
  else [hexDigit (n / 4096), hexDigit (n / 256), hexDigit (n / 16), hexDigit n]

/-- An IPv4 address at the end stands for two parts. -/
def expand (parts : List Str) : Option (List Str) :=
  let last := parts.getLast?.getD []
  if point ∈ last then
    match Ipv4.parse last with
    | some [a, b, c, d] =>
      some (parts.dropLast ++ [hextetText (256 * a + b), hextetText (256 * c + d)])
    | _ => none
  else some parts

/-- The empty parts that are neither first nor last. -/
def skips (parts : List Str) : List Nat :=
  ((List.range (parts.length - 2)).map (· + 1)).filter fun i => parts[i]? == some []

/-- The parts before a skipped run, where a first empty part goes with it. -/
def before (parts : List Str) : Option (List Str) :=
  if parts.head? = some [] then if parts.length = 1 then some [] else none else some parts

/-- The parts after a skipped run, where a last empty part goes with it. -/
def after (parts : List Str) : Option (List Str) :=
  if parts.getLast? = some [] then if parts.length = 1 then some [] else none else some parts

def join (parts : List Str) : Option (List Nat) :=
  match skips parts with
  | [] => if parts.length = 8 then parts.mapM hextet else none
  | [i] => do
    let high ← before (parts.take i)
    let low ← after (parts.drop (i + 1))
    if high.length + low.length < 8 then
      let high ← high.mapM hextet
      let low ← low.mapM hextet
      return high ++ List.replicate (8 - (high.length + low.length)) 0 ++ low
    else none
  | _ => none

/-- `_ip_int_from_string`, with the number as its eight parts. -/
def parse (s : Str) : Option (List Nat) :=
  if s = [] then none
  else if (s.splitOn colon).length < 3 then none
  else
    (expand (s.splitOn colon)).bind fun parts => if parts.length ≤ 9 then join parts else none

-- ---------------------------------------------------------------------------
-- Writing
-- ---------------------------------------------------------------------------

/-- A run of zeros that is under way, and the best one so far. -/
structure Runs where
  start : Nat
  length : Nat
  bestStart : Nat
  bestLength : Nat

def Runs.next (r : Runs) (e : Nat × Nat) : Runs :=
  if e.1 = 0 then
    let length := r.length + 1
    let start := if r.length = 0 then e.2 else r.start
    if r.bestLength < length then ⟨start, length, start, length⟩
    else { r with start, length }
  else { r with start := 0, length := 0 }

/-- The loop of `_compress_hextets`. -/
def runs (hs : List Nat) : Runs := hs.zipIdx.foldl Runs.next ⟨0, 0, 0, 0⟩

/-- `_compress_hextets` -/
def parts (hs : List Nat) : List Str :=
  let r := runs hs
  if 1 < r.bestLength then
    (if r.bestStart = 0 then [[]] else []) ++ (hs.take r.bestStart).map hextetText ++ [[]] ++
      (hs.drop (r.bestStart + r.bestLength)).map hextetText ++
      (if r.bestStart + r.bestLength = hs.length then [[]] else [])
  else hs.map hextetText

def isMapped (hs : List Nat) : Bool := hs.take 6 == [0, 0, 0, 0, 0, 0xffff]

/-- `IPv6Address.compressed` -/
def text (mixed : Bool) (hs : List Nat) : Str :=
  match mixed, isMapped hs, hs.drop 6 with
  | true, true, [h, l] => lit "::ffff:" ++ Ipv4.text [h / 256, h % 256, l / 256, l % 256]
  | _, _, _ => [colon].intercalate (parts hs)

def compressed (mixed : Bool) (s : Str) : Option Str := (parse s).map (text mixed)

-- ---------------------------------------------------------------------------
-- One part
-- ---------------------------------------------------------------------------

theorem hextetText_cons (n : Nat) : ∃ d ds, hextetText n = hexDigit d :: ds.map hexDigit ∧
    ds.length ≤ 3 ∧ (n < 65536 → (d :: ds).foldl (fun n d => 16 * n + d % 16) 0 = n) := by
  unfold hextetText
  split
  · exact ⟨n, [], rfl, by decide, fun _ => by simp only [List.foldl]; omega⟩
  · split
    · exact ⟨n / 16, [n], rfl, by simp, fun _ => by simp only [List.foldl]; omega⟩
    · split
      · exact ⟨n / 256, [n / 16, n], rfl, by simp, fun _ => by simp only [List.foldl]; omega⟩
      · exact ⟨n / 4096, [n / 256, n / 16, n], rfl, by simp,
          fun _ => by simp only [List.foldl]; omega⟩

theorem mapM_hexValue (ds : List Nat) :
    (ds.map hexDigit).mapM hexValue = some (ds.map (· % 16)) := by
  induction ds with
  | nil => rfl
  | cons d ds ih =>
    rw [List.map_cons, List.mapM_cons, hexValue_hexDigit, ih]
    rfl

theorem hextet_hextetText (h : n < 65536) : hextet (hextetText n) = some n := by
  obtain ⟨d, ds, htext, hlen, hvalue⟩ := hextetText_cons n
  have hmap : hextetText n = (d :: ds).map hexDigit := htext
  have hlength : (hextetText n).length ≤ 4 := by
    rw [htext, List.length_cons, List.length_map]
    omega
  rw [hextet, if_pos ⟨by simp [htext], hlength⟩, hexNumber, hmap, mapM_hexValue, Option.map_some,
    List.foldl_map, hvalue h]

theorem hextetText_ne_nil (n : Nat) : hextetText n ≠ [] := by
  obtain ⟨d, ds, htext, -⟩ := hextetText_cons n
  simp [htext]

theorem mapM_hextet (h : ∀ n ∈ hs, n < 65536) : (hs.map hextetText).mapM hextet = some hs := by
  induction hs with
  | nil => rfl
  | cons n hs ih =>
    rw [List.map_cons, List.mapM_cons, hextet_hextetText (h n (by simp)),
      ih fun x hx => h x (by simp [hx])]
    rfl

/-- A digit in lower case, a colon or a point. -/
def isAddressChar (c : Nat) : Bool :=
  isDigit c || decide (97 ≤ c ∧ c ≤ 102) || c == colon || c == point

theorem hextetText_char {c : Nat} (h : c ∈ hextetText n) :
    isDigit c = true ∨ 97 ≤ c ∧ c ≤ 102 := by
  obtain ⟨d, ds, htext, -⟩ := hextetText_cons n
  have hmap : hextetText n = (d :: ds).map hexDigit := htext
  rw [hmap] at h
  obtain ⟨e, -, rfl⟩ := List.mem_map.mp h
  rw [isDigit, decide_eq_true_eq, hexDigit]
  split <;> omega

-- ---------------------------------------------------------------------------
-- The longest run of zeros
-- ---------------------------------------------------------------------------

/-- The runs of what has been read. -/
structure RunsOk (hs : List Nat) (r : Runs) : Prop where
  current : ∃ a, hs = a ++ List.replicate r.length 0 ∧ (0 < r.length → a.length = r.start)
  best : ∃ a b, hs = a ++ List.replicate r.bestLength 0 ++ b ∧
    (0 < r.bestLength → a.length = r.bestStart)

theorem RunsOk.next {r : Runs} (h : RunsOk hs r) (n : Nat) :
    RunsOk (hs ++ [n]) (r.next (n, hs.length)) := by
  obtain ⟨⟨a, ha, hstart⟩, ⟨a', b', hb, hbest⟩⟩ := h
  have hbest' : ∃ a b, hs ++ [n] = a ++ List.replicate r.bestLength 0 ++ b ∧
      (0 < r.bestLength → a.length = r.bestStart) :=
    ⟨a', b' ++ [n], by rw [hb, List.append_assoc], hbest⟩
  by_cases hn : n = 0
  · have hgrow : hs ++ [n] = a ++ List.replicate (r.length + 1) 0 := by
      rw [hn, List.replicate_succ', ← List.append_assoc, ← ha]
    have hlen : a.length = if r.length = 0 then hs.length else r.start := by
      split
      · rename_i hzero
        rw [ha, hzero]
        simp
      · exact hstart (by omega)
    rw [Runs.next, if_pos hn]
    dsimp only
    split
    · have hbest : hs ++ [n] = a ++ List.replicate (r.length + 1) 0 ++ [] := by
        rw [List.append_nil, hgrow]
      exact ⟨⟨a, hgrow, fun _ => hlen⟩, ⟨a, [], hbest, fun _ => hlen⟩⟩
    · exact ⟨⟨a, hgrow, fun _ => hlen⟩, hbest'⟩
  · rw [Runs.next, if_neg hn]
    exact ⟨⟨hs ++ [n], by simp, nofun⟩, hbest'⟩

theorem runsOk_foldl {r : Runs} (h : RunsOk hs r) (rest : List Nat) :
    RunsOk (hs ++ rest) ((rest.zipIdx hs.length).foldl Runs.next r) := by
  induction rest generalizing hs r with
  | nil => simpa using h
  | cons n rest ih =>
    have hnext := ih (h.next n)
    rw [List.append_assoc, List.length_append] at hnext
    exact hnext

theorem runs_ok (hs : List Nat) : RunsOk hs (runs hs) := by
  have hnone : ∃ a, ([] : List Nat) = a ++ List.replicate 0 0 ∧ (0 < 0 → a.length = 0) :=
    ⟨[], rfl, fun h => absurd h (Nat.lt_irrefl 0)⟩
  have hstart : RunsOk [] ⟨0, 0, 0, 0⟩ :=
    ⟨hnone, [], [], rfl, fun h => absurd h (Nat.lt_irrefl 0)⟩
  exact runsOk_foldl hstart hs

end Ipv6

end EufyNvr
