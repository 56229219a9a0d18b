import EufyNvr.Lib.JsonRoundTrip
import EufyNvr.Lib.Utf8Bytes

/-!
# `JSON.stringify`

It writes no spaces, and characters as they are but for quotes, backslashes,
controls and lone surrogates. `loads` reads the value again, and what is
plain is written as `dumps` writes it. Values are those that JavaScript keeps
as they are: its numbers are doubles.
-/

namespace EufyNvr.Json

variable {ws rest s : Str} {c fuel : Nat}

def escapeFew (c : Nat) : Str :=
  match shortEscapes.lookup c with
  | some e => [backslash, e]
  | none => if c < 32 ∨ isHigh c ∨ isLow c then escapeUnit c else [c]

def quotedFew (s : Str) : Str := quote :: (s.flatMap escapeFew ++ [quote])

mutual

/-- The text of a value without spaces, with its numbers as they are. -/
def unspaced : Json → Str
  | .null => lit "null"
  | .bool b => if b then lit "true" else lit "false"
  | .int n => intText n
  | .float f => floatText f
  | .str s => quotedFew s
  | .arr [] => lit "[]"
  | .arr (v :: vs) => lbracket :: (unspaced v ++ (unspacedItems vs ++ [rbracket]))
  | .obj [] => lit "{}"
  | .obj ((k, v) :: ms) =>
    lbrace :: (quotedFew k ++ colon :: (unspaced v ++ (unspacedMembers ms ++ [rbrace])))

def unspacedItems : List Json → Str
  | [] => []
  | v :: vs => comma :: (unspaced v ++ unspacedItems vs)

def unspacedMembers : List (Str × Json) → Str
  | [] => []
  | (k, v) :: ms => comma :: (quotedFew k ++ colon :: (unspaced v ++ unspacedMembers ms))

end

mutual

/-- The numbers are integers that a double holds, and no key is an index,
which an object would move to its front. -/
def isKept : Json → Bool
  | .int n => decide (n.natAbs ≤ 2 ^ 53)
  | .float _ => false
  | .arr vs => isKeptItems vs
  | .obj ms => isKeptMembers ms
  | _ => true

def isKeptItems : List Json → Bool
  | [] => true
  | v :: vs => isKept v && isKeptItems vs

def isKeptMembers : List (Str × Json) → Bool
  | [] => true
  | (k, v) :: ms => !k.all isDigit && isKept v && isKeptMembers ms

end

/-- `JSON.stringify` of what is kept. The texts of other numbers, rounded and
in the notation of the language, are not modelled. -/
def stringify (v : Json) : Option Str := if isKept v then some (unspaced v) else none

-- ---------------------------------------------------------------------------
-- Strings
-- ---------------------------------------------------------------------------

/-- The piece as which a code point is read back. -/
def pieceOf (c : Nat) : Piece :=
  if (shortEscapes.lookup c).isNone ∧ (c < 32 ∨ isHigh c ∨ isLow c) then .unit c else .plain c

theorem pieces_escapeFew (c : Nat) : pieces (escapeFew c ++ rest) =
    (pieces rest).map fun r => (pieceOf c :: r.1, r.2) := by
  unfold escapeFew pieceOf
  split
  · rename_i e he
    rw [List.cons_append, List.singleton_append, pieces_short he, he]
    rfl
  · rename_i hnone
    have hne : c ≠ quote ∧ c ≠ backslash := by
      constructor <;> · rintro rfl; cases hnone
    rw [hnone]
    split
    · rename_i hunit
      have hlt : c < 0x10000 := by
        simp only [isHigh, isLow, decide_eq_true_eq] at hunit
        omega
      rw [pieces_escapeUnit hlt, if_pos ⟨rfl, hunit⟩]
    · rename_i hplain
      rw [List.singleton_append, pieces_plain hne.1 hne.2 (by omega),
        if_neg fun h => hplain h.2]

theorem join_pieceOf (h : Unpaired s) : join (s.map pieceOf) = s := by
  induction s with
  | nil => rfl
  | cons c s ih =>
    obtain ⟨-, hnext, hs⟩ := unpaired_cons.mp h
    rw [List.map_cons, pieceOf]
    split
    · rw [join_unit fun d hd => ?_, ih hs]
      cases s with
      | nil => cases hd
      | cons e s =>
        rw [List.map_cons, List.head?_cons, pieceOf] at hd
        split at hd
        · cases hd
          exact hnext _ rfl
        · cases hd
    · rw [join, ih hs]

theorem scanString_escapeFew (h : Unpaired s) :
    scanString (s.flatMap escapeFew ++ quote :: rest) = some (s, rest) := by
  have hpieces : pieces (s.flatMap escapeFew ++ quote :: rest) = some (s.map pieceOf, rest) := by
    clear h
    induction s with
    | nil => exact pieces_quote
    | cons c s ih =>
      rw [List.flatMap_cons, List.append_assoc, pieces_escapeFew, ih]
      rfl
  rw [scanString, hpieces, Option.map_some, join_pieceOf h]

theorem quotedFew_append : quotedFew s ++ rest = quote :: (s.flatMap escapeFew ++ quote :: rest) := by
  simp [quotedFew]

-- ---------------------------------------------------------------------------
-- Reading it again
-- ---------------------------------------------------------------------------

theorem unspaced_cons {v : Json} (h : Sound v) :
    ∃ c cs, unspaced v = c :: cs ∧ begins c = true := by
  cases v with
  | str s => exact ⟨quote, _, rfl, by decide⟩
  | arr vs => cases vs <;> exact ⟨_, _, rfl, by decide⟩
  | obj ms =>
    cases ms with
    | nil => exact ⟨_, _, rfl, by decide⟩
    | cons m ms => exact ⟨lbrace, _, rfl, by decide⟩
  | null => exact dump_cons h compact 0
  | bool b => exact dump_cons h compact 0
  | int n => exact dump_cons h compact 0
  | float f => exact dump_cons h compact 0

theorem stops_unspacedItems (vs : List Json) :
    Stops (unspacedItems vs ++ rbracket :: rest) := by
  cases vs <;> exact stops_cons (by decide)

theorem stops_unspacedMembers (ms : List (Str × Json)) :
    Stops (unspacedMembers ms ++ rbrace :: rest) := by
  cases ms <;> exact stops_cons (by decide)

theorem skip_unspaced {v : Json} (h : Sound v) : skip (unspaced v ++ rest) = unspaced v ++ rest := by
  obtain ⟨c, cs, hd, hc⟩ := unspaced_cons h
  rw [hd, List.cons_append]
  exact skip_cons (begins_iff.mp hc).1

/-- An item of an array, where the items behind it can be read. -/
theorem elements_unspaced {v : Json} {vs : List Json} {text : Str}
    (hv : value fuel (unspaced v ++ text) = some (v, text))
    (hvs : moreElements fuel (skip text) = some (vs, rest)) :
    elements (fuel + 1) (unspaced v ++ text) = some (v :: vs, rest) := by
  rw [elements, hv, Option.bind_some, hvs]
  rfl

theorem members_unspaced {k : Str} {v : Json} {ms : List (Str × Json)} {text : Str}
    (hk : Unpaired k) (hsound : Sound v) (hv : value fuel (unspaced v ++ text) = some (v, text))
    (hms : moreMembers fuel (skip text) = some (ms, rest)) :
    members (fuel + 1) (quotedFew k ++ colon :: (unspaced v ++ text)) =
      some ((k, v) :: ms, rest) := by
  rw [quotedFew_append, members.eq_def]
  simp only [scanString_escapeFew hk, Option.bind_some,
    skip_cons (show isWhite colon = false from rfl), skip_unspaced hsound, hv, hms]
  rfl

mutual

theorem value_unspaced : ∀ (v : Json), Sound v → ∀ (fuel : Nat) (rest : Str), Stops rest →
    (unspaced v).length ≤ fuel → value fuel (unspaced v ++ rest) = some (v, rest)
  | .null, h, fuel, rest, hr, hf => @value_dump compact .null h 0 fuel rest hr hf
  | .bool b, h, fuel, rest, hr, hf => @value_dump compact (.bool b) h 0 fuel rest hr hf
  | .int n, h, fuel, rest, hr, hf => @value_dump compact (.int n) h 0 fuel rest hr hf
  | .float f, h, fuel, rest, hr, hf => @value_dump compact (.float f) h 0 fuel rest hr hf
  | .str s, h, fuel, rest, _, hf => by
    rw [unspaced] at hf ⊢
    obtain ⟨fuel, rfl⟩ : ∃ n, fuel = n + 1 :=
      ⟨fuel - 1, by rw [quotedFew, List.length_cons] at hf; omega⟩
    rw [quotedFew_append, value.eq_def]
    simp only [scanString_escapeFew h, Option.map_some]
  | .arr [], h, fuel, rest, hr, hf => @value_dump compact (.arr []) h 0 fuel rest hr hf
  | .arr (v :: vs), h, fuel, rest, _, hf => by
    simp only [Sound, SoundItems] at h
    simp only [unspaced, List.length_cons, List.length_append] at hf
    obtain ⟨c, cs, hd, hc⟩ := unspaced_cons h.1
    obtain ⟨fuel, rfl⟩ : ∃ n, fuel = n + 2 := ⟨fuel - 2, by omega⟩
    have hlen : 1 ≤ (unspaced v).length := by rw [hd]; simp
    have hv := value_unspaced v h.1 fuel _ (@stops_unspacedItems rest vs) (by omega)
    have hvs := moreElements_unspaced vs h.2 fuel rest (by omega)
    have he := elements_unspaced hv hvs
    rw [unspaced, List.cons_append]
    simp only [List.append_assoc, List.singleton_append]
    rw [hd, List.cons_append] at he ⊢
    have harray := @value_array (cs ++ (unspacedItems vs ++ rbracket :: rest)) [] c (fuel + 1)
      (List.forall_mem_nil _) hc
    rw [List.nil_append] at harray
    rw [harray, he]
    rfl
  | .obj [], h, fuel, rest, hr, hf => @value_dump compact (.obj []) h 0 fuel rest hr hf
  | .obj ((k, v) :: ms), h, fuel, rest, _, hf => by
    simp only [Sound, SoundMembers] at h
    simp only [unspaced, List.length_cons, List.length_append] at hf
    obtain ⟨hnodup, hk, hsound, hms⟩ := h
    obtain ⟨fuel, rfl⟩ : ∃ n, fuel = n + 2 := ⟨fuel - 2, by omega⟩
    have hv := value_unspaced v hsound fuel _ (@stops_unspacedMembers rest ms) (by omega)
    have hmore := moreMembers_unspaced ms hms fuel rest (by omega)
    have hm := members_unspaced hk hsound hv hmore
    rw [unspaced, List.cons_append]
    simp only [List.append_assoc, List.cons_append, List.nil_append]
    rw [quotedFew_append] at hm ⊢
    have hobject := @value_object (k.flatMap escapeFew ++ quote :: (colon :: (unspaced v ++
        (unspacedMembers ms ++ rbrace :: rest)))) [] (fuel + 1) (List.forall_mem_nil _)
    rw [List.nil_append] at hobject
    rw [hobject, hm, Option.map_some, Dict.items_ofList hnodup]

theorem moreElements_unspaced : ∀ (vs : List Json), SoundItems vs → ∀ (fuel : Nat) (rest : Str),
    (unspacedItems vs).length + 1 ≤ fuel →
    moreElements fuel (skip (unspacedItems vs ++ rbracket :: rest)) = some (vs, rest)
  | [], _, fuel, rest, hf => by
    obtain ⟨fuel, rfl⟩ : ∃ n, fuel = n + 1 := ⟨fuel - 1, by omega⟩
    rw [unspacedItems, List.nil_append, skip_cons rfl]
    rfl
  | v :: vs, h, fuel, rest, hf => by
    simp only [SoundItems] at h
    simp only [unspacedItems, List.length_cons, List.length_append] at hf
    obtain ⟨c, cs, hd, -⟩ := unspaced_cons h.1
    obtain ⟨fuel, rfl⟩ : ∃ n, fuel = n + 2 := ⟨fuel - 2, by omega⟩
    have hlen : 1 ≤ (unspaced v).length := by rw [hd]; simp
    have hv := value_unspaced v h.1 fuel _ (@stops_unspacedItems rest vs) (by omega)
    have he := elements_unspaced hv (moreElements_unspaced vs h.2 fuel rest (by omega))
    rw [unspacedItems, List.cons_append, skip_cons rfl, moreElements.eq_def]
    simp only [List.append_assoc]
    rw [skip_unspaced h.1, he]

theorem moreMembers_unspaced : ∀ (ms : List (Str × Json)), SoundMembers ms →
    ∀ (fuel : Nat) (rest : Str), (unspacedMembers ms).length + 1 ≤ fuel →
    moreMembers fuel (skip (unspacedMembers ms ++ rbrace :: rest)) = some (ms, rest)
  | [], _, fuel, rest, hf => by
    obtain ⟨fuel, rfl⟩ : ∃ n, fuel = n + 1 := ⟨fuel - 1, by omega⟩
    rw [unspacedMembers, List.nil_append, skip_cons rfl]
    rfl
  | (k, v) :: ms, h, fuel, rest, hf => by
    simp only [SoundMembers] at h
    simp only [unspacedMembers, List.length_cons, List.length_append] at hf
    obtain ⟨hk, hsound, hms⟩ := h
    obtain ⟨fuel, rfl⟩ : ∃ n, fuel = n + 2 := ⟨fuel - 2, by omega⟩
    have hv := value_unspaced v hsound fuel _ (@stops_unspacedMembers rest ms) (by omega)
    have hm := members_unspaced hk hsound hv (moreMembers_unspaced ms hms fuel rest (by omega))
    rw [unspacedMembers, List.cons_append, skip_cons rfl, moreMembers.eq_def]
    simp only [List.append_assoc, List.cons_append]
    rw [quotedFew_append] at hm ⊢
    rw [skip_cons rfl, hm]

end

theorem stringify_cases {v : Json} (h : stringify v = some s) : isKept v = true ∧ s = unspaced v := by
  unfold stringify at h
  split at h
  · rename_i hkept
    cases h
    exact ⟨hkept, rfl⟩
  · cases h

theorem loads_unspaced {v : Json} (h : Sound v) : loads (unspaced v) = some v := by
  have hskip := @skip_unspaced [] v h
  have hv := value_unspaced v h ((unspaced v).length + 1) [] nofun (by omega)
  rw [List.append_nil] at hskip hv
  rw [loads, hskip, hv]
  rfl

theorem loads_stringify {v : Json} (h : Sound v) (hs : stringify v = some s) : loads s = some v := by
  rw [(stringify_cases hs).2, loads_unspaced h]

-- ---------------------------------------------------------------------------
-- Texts on one line
-- ---------------------------------------------------------------------------

/-- Characters, and no control among the first of them. -/
def OneLine (s : Str) : Prop := ∀ c ∈ s, 32 ≤ c ∧ isCharacter c = true

theorem OneLine.append {t : Str} (hs : OneLine s) (ht : OneLine t) : OneLine (s ++ t) :=
  fun c hc => (List.mem_append.mp hc).elim (hs c) (ht c)

theorem OneLine.cons (hc : 32 ≤ c ∧ isCharacter c = true) (hs : OneLine s) : OneLine (c :: s) :=
  List.forall_mem_cons.mpr ⟨hc, hs⟩

theorem Printable.oneLine (h : Printable s) : OneLine s := fun c hc =>
  ⟨(h c hc).1, isCharacter_of_ascii (h.ascii c hc)⟩

theorem OneLine.characters (h : OneLine s) : Characters s := fun c hc => (h c hc).2

/-- Its bytes are one line too. -/
theorem OneLine.newline_not_mem {b : Bytes} (h : OneLine s) (hb : Utf8.encode s = some b) :
    10 ∉ b := by
  obtain ⟨cs, rfl, rfl⟩ := Utf8.encode_cases hb
  intro hm
  obtain ⟨x, hx, hten⟩ := List.mem_flatMap.mp hm
  have hle := (h _ (List.mem_map_of_mem hx)).1
  by_cases hascii : x.toNat < 128
  · rw [Utf8.encodeChar_ascii hascii, List.mem_singleton] at hten
    have htoNat := congrArg UInt8.toNat hten
    rw [UInt8.toNat_ofNat'] at htoNat
    change 10 = x.toNat % 256 at htoNat
    omega
  · have hbyte := Utf8.le_of_mem_encodeChar (Nat.not_lt.mp hascii) hten
    change 128 ≤ 10 at hbyte
    omega

theorem oneLine_quotedFew (h : Unpaired s) : OneLine (quotedFew s) := by
  refine .cons (by decide) (.append (fun d hd => ?_) (Printable.oneLine (by decide)))
  obtain ⟨c, hc, hd⟩ := List.mem_flatMap.mp hd
  unfold escapeFew at hd
  split at hd
  · rename_i e he
    have hall : ∀ p ∈ shortEscapes, 32 ≤ p.2 ∧ isCharacter p.2 = true := by decide
    rcases List.mem_cons.mp hd with rfl | hd
    · decide
    · rw [List.mem_singleton.mp hd]
      exact hall _ (mem_of_lookup he)
  · split at hd
    · exact (printable_escapeUnit c).oneLine d hd
    · rename_i hplain
      rw [List.mem_singleton.mp hd]
      have hbound := h.1 c hc
      simp only [isHigh, isLow, decide_eq_true_eq] at hplain
      simp only [isCharacter, Nat.isValidChar, decide_eq_true_eq]
      omega

theorem compact_oneLine : compact.OneLine := ⟨fun _ => List.forall_mem_nil _,
  List.forall_mem_nil _, List.forall_mem_nil _⟩

mutual

theorem oneLine_unspaced : ∀ (v : Json), Sound v → OneLine (unspaced v)
  | .null, h => (printable_dump compact_oneLine .null 0 h).oneLine
  | .bool b, h => (printable_dump compact_oneLine (.bool b) 0 h).oneLine
  | .int n, h => (printable_dump compact_oneLine (.int n) 0 h).oneLine
  | .float f, h => (printable_dump compact_oneLine (.float f) 0 h).oneLine
  | .str _, h => oneLine_quotedFew h
  | .arr [], h => (printable_dump compact_oneLine (.arr []) 0 h).oneLine
  | .arr (v :: vs), h => by
    simp only [Sound, SoundItems] at h
    rw [unspaced]
    exact .cons (by decide) ((oneLine_unspaced v h.1).append ((oneLine_unspacedItems vs h.2).append
      (Printable.oneLine (by decide))))
  | .obj [], h => (printable_dump compact_oneLine (.obj []) 0 h).oneLine
  | .obj ((k, v) :: ms), h => by
    simp only [Sound, SoundMembers] at h
    rw [unspaced]
    exact .cons (by decide) ((oneLine_quotedFew h.2.1).append (.cons (by decide)
      ((oneLine_unspaced v h.2.2.1).append ((oneLine_unspacedMembers ms h.2.2.2).append
        (Printable.oneLine (by decide))))))

theorem oneLine_unspacedItems : ∀ (vs : List Json), SoundItems vs → OneLine (unspacedItems vs)
  | [], _ => List.forall_mem_nil _
  | v :: vs, h => by
    simp only [SoundItems] at h
    rw [unspacedItems]
    exact .cons (by decide) ((oneLine_unspaced v h.1).append (oneLine_unspacedItems vs h.2))

theorem oneLine_unspacedMembers : ∀ (ms : List (Str × Json)), SoundMembers ms →
    OneLine (unspacedMembers ms)
  | [], _ => List.forall_mem_nil _
  | (k, v) :: ms, h => by
    simp only [SoundMembers] at h
    rw [unspacedMembers]
    exact .cons (by decide) ((oneLine_quotedFew h.1).append (.cons (by decide)
      ((oneLine_unspaced v h.2.1).append (oneLine_unspacedMembers ms h.2.2))))

end

-- ---------------------------------------------------------------------------
-- Plain values
-- ---------------------------------------------------------------------------

theorem escapeFew_printable (h : 32 ≤ c ∧ c ≤ 126) : escapeFew c = escape c := by
  have hunit : ¬ (c < 32 ∨ isHigh c ∨ isLow c) := by
    simp only [isHigh, isLow, decide_eq_true_eq]
    omega
  unfold escapeFew escape
  cases shortEscapes.lookup c with
  | some e => rfl
  | none => simp only [if_neg hunit, if_pos h]

/-- A brace in the text of a string is one of the string. -/
theorem lbrace_mem_quotedFew (h : lbrace ∈ quotedFew s) : lbrace ∈ s := by
  have hne : lbrace ≠ quote := by decide
  simp only [quotedFew, List.mem_cons, List.mem_append, hne, List.not_mem_nil, or_false,
    false_or] at h
  obtain ⟨c, hc, h⟩ := List.mem_flatMap.mp h
  unfold escapeFew at h
  split at h
  · rename_i e he
    have hall : ∀ p ∈ shortEscapes, p.2 ≠ lbrace := by decide
    simp only [List.mem_cons, List.not_mem_nil, or_false] at h
    rcases h with h | h
    · cases h
    · exact absurd h.symm (hall _ (mem_of_lookup he))
  · split at h
    · -- The digits of an escape are hexadecimal.
      have hdigit (n : Nat) : hexDigit n ≠ lbrace := by
        unfold hexDigit
        split
        · exact fun h => by simp only [lbrace] at h; omega
        · exact fun h => by simp only [lbrace] at h; omega
      rcases List.mem_append.mp h with h | h
      · exact absurd h (by decide)
      · simp only [List.mem_cons, List.not_mem_nil, or_false] at h
        rcases h with h | h | h | h <;> exact absurd h.symm (hdigit _)
    · rwa [List.mem_singleton.mp h]

theorem quotedFew_printable (h : Printable s) : quotedFew s = quoted s := by
  rw [quotedFew, quoted, List.flatMap_congr fun c hc => escapeFew_printable (h c hc)]

mutual

theorem unspaced_plain : ∀ (v : Json), Plain v → ∀ level, unspaced v = dump compact level v
  | .null, _, _ => rfl
  | .bool _, _, _ => rfl
  | .int _, _, _ => rfl
  | .str _, h, _ => quotedFew_printable h
  | .arr [], _, _ => rfl
  | .arr (v :: vs), h, level => by
    simp only [Plain, PlainItems] at h
    rw [unspaced, dump, unspaced_plain v h.1 (level + 1), unspacedItems_plain vs h.2 (level + 1)]
    rfl
  | .obj [], _, _ => rfl
  | .obj ((k, v) :: ms), h, level => by
    simp only [Plain, PlainMembers] at h
    rw [unspaced, dump, quotedFew_printable h.2.1, unspaced_plain v h.2.2.1 (level + 1),
      unspacedMembers_plain ms h.2.2.2 (level + 1)]
    rfl

theorem unspacedItems_plain : ∀ (vs : List Json), PlainItems vs → ∀ level,
    unspacedItems vs = dumpItems compact level vs
  | [], _, _ => rfl
  | v :: vs, h, level => by
    simp only [PlainItems] at h
    rw [unspacedItems, dumpItems, unspaced_plain v h.1 level, unspacedItems_plain vs h.2 level]
    rfl

theorem unspacedMembers_plain : ∀ (ms : List (Str × Json)), PlainMembers ms → ∀ level,
    unspacedMembers ms = dumpMembers compact level ms
  | [], _, _ => rfl
  | (k, v) :: ms, h, level => by
    simp only [PlainMembers] at h
    rw [unspacedMembers, dumpMembers, quotedFew_printable h.1, unspaced_plain v h.2.1 level,
      unspacedMembers_plain ms h.2.2 level]
    rfl

end

end EufyNvr.Json
