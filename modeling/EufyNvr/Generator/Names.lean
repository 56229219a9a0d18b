import EufyNvr.Lib.Json

/-!
# Stream names and camera keys

`slug`, the names that `STREAM_NAME` matches, and `camera_key` of
`gen_go2rtc.py`. A name is made of lower-case letters, digits and
underscores, and a key is printable, whatever the texts they are made from.
-/

namespace EufyNvr.Generator

open Json

-- One proof for the two values of a status.
instance neZero_two : NeZero 2 := ⟨two_ne_zero⟩

structure Camera where
  channel : Fin 256
  name : Option Str
  serial : Option Str
  status : Option (Fin 2)
  deriving DecidableEq

/-- `camera.get("sn")`, where it is true. -/
def Camera.truthySerial (c : Camera) : Option Str := c.serial.filter fun s => !s.isEmpty

-- ---------------------------------------------------------------------------
-- Names
-- ---------------------------------------------------------------------------

def isSlugChar (c : Nat) : Bool := decide (48 ≤ c ∧ c ≤ 57 ∨ 97 ≤ c ∧ c ≤ 122)

def underscore : Nat := 95

def isNameChar (c : Nat) : Bool := isSlugChar c || c == underscore

/-- `str.lower` of a character, as far as `slug` can tell: a character above
ASCII stays one, but for the two whose lower case has an ASCII letter. -/
def lower (c : Nat) : Str :=
  if 65 ≤ c ∧ c ≤ 90 then [c + 32]
  else if c = 0x130 then [105, 0x307]
  else if c = 0x212a then [107]
  else [c]

/-- `re.sub(r"[^a-z0-9]+", "_", value)`; `inRun` says that the last character
belonged to a run. -/
def substitute : Bool → Str → Str
  | _, [] => []
  | inRun, c :: cs =>
    if isSlugChar c then c :: substitute false cs
    else if inRun then substitute true cs
    else underscore :: substitute true cs

def strip (cs : Str) : Str :=
  (cs.dropWhile (· == underscore)).rdropWhile (· == underscore)

/-- `f"ch{channel}"` -/
def channelName (channel : Nat) : Str := lit "ch" ++ numeral channel

def slug (name : Option Str) (channel : Nat) : Str :=
  let text := ((name.filter fun s => !s.isEmpty).getD (channelName channel)).flatMap lower
  let value := strip (substitute false text)
  lit "eufy_" ++ (if value.isEmpty then channelName channel else value)

/-- `STREAM_NAME.fullmatch` -/
def isStreamName (s : Str) : Bool :=
  (lit "eufy_").isPrefixOf s && !(s.drop 5).isEmpty && (s.drop 5).all isNameChar

theorem isStreamName_iff {s : Str} : isStreamName s = true ↔
    ∃ t, s = lit "eufy_" ++ t ∧ t ≠ [] ∧ ∀ c ∈ t, isNameChar c = true := by
  have hlen : (lit "eufy_").length = 5 := rfl
  simp only [isStreamName, Bool.and_eq_true, List.isPrefixOf_iff_prefix, Bool.not_eq_true',
    List.isEmpty_eq_false_iff, List.all_eq_true]
  constructor
  · rintro ⟨⟨⟨t, rfl⟩, hne⟩, hall⟩
    rw [← hlen, List.drop_left] at hne hall
    exact ⟨t, rfl, hne, hall⟩
  · rintro ⟨t, rfl, hne, hall⟩
    rw [← hlen, List.drop_left]
    exact ⟨⟨List.prefix_append _ _, hne⟩, hall⟩

theorem isStreamName_append {s t : Str} (h : isStreamName s = true)
    (ht : ∀ c ∈ t, isNameChar c = true) : isStreamName (s ++ t) = true := by
  obtain ⟨u, rfl, hne, hu⟩ := isStreamName_iff.mp h
  refine isStreamName_iff.mpr ⟨u ++ t, by rw [List.append_assoc], by simp [hne], fun c hc => ?_⟩
  exact (List.mem_append.mp hc).elim (hu c) (ht c)

theorem isNameChar_numeral {n c : Nat} (h : c ∈ numeral n) : isNameChar c = true := by
  have hd := isDigit_numeral h
  simp only [isDigit, decide_eq_true_eq] at hd
  simp [isNameChar, isSlugChar, hd]

theorem isNameChar_channelName {n c : Nat} (h : c ∈ channelName n) : isNameChar c = true := by
  have hch : ∀ d ∈ lit "ch", isNameChar d = true := by decide
  rcases List.mem_append.mp h with hc | hc
  · exact hch c hc
  · exact isNameChar_numeral hc

theorem isNameChar_substitute {inRun : Bool} {cs : Str} {c : Nat}
    (h : c ∈ substitute inRun cs) : isNameChar c = true := by
  induction cs generalizing inRun with
  | nil => cases h
  | cons d cs ih =>
    rw [substitute] at h
    split at h
    · rename_i hd
      rcases List.mem_cons.mp h with rfl | h
      · simp [isNameChar, hd]
      · exact ih h
    · split at h
      · exact ih h
      · rcases List.mem_cons.mp h with rfl | h
        · rfl
        · exact ih h

theorem mem_of_mem_strip {cs : Str} {c : Nat} (h : c ∈ strip cs) : c ∈ cs :=
  (List.dropWhile_suffix _).subset ((List.rdropWhile_prefix _ _).subset h)

theorem isStreamName_slug (name : Option Str) (channel : Nat) :
    isStreamName (slug name channel) = true := by
  refine isStreamName_iff.mpr ⟨_, rfl, ?_, fun c hc => ?_⟩
  · split
    · simp [channelName, lit]
    · rename_i h
      simpa using h
  · split at hc
    · exact isNameChar_channelName hc
    · exact isNameChar_substitute (mem_of_mem_strip hc)

-- ---------------------------------------------------------------------------
-- Keys
-- ---------------------------------------------------------------------------

def cameraKey (station : Str) (c : Camera) : Str :=
  dumps compact <| .arr <|
    match c.truthySerial with
    | some sn => [.str station, .str (lit "serial"), .str sn]
    | none => [.str station, .str (lit "channel"), .int c.channel]

theorem printable_cameraKey (station : Str) (c : Camera) : Printable (cameraKey station c) := by
  unfold cameraKey
  split
  · simp only [dumps, dump, dumpItems, compact, List.nil_append, List.append_nil]
    exact .cons (by decide) ((printable_quoted _).append (.append (.cons (by decide)
      ((printable_quoted _).append (.cons (by decide) (printable_quoted _)))) (by decide)))
  · simp only [dumps, dump, dumpItems, compact, List.nil_append, List.append_nil]
    exact .cons (by decide) ((printable_quoted _).append (.append (.cons (by decide)
      ((printable_quoted _).append (.cons (by decide) (printable_intText _)))) (by decide)))

end EufyNvr.Generator
