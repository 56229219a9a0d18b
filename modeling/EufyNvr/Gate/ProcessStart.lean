import EufyNvr.Lib.Utf8Bytes
import EufyNvr.Lib.Words

/-!
# The start time of a process

`_process_start` of `eufy_run.py` over the content of `/proc/<pid>/stat`. A
line of the kernel has any bytes for the name of the command; the function
decodes the whole line before it looks for the end of the name.
-/

namespace EufyNvr.Gate

variable {b : Bytes} {s : Str}

/-- What an `OSError` and an `IndexError` are answered with. -/
def noStart : Str := lit "0"

/-- Field 22: the text after the last parenthesis begins with field 3. -/
def field22 (stat : Str) : Option Str := do
  let after ← (rsplitOnce 41 stat)[1]?
  (words after)[19]?

/-- `_process_start`, for the content of the file or none, where it cannot be
read; a `UnicodeDecodeError` is not caught. -/
def processStart : Option Bytes → Option Str
  | none => some noStart
  | some content =>
    (Utf8.decode content).map fun text => (field22 (newlines text)).getD noStart

-- ---------------------------------------------------------------------------
-- Lines of the kernel
-- ---------------------------------------------------------------------------

def Numeral (s : Str) : Prop :=
  s ≠ [] ∧ (∀ c ∈ s, Json.isDigit c = true) ∨
    ∃ ds, s = 45 :: ds ∧ ds ≠ [] ∧ ∀ c ∈ ds, Json.isDigit c = true

structure Line where
  pid : Str
  comm : Bytes
  state : Nat
  /-- From field 4 on. -/
  fields : List Str
  ended : Bool
  pid_numeral : Numeral pid
  state_letter : isAlpha state = true
  numerals : ∀ f ∈ fields, Numeral f
  long : 19 ≤ fields.length

namespace Line

variable (l : Line)

def start : Str := l.fields.get ⟨18, l.long⟩

/-- From field 3 on. -/
def rest : Str :=
  ([l.state] :: l.fields).flatMap (32 :: ·) ++ if l.ended then [10] else []

def content : Bytes :=
  l.pid.map UInt8.ofNat ++ [32, 40] ++ l.comm ++ (41 :: l.rest).map UInt8.ofNat

end Line

-- ---------------------------------------------------------------------------
-- Field 22
-- ---------------------------------------------------------------------------

theorem field22_absent (h : 41 ∉ s) : field22 s = none := by
  rw [field22, rsplitOnce_absent h]
  rfl

theorem field22_after {before after : Str} (h : 41 ∉ after) :
    field22 (before ++ 41 :: after) = (words after)[19]? := by
  rw [field22, rsplitOnce_present h]
  rfl

theorem last_parenthesis (h : 41 ∈ s) : ∃ before after, s = before ++ 41 :: after ∧ 41 ∉ after := by
  obtain ⟨a, b, hab, ha⟩ := List.eq_append_cons_of_mem (List.mem_reverse.mpr h)
  refine ⟨b.reverse, a.reverse, ?_, by simpa using ha⟩
  rw [← List.reverse_reverse s, hab]
  simp

/-- The line ends do not matter. -/
theorem field22_newlines (s : Str) : field22 (newlines s) = field22 s := by
  by_cases h : 41 ∈ s
  · obtain ⟨before, after, rfl, hafter⟩ := last_parenthesis h
    rw [newlines_append (by decide) (by decide), field22_after hafter,
      field22_after (by rwa [mem_newlines (by decide) (by decide)]), words_newlines]
  · rw [field22_absent h, field22_absent (by rwa [mem_newlines (by decide) (by decide)])]

theorem processStart_decoded (h : Utf8.decode b = some s) :
    processStart (some b) = some ((field22 s).getD noStart) := by
  rw [processStart, h, Option.map_some, field22_newlines]

/-- The characters of the fields are neither parentheses nor white space. -/
def fieldChar (c : Nat) : Bool := isAlpha c || Json.isDigit c || c == 45

theorem fieldChar_ascii {c : Nat} (h : fieldChar c = true) : isAscii c = true := by
  simp only [fieldChar, isAlpha, Json.isDigit, Bool.or_eq_true, decide_eq_true_eq, beq_iff_eq] at h
  simp only [isAscii, decide_eq_true_eq]
  omega

theorem fieldChar_not_space {c : Nat} (h : fieldChar c = true) : isSpace c = false := by
  simp only [fieldChar, isAlpha, Json.isDigit, Bool.or_eq_true, decide_eq_true_eq, beq_iff_eq] at h
  simp only [isSpace, decide_eq_false_iff_not]
  omega

theorem Numeral.fieldChar (h : Numeral s) : s ≠ [] ∧ ∀ c ∈ s, fieldChar c = true := by
  rcases h with ⟨hne, hs⟩ | ⟨ds, rfl, -, hds⟩
  · exact ⟨hne, fun c hc => by simp [Gate.fieldChar, hs c hc]⟩
  · refine ⟨List.cons_ne_nil 45 ds, fun c hc => ?_⟩
    rcases List.mem_cons.mp hc with rfl | hc
    · rfl
    · simp [Gate.fieldChar, hds c hc]

namespace Line

variable (l : Line)

theorem fieldChar_word {w : Str} (hw : w ∈ [l.state] :: l.fields) :
    w ≠ [] ∧ ∀ c ∈ w, fieldChar c = true := by
  rcases List.mem_cons.mp hw with rfl | hw
  · simp [fieldChar, l.state_letter]
  · exact (l.numerals w hw).fieldChar

theorem ending_eq (ended : Bool) :
    (if ended then [10] else [] : Str) = [] ∨ (if ended then [10] else [] : Str) = [10] := by
  cases ended <;> simp

theorem words_rest : words l.rest = [l.state] :: l.fields := by
  rw [rest, words_ended (ending_eq l.ended), words_spaced fun w hw => ?_]
  obtain ⟨hne, hchars⟩ := l.fieldChar_word hw
  exact ⟨hne, fun c hc => fieldChar_not_space (hchars c hc)⟩

theorem mem_rest {c : Nat} (h : c ∈ l.rest) : fieldChar c = true ∨ c = 32 ∨ c = 10 := by
  rcases List.mem_append.mp h with h | h
  · obtain ⟨w, hw, hc⟩ := List.mem_flatMap.mp h
    rcases List.mem_cons.mp hc with rfl | hc
    · exact .inr (.inl rfl)
    · exact .inl ((l.fieldChar_word hw).2 c hc)
  · split at h
    · exact .inr (.inr (List.mem_singleton.mp h))
    · cases h

theorem parenthesis_not_mem_rest : 41 ∉ l.rest := fun h => by
  rcases l.mem_rest h with h | h | h <;> revert h <;> decide

theorem ascii_rest : Ascii (41 :: l.rest) := fun c hc => by
  rcases List.mem_cons.mp hc with rfl | hc
  · rfl
  · rcases l.mem_rest hc with h | rfl | rfl
    · exact fieldChar_ascii h
    · rfl
    · rfl

/-- Whatever the name of the command: where the line can be decoded at all,
its field 22 is found. -/
theorem field22_content (h : Utf8.decode l.content = some s) : field22 s = some l.start := by
  obtain ⟨before, -, rfl⟩ := Utf8.decode_append_ascii l.ascii_rest h
  rw [field22_after l.parenthesis_not_mem_rest, words_rest, List.getElem?_cons_succ, start,
    List.get_eq_getElem, List.getElem?_eq_getElem l.long]

theorem processStart_content (h : Utf8.decode l.content = some s) :
    processStart (some l.content) = some l.start := by
  rw [processStart_decoded h, field22_content l h, Option.getD_some]

end Line

-- ---------------------------------------------------------------------------
-- Every content
-- ---------------------------------------------------------------------------

/-- What is to be returned: field 22 of a line, and "0" for everything
else. -/
structure Reads (content : Option Bytes) (returned : Option Str) : Prop where
  line : ∀ l : Line, content = some l.content → returned = some l.start
  other : (∀ l : Line, content ≠ some l.content) → returned = some noStart

/-- After the last parenthesis are fewer than twenty words, or the twentieth
is "0", or there is no parenthesis. -/
def Vacant (s : Str) : Prop :=
  ∀ before after, s = before ++ 41 :: after → 41 ∉ after →
    ∀ w, (words after)[19]? = some w → w = noStart

theorem vacant_iff : Vacant s ↔ (field22 s).getD noStart = noStart := by
  by_cases h : 41 ∈ s
  · obtain ⟨before, after, rfl, hafter⟩ := last_parenthesis h
    rw [field22_after hafter]
    constructor
    · intro hvacant
      cases hw : (words after)[19]? with
      | none => rfl
      | some w => exact hvacant before after rfl hafter w hw
    · intro hget before' after' heq hafter' w hw
      have hsplit := congrArg field22 heq
      rw [field22_after hafter, field22_after hafter', hw] at hsplit
      rwa [hsplit] at hget
  · refine ⟨fun _ => by rw [field22_absent h]; rfl, fun _ before after heq => ?_⟩
    subst heq
    exact absurd (by simp) h

/-- The content is answered as it should be unless it cannot be decoded, or
is no line and yet has twenty words after its last parenthesis. -/
theorem process_start_reads (content : Option Bytes) :
    Reads content (processStart content) ↔ ∀ b, content = some b →
      ∃ s, Utf8.decode b = some s ∧ ((∃ l : Line, b = l.content) ∨ Vacant s) := by
  constructor
  · rintro h b rfl
    by_cases hline : ∃ l : Line, b = l.content
    · obtain ⟨l, rfl⟩ := hline
      obtain ⟨s, hs, -⟩ := Option.map_eq_some_iff.mp (h.line l rfl)
      exact ⟨s, hs, .inl ⟨l, rfl⟩⟩
    · have hother := h.other fun l hl => hline ⟨l, Option.some.inj hl⟩
      obtain ⟨s, hs, hnone⟩ := Option.map_eq_some_iff.mp hother
      rw [field22_newlines] at hnone
      exact ⟨s, hs, .inr (vacant_iff.mpr hnone)⟩
  · intro h
    cases content with
    | none => exact ⟨nofun, fun _ => rfl⟩
    | some b =>
      obtain ⟨s, hs, hb⟩ := h b rfl
      constructor
      · intro l hl
        cases hl
        exact l.processStart_content hs
      · intro hother
        have hvacant := hb.resolve_left fun ⟨l, hl⟩ => hother l (congrArg some hl)
        rw [processStart_decoded hs, vacant_iff.mp hvacant]

/-- The process of a command whose name is one byte that is not UTF-8. -/
def latin : Line where
  pid := lit "1"
  comm := [0xff]
  state := 83
  fields := List.replicate 19 (lit "7")
  ended := true
  pid_numeral := by simp [Numeral, lit, Json.isDigit]
  state_letter := rfl
  numerals f hf := by
    rw [List.eq_of_mem_replicate hf]
    simp [Numeral, lit, Json.isDigit]
  long := by simp

theorem process_start_raises : processStart (some latin.content) = none ∧
    ¬ Reads (some latin.content) (processStart (some latin.content)) := by
  have hnone : processStart (some latin.content) = none := by decide +kernel
  refine ⟨hnone, fun h => ?_⟩
  have hline := h.line latin rfl
  rw [hnone] at hline
  cases hline

end EufyNvr.Gate
