import EufyNvr.Addon.Script
import EufyNvr.Lib.Infix

/-!
# What go2rtc is given

A configuration of the generator, in which `sed` has changed the log level,
once or again. What go2rtc reads of the credentials, the streams and the
access to its API is what the generator wrote.
-/

namespace EufyNvr.Addon

open Json
open EufyNvr.Generator

variable {o : Options} {level line text text' header : Str} {call : Call} {disk : Disk} {p : Prepared}

-- ---------------------------------------------------------------------------
-- The log level
-- ---------------------------------------------------------------------------

theorem levelLine_self (h : levelKey.isPrefixOf line = false) : levelLine level line = line := by
  simp [levelLine, h]

theorem indented_levelLine (level line : Str) :
    (lit "  ").isPrefixOf (levelLine level line) = (lit "  ").isPrefixOf line := by
  unfold levelLine
  split
  · rename_i h
    obtain ⟨rest, rfl⟩ := List.isPrefixOf_iff_prefix.mp h
    rfl
  · rfl

theorem levelLine_bne (hheader : header.head? ≠ some 32) (level line : Str) :
    (levelLine level line != header) = (line != header) := by
  unfold levelLine
  split
  · rename_i h
    obtain ⟨rest, rfl⟩ := List.isPrefixOf_iff_prefix.mp h
    have hne (s : Str) : (levelKey ++ s != header) = true := cons_bne hheader
    rw [hne, hne]
  · rfl

theorem newline_not_mem_levelLine (hlevel : 10 ∉ level) (hline : 10 ∉ line) :
    10 ∉ levelLine level line := by
  unfold levelLine
  split
  · intro h
    rcases List.mem_append.mp h with h | h
    · exact absurd h (by decide)
    · exact hlevel h
  · exact hline

theorem splitOn_relevel (hlevel : 10 ∉ level) :
    (relevel level text).splitOn 10 = (text.splitOn 10).map (levelLine level) := by
  refine List.splitOn_intercalate 10 (fun line hl => ?_) ?_
  · obtain ⟨line, hmem, rfl⟩ := List.mem_map.mp hl
    exact newline_not_mem_levelLine hlevel (Infix.not_mem_of_mem_splitOn hmem)
  · simp

/-- The lines under a header stay under it. -/
theorem blockLines_relevel (hlevel : 10 ∉ level) (hheader : header.head? ≠ some 32) :
    blockLines (relevel level text) header = (blockLines text header).map (levelLine level) := by
  have hbne : (fun line => line != header) ∘ levelLine level = fun line => line != header := by
    funext line
    exact levelLine_bne hheader level line
  have hindent : (fun line => (lit "  ").isPrefixOf line) ∘ levelLine level =
      fun line => (lit "  ").isPrefixOf line := by
    funext line
    exact indented_levelLine level line
  rw [blockLines, splitOn_relevel hlevel, List.dropWhile_map, hbne, ← List.map_drop,
    List.takeWhile_map, hindent]
  rfl

theorem newline_not_mem_level (h : level ∈ levels) : 10 ∉ level := by
  have hall : ∀ level ∈ levels, 10 ∉ level := by decide
  exact hall level h

-- ---------------------------------------------------------------------------
-- The blocks that the generator writes
-- ---------------------------------------------------------------------------

/-- The generator prepares this for the options. -/
def Generated (o : Options) (p : Prepared) : Prop :=
  ∃ call disk, call.username = o.go2rtcUsername ∧ call.password = o.go2rtcPassword ∧
    parseDisabledChannels o.disabledChannels = .ok call.disabledChannels ∧ prepare call disk = .ok p

def headers : List Str := [lit "streams:", lit "rtsp:", lit "api:"]

/-- The text has the blocks of a configuration for the options. -/
def Written (o : Options) (text : Str) : Prop :=
  ∃ p, Generated o p ∧ ∀ header ∈ headers, blockLines text header = blockLines p.config header

theorem level_free_of_name {c : Camera} {timeout : Int} {name : Str} (h : isStreamName name = true) :
    levelKey.isPrefixOf (streamLine timeout (name, c)) = false := by
  obtain ⟨t, rfl, -⟩ := isStreamName_iff.mp h
  rfl

/-- No block has a log level. -/
theorem level_free (h : prepare call disk = .ok p) :
    ∀ header ∈ headers, ∀ line ∈ blockLines p.config header, levelKey.isPrefixOf line = false := by
  obtain ⟨m, previous, -, -, -, -, hnames, hconfig⟩ := prepare_ok h
  have honline : ∀ q ∈ p.enabled.filter (fun q => q.2.isOnline), isStreamName q.1 = true :=
    fun q hq => hnames q (List.mem_filter.mp hq).1
  rw [hconfig]
  simp only [headers, List.forall_mem_cons, List.not_mem_nil, false_imp_iff, implies_true, and_true]
  refine ⟨?_, ?_, ?_⟩
  · rw [blockLines_streams honline]
    intro line hl
    obtain ⟨q, hq, rfl⟩ := List.mem_map.mp hl
    exact level_free_of_name (honline q hq)
  · rw [blockLines_rtsp honline]
    intro line hl
    simp only [List.mem_cons, List.not_mem_nil, or_false] at hl
    rcases hl with rfl | rfl | rfl <;> rfl
  · rw [blockLines_api honline]
    intro line hl
    simp only [List.mem_cons, List.not_mem_nil, or_false] at hl
    rcases hl with rfl | rfl | rfl | rfl | rfl <;> rfl

theorem written_config (h : Generated o p) : Written o p.config := ⟨p, h, fun _ _ => rfl⟩

theorem written_relevel (h : Written o text) (hlevel : level ∈ levels) :
    Written o (relevel level text) := by
  obtain ⟨p, hp, hblocks⟩ := h
  have ⟨call, disk, _, _, _, hprepare⟩ := hp
  have hspace : ∀ header ∈ headers, header.head? ≠ some 32 := by decide
  refine ⟨p, hp, fun header hh => ?_⟩
  rw [blockLines_relevel (newline_not_mem_level hlevel) (hspace header hh), hblocks header hh]
  have hself : ∀ line ∈ blockLines p.config header, levelLine level line = line :=
    fun line hl => levelLine_self (level_free hprepare header hh line hl)
  exact (List.map_congr_left hself).trans (List.map_id _)

-- ---------------------------------------------------------------------------
-- What is read
-- ---------------------------------------------------------------------------

/-- What go2rtc reads: the credentials of the options for the API and for the
streams, the password of at least sixteen characters, and for each stream the
command of the supervisor for one channel. A character beyond the first plane
is escaped as two, which YAML does not join. -/
structure Protected (o : Options) (text : Str) : Prop where
  length : 16 ≤ o.go2rtcPassword.length
  credentials : (∀ c ∈ o.go2rtcUsername ++ o.go2rtcPassword, isCharacter c = true ∧ c < 0x10000) →
    ∀ header ∈ [lit "api:", lit "rtsp:"],
      readCredentials text header = some (o.go2rtcUsername, o.go2rtcPassword)
  localAuth : lit "  local_auth: false" ∈ blockLines text (lit "api:")
  streams : ∃ (timeout : Int) (online : List (Str × Camera)),
    configEntries text = some (online.map fun q => (q.1, command timeout q.2.channel)) ∧
    ∀ q ∈ online, isStreamName q.1 = true ∧ q.2.isOnline = true ∧
      ∀ disabled, parseDisabledChannels o.disabledChannels = .ok disabled →
        (q.2.channel : Nat) ∉ disabled

theorem mem_enabled {m : Manifest} {r : Registry} {q : Str × Camera} {disabled : List Nat}
    (h : q ∈ (assignNames m r).1.filter fun q => (q.2.channel : Nat) ∉ disabled) :
    (q.2.channel : Nat) ∉ disabled := by
  simpa using (List.mem_filter.mp h).2

theorem Written.protected (h : Written o text) : Protected o text := by
  obtain ⟨p, ⟨call, disk, husername, hpassword, hdisabled, hprepare⟩, hblocks⟩ := h
  obtain ⟨m, previous, -, -, henabled, -, hnames, hconfig⟩ := prepare_ok hprepare
  have hrender := prepare_renders hprepare
  have honline : ∀ q ∈ p.enabled.filter (fun q => q.2.isOnline), isStreamName q.1 = true :=
    fun q hq => hnames q (List.mem_filter.mp hq).1
  rw [husername, hpassword] at hrender
  refine ⟨renderConfig_length hrender, fun hunits header hheader => ?_, ?_,
    call.startTimeout, p.enabled.filter fun q => q.2.isOnline, ?_, fun q hq => ?_⟩
  · have hmem : header ∈ headers := by
      revert header
      decide
    have hread := (credentials_read_back hnames hrender).mpr hunits header hheader
    rwa [readCredentials, ← hblocks header hmem] at hread
  · rw [hblocks _ (by decide), hconfig, blockLines_api honline]
    simp
  · have hentries : configEntries p.config = some ((p.enabled.filter fun q => q.2.isOnline).map
        fun q => (q.1, command call.startTimeout q.2.channel)) := by
      rw [hconfig]
      exact configEntries_configLines honline
    rwa [configEntries, ← hblocks _ (by decide)] at hentries
  · obtain ⟨hmem, hon⟩ := List.mem_filter.mp hq
    refine ⟨hnames q hmem, hon, fun disabled hd => ?_⟩
    rw [hdisabled] at hd
    cases hd
    rw [henabled] at hmem
    exact mem_enabled hmem

end EufyNvr.Addon
