import EufyNvr.Generator.Config
import EufyNvr.Lib.Yaml

/-!
# The credentials of a configuration

`render_config` writes the username and the password under `rtsp:` and under
`api:`, as JSON strings. What reads them back takes them for double-quoted
scalars of YAML.
-/

namespace EufyNvr.Generator

open Json

variable {online named : List (Str × Camera)} {username password text : Str}
  {api rtsp webrtc timeout : Int}

-- ---------------------------------------------------------------------------
-- Reading a block
-- ---------------------------------------------------------------------------

/-- The scalar of a key, in the lines of a block. -/
def readScalar (lines : List Str) (key : Str) : Option Str :=
  let start := lit "  " ++ key ++ lit ": "
  (lines.find? fun line => start.isPrefixOf line).bind fun line =>
    Yaml.scalar (line.drop start.length)

def readCredentials (text header : Str) : Option (Str × Str) :=
  let lines := blockLines text header
  (readScalar lines (lit "username")).bind fun username =>
    (readScalar lines (lit "password")).map fun password => (username, password)

-- ---------------------------------------------------------------------------
-- The lines of a configuration
-- ---------------------------------------------------------------------------

theorem cons_bne {c : Nat} {line header : Str} (h : header.head? ≠ some c) :
    ((c :: line) != header) = true := by
  rw [bne_iff_ne]
  rintro rfl
  exact h rfl

/-- The lines before `exec:` are under no other header. -/
theorem dropWhile_configLines {header : Str} (hspace : header.head? ≠ some 32)
    (h : ∀ line ∈ headerLines ++ [lit "streams:", lit "streams: \x7b\x7d"],
      (line != header) = true) :
    (configLines online username password api rtsp webrtc timeout).dropWhile (· != header) =
      (footerLines username password api rtsp webrtc).dropWhile (· != header) := by
  have hheader : ∀ line ∈ headerLines, (line != header) = true := fun line hl =>
    h line (by simp [hl])
  have hstreams : ∀ line ∈ online.map (streamLine timeout), (line != header) = true := by
    intro line hl
    obtain ⟨p, -, rfl⟩ := List.mem_map.mp hl
    exact cons_bne hspace
  rw [configLines, List.dropWhile_append_of_pos hheader, List.dropWhile_cons_of_pos,
    List.dropWhile_append_of_pos hstreams]
  split
  · exact h _ (by simp)
  · exact h _ (by simp)

theorem blockLines_rtsp (h : ∀ p ∈ online, isStreamName p.1 = true) :
    blockLines ([10].intercalate (configLines online username password api rtsp webrtc timeout))
      (lit "rtsp:") =
        [listenLine rtsp, lit "  username: " ++ quoted username,
          lit "  password: " ++ quoted password] := by
  rw [blockLines, splitOn_configLines h, dropWhile_configLines (by decide) (by decide)]
  rfl

theorem blockLines_api (h : ∀ p ∈ online, isStreamName p.1 = true) :
    blockLines ([10].intercalate (configLines online username password api rtsp webrtc timeout))
      (lit "api:") =
        [listenLine api, lit "  username: " ++ quoted username,
          lit "  password: " ++ quoted password, lit "  local_auth: false",
          lit "  allow_paths: [/api, /api/streams, /api/webrtc, /api/frame.jpeg, /api/stream.ts]"] := by
  rw [blockLines, splitOn_configLines h, dropWhile_configLines (by decide) (by decide)]
  rfl

-- ---------------------------------------------------------------------------
-- Reading the credentials back
-- ---------------------------------------------------------------------------

theorem readScalar_username (port : Int) (lines : List Str) :
    readScalar (listenLine port :: (lit "  username: " ++ quoted username) ::
      (lit "  password: " ++ quoted password) :: lines) (lit "username") =
        Yaml.scalar (quoted username) := rfl

theorem readScalar_password (port : Int) (lines : List Str) :
    readScalar (listenLine port :: (lit "  username: " ++ quoted username) ::
      (lit "  password: " ++ quoted password) :: lines) (lit "password") =
        Yaml.scalar (quoted password) := rfl

/-- What either block gives. -/
theorem readCredentials_eq (hn : ∀ p ∈ named, isStreamName p.1 = true)
    (h : renderConfig named username password api rtsp webrtc timeout = .ok text) :
    ∀ header ∈ [lit "api:", lit "rtsp:"], readCredentials text header =
      (Yaml.scalar (quoted username)).bind fun u =>
        (Yaml.scalar (quoted password)).map fun p => (u, p) := by
  have honline : ∀ p ∈ named.filter (fun p => p.2.isOnline), isStreamName p.1 = true :=
    fun p hp => hn p (List.mem_filter.mp hp).1
  obtain rfl := renderConfig_ok h
  simp only [List.forall_mem_cons, List.not_mem_nil, false_imp_iff, implies_true, and_true]
  constructor
  · simp only [readCredentials, blockLines_api honline, readScalar_username, readScalar_password]
  · simp only [readCredentials, blockLines_rtsp honline, readScalar_username, readScalar_password]

/-- Both blocks give the credentials back, where each of their characters has
one escape. -/
theorem credentials_read_back (hn : ∀ p ∈ named, isStreamName p.1 = true)
    (h : renderConfig named username password api rtsp webrtc timeout = .ok text) :
    (∀ header ∈ [lit "api:", lit "rtsp:"],
      readCredentials text header = some (username, password)) ↔
    ∀ c ∈ username ++ password, isCharacter c = true ∧ c < 0x10000 := by
  have hread := readCredentials_eq hn h
  have hunits : (∀ c ∈ username ++ password, isCharacter c = true ∧ c < 0x10000) ↔
      username.all Yaml.isUnit = true ∧ password.all Yaml.isUnit = true := by
    simp only [List.forall_mem_append, List.all_eq_true, Yaml.isUnit, Bool.and_eq_true,
      decide_eq_true_eq]
  rw [hunits]
  constructor
  · intro hall
    have hsome := (hread _ (by simp)).symm.trans (hall (lit "api:") (by simp))
    simp only [Yaml.scalar_quoted] at hsome
    cases hu : username.all Yaml.isUnit with
    | false => simp [hu] at hsome
    | true =>
      cases hp : password.all Yaml.isUnit with
      | false => simp [hu, hp] at hsome
      | true => exact ⟨rfl, rfl⟩
  · rintro ⟨hu, hp⟩ header hheader
    rw [hread header hheader, Yaml.scalar_quoted, Yaml.scalar_quoted, if_pos hu, if_pos hp]
    rfl

/-- A configuration for a username that is one character beyond the units. -/
theorem credentials_lost : ∃ text, validateCredentials [0x1f600] (lit "0123456789abcdef") =
      .ok ([0x1f600], lit "0123456789abcdef") ∧
    renderConfig [] [0x1f600] (lit "0123456789abcdef") 1984 8554 8555 90 = .ok text ∧
    readCredentials text (lit "api:") = none ∧ readCredentials text (lit "rtsp:") = none :=
  ⟨_, rfl, rfl, by decide +kernel, by decide +kernel⟩

def escapedUsername : Str := lit "a\\\"b"

def escapedPassword : Str := 0x85 :: 0x20ac :: lit "0123456789abcd"

/-- A quote, a backslash, a control character and a letter that is not ASCII
are all read back. -/
theorem credentials_read_back_escaped :
    (∀ c ∈ escapedUsername ++ escapedPassword, isCharacter c = true ∧ c < 0x10000) ∧
    ∃ text, renderConfig [] escapedUsername escapedPassword 1984 8554 8555 90 = .ok text ∧
      ∀ header ∈ [lit "api:", lit "rtsp:"],
        readCredentials text header = some (escapedUsername, escapedPassword) := by
  have hunits : ∀ c ∈ escapedUsername ++ escapedPassword, isCharacter c = true ∧ c < 0x10000 := by
    decide +kernel
  obtain ⟨text, h⟩ : ∃ text,
    renderConfig [] escapedUsername escapedPassword 1984 8554 8555 90 = .ok text := ⟨_, rfl⟩
  exact ⟨hunits, text, h, (credentials_read_back (by simp) h).mpr hunits⟩

end EufyNvr.Generator
