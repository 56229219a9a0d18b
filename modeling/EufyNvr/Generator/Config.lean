import EufyNvr.Generator.Assign

/-!
# The generated configuration

`render_config` of `gen_go2rtc.py` with its checks, and the stream names that
a configuration publishes, read back from its text.
-/

namespace EufyNvr.Generator

open Json

variable {online : List (Str × Camera)} {username password : Str} {api rtsp webrtc timeout : Int}

def validatePort (value : Int) : Checked Int :=
  if 1 ≤ value ∧ value ≤ 65535 then .ok value
  else reject "ports must be integers from 1 to 65535"

def isControl (c : Nat) : Bool := decide (c < 32) || c == 127

def validateCredentials (username password : Str) : Checked (Str × Str) :=
  if ¬ (1 ≤ username.length ∧ username.length ≤ 64) then
    reject "go2rtc username must be 1 to 64 characters"
  else if ¬ (16 ≤ password.length ∧ password.length ≤ 256) then
    reject "go2rtc password must be 16 to 256 characters"
  else if (username ++ password).any isControl then
    reject "go2rtc credentials cannot contain control characters"
  else .ok (username, password)

def command (timeout : Int) (channel : Nat) : Str :=
  lit "exec:python eufy_run.py " ++ numeral channel ++
    lit " --rtsp \x7boutput\x7d#starttimeout=" ++ intText timeout ++
    lit "#killsignal=2#killtimeout=5"

def streamLine (timeout : Int) (p : Str × Camera) : Str :=
  lit "  " ++ (p.1 ++ (lit ": " ++ quoted (command timeout p.2.channel)))

def listenLine (port : Int) : Str := lit "  listen: \":" ++ intText port ++ lit "\""

def headerLines : List Str :=
  [lit "# Generated from validated discovery state. Online, on-demand streams.", lit "app:",
    lit "  modules: [api, rtsp, webrtc, exec, mjpeg, mpegts]", []]

def footerLines (username password : Str) (api rtsp webrtc : Int) : List Str :=
  [[], lit "exec:", lit "  allow_paths: [python]", [], lit "rtsp:", listenLine rtsp,
    lit "  username: " ++ quoted username, lit "  password: " ++ quoted password, [], lit "api:",
    listenLine api, lit "  username: " ++ quoted username, lit "  password: " ++ quoted password,
    lit "  local_auth: false",
    lit "  allow_paths: [/api, /api/streams, /api/webrtc, /api/frame.jpeg, /api/stream.ts]", [],
    lit "webrtc:", listenLine webrtc, [], lit "log:", lit "  level: info", []]

def configLines (online : List (Str × Camera)) (username password : Str)
    (api rtsp webrtc timeout : Int) : List Str :=
  headerLines ++ ((if online.isEmpty then lit "streams: \x7b\x7d" else lit "streams:") ::
    (online.map (streamLine timeout) ++ footerLines username password api rtsp webrtc))

/-- `camera.get("status") != 0` -/
def Camera.isOnline (c : Camera) : Bool := c.status != some 0

def renderConfig (named : List (Str × Camera)) (username password : Str)
    (api rtsp webrtc timeout : Int) : Checked Str := do
  let api ← validatePort api
  let rtsp ← validatePort rtsp
  let webrtc ← validatePort webrtc
  if ¬ [api, rtsp, webrtc].Nodup then reject "API, RTSP and WebRTC ports must be different"
  else if ¬ (1 ≤ timeout ∧ timeout ≤ 300) then
    reject "EUFY_STREAM_START_TIMEOUT must be between 1 and 300 seconds"
  else
    let (username, password) ← validateCredentials username password
    return [10].intercalate
      (configLines (named.filter fun p => p.2.isOnline) username password api rtsp webrtc timeout)

theorem validatePort_ok {value port : Int} (h : validatePort value = .ok port) : port = value := by
  unfold validatePort at h
  split at h <;> cases h
  rfl

theorem validateCredentials_ok {credentials : Str × Str}
    (h : validateCredentials username password = .ok credentials) :
    credentials = (username, password) := by
  unfold validateCredentials at h
  repeat' split at h
  all_goals cases h
  rfl

theorem renderConfig_ok {named : List (Str × Camera)} {config : Str}
    (h : renderConfig named username password api rtsp webrtc timeout = .ok config) :
    config = [10].intercalate (configLines (named.filter fun p => p.2.isOnline) username password
      api rtsp webrtc timeout) := by
  obtain ⟨api', hapi, h₁⟩ := bind_ok.mp h
  obtain ⟨rtsp', hrtsp, h₂⟩ := bind_ok.mp h₁
  obtain ⟨webrtc', hwebrtc, h₃⟩ := bind_ok.mp h₂
  split at h₃
  · cases h₃
  · split at h₃
    · cases h₃
    · obtain ⟨credentials, hcred, h₄⟩ := bind_ok.mp h₃
      rw [validatePort_ok hapi, validatePort_ok hrtsp, validatePort_ok hwebrtc,
        validateCredentials_ok hcred] at h₄
      cases h₄
      rfl

-- ---------------------------------------------------------------------------
-- Reading the streams back
-- ---------------------------------------------------------------------------

/-- The indented lines under a header. -/
def blockLines (text header : Str) : List Str :=
  (((text.splitOn 10).dropWhile (· != header)).drop 1).takeWhile fun line =>
    (lit "  ").isPrefixOf line

/-- The keys of the block under `streams:`. -/
def configStreams (text : Str) : List Str :=
  (blockLines text (lit "streams:")).map fun line => (line.drop 2).takeWhile (· != colon)

theorem printable_streamLine {p : Str × Camera} (h : isStreamName p.1 = true) :
    Printable (streamLine timeout p) :=
  .append (by decide) ((printable_of_isStreamName h).append (.append (by decide)
    (printable_quoted _)))

theorem printable_listenLine (port : Int) : Printable (listenLine port) :=
  .append (.append (by decide) (printable_intText _)) (by decide)

theorem footerLines_printable : ∀ line ∈ footerLines username password api rtsp webrtc,
    Printable line := by
  have hu : Printable (lit "  username: " ++ quoted username) :=
    .append (by decide) (printable_quoted _)
  have hp : Printable (lit "  password: " ++ quoted password) :=
    .append (by decide) (printable_quoted _)
  simp only [footerLines, List.forall_mem_cons, List.not_mem_nil, false_imp_iff, implies_true,
    printable_listenLine, hu, hp, true_and, and_true]
  decide

theorem configLines_printable (h : ∀ p ∈ online, isStreamName p.1 = true) :
    ∀ line ∈ configLines online username password api rtsp webrtc timeout, Printable line := by
  have hheader : ∀ line ∈ headerLines, Printable line := by decide
  intro line hl
  rcases List.mem_append.mp hl with hl | hl
  · exact hheader line hl
  rcases List.mem_cons.mp hl with rfl | hl
  · split <;> decide
  rcases List.mem_append.mp hl with hl | hl
  · obtain ⟨p, hp, rfl⟩ := List.mem_map.mp hl
    exact printable_streamLine (h p hp)
  · exact footerLines_printable line hl

theorem footerLines_not_streams : ∀ line ∈ footerLines username password api rtsp webrtc,
    (line != lit "streams:") = true := by
  have hlisten (port : Int) : (listenLine port != lit "streams:") = true := by
    rw [bne_iff_ne]
    intro h
    exact absurd (congrArg List.head? h) (by simp [listenLine, lit])
  have hquoted (s : Str) : (lit "  username: " ++ quoted s != lit "streams:") = true ∧
      (lit "  password: " ++ quoted s != lit "streams:") = true := by
    simp only [bne_iff_ne]
    constructor <;> intro h <;> exact absurd (congrArg List.head? h) (by simp [lit])
  simp only [footerLines, List.forall_mem_cons, List.not_mem_nil, false_imp_iff, implies_true,
    hlisten, hquoted, true_and, and_true]
  decide

theorem takeWhile_streamLines :
    ((online.map (streamLine timeout) ++ footerLines username password api rtsp webrtc).takeWhile
      fun line => (lit "  ").isPrefixOf line) = online.map (streamLine timeout) := by
  have hall : ∀ line ∈ online.map (streamLine timeout), (lit "  ").isPrefixOf line = true := by
    intro line hl
    obtain ⟨p, -, rfl⟩ := List.mem_map.mp hl
    exact List.isPrefixOf_iff_prefix.mpr (List.prefix_append _ _)
  rw [List.takeWhile_append_of_pos hall, footerLines, List.takeWhile_cons_of_neg (by decide),
    List.append_nil]

theorem streamLine_name {p : Str × Camera} (h : isStreamName p.1 = true) :
    ((streamLine timeout p).drop 2).takeWhile (· != colon) = p.1 := by
  have hdrop : (streamLine timeout p).drop 2 =
      p.1 ++ (lit ": " ++ quoted (command timeout p.2.channel)) := rfl
  have hall : ∀ c ∈ p.1, (c != colon) = true := by
    obtain ⟨t, ht, -, hname⟩ := isStreamName_iff.mp h
    intro c hc
    rw [ht] at hc
    rcases List.mem_append.mp hc with hc | hc
    · have hprefix : ∀ c ∈ lit "eufy_", (c != colon) = true := by decide
      exact hprefix c hc
    · rw [bne_iff_ne]
      rintro rfl
      exact absurd (hname _ hc) (by decide)
  rw [hdrop, List.takeWhile_append_of_pos hall]
  have hcolon : lit ": " = [colon, 32] := rfl
  rw [hcolon, List.cons_append, List.takeWhile_cons_of_neg (by simp), List.append_nil]

theorem splitOn_configLines (h : ∀ p ∈ online, isStreamName p.1 = true) :
    ([10].intercalate (configLines online username password api rtsp webrtc timeout)).splitOn 10 =
      configLines online username password api rtsp webrtc timeout := by
  refine List.splitOn_intercalate 10 (fun line hl hm => ?_) (by simp [configLines])
  have := configLines_printable h line hl 10 hm
  omega

theorem blockLines_streams (h : ∀ p ∈ online, isStreamName p.1 = true) :
    blockLines ([10].intercalate
      (configLines online username password api rtsp webrtc timeout)) (lit "streams:") =
        online.map (streamLine timeout) := by
  have hheader : ∀ line ∈ headerLines, (line != lit "streams:") = true := by decide
  rw [blockLines, splitOn_configLines h]
  simp only [configLines, List.dropWhile_append_of_pos hheader]
  cases ho : online.isEmpty with
  | true =>
    obtain rfl := List.isEmpty_iff.mp ho
    have hne : (lit "streams: \x7b\x7d" != lit "streams:") = true := by decide
    simp only [if_true, List.map_nil, List.nil_append]
    rw [List.dropWhile_cons_of_pos (p := fun x => x != lit "streams:") hne,
      List.dropWhile_eq_nil_iff.mpr footerLines_not_streams]
    rfl
  | false =>
    simp only [Bool.false_eq_true, if_false]
    rw [List.dropWhile_cons_of_neg (by simp), List.drop_one, List.tail_cons, takeWhile_streamLines]

/-- A configuration publishes the online streams it was rendered for. -/
theorem configStreams_configLines (h : ∀ p ∈ online, isStreamName p.1 = true) :
    configStreams ([10].intercalate
      (configLines online username password api rtsp webrtc timeout)) = online.map Prod.fst := by
  rw [configStreams, blockLines_streams h, List.map_map]
  exact List.map_congr_left fun p hp => streamLine_name (h p hp)

end EufyNvr.Generator
