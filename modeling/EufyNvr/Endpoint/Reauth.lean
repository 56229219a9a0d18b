import EufyNvr.Endpoint.Canonical

/-!
# Reauthentication

`_validate_go2rtc` of `config_flow.py` with the probes that it makes, and
`async_step_reauth_confirm`, over any answers of the instances that are
probed. The probe may be answered by another host than the one of the entry,
and the flow keeps the host of the entry.
-/

namespace EufyNvr.Endpoint

open Json

/-- The language's tables, its way to write IPv6 addresses, and the header of
basic authentication, which may refuse credentials. -/
structure Libraries where
  mixed : Bool
  unicode : Unicode
  basicAuth : Str → Str → Option Str

/-- A request for the streams. -/
structure Request where
  url : Str
  authorization : Str
  deriving DecidableEq

inductive Reply
  | unreachable
  | refused (status : Nat)
  | notJson
  | payload (v : Json)
  deriving DecidableEq

structure Probe where
  request : Request
  reply : Reply
  deriving DecidableEq

/-- The answers of all instances, to the first request, to the second, and
so on. -/
abbrev Instances := Nat → Request → Reply

-- ---------------------------------------------------------------------------
-- `Go2RtcClient`
-- ---------------------------------------------------------------------------

def apiUrl (mixed : Bool) (U : Unicode) (host : Str) (port : Int) : Checked Str := do
  let base ← apiBaseUrl mixed U host port
  return base ++ lit "/api/streams"

def frameUrl (mixed : Bool) (U : Unicode) (host : Str) (port : Int) : Checked Str := do
  let base ← apiBaseUrl mixed U host port
  return base ++ lit "/api/frame.jpeg"

structure Client where
  host : Str
  apiPort : Int
  frameUrl : Str
  request : Request
  deriving DecidableEq

/-- `Go2RtcClient.__init__` -/
def Client.init (L : Libraries) (host : Str) (apiPort : Int) (username password : Str) :
    Checked Client := do
  let host ← normalizeHost L.mixed L.unicode host
  let apiPort ← validatePort apiPort
  let (username, password) ← validateCredentials username password
  let url ← apiUrl L.mixed L.unicode host apiPort
  let frame ← Endpoint.frameUrl L.mixed L.unicode host apiPort
  let authorization ← (L.basicAuth username password).elim (.error .library) .ok
  return ⟨host, apiPort, frame, url, authorization⟩

/-- `_stream_map` -/
def streamMap (payload : Json) : Option (List (Str × Json)) :=
  let payload := match payload with
    | .obj ms => (get? ms (lit "streams")).getD payload
    | _ => payload
  match payload with
  | .obj ms => some (ms.map fun m => (m.1, match m.2 with
    | .obj info => .obj info
    | _ => .obj []))
  | _ => none

def extractStreams (payload : Json) : Option (List (Str × Json)) :=
  (streamMap payload).map fun ms => ms.filter fun m => (lit "eufy_").isPrefixOf m.1

def streamCount (payload : Json) : Option Nat := (streamMap payload).map List.length

/-- `async_get_streams`: the Eufy streams and the number of all streams, or
none for a `Go2RtcError`. -/
def getStreams : Reply → Option (List (Str × Json) × Nat)
  | .payload v => do
    let total ← streamCount v
    let streams ← extractStreams v
    return (streams, total)
  | _ => none

/-- The answer has at least one Eufy stream. -/
def Reply.listsEufy (r : Reply) : Bool :=
  match getStreams r with
  | some (streams, _) => !streams.isEmpty
  | none => false

-- ---------------------------------------------------------------------------
-- The flow
-- ---------------------------------------------------------------------------

def defaultHost : Str := lit "homeassistant.local"

inductive FlowError
  | invalidEndpoint
  | cannotConnect
  | wrongInstance
  | noStreams
  /-- The `ValueError` of a client, which the flow does not catch. -/
  | uncaught
  deriving DecidableEq

/-- The loop over the candidates; `n` probes have been made before. -/
def probeAll (L : Libraries) (answers : Instances) (apiPort : Int) (username password : Str) :
    Nat → Option FlowError → List Str → List Probe × Except FlowError (Str × Nat)
  | _, responseError, [] => ([], .error (responseError.getD .cannotConnect))
  | n, responseError, candidate :: candidates =>
    match Client.init L candidate apiPort username password with
    | .error _ => ([], .error .uncaught)
    | .ok client =>
      let probe : Probe := ⟨client.request, answers n client.request⟩
      match getStreams probe.reply with
      | none =>
        let r := probeAll L answers apiPort username password (n + 1) responseError candidates
        (probe :: r.1, r.2)
      | some (streams, total) =>
        if streams ≠ [] then ([probe], .ok (client.host, streams.length))
        else
          let error := if total ≠ 0 then FlowError.wrongInstance else .noStreams
          let r := probeAll L answers apiPort username password (n + 1) (some error) candidates
          (probe :: r.1, r.2)

/-- The hosts that are probed. -/
def candidates (L : Libraries) (internalUrl : Option Str) (host : Str) : List Str :=
  if host = defaultHost then
    match hostFromInternalUrl L.mixed L.unicode internalUrl with
    | some fallback => if fallback ≠ [] ∧ fallback ≠ host then [host, fallback] else [host]
    | none => [host]
  else [host]

/-- The checks before the first probe. -/
def checkInput (L : Libraries) (host : Str) (apiPort : Int) (username password : Str) :
    Checked Str := do
  let host ← normalizeHost L.mixed L.unicode host
  let _ ← validatePort apiPort
  let _ ← validateCredentials username password
  return host

/-- `_validate_go2rtc` -/
def validateGo2rtc (L : Libraries) (answers : Instances) (internalUrl : Option Str) (host : Str)
    (apiPort : Int) (username password : Str) : List Probe × Except FlowError (Str × Nat) :=
  match checkInput L host apiPort username password with
  | .error _ => ([], .error .invalidEndpoint)
  | .ok host =>
    probeAll L answers apiPort username password 0 none (candidates L internalUrl host)

structure Entry where
  host : Str
  apiPort : Int
  rtspPort : Int
  username : Str
  password : Str
  deriving DecidableEq

inductive FlowResult
  | form (error : Option String)
  | updated (entry : Entry)
  | raised
  deriving DecidableEq

/-- `async_step_reauth_confirm`, with the probes that it makes. -/
def reauthConfirm (L : Libraries) (answers : Instances) (internalUrl : Option Str)
    (entry : Entry) : Option (Str × Str) → List Probe × FlowResult
  | none => ([], .form none)
  | some (username, password) =>
    let r := validateGo2rtc L answers internalUrl entry.host entry.apiPort username password
    (r.1, match r.2 with
      | .error .invalidEndpoint => .form (some "invalid_endpoint")
      | .error .cannotConnect => .form (some "cannot_connect")
      | .error .wrongInstance => .form (some "wrong_instance")
      | .error .noStreams => .form (some "no_streams")
      | .error .uncaught => .raised
      | .ok _ => .updated { entry with username, password })

-- ---------------------------------------------------------------------------
-- Clients
-- ---------------------------------------------------------------------------

section

variable {L : Libraries} {answers : Instances} {internalUrl : Option Str} {entry : Entry}
  {host n fallback username password : Str} {apiPort : Int} {own other : Client}

/-- The normalized host makes the same client. -/
theorem init_normalized (h : normalizeHost L.mixed L.unicode host = .ok n) :
    Client.init L n apiPort username password = Client.init L host apiPort username password := by
  have hagain := normalizeHost_of_form (U := L.unicode) (normalizeHost_form h)
  rw [Client.init, Client.init, h, hagain]

/-- What a client that has been made says of its arguments. -/
structure Made (L : Libraries) (host : Str) (apiPort : Int) (username password : Str)
    (c : Client) : Prop where
  normalized : normalizeHost L.mixed L.unicode host = .ok c.host
  input : checkInput L host apiPort username password = .ok c.host
  url : ∃ text, urlHost L.mixed L.unicode c.host = .ok text ∧
    c.request.url = lit "http://" ++ (text ++ colon :: intText apiPort) ++ lit "/api/streams"

theorem made_of_init (h : Client.init L host apiPort username password = .ok own) :
    Made L host apiPort username password own := by
  obtain ⟨n, hn, h⟩ := bind_ok.mp h
  obtain ⟨port, hport, h⟩ := bind_ok.mp h
  obtain ⟨⟨u, w⟩, hcredentials, h⟩ := bind_ok.mp h
  obtain ⟨url, hurl, h⟩ := bind_ok.mp h
  obtain ⟨frame, hframe, h⟩ := bind_ok.mp h
  obtain ⟨authorization, -, h⟩ := bind_ok.mp h
  cases h
  obtain ⟨base, hbase, hurl⟩ := bind_ok.mp hurl
  obtain ⟨text, htext, hbase⟩ := bind_ok.mp hbase
  obtain ⟨port', hport', hbase⟩ := bind_ok.mp hbase
  cases hbase
  cases hurl
  refine ⟨hn, ?_, text, htext, ?_⟩
  · rw [checkInput, hn, hport, hcredentials]
    rfl
  · have hsame (p q : Int) (h : validatePort p = .ok q) : q = p := by
      unfold validatePort at h
      split at h <;> cases h
      rfl
    rw [hsame _ _ hport', hsame _ _ hport]

/-- The URL of a host gives it back. -/
theorem normalizeHost_urlHost {text : Str} (h : normalizeHost L.mixed L.unicode host = .ok n)
    (htext : urlHost L.mixed L.unicode n = .ok text) :
    normalizeHost L.mixed L.unicode (lit "http://" ++ text) = .ok n := by
  have hform := normalizeHost_form h
  have hagain := normalizeHost_of_form (U := L.unicode) hform
  rcases hform with hname | haddress
  · rw [urlHost_name hagain hname] at htext
    cases htext
    exact normalizeHost_urlName hname
  · rw [urlHost_address hagain haddress] at htext
    cases htext
    exact normalizeHost_urlAddress haddress haddress.bracketed

/-- Clients for two hosts make two requests. -/
theorem request_injective (hown : Client.init L host apiPort username password = .ok own)
    (hother : Client.init L fallback apiPort username password = .ok other)
    (h : other.request = own.request) : other.host = own.host := by
  obtain ⟨hn, -, text, htext, hurl⟩ := made_of_init hown
  obtain ⟨hn', -, text', htext', hurl'⟩ := made_of_init hother
  rw [h, hurl] at hurl'
  have hsame : text = text' :=
    List.append_cancel_right (List.append_cancel_left (List.append_cancel_right hurl'))
  have hback := normalizeHost_urlHost hn htext
  rw [hsame, normalizeHost_urlHost hn' htext'] at hback
  exact Except.ok.inj hback

-- ---------------------------------------------------------------------------
-- Probes
-- ---------------------------------------------------------------------------

variable {k : Nat}

theorem listsEufy_iff {r : Reply} : r.listsEufy = true ↔
    ∃ streams total, getStreams r = some (streams, total) ∧ streams ≠ [] := by
  unfold Reply.listsEufy
  cases getStreams r with
  | none => simp
  | some s =>
    obtain ⟨streams, total⟩ := s
    simp

theorem probeAll_lists (responseError : Option FlowError) (rest : List Str)
    (h : Client.init L host apiPort username password = .ok own)
    (hlists : (answers k own.request).listsEufy = true) :
    ∃ count, probeAll L answers apiPort username password k responseError (host :: rest) =
      ([⟨own.request, answers k own.request⟩], .ok (own.host, count)) := by
  obtain ⟨streams, total, hstreams, hne⟩ := listsEufy_iff.mp hlists
  refine ⟨streams.length, ?_⟩
  rw [probeAll, h]
  dsimp only
  rw [hstreams]
  exact if_pos hne

theorem probeAll_continues (responseError : Option FlowError) (rest : List Str)
    (h : Client.init L host apiPort username password = .ok own)
    (hlists : (answers k own.request).listsEufy = false) :
    ∃ error, probeAll L answers apiPort username password k responseError (host :: rest) =
      (⟨own.request, answers k own.request⟩ ::
          (probeAll L answers apiPort username password (k + 1) error rest).1,
        (probeAll L answers apiPort username password (k + 1) error rest).2) := by
  rw [probeAll, h]
  dsimp only
  cases hstreams : getStreams (answers k own.request) with
  | none => exact ⟨_, rfl⟩
  | some r =>
    have hnil : ¬ r.1 ≠ [] := fun hne => by
      rw [listsEufy_iff.mpr ⟨r.1, r.2, hstreams, hne⟩] at hlists
      cases hlists
    exact ⟨_, if_neg hnil⟩

theorem probeAll_uncaught {responseError : Option FlowError} {rest : List Str} {f : Failure}
    (h : Client.init L host apiPort username password = .error f) :
    probeAll L answers apiPort username password k responseError (host :: rest) =
      ([], .error .uncaught) := by
  rw [probeAll, h]

/-- Either the normalized host alone, or the host of the internal URL after
the default one. -/
theorem candidates_cases (L : Libraries) (internalUrl : Option Str) (host : Str) :
    candidates L internalUrl host = [host] ∨
      ∃ fallback, candidates L internalUrl host = [host, fallback] ∧ host = defaultHost ∧
        hostFromInternalUrl L.mixed L.unicode internalUrl = some fallback ∧ fallback ≠ host := by
  unfold candidates
  split
  · rename_i hdefault
    cases hostFromInternalUrl L.mixed L.unicode internalUrl with
    | none => exact .inl rfl
    | some fallback =>
      dsimp only
      split
      · rename_i hfallback
        exact .inr ⟨fallback, rfl, hdefault, rfl, hfallback.2⟩
      · exact .inl rfl
  · exact .inl rfl

theorem hostFromInternalUrl_normalized
    (h : hostFromInternalUrl L.mixed L.unicode internalUrl = some fallback) :
    normalizeHost L.mixed L.unicode fallback = .ok fallback := by
  unfold hostFromInternalUrl at h
  split at h
  · cases h
  · cases h
  · split at h
    · cases h
    · split at h
      · cases h
      · split at h
        · cases h
        · rename_i hostname _ _
          cases hn : normalizeHost L.mixed L.unicode hostname with
          | error _ => rw [hn] at h; cases h
          | ok n =>
            rw [hn] at h
            cases h
            exact normalizeHost_of_form (normalizeHost_form hn)

theorem candidates_fallback (hfallback : hostFromInternalUrl L.mixed L.unicode internalUrl =
    some fallback) (hne : fallback ≠ defaultHost) :
    candidates L internalUrl defaultHost = [defaultHost, fallback] := by
  have hnil : fallback ≠ [] := by
    rintro rfl
    cases hostFromInternalUrl_normalized hfallback
  rw [candidates, if_pos rfl, hfallback]
  exact if_pos ⟨hnil, hne⟩

-- ---------------------------------------------------------------------------
-- Updates
-- ---------------------------------------------------------------------------

variable {input : Option (Str × Str)} {entry' : Entry}

theorem validate_ok (h : Client.init L host apiPort username password = .ok own) :
    validateGo2rtc L answers internalUrl host apiPort username password =
      probeAll L answers apiPort username password 0 none (candidates L internalUrl own.host) := by
  rw [validateGo2rtc, (made_of_init h).input]

theorem validate_error (answers : Instances) (internalUrl : Option Str) {f : Failure}
    (h : Client.init L host apiPort username password = .error f) :
    ∃ e, (validateGo2rtc L answers internalUrl host apiPort username password).2 = .error e := by
  unfold validateGo2rtc
  cases hcheck : checkInput L host apiPort username password with
  | error _ => exact ⟨_, rfl⟩
  | ok n =>
    obtain ⟨m, hm, hrest⟩ := bind_ok.mp hcheck
    obtain ⟨_, -, hrest⟩ := bind_ok.mp hrest
    obtain ⟨_, -, hrest⟩ := bind_ok.mp hrest
    cases hrest
    rw [← init_normalized hm] at h
    rcases candidates_cases L internalUrl n with hone | ⟨_, htwo, -⟩
    · exact ⟨.uncaught, by dsimp only; rw [hone, probeAll_uncaught h]⟩
    · exact ⟨.uncaught, by dsimp only; rw [htwo, probeAll_uncaught h]⟩

theorem reauthConfirm_updated
    (h : (reauthConfirm L answers internalUrl entry input).2 = .updated entry') :
    ∃ username password host count, input = some (username, password) ∧
      (validateGo2rtc L answers internalUrl entry.host entry.apiPort username password).2 =
        .ok (host, count) ∧ entry' = { entry with username, password } := by
  cases input with
  | none => cases h
  | some credentials =>
    obtain ⟨username, password⟩ := credentials
    rw [reauthConfirm] at h
    cases hr : (validateGo2rtc L answers internalUrl entry.host entry.apiPort username
        password).2 with
    | error e =>
      rw [hr] at h
      cases e <;> cases h
    | ok r =>
      rw [hr] at h
      cases h
      exact ⟨username, password, r.1, r.2, rfl, hr, rfl⟩

theorem reauthConfirm_ok {r : Str × Nat}
    (h : (validateGo2rtc L answers internalUrl entry.host entry.apiPort username password).2 =
      .ok r) : (reauthConfirm L answers internalUrl entry (some (username, password))).2 =
        .updated { entry with username, password } := by
  rw [reauthConfirm, h]

end

/-- The entry keeps its host and port, and the instance there has answered a
request with its credentials, with at least one Eufy stream. -/
structure Vouched (L : Libraries) (entry entry' : Entry) (probes : List Probe) : Prop where
  host : entry'.host = entry.host
  apiPort : entry'.apiPort = entry.apiPort
  answered : ∃ own, Client.init L entry'.host entry'.apiPort entry'.username entry'.password =
    .ok own ∧ ∃ probe ∈ probes, probe.request = own.request ∧ probe.reply.listsEufy = true

/-- The entry has the default host, the internal URL has another one, and of
the two instances only that of the internal URL lists a Eufy stream. -/
structure Diverted (L : Libraries) (answers : Instances) (internalUrl : Option Str)
    (entry : Entry) (username password fallback : Str) (own other : Client) : Prop where
  default : normalizeHost L.mixed L.unicode entry.host = .ok defaultHost
  internal : hostFromInternalUrl L.mixed L.unicode internalUrl = some fallback
  differs : fallback ≠ defaultHost
  first : Client.init L entry.host entry.apiPort username password = .ok own
  second : Client.init L fallback entry.apiPort username password = .ok other
  silent : (answers 0 own.request).listsEufy = false
  answered : (answers 1 other.request).listsEufy = true

section

variable {L : Libraries} {answers : Instances} {internalUrl : Option Str} {entry : Entry}
  {fallback username password : Str} {own other : Client}

/-- Then the credentials are stored, and the instance of the entry has not
vouched for them. -/
theorem Diverted.updates
    (h : Diverted L answers internalUrl entry username password fallback own other) :
    (reauthConfirm L answers internalUrl entry (some (username, password))).2 =
        .updated { entry with username, password } ∧
      ¬ Vouched L entry { entry with username, password }
        (reauthConfirm L answers internalUrl entry (some (username, password))).1 := by
  have hhost : own.host = defaultHost := by
    have := (made_of_init h.first).normalized
    rw [h.default] at this
    exact (Except.ok.inj this).symm
  have hfirst := h.first
  rw [← init_normalized h.default] at hfirst
  obtain ⟨e, hprobe⟩ := probeAll_continues none [fallback] hfirst h.silent
  obtain ⟨count, hnext⟩ := probeAll_lists e [] h.second h.answered
  have hvalidate : validateGo2rtc L answers internalUrl entry.host entry.apiPort username password =
      ([⟨own.request, answers 0 own.request⟩, ⟨other.request, answers 1 other.request⟩],
        .ok (other.host, count)) := by
    rw [validate_ok h.first, hhost, candidates_fallback h.internal h.differs, hprobe, hnext]
  refine ⟨reauthConfirm_ok (by rw [hvalidate]), fun hvouched => ?_⟩
  obtain ⟨own', hown', probe, hprobe, hrequest, hlists⟩ := hvouched.answered
  rw [h.first] at hown'
  cases hown'
  rw [reauthConfirm, hvalidate] at hprobe
  rcases List.mem_cons.mp hprobe with rfl | hprobe
  · rw [h.silent] at hlists
    cases hlists
  · obtain rfl := List.mem_singleton.mp hprobe
    have hother := request_injective h.first h.second hrequest
    have hnormal := (made_of_init h.second).normalized
    rw [hostFromInternalUrl_normalized h.internal] at hnormal
    exact h.differs ((Except.ok.inj hnormal).trans (hother.trans hhost))

theorem vouched_or_diverted {host : Str} {count : Nat}
    (h : (validateGo2rtc L answers internalUrl entry.host entry.apiPort username password).2 =
      .ok (host, count)) :
    Vouched L entry { entry with username, password }
        (reauthConfirm L answers internalUrl entry (some (username, password))).1 ∨
      ∃ fallback own other,
        Diverted L answers internalUrl entry username password fallback own other := by
  cases hown : Client.init L entry.host entry.apiPort username password with
  | error f =>
    obtain ⟨e, he⟩ := validate_error answers internalUrl hown
    rw [he] at h
    cases h
  | ok own =>
    have hnormal := (made_of_init hown).normalized
    have hfirst := hown
    rw [← init_normalized hnormal] at hfirst
    rw [validate_ok hown] at h
    cases hlists : (answers 0 own.request).listsEufy with
    | true =>
      refine .inl ⟨rfl, rfl, own, hown, ⟨own.request, answers 0 own.request⟩, ?_, rfl, hlists⟩
      rw [reauthConfirm, validate_ok hown]
      rcases candidates_cases L internalUrl own.host with hone | ⟨fallback, htwo, -⟩
      · obtain ⟨count, hprobe⟩ := probeAll_lists none [] hfirst hlists
        simp [hone, hprobe]
      · obtain ⟨count, hprobe⟩ := probeAll_lists none [fallback] hfirst hlists
        simp [htwo, hprobe]
    | false =>
      rcases candidates_cases L internalUrl own.host with
        hone | ⟨fallback, htwo, hdefault, hinternal, hne⟩
      · obtain ⟨e, hprobe⟩ := probeAll_continues none [] hfirst hlists
        rw [hone, hprobe] at h
        cases h
      · obtain ⟨e, hprobe⟩ := probeAll_continues none [fallback] hfirst hlists
        rw [htwo, hprobe] at h
        rw [hdefault] at hnormal hne
        cases hother : Client.init L fallback entry.apiPort username password with
        | error f =>
          rw [probeAll_uncaught hother] at h
          cases h
        | ok other =>
          refine .inr ⟨fallback, own, other, hnormal, hinternal, hne, hown, hother, hlists, ?_⟩
          cases hanswered : (answers 1 other.request).listsEufy with
          | true => rfl
          | false =>
            obtain ⟨e', hnext⟩ := probeAll_continues e [] hother hanswered
            rw [hnext] at h
            cases h

end

/-- Every update is vouched for, unless the probe was diverted to the host of
the internal URL. -/
theorem reauth_vouched (L : Libraries) (answers : Instances) (internalUrl : Option Str)
    (entry : Entry) (input : Option (Str × Str)) :
    (∀ entry', (reauthConfirm L answers internalUrl entry input).2 = .updated entry' →
        Vouched L entry entry' (reauthConfirm L answers internalUrl entry input).1) ↔
      ¬ ∃ username password fallback own other, input = some (username, password) ∧
        Diverted L answers internalUrl entry username password fallback own other := by
  constructor
  · rintro h ⟨username, password, fallback, own, other, rfl, hdiverted⟩
    obtain ⟨hupdated, hnot⟩ := hdiverted.updates
    exact hnot (h _ hupdated)
  · intro h entry' hupdated
    obtain ⟨username, password, host, count, rfl, hok, rfl⟩ := reauthConfirm_updated hupdated
    refine (vouched_or_diverted hok).resolve_right fun ⟨fallback, own, other, hdiverted⟩ => ?_
    exact h ⟨username, password, fallback, own, other, rfl, hdiverted⟩

/-- The header is the credentials themselves. -/
def plainLibraries : Libraries :=
  ⟨true, .plain, fun username password => some (username ++ colon :: password)⟩

def defaultEntry : Entry := ⟨defaultHost, 1985, 8556, lit "eufy", lit "the-old-password"⟩

/-- The first instance rejects the credentials, and the second takes them. -/
def secondOnly : Instances := fun n _ =>
  if n = 0 then .refused 401 else .payload (.obj [(lit "eufy_ch0", .obj [])])

def renewed : Str × Str := (lit "eufy", lit "sixteen-or-more!")

theorem reauth_diverted :
    (reauthConfirm plainLibraries secondOnly (some (lit "http://192.168.1.177:8123"))
        defaultEntry (some renewed)).2 =
      .updated { defaultEntry with password := lit "sixteen-or-more!" } ∧
    ¬ Vouched plainLibraries defaultEntry
      { defaultEntry with password := lit "sixteen-or-more!" }
      (reauthConfirm plainLibraries secondOnly (some (lit "http://192.168.1.177:8123"))
        defaultEntry (some renewed)).1 := by
  have hdiverted : Diverted plainLibraries secondOnly (some (lit "http://192.168.1.177:8123"))
      defaultEntry (lit "eufy") (lit "sixteen-or-more!") (lit "192.168.1.177")
      ⟨defaultHost, 1985, lit "http://homeassistant.local:1985/api/frame.jpeg",
        lit "http://homeassistant.local:1985/api/streams", lit "eufy:sixteen-or-more!"⟩
      ⟨lit "192.168.1.177", 1985, lit "http://192.168.1.177:1985/api/frame.jpeg",
        lit "http://192.168.1.177:1985/api/streams", lit "eufy:sixteen-or-more!"⟩ := by
    constructor <;> decide +kernel
  exact hdiverted.updates

end EufyNvr.Endpoint
