import EufyNvr.Stream.Candidates
import EufyNvr.Stream.Commands
import EufyNvr.Stream.Described

/-!
# What the engine says

The messages of `Signal`, and what the other end reads of them over a run of
the handler: with `parse_msg`, each is the request it was made for, bound to the
session and to the account.
-/

namespace EufyNvr.Stream

open Json Hex Search

variable {U : Unicode} {md5 : Bytes → Bytes} {sdp text : Str} {own : LocalIce} {c : Nat}

/-- `Signal`, with the serial number of the station that its messages name. -/
structure Signal where
  sid : Str
  authToken : Str
  userId : Str
  channel : Int
  callType : Str
  stationSn : Str

/-- When a message is sent, and the UUID it is given. -/
structure Moment where
  now : Int
  uuid : Str

/-- What `call`, `ack`, `send_sdp` and `send_candidate` send. -/
inductive Request
  | call
  | ack
  | sdp (value : Str)
  | candidate (cand : Str)
  deriving DecidableEq

/-- `signaling_account`, which raises for `none`. -/
def signalingAccount (md5 : Bytes → Bytes) (channel : Int) (userId : Str) (timestamp : Int) :
    Option Str :=
  (Utf8.encode (intText channel ++ userId ++ intText timestamp)).map fun b => hex (md5 b)

namespace Request

def dataType (callType : Str) : Request → Str
  | .call => callType
  | .ack => lit "ack"
  | .sdp _ | .candidate _ => lit "info"

def members : Request → List (Str × Json)
  | .call | .ack => []
  | .sdp value => [(lit "sdp", .str value)]
  | .candidate cand => [(lit "candidate", .str cand)]

end Request

/-- `Signal.send` -/
def envelopeOf (msgid : Str) (inner : Json) : Str :=
  dumps spaced (.obj [(lit "msgid", .str msgid), (lit "data", .str (dumps spaced inner))])

namespace Signal

variable (signal : Signal)

def joinInner (t : Moment) : Json :=
  .obj [(lit "code", .int 200), (lit "action", .int 1), (lit "data", .str signal.sid),
    (lit "sn", .str signal.stationSn), (lit "source", .str (lit "WEB")), (lit "ts", .int t.now)]

def join (t : Moment) : Str := envelopeOf (lit "0") (signal.joinInner t)

/-- The data of a request, with the proof of the account. -/
def data (t : Moment) (account : Str) (r : Request) : Json :=
  .obj ((lit "timestamp", .int t.now) :: (lit "account", .str account) :: r.members)

def inner (t : Moment) (account : Str) (r : Request) : Json :=
  .obj [(lit "code", .int 200), (lit "action", .int 3), (lit "sessionId", .str signal.sid),
    (lit "sn", .str signal.stationSn), (lit "subSn", .str []), (lit "channelId", .int signal.channel),
    (lit "isResponse", .int 0), (lit "dataType", .str (r.dataType signal.callType)),
    (lit "source", .str (lit "WEB")), (lit "ts", .int t.now),
    (lit "data", .str (dumps spaced (data t account r)))]

/-- `action3`, which raises for `none`. -/
def action3 (md5 : Bytes → Bytes) (t : Moment) (r : Request) : Option Str :=
  (signalingAccount md5 signal.channel signal.userId t.now).map fun account =>
    envelopeOf (signal.authToken ++ lit "_" ++ t.uuid) (signal.inner t account r)

/-- Texts that hold no surrogate pair as two characters, and numbers that can be read. -/
structure Legible : Prop where
  sid : Unpaired signal.sid
  stationSn : Unpaired signal.stationSn
  callType : Unpaired signal.callType
  channel : Sound (.int signal.channel)

end Signal

-- ---------------------------------------------------------------------------
-- One message
-- ---------------------------------------------------------------------------

theorem unpaired_dumps {v : Json} (h : Sound v) : Unpaired (dumps spaced v) :=
  .of_printable (printable_dump spaced_oneLine v 0 h)

theorem decoded_dumps {ms : List (Str × Json)} {v : Json}
    (hget : get? ms (lit "data") = some (.str (dumps spaced v))) (h : Sound v) : decoded ms = v := by
  simp only [decoded, hget, loads_dumps_self h, Option.getD_some]

theorem parseMsg_envelope {msgid : Str} {ms : List (Str × Json)} (hmsgid : Unpaired msgid)
    (h : Sound (.obj ms)) :
    parseMsg (envelopeOf msgid (.obj ms)) = some (.obj ms, decoded ms) := by
  have hkeys : [lit "msgid", lit "data"].Nodup ∧
      ∀ k ∈ [lit "msgid", lit "data"], Printable k := by decide
  have hmsgid : Sound (.str msgid) := hmsgid
  have hdata : Sound (.str (dumps spaced (.obj ms))) := unpaired_dumps h
  have houter := @sound_obj [(lit "msgid", .str msgid), (lit "data", .str (dumps spaced (.obj ms)))]
    hkeys.1 hkeys.2 (by simp [hmsgid, hdata])
  have hdecoded := decoded_dumps (rfl : get? [(lit "msgid", .str msgid),
    (lit "data", .str (dumps spaced (.obj ms)))] (lit "data") = _) h
  rw [parseMsg, envelopeOf, loads_dumps_self houter]
  simp only [hdecoded]

theorem sound_text {s : Str} (h : Printable s) : Sound (.str s) := Unpaired.of_printable h

/-- A request whose texts can be read back. -/
def Request.Legible : Request → Prop
  | .call | .ack => True
  | .sdp value => Unpaired value
  | .candidate cand => Unpaired cand

theorem Request.Legible.members {r : Request} (h : r.Legible) : ∀ m ∈ r.members, Sound m.2 := by
  cases r with
  | call | ack => exact nofun
  | sdp value =>
    intro m hm
    rw [List.mem_singleton.mp hm]
    exact h
  | candidate cand =>
    intro m hm
    rw [List.mem_singleton.mp hm]
    exact h

theorem sound_data {t : Moment} {r : Request} (b : Bytes) (ht : Sound (.int t.now))
    (hr : r.Legible) : Sound (Signal.data t (hex b) r) := by
  have hall : ∀ ks ∈ [[], [lit "sdp"], [lit "candidate"]],
      (lit "timestamp" :: lit "account" :: ks).Nodup ∧
      ∀ k ∈ lit "timestamp" :: lit "account" :: ks, Printable k := by decide
  have hmem : r.members.map Prod.fst ∈ [[], [lit "sdp"], [lit "candidate"]] := by
    cases r <;> simp [Request.members]
  have hkeys := hall _ hmem
  refine sound_obj hkeys.1 hkeys.2 ?_
  intro m hm
  rcases List.mem_cons.mp hm with rfl | hm
  · exact ht
  · rcases List.mem_cons.mp hm with rfl | hm
    · exact sound_hex b
    · exact hr.members m hm

theorem unpaired_dataType {signal : Signal} (h : signal.Legible) (r : Request) :
    Unpaired (r.dataType signal.callType) := by
  have hprint : Printable (lit "ack") ∧ Printable (lit "info") := by decide
  cases r with
  | call => exact h.callType
  | ack => exact .of_printable hprint.1
  | sdp _ | candidate _ => exact .of_printable hprint.2

theorem sound_inner {signal : Signal} {t : Moment} {r : Request} (b : Bytes) (h : signal.Legible)
    (ht : Sound (.int t.now)) (hr : r.Legible) : Sound (signal.inner t (hex b) r) := by
  have hkeys : [lit "code", lit "action", lit "sessionId", lit "sn", lit "subSn", lit "channelId",
      lit "isResponse", lit "dataType", lit "source", lit "ts", lit "data"].Nodup ∧
      ∀ k ∈ [lit "code", lit "action", lit "sessionId", lit "sn", lit "subSn", lit "channelId",
        lit "isResponse", lit "dataType", lit "source", lit "ts", lit "data"], Printable k := by
    decide
  have hints : ∀ i ∈ [200, 3, 0], Sound (.int i) := fun i hi => sound_int (by
    revert i
    decide)
  simp only [List.forall_mem_cons, List.not_mem_nil, false_imp_iff, implies_true, and_true] at hints
  have hsid : Sound (.str signal.sid) := h.sid
  have hsn : Sound (.str signal.stationSn) := h.stationSn
  have hempty : Sound (.str []) := sound_text (by decide)
  have hweb : Sound (.str (lit "WEB")) := sound_text (by decide)
  have hchannel := h.channel
  have htype : Sound (.str (r.dataType signal.callType)) := unpaired_dataType h r
  have hdata : Sound (.str (dumps spaced (Signal.data t (hex b) r))) :=
    unpaired_dumps (sound_data b ht hr)
  exact sound_obj hkeys.1 hkeys.2
    (by simp [hints, hsid, hsn, hempty, hweb, hchannel, htype, hdata, ht])

/-- A request is read back with the proof of the account it was sent for. -/
theorem parseMsg_action3 {signal : Signal} {t : Moment} {r : Request} (h : signal.Legible)
    (hmsgid : Unpaired (signal.authToken ++ lit "_" ++ t.uuid)) (ht : Sound (.int t.now))
    (hr : r.Legible) (hw : signal.action3 md5 t r = some text) :
    ∃ account, signalingAccount md5 signal.channel signal.userId t.now = some account ∧
      parseMsg text = some (signal.inner t account r, Signal.data t account r) := by
  obtain ⟨account, haccount, rfl⟩ := Option.map_eq_some_iff.mp hw
  obtain ⟨b, -, rfl⟩ := Option.map_eq_some_iff.mp haccount
  have hread := parseMsg_envelope hmsgid (sound_inner (md5 b) h ht hr)
  refine ⟨hex (md5 b), haccount, hread.trans ?_⟩
  rw [decoded_dumps rfl (sound_data (md5 b) ht hr)]
  rfl

theorem sound_joinInner {signal : Signal} {t : Moment} (h : signal.Legible)
    (ht : Sound (.int t.now)) : Sound (signal.joinInner t) := by
  have hkeys : [lit "code", lit "action", lit "data", lit "sn", lit "source", lit "ts"].Nodup ∧
      ∀ k ∈ [lit "code", lit "action", lit "data", lit "sn", lit "source", lit "ts"],
        Printable k := by decide
  have hints : ∀ i ∈ [200, 1], Sound (.int i) := fun i hi => sound_int (by
    revert i
    decide)
  simp only [List.forall_mem_cons, List.not_mem_nil, false_imp_iff, implies_true, and_true] at hints
  have hsid : Sound (.str signal.sid) := h.sid
  have hsn : Sound (.str signal.stationSn) := h.stationSn
  have hweb : Sound (.str (lit "WEB")) := sound_text (by decide)
  exact sound_obj hkeys.1 hkeys.2 (by simp [hints, hsid, hsn, hweb, ht])

/-- The session that is joined is the session of the requests. -/
theorem parseMsg_join {signal : Signal} {t : Moment} (h : signal.Legible)
    (ht : Sound (.int t.now)) : ∃ d, parseMsg (signal.join t) = some (signal.joinInner t, d) :=
  ⟨_, parseMsg_envelope (.of_printable (by decide)) (sound_joinInner h ht)⟩

end EufyNvr.Stream
