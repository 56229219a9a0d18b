import EufyNvr.Lib.LittleEndian
import EufyNvr.Lib.Stringify
import EufyNvr.Stream.Frame

/-!
# Commands

The messages that `eufy_stream.py` builds for the NVR, and the one of
`sctp_oracle.js` that is meant to be the same. Read by the layout of the
header that the protocol gives, each is the request it was built from.
-/

namespace EufyNvr.Stream

open Json

variable {userId v : Json} {channels : List Int} {frame frame' body : Bytes}
  {channelId isResponse : Nat}

/-- The sixteen bytes before the parameters, of command 1350. The length fits
in four bytes, or `struct.pack_into` raises. -/
def header (paramLen channelId isResponse : Nat) : Bytes :=
  [88, 90, 89, 72] ++ (littleEndian 2 1350 ++ (littleEndian 4 paramLen ++
    [0, 0, UInt8.ofNat channelId, 0, UInt8.ofNat isResponse, 2]))

def framed (channelId isResponse : Nat) (body : Bytes) : Option Bytes :=
  if body.length < 256 ^ 4 then some (header body.length channelId isResponse ++ body) else none

/-- `json.dumps(...).encode()`, without spaces. -/
def encoded (request : Json) : Bytes := (dumps compact request).map UInt8.ofNat

def envelope (userId : Json) (cmd : Int) (payload : Json) : Json :=
  .obj [(lit "account_id", userId), (lit "cmd", .int cmd), (lit "payload", payload)]

def openLiveRequest (userId : Json) (channels : List Int) : Json :=
  envelope userId 1103 (.obj [(lit "channel_info", .obj [(lit "array_size", .int channels.length),
    (lit "channel_array", .arr (channels.map .int))])])

/-- `build_openlive` -/
def buildOpenlive (userId : Json) (channels : List Int) : Option Bytes :=
  framed 255 0 (encoded (openLiveRequest userId channels))

def channelEntry (i : Nat) (c : Int) : Json :=
  .obj [(lit "index", .int i), (lit "chn", .int c), (lit "sensor", .int 1)]

def startStreamRequest (userId : Json) (channels : List Int) : Json :=
  envelope userId 1003 (.obj [(lit "ClientOS", .str (lit "WEB")), (lit "entrytype", .int 1),
    (lit "camera_type", .int 0), (lit "streamtype", .int 2), (lit "key", .str []),
    (lit "msg_id", .str []), (lit "audio_chn", .int (-1)), (lit "stitch_mode", .int 1),
    (lit "chn_list", .arr (channels.mapIdx channelEntry))])

/-- `build_startstream` -/
def buildStartstream (userId : Json) (channels : List Int) (streamId : Nat) : Option Bytes :=
  framed 255 (streamId % 256) (encoded (startStreamRequest userId channels))

/-- `build_cmd` -/
def buildCmd (userId : Json) (cmd : Int) (payload : Json) (channelId : Nat) : Option Bytes :=
  framed (channelId % 256) 0
    (encoded (envelope userId cmd (if truthy payload then payload else .obj [])))

/-- `build_devicelist` -/
def buildDevicelist (userId : Json) : Option Bytes := buildCmd userId 9100 (.obj []) 255

/-- `buildOpenLive` of the oracle, for a user id and channels that JavaScript
keeps as they are. A text that `JSON.stringify` writes has no surrogates. -/
def oracleOpenLive (userId : Json) (channels : List Int) : Option Bytes :=
  ((stringify (openLiveRequest userId channels)).bind Utf8.encode).bind (framed 255 0)

/-- The bytes of a command of the engine. -/
def Command.bytes (userId : Json) (channels : List Int) : Command → Option Bytes
  | .openLive => buildOpenlive userId channels
  | .startStream => buildStartstream userId channels 1
  | .deviceList => buildDevicelist userId
  | .closeLive => buildCmd userId 1004 (.obj []) 255

-- ---------------------------------------------------------------------------
-- Reading a message
-- ---------------------------------------------------------------------------

/-- What a message says: the header after its mark and its length, and the
parameters. -/
structure XzyhMessage where
  commandId : Int
  segment : Nat
  channelId : Nat
  signCode : Nat
  isResponse : Nat
  devType : Nat
  request : Json
  deriving DecidableEq

def byteAt (frame : Bytes) (i : Nat) : Nat := (frame[i]?.getD 0).toNat

/-- The parameters take up the rest of the message, and are JSON. -/
def readMessage (frame : Bytes) : Option XzyhMessage :=
  if isXzyh frame ∧ fromLittleEndian ((frame.drop 6).take 4) = (payload frame).length then
    ((Utf8.decode (payload frame)).bind loads).map
      (⟨cmdid frame, fromLittleEndian ((frame.drop 10).take 2), byteAt frame 12, byteAt frame 13,
        byteAt frame 14, byteAt frame 15, ·⟩)
  else none

theorem readMessage_framed (h : framed channelId isResponse body = some frame)
    (hbody : (Utf8.decode body).bind loads = some v) :
    readMessage frame = some ⟨1350, 0, channelId % 256, 0, isResponse % 256, 2, v⟩ := by
  unfold framed at h
  split at h
  · rename_i hlen
    cases h
    have hparts : header body.length channelId isResponse ++ body =
        88 :: 90 :: 89 :: 72 :: 70 :: 5 :: (littleEndian 4 body.length ++
          (0 :: 0 :: UInt8.ofNat channelId :: 0 :: UInt8.ofNat isResponse :: 2 :: body)) := by
      simp [header, littleEndian]
    have hpayload : payload (header body.length channelId isResponse ++ body) = body := by
      rw [hparts]
      rfl
    have hlength : fromLittleEndian (((header body.length channelId isResponse ++ body).drop 6).take
        4) = body.length := by
      rw [hparts]
      exact fromLittleEndian_of_lt hlen
    rw [readMessage, hpayload, if_pos ⟨by rw [hparts]; rfl, hlength⟩, hbody, hparts]
    simp [cmdid, isXzyh, byteAt, littleEndian, fromLittleEndian]
  · cases h

-- ---------------------------------------------------------------------------
-- The requests
-- ---------------------------------------------------------------------------

theorem decode_encoded (h : Sound v) : (Utf8.decode (encoded v)).bind loads = some v := by
  have hascii : Ascii (dumps compact v) := ascii_dump v 0 h
  rw [encoded, Utf8.decode_encode (Utf8.encode_ascii hascii), Option.bind_some, loads_dumps_self h]

theorem length_le_dumpItems (st : Style) (level : Nat) (vs : List Json) :
    vs.length ≤ (dumpItems st level vs).length := by
  induction vs with
  | nil => exact Nat.zero_le _
  | cons v vs ih =>
    simp only [dumpItems, List.length_cons, List.length_append]
    omega

theorem length_le_dump (st : Style) (level : Nat) (vs : List Json) :
    vs.length ≤ (dump st level (.arr vs)).length := by
  cases vs with
  | nil => exact Nat.zero_le _
  | cons v vs =>
    have := length_le_dumpItems st (level + 1) vs
    simp only [dump, List.length_cons, List.length_append]
    omega

/-- What fits in four bytes is printed. -/
theorem sound_int {i : Int} (h : i.natAbs < 256 ^ 4) : Sound (.int i) := by
  have hdigits : (numeral i.natAbs).length ≤ 10 := by
    rw [numeral, List.length_map]
    exact (Nat.length_toDigits_le_iff (by decide) (by decide)).mpr (by omega)
  exact hdigits.trans (by decide)

theorem sound_envelope {cmd : Int} (hu : Sound userId) (hcmd : Sound (.int cmd)) (hv : Sound v) :
    Sound (envelope userId cmd v) := by
  have hkeys : [lit "account_id", lit "cmd", lit "payload"].Nodup ∧
      ∀ k ∈ [lit "account_id", lit "cmd", lit "payload"], Printable k := by decide
  exact sound_obj hkeys.1 hkeys.2 (by simp [hu, hcmd, hv])

theorem sound_openLiveRequest (hu : Sound userId) (hc : ∀ c ∈ channels, Sound (.int c))
    (hlen : channels.length < 256 ^ 4) : Sound (openLiveRequest userId channels) := by
  have hkeys : [lit "array_size", lit "channel_array"].Nodup ∧
      ∀ k ∈ [lit "array_size", lit "channel_array"], Printable k := by decide
  have harray : Sound (.arr (channels.map .int)) := soundItems_iff.mpr (List.forall_mem_map.mpr hc)
  have hsize : Sound (.int channels.length) := sound_int hlen
  have hinfo := @sound_obj [(lit "array_size", .int channels.length),
    (lit "channel_array", .arr (channels.map .int))] hkeys.1 hkeys.2
      (by simp [hsize, harray])
  have hkey : ∀ k ∈ [lit "channel_info"], Printable k := by decide
  exact sound_envelope hu (sound_int (by decide)) (sound_obj (List.nodup_singleton _) hkey
    (by simpa using hinfo))

theorem sound_channelEntry {i : Nat} {c : Int} (hi : i < 256 ^ 4) (hc : Sound (.int c)) :
    Sound (channelEntry i c) := by
  have hkeys : [lit "index", lit "chn", lit "sensor"].Nodup ∧
      ∀ k ∈ [lit "index", lit "chn", lit "sensor"], Printable k := by decide
  have hindex : Sound (.int i) := sound_int hi
  have hone : Sound (.int 1) := sound_int (by decide)
  exact sound_obj hkeys.1 hkeys.2 (by simp [hindex, hc, hone])

theorem sound_startStreamRequest (hu : Sound userId) (hc : ∀ c ∈ channels, Sound (.int c))
    (hlen : channels.length < 256 ^ 4) : Sound (startStreamRequest userId channels) := by
  have hkeys : [lit "ClientOS", lit "entrytype", lit "camera_type", lit "streamtype", lit "key",
      lit "msg_id", lit "audio_chn", lit "stitch_mode", lit "chn_list"].Nodup ∧
      ∀ k ∈ [lit "ClientOS", lit "entrytype", lit "camera_type", lit "streamtype", lit "key",
        lit "msg_id", lit "audio_chn", lit "stitch_mode", lit "chn_list"], Printable k := by decide
  have hlist : Sound (.arr (channels.mapIdx channelEntry)) := soundItems_iff.mpr fun v hv => by
    obtain ⟨i, hi, rfl⟩ := List.mem_mapIdx.mp hv
    exact sound_channelEntry (hi.trans hlen) (hc _ (List.getElem_mem hi))
  refine sound_envelope hu (sound_int (by decide)) (sound_obj hkeys.1 hkeys.2 ?_)
  have hweb : Sound (.str (lit "WEB")) := Unpaired.of_printable (by decide)
  have hempty : Sound (.str []) := Unpaired.of_printable (by decide)
  have hints : ∀ i ∈ [1, 0, 2, -1], Sound (.int i) := fun i hi => sound_int (by
    revert i
    decide)
  simp only [List.forall_mem_cons, List.not_mem_nil, false_imp_iff, implies_true, and_true] at hints
  simp [hweb, hempty, hints, hlist]

-- ---------------------------------------------------------------------------
-- What is read back
-- ---------------------------------------------------------------------------

theorem length_of_framed (h : framed channelId isResponse body = some frame) :
    body.length < 256 ^ 4 := by
  unfold framed at h
  split at h
  · assumption
  · cases h

theorem length_openLive (userId : Json) (channels : List Int) :
    channels.length ≤ (encoded (openLiveRequest userId channels)).length := by
  have hlen := length_le_dump compact (0 + 1 + 1 + 1) (channels.map .int)
  simp only [List.length_map] at hlen
  simp only [encoded, openLiveRequest, envelope, dumps, dump, dumpMembers, List.length_map,
    List.length_cons, List.length_append]
  omega

theorem length_startStream (userId : Json) (channels : List Int) :
    channels.length ≤ (encoded (startStreamRequest userId channels)).length := by
  have hlen := length_le_dump compact (0 + 1 + 1) (channels.mapIdx channelEntry)
  simp only [List.length_mapIdx] at hlen
  simp only [encoded, startStreamRequest, envelope, dumps, dump, dumpMembers, List.length_map,
    List.length_cons, List.length_append]
  omega

/-- The request of a command. -/
def Command.request (userId : Json) (channels : List Int) : Command → Json
  | .openLive => openLiveRequest userId channels
  | .startStream => startStreamRequest userId channels
  | .deviceList => envelope userId 9100 (.obj [])
  | .closeLive => envelope userId 1004 (.obj [])

/-- What a command says: for all channels, and `startStream` for its stream. -/
def Command.message (userId : Json) (channels : List Int) (c : Command) : XzyhMessage :=
  ⟨1350, 0, 255, 0, if c = .startStream then 1 else 0, 2, c.request userId channels⟩

theorem readMessage_encoded (hv : Sound v)
    (h : framed channelId isResponse (encoded v) = some frame) :
    readMessage frame = some ⟨1350, 0, channelId % 256, 0, isResponse % 256, 2, v⟩ :=
  readMessage_framed h (decode_encoded hv)

theorem sound_command (hu : Sound userId) (hc : ∀ c ∈ channels, Sound (.int c)) {c : Command}
    (h : c.bytes userId channels = some frame) : Sound (c.request userId channels) := by
  have hempty : Sound (.obj []) := ⟨List.nodup_nil, trivial⟩
  cases c with
  | openLive =>
    exact sound_openLiveRequest hu hc ((length_openLive _ _).trans_lt (length_of_framed h))
  | startStream =>
    exact sound_startStreamRequest hu hc ((length_startStream _ _).trans_lt (length_of_framed h))
  | deviceList => exact sound_envelope hu (sound_int (by decide)) hempty
  | closeLive => exact sound_envelope hu (sound_int (by decide)) hempty

theorem readMessage_command (hu : Sound userId) (hc : ∀ c ∈ channels, Sound (.int c)) {c : Command}
    (h : c.bytes userId channels = some frame) :
    readMessage frame = some (c.message userId channels) := by
  have hrequest := sound_command hu hc h
  cases c <;> exact readMessage_encoded hrequest h

/-- The command code is in the request. -/
theorem Command.request_cmd (userId : Json) (channels : List Int) (c : Command) :
    ∃ v, c.request userId channels = envelope userId c.code v := by
  cases c <;> exact ⟨_, rfl⟩

theorem readMessage_oracle (hv : Sound (openLiveRequest userId channels))
    (h : oracleOpenLive userId channels = some frame) :
    readMessage frame = some (Command.openLive.message userId channels) := by
  obtain ⟨b, hb, hframe⟩ := Option.bind_eq_some_iff.mp h
  obtain ⟨text, htext, hb⟩ := Option.bind_eq_some_iff.mp hb
  refine readMessage_framed hframe ?_
  rw [Utf8.decode_encode hb, Option.bind_some, loads_stringify hv htext]
  rfl

/-- Every command that is built says what was asked for, with its code. Of
what JavaScript keeps, the oracle and the engine build one message. -/
theorem commands_read_back (hu : Sound userId) (hc : ∀ c ∈ channels, Sound (.int c)) :
    (∀ (c : Command) (frame : Bytes), c.bytes userId channels = some frame →
      readMessage frame = some (c.message userId channels) ∧
        ∃ payload, (c.message userId channels).request = envelope userId c.code payload) ∧
    ∀ frame frame', buildOpenlive userId channels = some frame →
      oracleOpenLive userId channels = some frame' → readMessage frame' = readMessage frame := by
  refine ⟨fun c frame h => ⟨readMessage_command hu hc h, c.request_cmd userId channels⟩,
    fun frame frame' h h' => ?_⟩
  have hrequest := sound_command (c := .openLive) hu hc h
  rw [readMessage_oracle hrequest h', readMessage_command (c := .openLive) hu hc h]

/-- A user id that is not ASCII, which only the engine escapes. -/
theorem commands_read_back_escaped : ∃ frame frame',
    buildOpenlive (.str [0xe9]) [3] = some frame ∧ oracleOpenLive (.str [0xe9]) [3] = some frame' ∧
      frame' ≠ frame ∧ readMessage frame' = readMessage frame := by
  have hu : Sound (.str [0xe9]) := .of_no_high (by decide)
  have hc : ∀ c ∈ [(3 : Int)], Sound (.int c) := fun c hc => sound_int (by revert c; decide)
  have hread := (commands_read_back hu hc).2
  cases h : buildOpenlive (.str [0xe9]) [3] with
  | none => exact absurd h (by decide +kernel)
  | some frame =>
    cases h' : oracleOpenLive (.str [0xe9]) [3] with
    | none => exact absurd h' (by decide +kernel)
    | some frame' =>
      refine ⟨frame, frame', rfl, rfl, ?_, hread frame frame' h h'⟩
      rintro rfl
      exact absurd (h'.trans h.symm) (by decide +kernel)

end EufyNvr.Stream
