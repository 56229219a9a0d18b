import EufyNvr.Lib.Utf8Lossy
import EufyNvr.Lib.Values
import EufyNvr.Stream.Acknowledgement
import EufyNvr.Stream.Progress

/-!
# Frames

`on_frame` and `handle_devlist` of `eufy_stream.py` over the bytes of a
frame: what they log and record, what becomes of the state they share, and
the exceptions that leave them. The log, the record of frames and the
manifest can be written.
-/

namespace EufyNvr.Stream

open Json

variable {buf : Bytes} {text : Str}

/-- What leaves the functions: a method that the value does not have, or a
loop over a value that has no items. -/
inductive Exc
  | attributeError
  | typeError
  deriving DecidableEq

/-- The constants of the module. -/
structure Constants where
  discover : Bool
  stationSn : Json
  camerasJson : Str

/-- What `on_frame` finds around it: the time, the return code of an ffmpeg
that has exited, and the exception of the sink, by its name and its text. -/
structure Surroundings where
  now : Int
  ffmpegExit : Option Int
  sinkError : Option (String × Str)

/-- The part of `state` that frames are about. -/
structure FrameState where
  framesSeen : Nat
  progress : Progress
  st1032 : Nat
  fatalReason : Option String
  nvrIp : Option Str
  discovered : Bool

structure Outcome where
  state : FrameState
  log : List Str
  /-- The lines of the record of frames. -/
  records : List Json
  /-- The manifest that has been put in place. -/
  manifest : Option Json
  raised : Option Exc

/-- A call that has done nothing yet. -/
def FrameState.quiet (s : FrameState) : Outcome := ⟨s, [], [], none, none⟩

def isXzyh (buf : Bytes) : Bool := buf.take 4 = [88, 90, 89, 72]

/-- `cmdid` -/
def cmdid (buf : Bytes) : Int :=
  if isXzyh buf then
    match buf with
    | _ :: _ :: _ :: _ :: low :: high :: _ => low.toNat + 256 * high.toNat
    | _ => -1
  else -1

def payload (buf : Bytes) : Bytes := if isXzyh buf then buf.drop 16 else buf

def isVideo (buf : Bytes) : Bool := cmdid buf ∈ [1300, 1301, 1303]

def bytesHex (bs : Bytes) : Str := lit (hexText bs)

-- ---------------------------------------------------------------------------
-- Video
-- ---------------------------------------------------------------------------

def videoRecord (f : VideoFrame) (n : Nat) : Json :=
  .obj [(lit "video", .bool true), (lit "cmd", .int f.cmdid), (lit "link", .int f.link),
    (lit "n", .int n), (lit "plen", .int f.payload.length),
    (lit "nal", .str (bytesHex (f.payload.take 24)))]

def onVideoFrame (e : Surroundings) (s : FrameState) (f : VideoFrame) : Outcome :=
  match e.ffmpegExit with
  | some rc =>
    if s.fatalReason = none then
      { FrameState.quiet { s with fatalReason := some s!"ffmpeg exited rc={rc}" } with
        log := [lit s!"FFMPEG_EXIT rc={rc}"] }
    else s.quiet
  | none =>
    let p := s.progress.count f
    match e.sinkError with
    | some (name, text) =>
      { FrameState.quiet { s with
          progress := p, fatalReason := some s!"video sink failed ({name})" } with
        log := [lit "sink write err: " ++ text] }
    | none =>
      let r := p.texts e.now f
      { FrameState.quiet { s with progress := r.1 } with
        log := r.2.map lit
        records := if p.vframes ≤ 20 then [videoRecord f p.vframes] else [] }

-- ---------------------------------------------------------------------------
-- Statuses of channels
-- ---------------------------------------------------------------------------

def onStatus1032 (s : FrameState) (buf : Bytes) : Outcome :=
  let chid : Int := match buf[12]? with
    | some b => b.toNat
    | none => -1
  let val := if 4 ≤ (payload buf).length then .int (readInt32LE (payload buf)) else Json.null
  let shown := match val with
    | .int n => intText n
    | _ => lit "None"
  { FrameState.quiet (if s.st1032 < 12 then { s with st1032 := s.st1032 + 1 } else s) with
    log := if s.st1032 < 12 then
        [lit "status cmd1032 ch=" ++ intText chid ++ lit " val=" ++ shown]
      else []
    records := [.obj [(lit "status1032", .bool true), (lit "channel", .int chid),
      (lit "val", val)]] }

-- ---------------------------------------------------------------------------
-- Device lists
-- ---------------------------------------------------------------------------

/-- `obj.get(...)` -/
def getattr (v : Json) : Except Exc (List (Str × Json)) :=
  match v with
  | .obj ms => .ok ms
  | _ => .error .attributeError

/-- What `for` goes through: the items, the characters, or the keys. -/
def iterate (v : Json) : Except Exc (List Json) :=
  match v with
  | .arr items => .ok items
  | .str s => .ok (s.map fun c => .str [c])
  | .obj ms => .ok (ms.map fun m => .str m.1)
  | _ => .error .typeError

/-- `first or second or []` -/
def firstTrue (first second : Option Json) : Json :=
  ((first.filter truthy).or (second.filter truthy)).getD (.arr [])

def member (ms : List (Str × Json)) (key : Str) : Json := (get? ms key).getD .null

structure Camera where
  channel : Json
  name : Json
  sn : Json
  status : Json
  devType : Json

def camera (d : Json) : Except Exc Camera := do
  let ms ← getattr d
  return ⟨member ms (lit "ch"), member ms (lit "name"), member ms (lit "sn"),
    member ms (lit "status"), member ms (lit "dev_type")⟩

/-- The cameras of a reply. -/
def cameras (reply : Json) : Except Exc (List Camera) := do
  let ms ← getattr reply
  let ps ← getattr ((get? ms (lit "payload")).getD (.obj []))
  let items ← iterate (firstTrue (get? ps (lit "dev_list")) (get? ms (lit "dev_list")))
  items.mapM camera

def Camera.toJson (c : Camera) : Json :=
  .obj [(lit "channel", c.channel), (lit "name", c.name), (lit "sn", c.sn),
    (lit "status", c.status), (lit "dev_type", c.devType)]

def manifest (k : Constants) (s : FrameState) (cams : List Camera) : Json :=
  .obj [(lit "nvr_sn", k.stationSn), (lit "nvr_ip", s.nvrIp.elim .null .str),
    (lit "cameras", .arr (cams.map Camera.toJson))]

def Camera.line (I : Interpreter) (c : Camera) : Str :=
  lit "   ch " ++ I.str c.channel ++ lit ": " ++ I.repr c.name ++ lit " (sn " ++ I.str c.sn ++
    lit ", status " ++ I.str c.status ++ lit ")"

def discoveredLine (I : Interpreter) (k : Constants) (s : FrameState) (cams : List Camera) : Str :=
  lit "DISCOVERED nvr_ip=" ++ s.nvrIp.getD (lit "None") ++ lit " sn=" ++ I.str k.stationSn ++
    lit ": " ++ numeral cams.length ++ lit " camera(s)"

/-- `handle_devlist` -/
def handleDevlist (I : Interpreter) (k : Constants) (s : FrameState) (text : Str) : Outcome :=
  match I.parse text with
  | .error e => { s.quiet with log := [lit "devlist parse err: " ++ e] }
  | .ok reply =>
    match cameras reply with
    | .error e => { s.quiet with raised := some e }
    | .ok cams =>
      { FrameState.quiet { s with discovered := true } with
        log := discoveredLine I k s cams :: cams.map (Camera.line I) ++
          [lit "wrote " ++ k.camerasJson]
        manifest := some (manifest k s cams) }

-- ---------------------------------------------------------------------------
-- All frames
-- ---------------------------------------------------------------------------

/-- The text of a control reply. -/
def replyText (buf : Bytes) : Str := Utf8.decodeReplace ((payload buf).takeWhile (· ≠ 0))

def controlLine (link : Nat) (buf : Bytes) : Str :=
  lit "CTRL cmd=" ++ intText (cmdid buf) ++ lit " link=" ++ numeral link ++ lit " len=" ++
    numeral buf.length ++ lit " " ++ (replyText buf).take 170

def controlRecord (link : Nat) (buf : Bytes) : Json :=
  .obj [(lit "ctrl", .bool true), (lit "cmd", .int (cmdid buf)), (lit "link", .int link),
    (lit "len", .int buf.length), (lit "txt", .str ((replyText buf).take 600))]

/-- A device list is waited for, and the text has one. -/
def isDevlist (k : Constants) (s : FrameState) (buf : Bytes) : Bool :=
  k.discover && lit "\"dev_list\"" <:+: replyText buf && !s.discovered

def onControl (I : Interpreter) (k : Constants) (s : FrameState) (link : Nat) (buf : Bytes) :
    Outcome :=
  let o := if isDevlist k s buf then handleDevlist I k s (replyText buf)
    else { s.quiet with log := [controlLine link buf] }
  if o.raised.isNone then { o with records := [controlRecord link buf] } else o

/-- `on_frame` -/
def onFrame (I : Interpreter) (k : Constants) (e : Surroundings) (s : FrameState) (link : Nat)
    (buf : Bytes) : Outcome :=
  let s := { s with framesSeen := s.framesSeen + 1 }
  if isVideo buf then onVideoFrame e s ⟨(cmdid buf).toNat, link, payload buf⟩
  else if cmdid buf = 1032 then onStatus1032 s buf
  else onControl I k s link buf

end EufyNvr.Stream
