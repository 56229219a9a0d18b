import EufyNvr.Basic

/-!
# The protocol engine

One process of `eufy_stream.py`, as a machine over the events it reacts to:
the signaling socket, the peer connection and its channels, frames from the
oracle, ffmpeg, its own timers, and interrupts. The steps are those of
`main`, of the detached `start_sequence` task, of `on_frame` and of the
process exit. Cryptography, SDP and the contents of frames are not part of
it: a label says which case a frame or a message is.
-/

namespace EufyNvr.Stream

/-- The commands the engine pushes to the NVR. -/
inductive Command
  | openLive
  | startStream
  | deviceList
  | closeLive
  deriving DecidableEq

def Command.code : Command → Nat
  | .openLive => 1103
  | .startStream => 1003
  | .deviceList => 9100
  | .closeLive => 1004

inductive Event
  | connected
  | commandChannelOpen
  | launched
  | pushed (command : Command)
  deriving DecidableEq

/-- Where `main` is. -/
inductive Phase
  | bootstrap
  | receiving
  | closing (due : Int)
  | teardown
  | exited (rc : Int)
  deriving DecidableEq

/-- The detached `start_sequence` task. -/
inductive Sequence
  | absent
  | scheduled
  | paused (due : Int)
  | finished
  deriving DecidableEq

/-- What the process is started with. -/
structure Mode where
  discover : Bool
  deriving DecidableEq

structure Engine where
  now : Int
  phase : Phase
  /-- `main` has been cancelled by an interrupt. -/
  interrupted : Bool
  connected : Bool
  cmdDcOpen : Bool
  started : Bool
  shuttingDown : Bool
  closeSent : Bool
  closeAck : Bool
  /-- `chans["WebrtcDataChannel"]`, with whether it is open. -/
  channel : Option Bool
  sequence : Sequence
  vframes : Nat
  /-- Frames that the sink took. -/
  written : Nat
  fatalReason : Option String
  discovered : Bool
  /-- The camera manifest has been replaced. -/
  replaced : Bool
  trace : List Event

/-- How `on_frame` fares with a video frame. -/
inductive Sink
  | ffmpegExited (rc : Int)
  | failed (error : String)
  | written
  deriving DecidableEq

/-- How `handle_devlist` fares with a device-list reply. -/
inductive DeviceList
  | unreadable
  | failed
  | replacedThenFailed
  | done
  deriving DecidableEq

inductive Label
  | tick (d : Int)
  | receiving
  | answer
  | connected
  | channelOpen (own : Bool)
  | channelClosed
  | sequence
  | video (sink : Sink)
  | deviceList (outcome : DeviceList)
  | status (code : Int)
  | ffmpegExits (rc : Int)
  | invalidOffer
  | loopEnds
  | acknowledged
  | acknowledgementTimeout
  | interrupt
  | done
  | die (rc : Int)
  deriving DecidableEq

namespace Engine

/-- A process just started. -/
def init (now : Int) : Engine where
  now
  phase := .bootstrap
  interrupted := false
  connected := false
  cmdDcOpen := false
  started := false
  shuttingDown := false
  closeSent := false
  closeAck := false
  channel := none
  sequence := .absent
  vframes := 0
  written := 0
  fatalReason := none
  discovered := false
  replaced := false
  trace := []

def record (s : Engine) (e : Event) : Engine := { s with trace := s.trace ++ [e] }

/-- `oracle.push_send`. -/
def pushSend (s : Engine) (c : Command) : Engine := s.record (.pushed c)

/-- The pause of `start_sequence`. -/
def guard : Int := milliseconds 150

/-- How long `close_live` waits for the acknowledgement. -/
def closeTimeout : Int := seconds 1

def maybeStart (s : Engine) : Engine :=
  if s.connected ∧ s.cmdDcOpen ∧ ¬ s.started then
    { s.record .launched with started := true, sequence := .scheduled }
  else s

/-- A step of the `start_sequence` task. -/
def startSequence (mode : Mode) (s : Engine) : Option Engine :=
  match s.sequence with
  | .scheduled =>
    if mode.discover then some { s.pushSend .deviceList with sequence := .finished }
    else some { s.pushSend .openLive with sequence := .paused (s.now + guard) }
  | .paused due =>
    if due ≤ s.now then some { s.pushSend .startStream with sequence := .finished } else none
  | _ => none

/-- Whether `close_live` returns without doing anything. -/
def skipsClose (s : Engine) : Bool :=
  s.closeSent || !s.started || s.channel != some true

/-- The `finally` block, up to the wait of `close_live`. -/
def closeLive (s : Engine) : Engine :=
  let s' := { s with shuttingDown := true }
  if s'.skipsClose then { s' with phase := .teardown }
  else { s'.pushSend .closeLive with closeSent := true, phase := .closing (s.now + closeTimeout) }

/-- The part of `on_frame` for video. -/
def onVideo (s : Engine) : Sink → Engine
  | .ffmpegExited rc =>
    if s.fatalReason = none then { s with fatalReason := some s!"ffmpeg exited rc={rc}" } else s
  | .failed error =>
    { s with vframes := s.vframes + 1, fatalReason := some s!"video sink failed ({error})" }
  | .written => { s with vframes := s.vframes + 1, written := s.written + 1 }

def handleDevlist (s : Engine) : DeviceList → Engine
  | .unreadable | .failed => s
  | .replacedThenFailed => { s with replaced := true }
  | .done => { s with replaced := true, discovered := true }

/-- What `main` returns. -/
def ok (mode : Mode) (s : Engine) : Bool :=
  (!mode.discover || s.discovered) && s.fatalReason.isNone

/-- The exit code of the process once `main` is over: an interrupt counts as
success. -/
def exitCode (mode : Mode) (s : Engine) : Int :=
  if s.interrupted then 0 else if s.ok mode then 0 else 1

def alive (s : Engine) : Bool :=
  match s.phase with
  | .exited _ => false
  | _ => true

/-- `main` is past its set-up, so that the peer connection exists. -/
def running (s : Engine) : Bool :=
  match s.phase with
  | .receiving | .closing _ | .teardown => true
  | _ => false

def step (mode : Mode) (s : Engine) : Label → Option Engine
  | .tick d => if 0 ≤ d then some { s with now := s.now + d } else none
  | .receiving => if s.phase = .bootstrap then some { s with phase := .receiving } else none
  | .answer =>
    if s.phase = .receiving ∧ s.channel = none then some { s with channel := some false } else none
  | .connected =>
    if s.running then some (maybeStart { s.record .connected with connected := true }) else none
  | .channelOpen own =>
    if s.running ∧ (own → s.channel.isSome) then
      some (maybeStart { s.record .commandChannelOpen with
        cmdDcOpen := true, channel := if own then some true else s.channel })
    else none
  | .channelClosed =>
    if s.running ∧ s.channel.isSome then some { s with channel := some false } else none
  | .sequence => if s.alive then startSequence mode s else none
  | .video sink => if s.running then some (s.onVideo sink) else none
  | .deviceList outcome =>
    if s.running ∧ mode.discover ∧ ¬ s.discovered then some (s.handleDevlist outcome) else none
  | .status code =>
    if s.running then some { s with closeAck := s.closeAck || (s.closeSent && code == 0) } else none
  | .ffmpegExits rc =>
    if s.running ∧ ¬ s.shuttingDown then
      some { s with fatalReason := some s!"ffmpeg exited rc={rc}" }
    else none
  | .invalidOffer =>
    if s.phase = .receiving then some { s with fatalReason := some "invalid SDP offer" } else none
  | .loopEnds => if s.phase = .receiving then some s.closeLive else none
  | .acknowledged =>
    match s.phase with
    | .closing _ => if s.closeAck then some { s with phase := .teardown } else none
    | _ => none
  | .acknowledgementTimeout =>
    match s.phase with
    | .closing due => if due ≤ s.now then some { s with phase := .teardown } else none
    | _ => none
  | .interrupt =>
    match s.phase with
    | .receiving => some { s.closeLive with interrupted := true }
    | .bootstrap | .closing _ | .teardown => some { s with phase := .teardown, interrupted := true }
    | .exited _ => none
  | .done => if s.phase = .teardown then some { s with phase := .exited (s.exitCode mode) } else none
  | .die rc => if s.alive ∧ rc ≠ 0 then some { s with phase := .exited rc } else none

end Engine

end EufyNvr.Stream
