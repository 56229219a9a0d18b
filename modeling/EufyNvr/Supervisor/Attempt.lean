import EufyNvr.Supervisor.Session

/-!
# One attempt

`run_attempt` and `_terminate_tree`, from await to await, on POSIX. The
engine is a process that exits by itself or by a signal, at any time and
with any code, and that may leave members of its process group behind; the
relay task reads its stderr until the end of the stream, or fails.
-/

namespace EufyNvr.Supervisor

inductive Reason
  | exit
  | shutdown
  | authorization
  | busy
  | signalingTimeout
  | connectionTimeout
  | firstFrameTimeout
  | streamStall
  deriving DecidableEq

/-- Signals of `_terminate_tree`: to the engine alone, or to its group. -/
inductive Signal
  | interrupt
  | terminateGroup
  | killGroup
  deriving DecidableEq

/-- The `_relay_stderr` task. -/
inductive Relay
  | running
  | ended
  | failed
  deriving DecidableEq

/-- The waits of `_terminate_tree`. -/
inductive Stage
  | interrupted (due : Int)
  | terminated (due : Int)
  | group (deadline wake : Int)
  | killed (due : Int)
  deriving DecidableEq

/-- The awaits of `run_attempt`. `cleanup` marks the `_terminate_tree` of the
`finally` block. -/
inductive AttemptPhase
  | watching (due : Int)
  | terminating (stage : Stage) (cleanup : Bool)
  | reaping
  | draining (due : Int)
  | returned (rc : Int)
  | raised
  deriving DecidableEq

structure Attempt where
  session : SessionState
  /-- The lines the relay has printed. -/
  relayed : List String
  exitCode : Option Int
  /-- The group has members besides the engine. -/
  descendants : Bool
  relay : Relay
  reason : Reason
  signals : List Signal
  phase : AttemptPhase
  deriving DecidableEq

inductive AttemptLabel
  | line (text : String)
  | relayEnds
  | relayRaises
  | exit (rc : Int)
  | descendants (alive : Bool)
  | wake
  | timeout
  deriving DecidableEq

def pollInterval : Int := milliseconds 500

namespace Attempt

/-- The engine has just been spawned. -/
def start (now : Int) : Attempt where
  session := .start now
  relayed := []
  exitCode := none
  descendants := true
  relay := .running
  reason := .exit
  signals := []
  phase := .watching (now + pollInterval)

def alive (a : Attempt) : Bool := a.exitCode.isNone

def signal (a : Attempt) (s : Signal) : Attempt := { a with signals := a.signals ++ [s] }

def goto (a : Attempt) (p : AttemptPhase) : Attempt := { a with phase := p }

-- ---------------------------------------------------------------------------
-- `_terminate_tree`
-- ---------------------------------------------------------------------------

/-- `_terminate_tree` returns. -/
def terminated (a : Attempt) (now : Int) (cleanup : Bool) : Attempt :=
  if cleanup then a.goto (.draining (now + seconds 2)) else a.goto .reaping

/-- The last resort. -/
def killGroup (a : Attempt) (now : Int) (cleanup : Bool) : Attempt :=
  if a.alive || a.descendants then
    (a.signal .killGroup).goto (.terminating (.killed (now + seconds 5)) cleanup)
  else a.terminated now cleanup

/-- A turn of the loop that waits for the group to go. -/
def awaitGroup (a : Attempt) (now deadline : Int) (cleanup : Bool) : Attempt :=
  if now < deadline then
    if a.alive || a.descendants then
      a.goto (.terminating (.group deadline (now + milliseconds 100)) cleanup)
    else a.terminated now cleanup
  else a.killGroup now cleanup

/-- After the wait that follows the interrupt. -/
def terminateGroup (a : Attempt) (now : Int) (cleanup : Bool) : Attempt :=
  if a.alive then
    (a.signal .terminateGroup).goto (.terminating (.terminated (now + seconds 5)) cleanup)
  else a.awaitGroup now (now + seconds 2) cleanup

def terminateTree (a : Attempt) (now : Int) (cleanup : Bool) : Attempt :=
  if a.alive then
    (a.signal .interrupt).goto (.terminating (.interrupted (now + seconds 3)) cleanup)
  else a.terminateGroup now cleanup

-- ---------------------------------------------------------------------------
-- `run_attempt`
-- ---------------------------------------------------------------------------

/-- What a watchdog poll decides. -/
def poll (cfg : Settings) (discovery : Bool) (now : Int) (stop : Bool) (s : SessionState) :
    Option Reason :=
  if stop then some .shutdown
  else if s.authorizationRejection then some .authorization
  else if s.busyRejection then some .busy
  else if ¬ s.sdpSeen ∧ now - s.startedAt ≥ cfg.signalTimeout then some .signalingTimeout
  else if s.sdpSeen ∧ ¬ s.datachannelSeen ∧ now - s.lastProgress ≥ cfg.connectionTimeout then
    some .connectionTimeout
  else if ¬ discovery ∧ s.datachannelSeen ∧ s.firstVideoAt = none ∧
      now - s.lastProgress ≥ cfg.firstFrameTimeout then some .firstFrameTimeout
  else if ¬ discovery ∧ s.lastVideoAt.any (fun t => now - t ≥ cfg.stallTimeout) then
    some .streamStall
  else none

/-- The poll found the engine not yet done. -/
def onPoll (cfg : Settings) (discovery : Bool) (now : Int) (stop : Bool) (a : Attempt) : Attempt :=
  match poll cfg discovery now stop a.session with
  | some reason => { a with reason }.terminateTree now false
  | none => if a.alive then a.goto (.watching (now + pollInterval)) else a.goto .reaping

/-- What the attempt waits for has happened. -/
def onWake (now : Int) (a : Attempt) : Option Attempt :=
  match a.phase, a.exitCode with
  | .watching _, some _ => some (a.goto .reaping)
  | .terminating (.interrupted _) cleanup, some _ => some (a.terminateGroup now cleanup)
  | .terminating (.terminated _) cleanup, some _ =>
    some (a.awaitGroup now (now + seconds 2) cleanup)
  | .terminating (.killed _) cleanup, some _ => some (a.terminated now cleanup)
  | .reaping, some _ => some (a.terminateTree now true)
  | .draining _, some rc =>
    match a.relay with
    | .ended => some (a.goto (.returned rc))
    | .failed => some (a.goto .raised)
    | .running => none
  | _, _ => none

/-- The time a wait is allowed is over. -/
def onTimeout (cfg : Settings) (discovery : Bool) (now : Int) (stop : Bool) (a : Attempt) :
    Option Attempt :=
  match a.phase with
  | .watching due => if due ≤ now then some (a.onPoll cfg discovery now stop) else none
  | .terminating (.interrupted due) cleanup =>
    if due ≤ now then some (a.terminateGroup now cleanup) else none
  | .terminating (.terminated due) cleanup =>
    if due ≤ now then some (a.awaitGroup now (now + seconds 2) cleanup) else none
  | .terminating (.group deadline wake) cleanup =>
    if wake ≤ now then some (a.awaitGroup now deadline cleanup) else none
  | .terminating (.killed due) cleanup =>
    if due ≤ now then some (a.terminated now cleanup) else none
  | .draining due =>
    match a.exitCode with
    | some rc => if due ≤ now then some (a.goto (.returned rc)) else none
    | none => none
  | _ => none

def step (cfg : Settings) (discovery : Bool) (now : Int) (stop : Bool) (a : Attempt) :
    AttemptLabel → Option Attempt
  | .line text =>
    if a.relay = .running then
      some { a with
        session := inspectLogLine now text a.session, relayed := a.relayed ++ [text] }
    else none
  | .relayEnds => if a.relay = .running then some { a with relay := .ended } else none
  | .relayRaises => if a.relay = .running then some { a with relay := .failed } else none
  | .exit rc => if a.alive then some { a with exitCode := some rc } else none
  | .descendants alive => some { a with descendants := alive }
  | .wake => a.onWake now
  | .timeout => a.onTimeout cfg discovery now stop

end Attempt

end EufyNvr.Supervisor
