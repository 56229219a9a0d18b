import EufyNvr.Basic
import EufyNvr.Warmer.Counts

/-!
# The adaptive warmer

`AdaptiveWarmer` of `eufy_warm.py` as a machine: `run` from one await to the next, and
the tasks of the warm consumers it created, which may end at any time. The
labels carry what the code does not decide: whether a preempt hint was found,
what the API answered, when a consumer ends, when a stop is requested and how much
time passes.
-/

namespace EufyNvr.Warmer

def pollInterval : Int := milliseconds 200

def restartDelay : Int := milliseconds 750

abbrev TaskId := Nat

inductive Status
  | running
  | cancelling
  | done
  deriving DecidableEq

/-- A task that runs `_consume` for a stream. -/
structure Consumer where
  stream : Str
  status : Status
  deriving DecidableEq

/-- What `run` does once `stop_warmer` has returned. -/
inductive Next
  | wait
  | start (stream : Str)
  | finish
  deriving DecidableEq

/-- Where `run` stands. -/
inductive Phase
  | top
  | fetching
  | stopping (task : TaskId) (next : Next)
  | waiting (wake : Int)
  | finished
  deriving DecidableEq

structure AdaptiveWarmer where
  now : Int
  stopRequested : Bool
  warmStream : Option Str
  warmer : Option TaskId
  lastExternalAt : Int
  lastStartAttempt : Int
  phase : Phase
  tasks : List Consumer
  deriving DecidableEq

/-- `fetched none` is a failed request, or a response that is not JSON. -/
inductive Label
  | tick (d : Int)
  | requestStop
  | taskEnds (t : TaskId)
  | top (preempted : Bool)
  | fetched (payload : Option Json)
  | stopped
  | woken

namespace AdaptiveWarmer

/-- A controller just constructed, at some time of its clock. -/
def init (now : Int) : AdaptiveWarmer := ⟨now, false, none, none, 0, 0, .top, []⟩

/-- `warmer_running` -/
def warmerRunning (w : AdaptiveWarmer) : Bool :=
  w.warmer.any fun t => w.tasks[t]?.any fun c => c.status ≠ .done

def setStatus (w : AdaptiveWarmer) (t : TaskId) (status : Status) : AdaptiveWarmer :=
  { w with tasks := w.tasks.modify t fun c => { c with status } }

def goWait (w : AdaptiveWarmer) : AdaptiveWarmer := { w with phase := .waiting (w.now + pollInterval) }

/-- `run` after `stop_warmer`; of `start_warmer` the part after it. -/
def proceed (w : AdaptiveWarmer) : Next → AdaptiveWarmer
  | .wait => w.goWait
  | .start stream =>
    let w' : AdaptiveWarmer := { w with
      lastStartAttempt := w.now, warmStream := some stream, warmer := some w.tasks.length
      tasks := w.tasks ++ [⟨stream, .running⟩] }
    w'.goWait
  | .finish => { w with phase := .finished }

/-- `stop_warmer` up to its await. -/
def stopWarmer (w : AdaptiveWarmer) (next : Next) : AdaptiveWarmer :=
  match w.warmer with
  | none => { w with warmStream := none }.proceed next
  | some t =>
    let w' := if w.warmerRunning then w.setStatus t .cancelling else w
    { w' with warmer := none, warmStream := none, phase := .stopping t next }

/-- `start_warmer` -/
def startWarmer (w : AdaptiveWarmer) (stream : Str) : AdaptiveWarmer := w.stopWarmer (.start stream)

/-- The counts of a poll. -/
def counts (w : AdaptiveWarmer) (streams : Dict Str Json) : Dict Str Nat :=
  externalConsumerCounts streams w.warmStream w.warmerRunning

/-- The warm consumer is gone, and may be started again. -/
def restartDue (w : AdaptiveWarmer) : Bool :=
  !w.warmerRunning && restartDelay ≤ w.now - w.lastStartAttempt

/-- The rest of a poll whose report has arrived. -/
def poll (leaseSeconds : Int) (w : AdaptiveWarmer) (streams : Dict Str Json) : AdaptiveWarmer :=
  match chooseStream (w.counts streams) w.warmStream with
  | some requested =>
    let w := { w with lastExternalAt := w.now }
    if some requested ≠ w.warmStream then w.startWarmer requested
    else if w.restartDue then w.startWarmer requested
    else w.goWait
  | none =>
    match w.warmStream with
    | some stream =>
      if w.restartDue then w.startWarmer stream
      else if seconds leaseSeconds ≤ w.now - w.lastExternalAt then w.stopWarmer .wait
      else w.goWait
    | none => w.goWait

def step (leaseSeconds : Int) (w : AdaptiveWarmer) : Label → Option AdaptiveWarmer
  | .tick d => if 0 ≤ d then some { w with now := w.now + d } else none
  | .requestStop => some { w with stopRequested := true }
  | .taskEnds t => if t < w.tasks.length then some (w.setStatus t .done) else none
  | .top preempted =>
    match w.phase with
    | .top =>
      if w.stopRequested then some (w.stopWarmer .finish)
      else if preempted then some (if w.warmStream.isSome then w.stopWarmer .wait else w.goWait)
      else some { w with phase := .fetching }
    | _ => none
  | .fetched payload =>
    match w.phase with
    | .fetching =>
      match payload.bind streamsOf with
      | none => some (w.stopWarmer .wait)
      | some streams => some (w.poll leaseSeconds streams)
    | _ => none
  | .stopped =>
    match w.phase with
    | .stopping t next =>
      -- `gather` returns when the task is done.
      if w.tasks[t]?.all fun c => c.status = .done then some (w.proceed next) else none
    | _ => none
  | .woken =>
    match w.phase with
    | .waiting wake =>
      if w.stopRequested ∨ wake ≤ w.now then some { w with phase := .top } else none
    | _ => none

end AdaptiveWarmer

end EufyNvr.Warmer
