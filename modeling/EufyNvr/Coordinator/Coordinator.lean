import EufyNvr.Snapshot.Failure
import EufyNvr.Snapshot.Freshness

/-!
# The coordinator

`EufyNvrCoordinator` of `coordinator.py`: the streams of the last poll, the
set of streams marked as primed, the shared snapshot cache and the task that
primes snapshots. A step of the primer runs from one await to the next, as
in the cache: a look-up that hits does not wait, so one step may go through
several streams and on to the sleep at the end of the pass. Polls,
dashboard requests and everything else about the cache happen in between.

Of a stream only the name is kept.
-/

namespace EufyNvr

open Snapshot (World TaskId Limits Outcome)

/-- The keys of `coordinator.data`. -/
structure Streams (κ : Type) where
  names : List κ
  nodup : names.Nodup
  deriving DecidableEq

namespace Coordinator

-- ---------------------------------------------------------------------------
-- Constants
-- ---------------------------------------------------------------------------

def frameCacheTtl : Int := seconds 30
def frameStaleTtl : Int := seconds (60 * 60)
def frameInitialTimeout : Int := seconds 95
def framePrimeInterval : Int := seconds (30 * 60)
def framePrimeRetryInitial : Int := seconds 10
def framePrimeRetryMax : Int := seconds (5 * 60)

/-- The cache of the coordinator: the other limits are the defaults. -/
def frameLimits : Limits where
  ttl := frameCacheTtl
  timeout := frameInitialTimeout
  maxEntries := Limits.default.maxEntries
  failureTtl := Limits.default.failureTtl
  staleTtl := frameStaleTtl
  ttl_pos := by decide
  timeout_pos := by decide
  maxEntries_pos := Limits.default.maxEntries_pos
  failureTtl_nonneg := Limits.default.failureTtl_nonneg
  ttl_le_staleTtl := by decide

def maxFrameBytes : Nat := 20 * 1024 * 1024

/-- The check at the end of `Go2RtcClient.async_get_frame`. -/
def validFrame (frame : Bytes) : Bool :=
  frame ≠ [] && frame.length ≤ maxFrameBytes && [0xff, 0xd8].isPrefixOf frame &&
    [0xff, 0xd9].isSuffixOf frame

/-- What the capture of a frame can end with: a valid frame or an exception. -/
def possible : Outcome → Bool
  | .image (some frame) => validFrame frame
  | .image none => false
  | .raised => true

-- ---------------------------------------------------------------------------
-- State
-- ---------------------------------------------------------------------------

/-- Who awaits `async_prime_frames`. -/
inductive Job
  | setup
  | forever (retryDelay : Int)
  deriving DecidableEq

/-- Where the priming task stands. `todo` are the streams after `stream`,
`get` is its call. -/
inductive Primer (κ : Type)
  | off
  | awaiting (job : Job) (stream : κ) (todo : List κ) (get : TaskId)
  | retrying (wake retryDelay : Int)
  | idle (wake : Int)
  deriving DecidableEq

end Coordinator

structure Coordinator (κ : Type) where
  world : World κ
  data : Streams κ
  primed : Finset κ
  primer : Coordinator.Primer κ

namespace Coordinator

inductive Label (κ : Type)
  | cache (l : Snapshot.Label κ)
  | crash
  | poll (data : Streams κ)
  | discardFrame (stream : κ)
  | setup
  | forever
  | wake
  | stop

/-- How a call of `async_get_frame` has ended for `async_prime_frames`. -/
inductive Result
  | frame
  | error
  | cancelled
  deriving DecidableEq

/-- `frame is None`, an exception of the client and `TimeoutError` are caught. -/
def result : Snapshot.Phase → Option Result
  | .returned (some _) => some .frame
  | .returned none | .raised | .ended .deadline => some .error
  | .ended .cancelled => some .cancelled
  | _ => none

variable {κ : Type} [LinearOrder κ]

def init (now : Int) : Coordinator κ := ⟨.init now, ⟨[], List.nodup_nil⟩, ∅, .off⟩

def resultOf (c : Coordinator κ) (t : TaskId) : Option Result :=
  c.world.tasks[t]?.bind fun task => result task.phase

/-- What follows `async_prime_frames` in its caller. -/
def endPass (c : Coordinator κ) : Job → Coordinator κ
  | .setup => { c with primer := .off }
  | .forever retryDelay =>
    if c.primed.card < c.data.names.length then
      { c with primer :=
          .retrying (c.world.now + retryDelay) (min (retryDelay * 2) framePrimeRetryMax) }
    else { c with primer := .idle (c.world.now + framePrimeInterval) }

/-- The loop of `async_prime_frames` over the streams still to do, up to the
first call that has to wait. -/
def advance (job : Job) : List κ → Coordinator κ → Coordinator κ
  | [], c => c.endPass job
  | stream :: todo, c =>
    let c := { c with world := c.world.asyncGet frameLimits stream }
    let get := c.world.tasks.length - 1
    match c.resultOf get with
    | some .frame => advance job todo { c with primed := insert stream c.primed }
    | some .error => advance job todo c
    | some .cancelled => { c with primer := .off }
    | none => { c with primer := .awaiting job stream todo get }

/-- `async_prime_frames` from its beginning. -/
def primeFrames (c : Coordinator κ) (job : Job) : Coordinator κ :=
  let current := c.data.names.toFinset
  let c := { c with primed := c.primed ∩ current }
  advance job ((c.data.names.filter (· ∉ c.primed)).insertionSort (· ≤ ·)) c

/-- The priming task goes on if its call has ended. -/
def resume (c : Coordinator κ) : Coordinator κ :=
  match c.primer with
  | .awaiting job stream todo get =>
    match c.resultOf get with
    | some .frame => advance job todo { c with primed := insert stream c.primed }
    | some .error => advance job todo c
    | some .cancelled => { c with primer := .off }
    | none => c
  | _ => c

/-- The steps of the cache other than `discard` and `clear`. -/
def allowed : Snapshot.Label κ → Bool
  | .discard _ | .clear => false
  | .capture _ outcome => possible outcome
  | _ => true

def step (c : Coordinator κ) : Label κ → Option (Coordinator κ)
  | .cache l =>
    if allowed l then
      (c.world.step frameLimits l).map fun world => { c with world }.resume
    else none
  | .crash =>
    -- An exception that `async_prime_frames` does not catch.
    match c.primer with
    | .awaiting _ _ _ get =>
      (c.world.step frameLimits (.capture get .raised)).map fun world =>
        { c with world, primer := .off }
    | _ => none
  | .poll data => some { c with data }
  | .discardFrame stream =>
    (c.world.step frameLimits (.discard stream)).map fun world =>
      { c with world, primed := c.primed.erase stream }
  | .setup =>
    match c.primer with
    | .off => some (c.primeFrames .setup)
    | _ => none
  | .forever =>
    match c.primer with
    | .off => some (c.primeFrames (.forever framePrimeRetryInitial))
    | _ => none
  | .wake =>
    match c.primer with
    | .retrying wake retryDelay =>
      if wake ≤ c.world.now then some (c.primeFrames (.forever retryDelay)) else none
    | .idle wake =>
      if wake ≤ c.world.now then
        some ({ c with primed := ∅ }.primeFrames (.forever framePrimeRetryInitial))
      else none
    | _ => none
  | .stop =>
    match c.primer with
    | .retrying .. | .idle _ => some { c with primer := .off }
    | _ => none

end Coordinator

end EufyNvr
