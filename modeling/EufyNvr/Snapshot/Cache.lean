import EufyNvr.Basic

/-!
# The snapshot cache

`SnapshotCache` of `snapshot.py` as a labelled machine. Every `async_get`
call and every background refresh is a task; a step runs one task from one
await to the next, so steps are atomic between awaits. A step that asks for
the lock only queues the task; taking the free lock is a step of its own,
for the head of the queue. The labels carry what the code does not decide:
which task runs, how a capture ends, when a deadline fires or a cancellation
arrives, and how much time passes.

A captured image is opaque. `log` is a record of what happened that no code
reads.
-/

namespace EufyNvr.Snapshot

/-- Limits the constructor accepts. Its comparisons also let a NaN through,
which is no `Int`: such limits are outside the model. -/
structure Limits where
  ttl : Int
  timeout : Int
  maxEntries : Nat
  failureTtl : Int
  staleTtl : Int
  ttl_pos : 0 < ttl
  timeout_pos : 0 < timeout
  maxEntries_pos : 1 ≤ maxEntries
  failureTtl_nonneg : 0 ≤ failureTtl
  ttl_le_staleTtl : ttl ≤ staleTtl

/-- `SnapshotCache.__init__`. -/
def Limits.check (ttl timeout : Int) (maxEntries : Int) (failureTtl staleTtl : Int) :
    Except String Limits :=
  if h : ttl ≤ 0 ∨ timeout ≤ 0 ∨ maxEntries < 1 ∨ failureTtl < 0 ∨ staleTtl < ttl then
    .error "invalid snapshot cache limits"
  else
    .ok {
      ttl, timeout, maxEntries := maxEntries.toNat, failureTtl, staleTtl
      ttl_pos := by omega
      timeout_pos := by omega
      maxEntries_pos := by omega
      failureTtl_nonneg := by omega
      ttl_le_staleTtl := by omega }

/-- The keyword defaults of the constructor. -/
def Limits.default : Limits where
  ttl := seconds 3
  timeout := seconds 9
  maxEntries := 4
  failureTtl := milliseconds 500
  staleTtl := seconds 300
  ttl_pos := by decide
  timeout_pos := by decide
  maxEntries_pos := by decide
  failureTtl_nonneg := by decide
  ttl_le_staleTtl := by decide

example : Limits.check (seconds 3) (seconds 9) 4 (milliseconds 500) (seconds 300) =
    .ok .default := rfl

/-- A cached tuple `(fresh_until, stale_until, image)`. -/
structure Entry where
  freshUntil : Int
  staleUntil : Int
  image : Option Bytes
  deriving DecidableEq

/-- Python's truth value of `bytes | None`. -/
def truthy : Option Bytes → Bool
  | some (_ :: _) => true
  | _ => false

abbrev TaskId := Nat

inductive Kind
  | get
  | refresh
  deriving DecidableEq

/-- Why a task was cancelled: by its own `asyncio.timeout`, or from outside. -/
inductive Ending
  | deadline
  | cancelled
  deriving DecidableEq

/-- Where a task stands. `due` is the time its deadline fires, `now` the time
the code read before it started the capture. -/
inductive Phase
  | scheduled
  | waiting (due : Int)
  | capturing (due now : Int) (stale : Option Entry)
  | unwinding (ending : Ending)
  | cooling
  | returned (image : Option Bytes)
  | raised
  | ended (ending : Ending)
  | finished
  | forgotten
  deriving DecidableEq

structure Task (κ : Type) where
  kind : Kind
  key : κ
  phase : Phase
  deriving DecidableEq

/-- How a capture that was not cancelled ends. -/
inductive Outcome
  | image (image : Option Bytes)
  | raised
  deriving DecidableEq

inductive Event (κ : Type)
  | captureStarted (task : TaskId) (key : κ) (time : Int)
  | stored (task : TaskId) (key : κ) (image : Bytes) (time : Int)
  | returned (task : TaskId) (key : κ) (image : Option Bytes) (lookup : Int)
  | discarded (key : κ)
  | cleared
  deriving DecidableEq

structure World (κ : Type) where
  now : Int
  cache : Dict κ Entry
  refreshTasks : Dict κ TaskId
  /-- `asyncio.Lock`: the task inside, and those queued for it in order. -/
  holder : Option TaskId
  waiters : List TaskId
  tasks : List (Task κ)
  log : List (Event κ)

inductive Label (κ : Type)
  | tick (d : Int)
  | call (key : κ)
  | start (t : TaskId)
  | acquire (t : TaskId)
  | capture (t : TaskId) (outcome : Outcome)
  | deadline (t : TaskId)
  | cancel (t : TaskId)
  | unwound (t : TaskId)
  | doneCallback (t : TaskId)
  | discard (key : κ)
  | clear
  deriving DecidableEq

namespace World

variable {κ : Type}

/-- A cache just constructed, at some time of its clock. -/
def init (now : Int) : World κ := ⟨now, .empty, .empty, none, [], [], []⟩

def setPhase (w : World κ) (t : TaskId) (p : Phase) : World κ :=
  { w with tasks := w.tasks.modify t fun task => { task with phase := p } }

def spawn (w : World κ) (task : Task κ) : World κ := { w with tasks := w.tasks ++ [task] }

def record (w : World κ) (e : Event κ) : World κ := { w with log := w.log ++ [e] }

def enqueue (w : World κ) (t : TaskId) : World κ := { w with waiters := w.waiters ++ [t] }

def leaveQueue (w : World κ) (t : TaskId) : World κ := { w with waiters := w.waiters.erase t }

def popQueue (w : World κ) : World κ := { w with waiters := w.waiters.tail }

def release (w : World κ) : World κ := { w with holder := none }

variable [DecidableEq κ]

-- ---------------------------------------------------------------------------
-- The synchronous parts
-- ---------------------------------------------------------------------------

def sweep (w : World κ) : World κ :=
  { w with cache := w.cache.filter fun e => ¬ e.2.staleUntil ≤ w.now }

def touch (w : World κ) (key : κ) : World κ := { w with cache := w.cache.moveToEnd key }

def put (w : World κ) (key : κ) (e : Entry) : World κ :=
  { w with cache := (w.cache.set key e).moveToEnd key }

/-- `_start_refresh`. -/
def startRefresh (w : World κ) (key : κ) : World κ :=
  if (w.refreshTasks.get? key).isSome then w
  else { w.spawn ⟨.refresh, key, .scheduled⟩ with
    refreshTasks := w.refreshTasks.set key w.tasks.length }

/-- `_cached`. -/
def cached (w : World κ) (key : κ) : World κ × Bool × Option Bytes :=
  match w.sweep.cache.get? key with
  | none => (w.sweep, false, none)
  | some e =>
    if w.now < e.freshUntil then (w.sweep.touch key, true, e.image)
    else if truthy e.image ∧ w.now < e.staleUntil then
      ((w.sweep.touch key).startRefresh key, true, e.image)
    else (w.sweep, false, none)

def storedEvents (t : TaskId) (key : κ) (image : Option Bytes) (now : Int) : List (Event κ) :=
  match image with
  | some (b :: bs) => [.stored t key (b :: bs) now]
  | _ => []

/-- The tuple `_remember` writes. -/
def remembered (cfg : Limits) (now : Int) (image : Option Bytes) : Entry :=
  let ttl := if truthy image then cfg.ttl else cfg.failureTtl
  let staleTtl := if truthy image then cfg.staleTtl else ttl
  ⟨now + ttl, now + staleTtl, image⟩

/-- `_remember`, for the capture of task `t`. -/
def remember (cfg : Limits) (w : World κ) (t : TaskId) (key : κ) (image : Option Bytes) :
    World κ :=
  let cache := (w.put key (remembered cfg w.now image)).cache
  { w with
    cache := cache.popDownTo cfg.maxEntries cache.size
    log := w.log ++ storedEvents t key image w.now }

/-- The three cool-down branches and the two fallback branches write this. -/
def coolDown (cfg : Limits) (w : World κ) (key : κ) (now : Int) (stale : Entry) : World κ :=
  w.put key ⟨now + cfg.failureTtl, stale.staleUntil, stale.image⟩

def giveBack (w : World κ) (t : TaskId) (key : κ) (image : Option Bytes) (lookup : Int) :
    World κ :=
  (w.setPhase t (.returned image)).record (.returned t key image lookup)

def cancelTask (w : World κ) (t : TaskId) : World κ :=
  match w.tasks[t]? with
  | some ⟨.get, _, .waiting _⟩ => (w.leaveQueue t).setPhase t (.ended .cancelled)
  | some ⟨.refresh, _, .waiting _⟩ => (w.leaveQueue t).setPhase t .finished
  | some ⟨.refresh, _, .cooling⟩ => (w.leaveQueue t).setPhase t .finished
  | some ⟨.refresh, _, .scheduled⟩ => w.setPhase t .finished
  | some ⟨_, _, .capturing ..⟩ => w.setPhase t (.unwinding .cancelled)
  | some ⟨_, _, .unwinding _⟩ => w.setPhase t (.unwinding .cancelled)
  | _ => w

-- ---------------------------------------------------------------------------
-- Steps
-- ---------------------------------------------------------------------------

/-- `async_get` up to its first await. -/
def asyncGet (cfg : Limits) (w : World κ) (key : κ) : World κ :=
  match w.cached key with
  | (w', true, image) =>
    (w'.spawn ⟨.get, key, .returned image⟩).record (.returned w'.tasks.length key image w.now)
  | (w', false, _) =>
    (w'.spawn ⟨.get, key, .waiting (w.now + cfg.timeout)⟩).enqueue w'.tasks.length

def beginCapture (w : World κ) (t : TaskId) (key : κ) (due : Int) : World κ :=
  { (w.setPhase t (.capturing due w.now (w.cache.get? key))).record
      (.captureStarted t key w.now) with holder := some t }

/-- What a task does with the lock until its next await. A task that finds
nothing to do leaves the lock free. -/
def grant (cfg : Limits) (w : World κ) (t : TaskId) : Task κ → Option (World κ)
  | ⟨.get, key, .waiting due⟩ =>
    match w.cached key with
    | (w', true, image) => some (w'.giveBack t key image w.now)
    | (w', false, _) => some (w'.beginCapture t key due)
  | ⟨.refresh, key, .waiting due⟩ =>
    match w.cache.get? key with
    | none => some (w.setPhase t .finished)
    | some stale =>
      if stale.staleUntil ≤ w.now then some (w.setPhase t .finished)
      else if w.now < stale.freshUntil then some (w.setPhase t .finished)
      else some (w.beginCapture t key due)
  | ⟨.refresh, key, .cooling⟩ =>
    match w.cache.get? key with
    | none => some (w.setPhase t .finished)
    | some stale =>
      if w.now < stale.staleUntil then
        some ((coolDown cfg w key w.now stale).setPhase t .finished)
      else some (w.setPhase t .finished)
  | _ => none

/-- The rest of a task whose capture has ended, lock released. -/
def settle (cfg : Limits) (w : World κ) (t : TaskId) (outcome : Outcome) :
    Task κ → Option (World κ)
  | ⟨.get, key, .capturing _ now stale⟩ =>
    match outcome, stale.filter fun e => truthy e.image with
    | .raised, some e | .image none, some e =>
      some ((coolDown cfg w.release key now e).giveBack t key e.image now)
    | .raised, none => some ((remember cfg w.release t key none).setPhase t .raised)
    | .image image, _ => some ((remember cfg w.release t key image).giveBack t key image w.now)
  | ⟨.refresh, key, .capturing _ now (some stale)⟩ =>
    match outcome with
    | .raised | .image none => some ((coolDown cfg w.release key now stale).setPhase t .finished)
    | .image image => some ((remember cfg w.release t key image).setPhase t .finished)
  | _ => none

/-- The deadline of a waiting or capturing task has passed. -/
def expire (w : World κ) (t : TaskId) : Task κ → Option (World κ)
  | ⟨.get, _, .waiting due⟩ =>
    if due ≤ w.now then some ((w.leaveQueue t).setPhase t (.ended .deadline)) else none
  | ⟨.refresh, _, .waiting due⟩ =>
    if due ≤ w.now then some (((w.leaveQueue t).enqueue t).setPhase t .cooling) else none
  | ⟨_, _, .capturing due _ _⟩ =>
    if due ≤ w.now then some (w.setPhase t (.unwinding .deadline)) else none
  | _ => none

/-- A cancelled capture has stopped and the lock is released. -/
def unwind (w : World κ) (t : TaskId) : Task κ → Option (World κ)
  | ⟨.get, _, .unwinding ending⟩ => some (w.release.setPhase t (.ended ending))
  | ⟨.refresh, _, .unwinding .deadline⟩ => some ((w.release.enqueue t).setPhase t .cooling)
  | ⟨.refresh, _, .unwinding .cancelled⟩ => some (w.release.setPhase t .finished)
  | _ => none

/-- `_refresh_done`. -/
def refreshDone (w : World κ) (key : κ) (t : TaskId) : World κ :=
  if w.refreshTasks.get? key = some t then { w with refreshTasks := w.refreshTasks.erase key }
  else w

def discard (w : World κ) (key : κ) : World κ :=
  let w' := { w with cache := w.cache.erase key }
  match w'.refreshTasks.get? key with
  | some t => ({ w' with refreshTasks := w'.refreshTasks.erase key }).cancelTask t
  | none => w'

def clear (w : World κ) : World κ :=
  let w' := { w with cache := .empty }
  let w' := (w'.refreshTasks.items.map Prod.snd).foldl cancelTask w'
  { w' with refreshTasks := .empty }

def step (cfg : Limits) (w : World κ) : Label κ → Option (World κ)
  | .tick d => if 0 ≤ d then some { w with now := w.now + d } else none
  | .call key => some (asyncGet cfg w key)
  | .start t =>
    match w.tasks[t]? with
    | some ⟨.refresh, _, .scheduled⟩ =>
      some ((w.enqueue t).setPhase t (.waiting (w.now + cfg.timeout)))
    | _ => none
  | .acquire t =>
    if w.holder = none ∧ w.waiters.head? = some t then
      w.tasks[t]?.bind (grant cfg w.popQueue t)
    else none
  | .capture t outcome => w.tasks[t]?.bind (settle cfg w t outcome)
  | .deadline t => w.tasks[t]?.bind (expire w t)
  | .cancel t => some (w.cancelTask t)
  | .unwound t => w.tasks[t]?.bind (unwind w t)
  | .doneCallback t =>
    match w.tasks[t]? with
    | some ⟨.refresh, key, .finished⟩ => some ((w.refreshDone key t).setPhase t .forgotten)
    | _ => none
  | .discard key => some ((w.discard key).record (.discarded key))
  | .clear => some (w.clear.record .cleared)

end World

end EufyNvr.Snapshot
