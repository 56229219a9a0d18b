import EufyNvr.Lib.Decimal
import EufyNvr.Lib.Machine

/-!
# The session gate

`SessionGate` of `eufy_run.py` on POSIX, over the system it runs on: one
monotonic clock, the process table, the queue directory and the lock. A call
of `acquire` is a list of separate steps: publishing the ticket, the listing
of the directory, the probe, the reading and the removal for each ticket,
the attempt at the lock, the pause. Steps of other calls, exits of processes
and reuse of their PIDs come in between.

The preempt marker, the queue-position message and the label inside a ticket
are left out: no step reads them.
-/

namespace EufyNvr.Gate

open Decimal

abbrev Name := List Char

/-- The file name of a ticket, for a start time as text. -/
def ticketName (stamp pid : Nat) (start : List Char) (gate : Nat) : Name :=
  padded 20 stamp ++ '-' :: (decimal pid ++ '-' :: (start ++ '-' ::
    (Nat.toDigits 16 gate ++ ".ticket".toList)))

/-- `int`, for the texts of decimal digits. -/
def int (cs : List Char) : Option Nat := if cs ≠ [] ∧ Digits cs then some (value cs) else none

/-- The PID and the start time that a scan reads off a name. -/
def parse (name : Name) : Option (Nat × List Char) :=
  match splitMax '-' 3 name with
  | [_, pid, start, _] => (int pid).map fun pid => (pid, start)
  | _ => none

/-- The text for a start time that is not known. -/
def unknown : List Char := ['0']

structure Proc where
  pid : Nat
  start : Nat
  alive : Bool
  deriving DecidableEq

/-- Why a scan keeps a ticket: the probe was not permitted, a start time was
not known, or both were the same. -/
inductive Ground
  | denied
  | unknown
  | same
  deriving DecidableEq

/-- A scan under way. `before` and `gone` are for the record: the entries of
the directory when the scan began, and those among them whose process was
gone by then. -/
structure Scan where
  before : List Name
  gone : List Name
  todo : List Name
  tickets : List (Name × Ground)
  deriving DecidableEq

inductive Outcome
  | acquired
  | refused
  | cancelled
  | raised
  deriving DecidableEq

/-- Where a call stands; its ticket is in the directory from `looping` to
`leaving`. -/
inductive Phase
  | publishing
  | looping
  | listing (before gone : List Name)
  | probing (scan : Scan)
  | reading (scan : Scan)
  | dropping (scan : Scan)
  | waiting (due : Nat)
  | leaving (outcome : Outcome)
  | done (outcome : Outcome)
  | released
  deriving DecidableEq

abbrev ProcId := Nat

abbrev CallId := Nat

structure Call where
  proc : ProcId
  stamp : Nat
  ticket : Name
  phase : Phase
  deriving DecidableEq

structure Host where
  /-- `time.monotonic_ns`. -/
  now : Nat
  procs : List Proc
  dir : List Name
  /-- The call whose handle holds the lock. -/
  lock : Option CallId
  calls : List Call
  deriving DecidableEq

/-- The steps of one call. -/
inductive CallLabel
  | publish (ok : Bool)
  | loop (stopped : Bool)
  | listed (names : List Name)
  | probe (denied : Bool)
  | read (ok : Bool)
  | unlink
  | decide
  | wake (stopped : Bool)
  | cancel
  | fail
  | leave (ok : Bool)
  | release
  deriving DecidableEq

inductive Label
  | tick (d : Nat)
  | spawn (pid start : Nat)
  | exit (p : ProcId)
  | enter (p : ProcId) (gate : Nat) (known : Bool)
  | call (c : CallId) (l : CallLabel)
  deriving DecidableEq

/-- `SESSION_LOCK_POLL`. -/
def lockPoll : Nat := 100000000

/-- What the clock cannot reach: it is a signed 64-bit number. -/
def clockLimit : Nat := 2 ^ 63

def Scan.queue (scan : Scan) : List Name := scan.tickets.map Prod.fst

/-- The ticket just probed stays in the queue. -/
def Scan.keep (scan : Scan) (name : Name) (g : Ground) : Scan :=
  { scan with todo := scan.todo.tail, tickets := scan.tickets ++ [(name, g)] }

def Scan.drop (scan : Scan) : Scan := { scan with todo := scan.todo.tail }

namespace Host

def init (now : Fin clockLimit) : Host := ⟨now, [], [], none, []⟩

def alive (s : Host) (p : ProcId) : Bool :=
  match s.procs[p]? with
  | some q => q.alive
  | none => false

/-- The process that has the PID now. -/
def holder (s : Host) (pid : Nat) : Option Proc :=
  s.procs.find? fun q => q.alive && q.pid == pid

/-- `_process_start`; `ok` says whether the file could be read. -/
def processStart (s : Host) (pid : Nat) (ok : Bool) : List Char :=
  match s.holder pid with
  | some q => if ok then decimal q.start else unknown
  | none => unknown

/-- The process that made the ticket is there. -/
def owned (s : Host) (name : Name) : Bool :=
  s.calls.any fun call => decide (call.ticket = name) && s.alive call.proc

def goto (s : Host) (c : CallId) (p : Phase) : Host :=
  { s with calls := s.calls.modify c fun call => { call with phase := p } }

def create (s : Host) (name : Name) : Host := { s with dir := name :: s.dir.erase name }

def remove (s : Host) (name : Name) : Host := { s with dir := s.dir.erase name }

/-- A process is gone, and the kernel closes its handles. -/
def kill (s : Host) (p : ProcId) : Host :=
  { s with
    procs := s.procs.modify p fun q => { q with alive := false }
    lock := s.lock.filter fun c => s.calls[c]?.all fun call => call.proc ≠ p }

/-- A listing returns every entry that was there from its beginning to its
end; what else it returns has been an entry at some time. -/
def Lists (s : Host) (before names : List Name) : Prop :=
  names.Nodup ∧ (∀ n ∈ before, n ∈ s.dir → n ∈ names) ∧
    ∀ n ∈ names, ∃ call ∈ s.calls, call.ticket = n ∧ call.phase ≠ .publishing

instance (s : Host) (before names : List Name) : Decidable (s.Lists before names) :=
  inferInstanceAs (Decidable (_ ∧ _))

/-- The probe of the next ticket: `os.kill` with signal 0. -/
def probe (s : Host) (c : CallId) (scan : Scan) (denied : Bool) : Option Host :=
  match scan.todo with
  | [] => none
  | name :: _ =>
    match parse name with
    | none => some (s.goto c (.dropping scan))
    | some (pid, _) =>
      if (s.holder pid).isNone then some (s.goto c (.dropping scan))
      else if denied then some (s.goto c (.probing (scan.keep name .denied)))
      else some (s.goto c (.reading scan))

/-- The comparison of the start times. -/
def compare (s : Host) (c : CallId) (scan : Scan) (ok : Bool) : Option Host :=
  match scan.todo with
  | [] => none
  | name :: _ =>
    match parse name with
    | none => none
    | some (pid, start) =>
      let live := s.processStart pid ok
      if start = unknown ∨ live = unknown then
        some (s.goto c (.probing (scan.keep name .unknown)))
      else if live = start then some (s.goto c (.probing (scan.keep name .same)))
      else some (s.goto c (.dropping scan))

/-- The scan is complete: the head of the queue tries the lock. -/
def decide (s : Host) (c : CallId) (call : Call) (scan : Scan) : Host :=
  if scan.queue = [] ∨ scan.queue.head? = some call.ticket then
    if s.lock = none then { s with lock := some c }.goto c (.leaving .acquired)
    else s.goto c (.waiting (s.now + lockPoll))
  else s.goto c (.waiting (s.now + lockPoll))

def callStep (s : Host) (c : CallId) (call : Call) : CallLabel → Option Host
  | .publish ok =>
    match call.phase with
    | .publishing =>
      some ((s.create call.ticket).goto c (if ok then .looping else .leaving .raised))
    | _ => none
  | .loop stopped =>
    match call.phase with
    | .looping =>
      if stopped then some (s.goto c (.leaving .refused))
      else some (s.goto c (.listing s.dir (s.dir.filter fun n => !s.owned n)))
    | _ => none
  | .listed names =>
    match call.phase with
    | .listing before gone =>
      if s.Lists before names then
        some (s.goto c (.probing ⟨before, gone, names.insertionSort (· ≤ ·), []⟩))
      else none
    | _ => none
  | .probe denied =>
    match call.phase with
    | .probing scan => s.probe c scan denied
    | _ => none
  | .read ok =>
    match call.phase with
    | .reading scan => s.compare c scan ok
    | _ => none
  | .unlink =>
    match call.phase with
    | .dropping scan =>
      match scan.todo with
      | [] => none
      | name :: _ => some ((s.remove name).goto c (.probing scan.drop))
    | _ => none
  | .decide =>
    match call.phase with
    | .probing scan => if scan.todo = [] then some (s.decide c call scan) else none
    | _ => none
  | .wake stopped =>
    match call.phase with
    | .waiting due => if stopped ∨ due ≤ s.now then some (s.goto c .looping) else none
    | _ => none
  | .cancel =>
    match call.phase with
    | .waiting _ => some (s.goto c (.leaving .cancelled))
    | _ => none
  | .fail =>
    match call.phase with
    | .publishing | .listing .. | .probing _ | .reading _ | .dropping _ =>
      some (s.goto c (.leaving .raised))
    | _ => none
  | .leave ok =>
    match call.phase with
    | .leaving outcome =>
      if ok then some ((s.remove call.ticket).goto c (.done outcome))
      else some (s.goto c (.done .raised))
    | _ => none
  | .release =>
    match call.phase with
    | .done .acquired => some ({ s with lock := none }.goto c .released)
    | _ => none

def step (s : Host) : Label → Option Host
  | .tick d => if s.now + d < clockLimit then some { s with now := s.now + d } else none
  | .spawn pid start =>
    if (s.holder pid).isNone ∧ ∀ q ∈ s.procs, q.pid = pid → q.start ≠ start then
      some { s with procs := s.procs ++ [⟨pid, start, true⟩] }
    else none
  | .exit p => if s.alive p then some (s.kill p) else none
  | .enter p gate known =>
    -- Two calls never get one name: a PID has one process at a time, `id`
    -- tells the gates of a process apart, and between two calls of one gate
    -- and between two processes with one PID the clock moves on.
    match s.procs[p]? with
    | some q =>
      let name := ticketName s.now q.pid (if known then decimal q.start else unknown) gate
      if q.alive ∧ ∀ call ∈ s.calls, call.ticket ≠ name then
        some { s with calls := s.calls ++ [⟨p, s.now, name, .publishing⟩] }
      else none
    | none => none
  | .call c l =>
    match s.calls[c]? with
    | some call => if s.alive call.proc then s.callStep c call l else none
    | none => none

end Host

end EufyNvr.Gate
