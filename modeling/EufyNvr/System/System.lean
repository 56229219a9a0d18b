import EufyNvr.Gate.Lock
import EufyNvr.Supervisor.Main

/-!
# Supervisors that share a session

Any number of `eufy_run.py` processes over one host: each runs `main`, whose
`acquire` is a call of the gate, and starts engines. Where the gate's model
and `main` meet, the steps are those of both: `main` goes on when its call is
done, and the grace period ends with the release of the lock.

A stop event is set by the event loop, so only while `main` is at an await:
not between the check of the event in `acquire` and the spawn. Engines exit
by themselves, and `main` hears of it later. Supervisors are not killed;
their processes exit once `main` is over.
-/

namespace EufyNvr

open Supervisor

/-- An engine process. `exited` is the time and the code of its exit,
`released` the time at which its supervisor gave the lock back. -/
structure EngineProcess where
  owner : Nat
  exited : Option (Int × Int)
  released : Option Int
  deriving DecidableEq

structure SupervisorProcess where
  proc : Gate.ProcId
  discovery : Bool
  stop : Bool
  main : Main
  /-- The call of `acquire` that `main` waits for or whose handle it has. -/
  call : Option Gate.CallId
  deriving DecidableEq

structure System where
  host : Gate.Host
  sups : List SupervisorProcess
  engines : List EngineProcess
  deriving DecidableEq

inductive SystemLabel
  | tick (d : Nat)
  | other (l : Gate.Label)
  | start (pid start : Nat) (discovery : Bool)
  | exit (i : Nat)
  | stop (i : Nat)
  | enter (i gate : Nat) (known : Bool)
  | gate (i : Nat) (l : Gate.CallLabel)
  | main (i : Nat) (l : MainLabel)
  | engineExits (k : Nat) (rc : Int)
  deriving DecidableEq

def MainPhase.over : MainPhase → Bool
  | .returned _ | .raised => true
  | _ => false

namespace System

def init (now : Fin Gate.clockLimit) : System := ⟨.init now, [], []⟩

/-- The time as `main` reads it. -/
def now (s : System) : Int := s.host.now

/-- The phase of the call that `main` is in. -/
def callPhase (s : System) (sup : SupervisorProcess) : Option Gate.Phase :=
  (sup.call.bind fun c => s.host.calls[c]?).map (·.phase)

/-- `main` is at an await, or about to begin. -/
def atAwait (s : System) (sup : SupervisorProcess) : Bool :=
  match sup.main.phase, s.callPhase sup with
  | .acquiring, some (.waiting _) => true
  | .acquiring, some _ => false
  | _, _ => true

/-- What a step of `acquire` reads of the stop event is true of it. -/
def hears (sup : SupervisorProcess) : Gate.CallLabel → Bool
  | .loop stopped => stopped == sup.stop
  | .wake stopped => !stopped || sup.stop
  | .cancel | .release => false
  | _ => true

def setSup (s : System) (i : Nat) (sup : SupervisorProcess) : System :=
  { s with sups := s.sups.set i sup }

/-- A step of `main` alone. -/
def mainStep (cfg : Settings) (s : System) (i : Nat) (sup : SupervisorProcess) (l : MainLabel) :
    Option System :=
  (sup.main.step cfg sup.discovery s.now sup.stop l).map fun m => s.setSup i { sup with main := m }

/-- The engine of the attempt under way. -/
def current (s : System) (i : Nat) : Option EngineProcess :=
  s.engines.find? fun e => e.owner == i && e.released.isNone

/-- An engine after the release of the lock by `i`. -/
def markedBy (s : System) (i : Nat) (e : EngineProcess) : EngineProcess :=
  if e.owner = i ∧ e.released = none then { e with released := some s.now } else e

def markReleased (s : System) (i : Nat) : System :=
  { s with engines := s.engines.map (s.markedBy i) }

/-- The grace period of supervisor `i` ends. -/
def release (cfg : Settings) (s : System) (i : Nat) (sup : SupervisorProcess) : Option System :=
  match sup.call with
  | some c =>
    (s.host.step (.call c .release)).bind fun h =>
      ({ s with host := h }.markReleased i).mainStep cfg i { sup with call := none } .timeout
  | none => none

def main (cfg : Settings) (s : System) (i : Nat) (sup : SupervisorProcess) :
    MainLabel → Option System
  | .granted =>
    if s.callPhase sup = some (.done .acquired) then
      (s.mainStep cfg i sup .granted).map fun t =>
        { t with engines := t.engines ++ [⟨i, none, none⟩] }
    else none
  | .spawnFails =>
    if s.callPhase sup = some (.done .acquired) then s.mainStep cfg i sup .spawnFails else none
  | .refused =>
    if s.callPhase sup = some (.done .refused) then
      s.mainStep cfg i { sup with call := none } .refused
    else none
  | .gateRaises =>
    if s.callPhase sup = some (.done .raised) then s.mainStep cfg i sup .gateRaises else none
  | .attempt (.exit rc) =>
    if (s.current i).any fun e => (e.exited.map Prod.snd) = some rc then
      s.mainStep cfg i sup (.attempt (.exit rc))
    else none
  | .timeout =>
    match sup.main.phase with
    | .releasing .. => s.release cfg i sup
    | _ => s.mainStep cfg i sup .timeout
  | l => s.mainStep cfg i sup l

def step (cfg : Settings) (s : System) : SystemLabel → Option System
  | .tick d => (s.host.step (.tick d)).map fun h => { s with host := h }
  | .other (.spawn pid start) => (s.host.step (.spawn pid start)).map fun h => { s with host := h }
  | .other (.exit p) =>
    if ∀ sup ∈ s.sups, sup.proc ≠ p then
      (s.host.step (.exit p)).map fun h => { s with host := h }
    else none
  | .other _ => none
  | .start pid start discovery =>
    (s.host.step (.spawn pid start)).map fun h =>
      { s with
        host := h
        sups := s.sups ++ [⟨s.host.procs.length, discovery, false, .init, none⟩] }
  | .exit i =>
    s.sups[i]?.bind fun sup =>
      if MainPhase.over sup.main.phase then
        (s.host.step (.exit sup.proc)).map fun h => { s with host := h }
      else none
  | .stop i =>
    s.sups[i]?.bind fun sup =>
      if s.atAwait sup then some (s.setSup i { sup with stop := true }) else none
  | .enter i gate known =>
    s.sups[i]?.bind fun sup =>
      if sup.main.phase = .acquiring ∧ sup.call = none then
        (s.host.step (.enter sup.proc gate known)).map fun h =>
          { s with host := h }.setSup i { sup with call := some s.host.calls.length }
      else none
  | .gate i l =>
    s.sups[i]?.bind fun sup =>
      if sup.main.phase = .acquiring ∧ hears sup l then
        sup.call.bind fun c =>
          (s.host.step (.call c l)).map fun h => { s with host := h }
      else none
  | .main i l => s.sups[i]?.bind fun sup => s.main cfg i sup l
  | .engineExits k rc =>
    s.engines[k]?.bind fun e =>
      if e.exited = none then
        some { s with engines := s.engines.set k { e with exited := some (s.now, rc) } }
      else none

end System

end EufyNvr
