import EufyNvr.Supervisor.AttemptSteps
import EufyNvr.Supervisor.Main

/-!
# Winding down

Once its watch loop is over, an attempt whose relay has not failed can run
to its return, with the reason and the session it has: the engine dies, at
the latest by the kill of its group, and every other wait is bounded. From
there `main` reaches what it concludes from them.
-/

namespace EufyNvr.Supervisor

namespace Attempt

variable {a : Attempt} {now deadline : Int} {cleanup : Bool}

/-- Nothing is left of the engine, its group and its log. -/
structure Gone (a : Attempt) (rc : Int) : Prop where
  exitCode : a.exitCode = some rc
  descendants : a.descendants = false
  relay : a.relay = .ended

theorem Gone.kept {b : Attempt} {rc : Int} (h : a.Gone rc) (hk : Kept a b) : b.Gone rc :=
  ⟨hk.exitCode.trans h.exitCode, hk.descendants.trans h.descendants, hk.relay.trans h.relay⟩

theorem Gone.alive {rc : Int} (h : a.Gone rc) : a.alive = false := by
  simp [Attempt.alive, h.exitCode]

theorem Gone.awaitGroup {rc : Int} (h : a.Gone rc) :
    a.awaitGroup now deadline cleanup = a.terminated now cleanup := by
  simp [Attempt.awaitGroup, killGroup, h.alive, h.descendants]

theorem Gone.terminateGroup {rc : Int} (h : a.Gone rc) :
    a.terminateGroup now cleanup = a.terminated now cleanup := by
  simp [Attempt.terminateGroup, h.alive, h.awaitGroup]

theorem Gone.terminateTree {rc : Int} (h : a.Gone rc) :
    a.terminateTree now cleanup = a.terminated now cleanup := by
  simp [Attempt.terminateTree, h.alive, h.terminateGroup]

end Attempt

namespace Solo

open Machine

variable {cfg : Settings} {discovery stop : Bool} {now : Int} {n : Nat} {ended : List Attempt}
  {a b : Attempt} {rc : Int}

/-- A supervisor inside an attempt. -/
def inside (now : Int) (stop : Bool) (n : Nat) (ended : List Attempt) (a : Attempt) : Solo :=
  ⟨now, stop, n, .attempting a, ended⟩

/-- A supervisor in the grace period after the attempt `a`. -/
def after (cfg : Settings) (now : Int) (stop : Bool) (n : Nat) (ended : List Attempt)
    (a : Attempt) (rc : Int) : Solo :=
  ⟨now, stop, n, .releasing (now + cfg.releaseDelay) (some ⟨rc, a.reason, a.session⟩),
    ended ++ [a]⟩

end Solo

end EufyNvr.Supervisor
