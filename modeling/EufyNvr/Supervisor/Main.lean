import EufyNvr.Supervisor.Attempt

/-!
# The supervisor's main loop

`main` of `eufy_run.py`: up to `MAX_ATTEMPTS` attempts, each inside the
session gate, with a growing delay between them. Here the gate only grants
or refuses; who is granted the session is the gate's own model. `Solo` is
one supervisor with its clock and its stop event.
-/

namespace EufyNvr.Supervisor

/-- What `run_attempt` returns. -/
structure Verdict where
  rc : Int
  reason : Reason
  session : SessionState
  deriving DecidableEq

/-- The awaits of `main`. A verdict of `none` is an exception. -/
inductive MainPhase
  | retrying (due : Int)
  | acquiring
  | attempting (a : Attempt)
  | releasing (due : Int) (verdict : Option Verdict)
  | returned (code : Int)
  | raised
  deriving DecidableEq

structure Main where
  attempt : Nat
  phase : MainPhase
  /-- The attempts that are over, for the record. -/
  ended : List Attempt
  deriving DecidableEq

inductive MainLabel
  | granted
  | spawnFails
  | refused
  | gateRaises
  | attempt (l : AttemptLabel)
  | stopWake
  | timeout
  deriving DecidableEq

/-- `min(2 ** (attempt - 2), 4)` seconds before attempt `attempt`. -/
def retryDelay (attempt : Nat) : Int := seconds (min (2 ^ (attempt - 2)) 4)

namespace Main

def init : Main := ⟨1, .acquiring, []⟩

/-- What follows an attempt that returned. -/
def conclude (cfg : Settings) (discovery : Bool) (now : Int) (attempt : Nat) (v : Verdict) :
    Nat × MainPhase :=
  if v.reason = .shutdown then (attempt, .returned 0)
  else if v.reason = .authorization then (attempt, .returned 78)
  else if v.reason = .busy ∧ ¬ discovery then (attempt, .returned 75)
  else if v.rc = 0 ∧ v.reason = .exit then (attempt, .returned 0)
  else if attempt < cfg.maxAttempts then
    (attempt + 1, .retrying (now + retryDelay (attempt + 1)))
  else (attempt, .returned 1)

/-- The attempt is over: the grace period begins. -/
def afterAttempt (cfg : Settings) (now : Int) (m : Main) (a : Attempt) : Main :=
  match a.phase with
  | .returned rc =>
    { m with
      phase := .releasing (now + cfg.releaseDelay) (some ⟨rc, a.reason, a.session⟩)
      ended := m.ended ++ [a] }
  | .raised =>
    { m with phase := .releasing (now + cfg.releaseDelay) none, ended := m.ended ++ [a] }
  | _ => { m with phase := .attempting a }

def step (cfg : Settings) (discovery : Bool) (now : Int) (stop : Bool) (m : Main) :
    MainLabel → Option Main
  | .granted =>
    if m.phase = .acquiring ∧ ¬ stop then some { m with phase := .attempting (.start now) }
    else none
  | .spawnFails =>
    if m.phase = .acquiring ∧ ¬ stop then
      some { m with phase := .releasing (now + cfg.releaseDelay) none }
    else none
  | .refused =>
    if m.phase = .acquiring ∧ stop then some { m with phase := .returned 0 } else none
  | .gateRaises => if m.phase = .acquiring then some { m with phase := .raised } else none
  | .attempt l =>
    match m.phase with
    | .attempting a => (a.step cfg discovery now stop l).map (m.afterAttempt cfg now)
    | _ => none
  | .stopWake =>
    match m.phase with
    | .retrying _ => if stop then some { m with phase := .returned 0 } else none
    | _ => none
  | .timeout =>
    match m.phase with
    | .retrying due => if due ≤ now then some { m with phase := .acquiring } else none
    | .releasing due verdict =>
      if due ≤ now then
        match verdict with
        | some v =>
          let (attempt, phase) := conclude cfg discovery now m.attempt v
          some { m with attempt, phase }
        | none => some { m with phase := .raised }
      else none
    | _ => none

/-- The outcomes of a step of `main`. -/
inductive MainMove (cfg : Settings) (discovery : Bool) (now : Int) (stop : Bool) (m : Main) :
    MainLabel → Main → Prop
  | granted : m.phase = .acquiring → stop = false →
      MainMove cfg discovery now stop m .granted { m with phase := .attempting (.start now) }
  | spawnFails : m.phase = .acquiring → stop = false →
      MainMove cfg discovery now stop m .spawnFails
        { m with phase := .releasing (now + cfg.releaseDelay) none }
  | refused : m.phase = .acquiring → stop = true →
      MainMove cfg discovery now stop m .refused { m with phase := .returned 0 }
  | gateRaises : m.phase = .acquiring →
      MainMove cfg discovery now stop m .gateRaises { m with phase := .raised }
  | attempt {a b : Attempt} {l : AttemptLabel} : m.phase = .attempting a →
      a.step cfg discovery now stop l = some b →
      MainMove cfg discovery now stop m (.attempt l) (m.afterAttempt cfg now b)
  | stopWake {due : Int} : m.phase = .retrying due → stop = true →
      MainMove cfg discovery now stop m .stopWake { m with phase := .returned 0 }
  | retried {due : Int} : m.phase = .retrying due →
      MainMove cfg discovery now stop m .timeout { m with phase := .acquiring }
  | concluded {due : Int} {v : Verdict} : m.phase = .releasing due (some v) → due ≤ now →
      MainMove cfg discovery now stop m .timeout { m with
        attempt := (conclude cfg discovery now m.attempt v).1
        phase := (conclude cfg discovery now m.attempt v).2 }
  | failed {due : Int} : m.phase = .releasing due none → due ≤ now →
      MainMove cfg discovery now stop m .timeout { m with phase := .raised }

theorem step_move {cfg : Settings} {discovery stop : Bool} {now : Int} {m m' : Main}
    {l : MainLabel} (h : m.step cfg discovery now stop l = some m') :
    MainMove cfg discovery now stop m l m' := by
  cases l with
  | granted =>
    obtain ⟨hp, rfl⟩ := Option.ite_some_none_eq_some.mp h
    exact .granted hp.1 (by simpa using hp.2)
  | spawnFails =>
    obtain ⟨hp, rfl⟩ := Option.ite_some_none_eq_some.mp h
    exact .spawnFails hp.1 (by simpa using hp.2)
  | refused =>
    obtain ⟨hp, rfl⟩ := Option.ite_some_none_eq_some.mp h
    exact .refused hp.1 hp.2
  | gateRaises =>
    obtain ⟨hp, rfl⟩ := Option.ite_some_none_eq_some.mp h
    exact .gateRaises hp
  | attempt l =>
    simp only [step] at h
    split at h
    · obtain ⟨b, hb, rfl⟩ := Option.map_eq_some_iff.mp h
      exact .attempt ‹_› hb
    · cases h
  | stopWake =>
    simp only [step] at h
    split at h
    · obtain ⟨hs, rfl⟩ := Option.ite_some_none_eq_some.mp h
      exact .stopWake ‹_› hs
    · cases h
  | timeout =>
    simp only [step] at h
    split at h
    · obtain ⟨-, rfl⟩ := Option.ite_some_none_eq_some.mp h
      exact .retried ‹_›
    · rename_i due verdict hp
      obtain ⟨hdue, h⟩ := Option.ite_none_right_eq_some.mp h
      cases verdict with
      | some v => cases h; exact .concluded hp hdue
      | none => cases h; exact .failed hp hdue
    · cases h

end Main

-- ---------------------------------------------------------------------------
-- One supervisor on its own
-- ---------------------------------------------------------------------------

structure Solo where
  now : Int
  stop : Bool
  main : Main
  deriving DecidableEq

inductive SoloLabel
  | tick (d : Int)
  | stop
  | main (l : MainLabel)
  deriving DecidableEq

namespace Solo

def init (now : Int) : Solo := ⟨now, false, .init⟩

def step (cfg : Settings) (discovery : Bool) (s : Solo) : SoloLabel → Option Solo
  | .tick d => if 0 ≤ d then some { s with now := s.now + d } else none
  | .stop => some { s with stop := true }
  | .main l => (s.main.step cfg discovery s.now s.stop l).map fun m => { s with main := m }

end Solo

end EufyNvr.Supervisor
