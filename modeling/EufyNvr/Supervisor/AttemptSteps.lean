import EufyNvr.Supervisor.Attempt

/-!
# What a step of an attempt can do

`AttemptMove` lists the outcomes of a step; `step_move` reads a successful
step as one of them. The waits of `_terminate_tree` are one outcome:
they change nothing but the phase and the signals sent.
-/

namespace EufyNvr.Supervisor

def AttemptPhase.isWatching : AttemptPhase → Bool
  | .watching _ => true
  | _ => false

/-- Terminating the engine or waiting for it, with the watch loop over. -/
def AttemptPhase.winding : AttemptPhase → Bool
  | .terminating .. | .reaping | .draining _ => true
  | _ => false

/-- Neither returned nor raised. -/
def AttemptPhase.isOpen (p : AttemptPhase) : Bool := p.isWatching || p.winding

theorem not_watching_of_winding {p : AttemptPhase} (h : p.winding = true) :
    p.isWatching = false := by
  cases p with
  | watching => cases h
  | _ => rfl

theorem not_raised_of_winding {p : AttemptPhase} (h : p.winding = true) : p ≠ .raised := by
  rintro rfl
  cases h

namespace Attempt

variable {cfg : Settings} {discovery stop : Bool} {now : Int} {a b : Attempt} {l : AttemptLabel}

/-- Everything but the phase and the signals is as it was. -/
structure Kept (a b : Attempt) : Prop where
  session : b.session = a.session
  relayed : b.relayed = a.relayed
  exitCode : b.exitCode = a.exitCode
  descendants : b.descendants = a.descendants
  relay : b.relay = a.relay
  reason : b.reason = a.reason

theorem Kept.refl (a : Attempt) : Kept a a := ⟨rfl, rfl, rfl, rfl, rfl, rfl⟩

theorem Kept.goto (h : Kept a b) (p : AttemptPhase) : Kept a (b.goto p) :=
  ⟨h.session, h.relayed, h.exitCode, h.descendants, h.relay, h.reason⟩

theorem Kept.signal (h : Kept a b) (s : Signal) : Kept a (b.signal s) :=
  ⟨h.session, h.relayed, h.exitCode, h.descendants, h.relay, h.reason⟩

/-- The engine is not interrupted between `a` and `b`. -/
def Spared (a b : Attempt) : Prop := .interrupt ∈ b.signals → .interrupt ∈ a.signals

theorem Spared.signal (a : Attempt) {s : Signal} (hs : s ≠ .interrupt) (p : AttemptPhase) :
    Spared a ((a.signal s).goto p) := fun h => by simpa [Attempt.signal, goto, hs.symm] using h

-- ---------------------------------------------------------------------------
-- `_terminate_tree`
-- ---------------------------------------------------------------------------

theorem terminated_kept (a : Attempt) (now : Int) (cleanup : Bool) :
    Kept a (a.terminated now cleanup) ∧ (a.terminated now cleanup).phase.winding = true := by
  unfold terminated
  split <;> exact ⟨(Kept.refl a).goto _, rfl⟩

theorem terminated_spared (a : Attempt) (now : Int) (cleanup : Bool) :
    Spared a (a.terminated now cleanup) := by
  unfold terminated
  split <;> exact id

theorem killGroup_kept (a : Attempt) (now : Int) (cleanup : Bool) :
    Kept a (a.killGroup now cleanup) ∧ (a.killGroup now cleanup).phase.winding = true := by
  unfold killGroup
  split
  · exact ⟨((Kept.refl a).signal _).goto _, rfl⟩
  · exact terminated_kept a now cleanup

theorem killGroup_spared (a : Attempt) (now : Int) (cleanup : Bool) :
    Spared a (a.killGroup now cleanup) := by
  unfold killGroup
  split
  · exact .signal a (by simp) _
  · exact terminated_spared a now cleanup

theorem awaitGroup_kept (a : Attempt) (now deadline : Int) (cleanup : Bool) :
    Kept a (a.awaitGroup now deadline cleanup) ∧
      (a.awaitGroup now deadline cleanup).phase.winding = true := by
  unfold awaitGroup
  split
  · split
    · exact ⟨(Kept.refl a).goto _, rfl⟩
    · exact terminated_kept a now cleanup
  · exact killGroup_kept a now cleanup

theorem awaitGroup_spared (a : Attempt) (now deadline : Int) (cleanup : Bool) :
    Spared a (a.awaitGroup now deadline cleanup) := by
  unfold awaitGroup
  split
  · split
    · exact id
    · exact terminated_spared a now cleanup
  · exact killGroup_spared a now cleanup

theorem terminateGroup_kept (a : Attempt) (now : Int) (cleanup : Bool) :
    Kept a (a.terminateGroup now cleanup) ∧
      (a.terminateGroup now cleanup).phase.winding = true := by
  unfold terminateGroup
  split
  · exact ⟨((Kept.refl a).signal _).goto _, rfl⟩
  · exact awaitGroup_kept a now _ cleanup

theorem terminateGroup_spared (a : Attempt) (now : Int) (cleanup : Bool) :
    Spared a (a.terminateGroup now cleanup) := by
  unfold terminateGroup
  split
  · exact .signal a (by simp) _
  · exact awaitGroup_spared a now _ cleanup

theorem terminateTree_kept (a : Attempt) (now : Int) (cleanup : Bool) :
    Kept a (a.terminateTree now cleanup) ∧
      (a.terminateTree now cleanup).phase.winding = true := by
  unfold terminateTree
  split
  · exact ⟨((Kept.refl a).signal _).goto _, rfl⟩
  · exact terminateGroup_kept a now cleanup

/-- There is nothing to interrupt once the engine has exited. -/
theorem terminateTree_spared {rc : Int} (h : a.exitCode = some rc) (now : Int) (cleanup : Bool) :
    Spared a (a.terminateTree now cleanup) := by
  unfold terminateTree
  rw [if_neg (by simp [alive, h])]
  exact terminateGroup_spared a now cleanup

-- ---------------------------------------------------------------------------
-- Moves
-- ---------------------------------------------------------------------------

inductive AttemptMove (cfg : Settings) (discovery : Bool) (now : Int) (stop : Bool)
    (a : Attempt) : AttemptLabel → Attempt → Prop
  | line {text : String} : a.relay = .running →
      AttemptMove cfg discovery now stop a (.line text) { a with
        session := inspectLogLine now text a.session, relayed := a.relayed ++ [text] }
  | relayEnds : a.relay = .running →
      AttemptMove cfg discovery now stop a .relayEnds { a with relay := .ended }
  | relayRaises : a.relay = .running →
      AttemptMove cfg discovery now stop a .relayRaises { a with relay := .failed }
  | exit {rc : Int} : a.exitCode = none →
      AttemptMove cfg discovery now stop a (.exit rc) { a with exitCode := some rc }
  | descendants {alive : Bool} :
      AttemptMove cfg discovery now stop a (.descendants alive) { a with descendants := alive }
  | noticed {due rc : Int} : a.phase = .watching due → a.exitCode = some rc →
      AttemptMove cfg discovery now stop a .wake (a.goto .reaping)
  | polled {due : Int} {reason : Reason} : a.phase = .watching due → due ≤ now →
      poll cfg discovery now stop a.session = some reason →
      AttemptMove cfg discovery now stop a .timeout ({ a with reason }.terminateTree now false)
  | watched {due : Int} : a.phase = .watching due → due ≤ now →
      poll cfg discovery now stop a.session = none → a.exitCode = none →
      AttemptMove cfg discovery now stop a .timeout (a.goto (.watching (now + pollInterval)))
  | left {due rc : Int} : a.phase = .watching due → due ≤ now →
      poll cfg discovery now stop a.session = none → a.exitCode = some rc →
      AttemptMove cfg discovery now stop a .timeout (a.goto .reaping)
  | winding {l : AttemptLabel} {b : Attempt} : l = .wake ∨ l = .timeout →
      a.phase.winding = true → Kept a b → b.phase.winding = true → Spared a b →
      AttemptMove cfg discovery now stop a l b
  | returned {l : AttemptLabel} {due rc : Int} : l = .wake ∨ l = .timeout →
      a.phase = .draining due → a.exitCode = some rc →
      AttemptMove cfg discovery now stop a l (a.goto (.returned rc))
  | raised {due rc : Int} : a.phase = .draining due → a.relay = .failed →
      a.exitCode = some rc →
      AttemptMove cfg discovery now stop a .wake (a.goto .raised)

theorem onPoll_move {due : Int} (hp : a.phase = .watching due) (hd : due ≤ now) :
    AttemptMove cfg discovery now stop a .timeout (a.onPoll cfg discovery now stop) := by
  unfold onPoll
  split
  · exact .polled hp hd ‹_›
  · cases he : a.exitCode with
    | none => rw [if_pos (by simp [alive, he])]; exact .watched hp hd ‹_› he
    | some rc => rw [if_neg (by simp [alive, he])]; exact .left hp hd ‹_› he

theorem onWake_move (h : a.onWake now = some b) :
    AttemptMove cfg discovery now stop a .wake b := by
  have wind {c : Attempt} (hp : a.phase.winding = true)
      (hc : Kept a c ∧ c.phase.winding = true) (hs : Spared a c) :
      AttemptMove cfg discovery now stop a .wake c := .winding (.inl rfl) hp hc.1 hc.2 hs
  unfold onWake at h
  split at h
  · rename_i hp he
    cases h; exact .noticed hp he
  · rename_i hp _
    cases h; exact wind (by rw [hp]; rfl) (terminateGroup_kept ..) (terminateGroup_spared _ _ _)
  · rename_i hp _
    cases h; exact wind (by rw [hp]; rfl) (awaitGroup_kept ..) (awaitGroup_spared _ _ _ _)
  · rename_i hp _
    cases h; exact wind (by rw [hp]; rfl) (terminated_kept ..) (terminated_spared _ _ _)
  · rename_i hp he
    cases h; exact wind (by rw [hp]; rfl) (terminateTree_kept ..) (terminateTree_spared he _ _)
  · rename_i hp he
    split at h
    · cases h; exact .returned (.inl rfl) hp he
    · cases h; exact .raised hp ‹_› he
    · cases h
  · cases h

theorem onTimeout_move (h : a.onTimeout cfg discovery now stop = some b) :
    AttemptMove cfg discovery now stop a .timeout b := by
  have wind {c : Attempt} (hp : a.phase.winding = true)
      (hc : Kept a c ∧ c.phase.winding = true) (hs : Spared a c) :
      AttemptMove cfg discovery now stop a .timeout c := .winding (.inr rfl) hp hc.1 hc.2 hs
  unfold onTimeout at h
  split at h
  · rename_i hp
    split at h
    · cases h; exact onPoll_move hp ‹_›
    · cases h
  · rename_i hp
    split at h
    · cases h; exact wind (by rw [hp]; rfl) (terminateGroup_kept ..) (terminateGroup_spared _ _ _)
    · cases h
  · rename_i hp
    split at h
    · cases h; exact wind (by rw [hp]; rfl) (awaitGroup_kept ..) (awaitGroup_spared _ _ _ _)
    · cases h
  · rename_i hp
    split at h
    · cases h; exact wind (by rw [hp]; rfl) (awaitGroup_kept ..) (awaitGroup_spared _ _ _ _)
    · cases h
  · rename_i hp
    split at h
    · cases h; exact wind (by rw [hp]; rfl) (terminated_kept ..) (terminated_spared _ _ _)
    · cases h
  · rename_i hp
    split at h
    · rename_i he
      split at h
      · cases h; exact .returned (.inr rfl) hp he
      · cases h
    · cases h
  · cases h

theorem step_move (h : a.step cfg discovery now stop l = some b) :
    AttemptMove cfg discovery now stop a l b := by
  cases l with
  | line text =>
    simp only [step] at h
    split at h
    · cases h; exact .line ‹_›
    · cases h
  | relayEnds =>
    simp only [step] at h
    split at h
    · cases h; exact .relayEnds ‹_›
    · cases h
  | relayRaises =>
    simp only [step] at h
    split at h
    · cases h; exact .relayRaises ‹_›
    · cases h
  | exit rc =>
    simp only [step] at h
    split at h
    · cases h; exact .exit (by simpa [alive] using ‹a.alive = true›)
    · cases h
  | descendants alive => cases h; exact .descendants
  | wake => exact onWake_move h
  | timeout => exact onTimeout_move h

/-- The exit code is what the engine exited with. -/
theorem step_exitCode (h : a.step cfg discovery now stop l = some b) :
    b.exitCode = a.exitCode ∨ ∃ rc, l = .exit rc ∧ a.exitCode = none ∧ b.exitCode = some rc := by
  cases step_move h with
  | exit he => exact .inr ⟨_, rfl, he, rfl⟩
  | @polled due reason => exact .inl (terminateTree_kept { a with reason } now false).1.exitCode
  | winding _ _ hk => exact .inl hk.exitCode
  | _ => exact .inl rfl

/-- An attempt ends only after the exit of its engine. -/
theorem step_open (h : a.step cfg discovery now stop l = some b) (ha : a.phase.isOpen = true) :
    b.phase.isOpen = true ∨ ∃ rc, b.exitCode = some rc := by
  cases step_move h with
  | returned _ _ he => exact .inr ⟨_, he⟩
  | raised _ _ he => exact .inr ⟨_, he⟩
  | @polled due reason =>
    have hw := (terminateTree_kept { a with reason } now false).2
    exact .inl (by rw [AttemptPhase.isOpen, hw, Bool.or_true])
  | winding _ _ _ hw => exact .inl (by rw [AttemptPhase.isOpen, hw, Bool.or_true])
  | noticed | watched | left => exact .inl rfl
  | _ => exact .inl ha

end Attempt

end EufyNvr.Supervisor
