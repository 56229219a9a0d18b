import EufyNvr.Supervisor.Attempt

/-!
# The time a teardown takes

An attempt from the moment stop is requested, which is time 0, to the release
of the gate. Its steps are those of the attempt machine, each taken as soon
as what it waits for happens or its time is over; the engine exits some time
after a signal, or not at all. The configuration that the generator writes
lets the supervisor live for five seconds from then.
-/

namespace EufyNvr.Supervisor

/-- `killtimeout` of the generated commands. -/
def killTimeout : Int := 5

/-- What the processes do, and when; a delay that is none is a refusal. -/
structure Reactions where
  /-- The poll that is under way ends. -/
  poll : Int
  /-- The engine exits without a signal. -/
  own : Option Int
  /-- The delays between the signals and the exit. -/
  interrupt : Option Int
  terminate : Option Int
  kill : Option Int
  /-- The last child has left the process group. -/
  children : Option Int
  /-- The end of stderr, or a failure of the task that relays it. -/
  relay : Option (Int × Bool)
  exitCode : Int
  poll_nonneg : 0 ≤ poll
  poll_le : poll ≤ pollInterval
  own_nonneg : ∀ t ∈ own, 0 ≤ t
  interrupt_nonneg : ∀ d ∈ interrupt, 0 ≤ d
  terminate_nonneg : ∀ d ∈ terminate, 0 ≤ d
  kill_nonneg : ∀ d ∈ kill, 0 ≤ d

/-- It has happened by then. -/
def past (event : Option Int) (t : Int) : Bool := event.any (· ≤ t)

def earliest : Option Int → Option Int → Option Int
  | some a, some b => some (min a b)
  | some a, none => some a
  | none, b => b

/-- An attempt, and when its engine will have exited. -/
structure Course where
  now : Int
  attempt : Attempt
  exit : Option Int

namespace Course

variable (cfg : Settings) (discovery : Bool) (r : Reactions)

/-- Stop has just been requested, within an interval between two polls. -/
def start (a : Attempt) : Course := ⟨0, { a with phase := .watching r.poll }, r.own⟩

/-- What the attempt finds at a time. -/
def observe (t : Int) (c : Course) : Attempt := { c.attempt with
  exitCode := if past c.exit t then some r.exitCode else none
  descendants := !past r.children t
  relay := if past (r.relay.map Prod.fst) t then
      if r.relay.any Prod.snd then .failed else .ended
    else .running }

/-- The engine reacts to the signals that have just been sent. -/
def react (t : Int) (exit : Option Int) (signals : List Signal) : Option Int :=
  signals.foldl (fun exit s => earliest exit <| (match s with
    | .interrupt => r.interrupt
    | .terminateGroup => r.terminate
    | .killGroup => r.kill).map (t + ·)) exit

/-- A step at a time. -/
def take (t : Int) (l : AttemptLabel) (c : Course) : Option Course :=
  ((c.observe r t).step cfg discovery t true l).map fun a =>
    ⟨t, a, react r t c.exit (a.signals.drop c.attempt.signals.length)⟩

/-- The wait for an event, up to a time. -/
def await (event : Option Int) (due : Int) (c : Course) : Option Course :=
  match event with
  | some e =>
    if e ≤ due then c.take cfg discovery r (max c.now e) .wake
    else c.take cfg discovery r (max c.now due) .timeout
  | none => c.take cfg discovery r (max c.now due) .timeout

/-- The next step. -/
def next (c : Course) : Option Course :=
  match c.attempt.phase with
  | .watching due | .terminating (.interrupted due) _ | .terminating (.terminated due) _
  | .terminating (.killed due) _ => c.await cfg discovery r c.exit due
  | .terminating (.group _ wake) _ => c.take cfg discovery r (max c.now wake) .timeout
  | .reaping => c.exit.bind fun e => c.take cfg discovery r (max c.now e) .wake
  | .draining due => c.await cfg discovery r (r.relay.map Prod.fst) due
  | .returned _ | .raised => none

def Reaches : Course → Course → Prop :=
  Relation.ReflTransGen fun c c' => c.next cfg discovery r = some c'

/-- `run_attempt` is over. -/
def ended (c : Course) : Bool :=
  match c.attempt.phase with
  | .returned _ | .raised => true
  | _ => false

/-- The gate is released while the supervisor is allowed to live. -/
def InTime (a : Attempt) : Prop :=
  ∃ c, Reaches cfg discovery r (start r a) c ∧ c.ended = true ∧
    c.now + cfg.releaseDelay ≤ seconds killTimeout

-- ---------------------------------------------------------------------------
-- Single steps
-- ---------------------------------------------------------------------------

section

variable {cfg : Settings} {discovery : Bool} {r : Reactions} {c : Course} {t e due : Int}
  {exit : Option Int} {p : AttemptPhase} {cleanup : Bool} {l : AttemptLabel} {a : Attempt}

/-- Where a course stands. -/
structure At (c : Course) (t : Int) (exit : Option Int) (p : AttemptPhase) : Prop where
  now : c.now = t
  exit : c.exit = exit
  phase : c.attempt.phase = p

theorem take_step (h : (c.observe r t).step cfg discovery t true l = some a) :
    c.take cfg discovery r t l =
      some ⟨t, a, react r t c.exit (a.signals.drop c.attempt.signals.length)⟩ := by
  rw [take, h]
  rfl

/-- A step without a signal. -/
theorem take_quiet (h : (c.observe r t).step cfg discovery t true l = some a)
    (hs : a.signals = c.attempt.signals) : c.take cfg discovery r t l = some ⟨t, a, c.exit⟩ := by
  rw [take_step h, hs, List.drop_length]
  rfl

theorem take_signal {s : Signal} (h : (c.observe r t).step cfg discovery t true l = some a)
    (hs : a.signals = c.attempt.signals ++ [s]) :
    c.take cfg discovery r t l = some ⟨t, a, react r t c.exit [s]⟩ := by
  rw [take_step h, hs, List.drop_left]

/-- An engine that has exited does not react. -/
theorem react_exited (he : e ≤ t) (signals : List Signal) :
    react r t (some e) signals = some e := by
  induction signals with
  | nil => rfl
  | cons s ss ih =>
    have hkeep : ∀ delay : Option Int, (∀ d ∈ delay, 0 ≤ d) →
        earliest (some e) (delay.map (t + ·)) = some e := by
      intro delay hdelay
      cases delay with
      | none => rfl
      | some d =>
        have hle : e ≤ t + d := he.trans (le_add_of_nonneg_right (hdelay d rfl))
        exact congrArg some (min_eq_left hle)
    rw [react, List.foldl_cons]
    cases s with
    | interrupt => rw [hkeep _ r.interrupt_nonneg]; exact ih
    | terminateGroup => rw [hkeep _ r.terminate_nonneg]; exact ih
    | killGroup => rw [hkeep _ r.kill_nonneg]; exact ih

theorem take_exited (h : (c.observe r t).step cfg discovery t true l = some a)
    (hexit : c.exit = some e) (he : e ≤ t) :
    c.take cfg discovery r t l = some ⟨t, a, some e⟩ := by
  rw [take_step h, hexit, react_exited he]

/-- The event comes first. -/
theorem await_event (he : e ≤ due) : c.await cfg discovery r (some e) due =
    c.take cfg discovery r (max c.now e) .wake := if_pos he

theorem await_timeout {event : Option Int} (he : past event due = false) :
    c.await cfg discovery r event due = c.take cfg discovery r (max c.now due) .timeout := by
  cases event with
  | none => rfl
  | some e =>
    have hlt : ¬ e ≤ due := of_decide_eq_false he
    exact if_neg hlt

/-- The engine exits before the poll. -/
theorem next_watching_exit (cfg : Settings) (discovery : Bool)
    (h : At c t (some e) (.watching due)) (ht : t ≤ e) (he : e ≤ due) :
    ∃ c', c.next cfg discovery r = some c' ∧ At c' e (some e) .reaping := by
  have hstep : (c.observe r e).step cfg discovery e true .wake =
      some ((c.observe r e).goto .reaping) := by
    simp [Attempt.step, Attempt.onWake, observe, h.phase, h.exit, past]
  have hnext : c.next cfg discovery r = some ⟨e, (c.observe r e).goto .reaping, some e⟩ := by
    rw [next, h.phase]
    dsimp only
    rw [h.exit, await_event he, h.now, max_eq_right ht, take_quiet hstep rfl, h.exit]
  exact ⟨_, hnext, rfl, rfl, rfl⟩

/-- The poll finds that stop is requested, and interrupts the engine. -/
theorem next_watching_poll (cfg : Settings) (discovery : Bool)
    (h : At c t exit (.watching due)) (ht : t ≤ due)
    (he : past exit due = false) :
    ∃ c', c.next cfg discovery r = some c' ∧
      At c' due (earliest exit (r.interrupt.map (due + ·)))
        (.terminating (.interrupted (due + seconds 3)) false) := by
  let a := ({ c.observe r due with reason := .shutdown }.signal .interrupt).goto
    (.terminating (.interrupted (due + seconds 3)) false)
  have hstep : (c.observe r due).step cfg discovery due true .timeout = some a := by
    simp [a, Attempt.step, Attempt.onTimeout, Attempt.onPoll, Attempt.poll, Attempt.terminateTree,
      Attempt.alive, observe, h.phase, h.exit, he]
  have hnext : c.next cfg discovery r = some ⟨due, a, react r due exit [.interrupt]⟩ := by
    rw [next, h.phase]
    dsimp only
    rw [h.exit, await_timeout he, h.now, max_eq_right ht, take_signal hstep rfl, h.exit]
  exact ⟨_, hnext, rfl, rfl, rfl⟩

/-- The engine refuses the interrupt, and its group is told to terminate. -/
theorem next_interrupted_timeout (cfg : Settings) (discovery : Bool)
    (h : At c t exit (.terminating (.interrupted due) cleanup))
    (ht : t ≤ due) (he : past exit due = false) :
    ∃ c', c.next cfg discovery r = some c' ∧
      At c' due (earliest exit (r.terminate.map (due + ·)))
        (.terminating (.terminated (due + seconds 5)) cleanup) := by
  let a := ((c.observe r due).signal .terminateGroup).goto
    (.terminating (.terminated (due + seconds 5)) cleanup)
  have hstep : (c.observe r due).step cfg discovery due true .timeout = some a := by
    simp [a, Attempt.step, Attempt.onTimeout, Attempt.terminateGroup, Attempt.alive, observe,
      h.phase, h.exit, he]
  have hnext : c.next cfg discovery r = some ⟨due, a, react r due exit [.terminateGroup]⟩ := by
    rw [next, h.phase]
    dsimp only
    rw [h.exit, await_timeout he, h.now, max_eq_right ht, take_signal hstep rfl, h.exit]
  exact ⟨_, hnext, rfl, rfl, rfl⟩

/-- The engine refuses that, too, and the wait for the group begins. -/
theorem next_terminated_timeout (cfg : Settings) (discovery : Bool)
    (h : At c t exit (.terminating (.terminated due) cleanup))
    (ht : t ≤ due) (he : past exit due = false) :
    ∃ c', c.next cfg discovery r = some c' ∧ c'.now = due ∧ c'.ended = false := by
  let a := (c.observe r due).goto
    (.terminating (.group (due + seconds 2) (due + milliseconds 100)) cleanup)
  have hstep : (c.observe r due).step cfg discovery due true .timeout = some a := by
    simp [a, Attempt.step, Attempt.onTimeout, Attempt.awaitGroup, Attempt.alive, observe, h.phase,
      h.exit, he, seconds]
  have hnext : c.next cfg discovery r = some ⟨due, a, exit⟩ := by
    rw [next, h.phase]
    dsimp only
    rw [h.exit, await_timeout he, h.now, max_eq_right ht, take_quiet hstep rfl, h.exit]
  exact ⟨_, hnext, rfl, rfl⟩

-- ---------------------------------------------------------------------------
-- The wait for the group
-- ---------------------------------------------------------------------------

/-- The polls of the loop until the last child is gone, at most `cap`. -/
def polls (cap : Nat) (children : Option Int) (t : Int) : Nat :=
  match children with
  | none => cap
  | some g => min cap ((g - t + (milliseconds 100 - 1)) / milliseconds 100).toNat

theorem polls_past (h : past r.children t = true) (cap : Nat) : polls cap r.children t = 0 := by
  cases hg : r.children with
  | none =>
    rw [hg] at h
    cases h
  | some g =>
    rw [hg] at h
    have hle : g ≤ t := of_decide_eq_true h
    simp only [polls, milliseconds]
    omega

theorem polls_succ (h : past r.children t = false) (cap : Nat) :
    polls (cap + 1) r.children t = polls cap r.children (t + milliseconds 100) + 1 := by
  cases hg : r.children with
  | none => rfl
  | some g =>
    rw [hg] at h
    have hlt : ¬ g ≤ t := of_decide_eq_false h
    simp only [polls, milliseconds]
    omega

/-- Where `_terminate_tree` returns to. -/
def afterTree (t : Int) (cleanup : Bool) : AttemptPhase :=
  if cleanup then .draining (t + seconds 2) else .reaping

theorem terminated_phase (a : Attempt) :
    a.terminated t cleanup = a.goto (afterTree t cleanup) := by
  cases cleanup <;> rfl

theorem next_group {d w : Int} (h : At c t (some e) (.terminating (.group d w) cleanup))
    (ht : t ≤ w) (he : e ≤ w) : c.next cfg discovery r =
      some ⟨w, (c.observe r w).awaitGroup w d cleanup, some e⟩ := by
  have hstep : (c.observe r w).step cfg discovery w true .timeout =
      some ((c.observe r w).awaitGroup w d cleanup) := by
    simp [Attempt.step, Attempt.onTimeout, observe, h.phase]
  rw [next, h.phase]
  dsimp only
  rw [h.now, max_eq_right ht, take_exited hstep h.exit he]

theorem next_killed (h : At c t (some e) (.terminating (.killed due) cleanup)) (he : e ≤ t)
    (ht : t ≤ due) : c.next cfg discovery r =
      some ⟨t, (c.observe r t).goto (afterTree t cleanup), some e⟩ := by
  have hstep : (c.observe r t).step cfg discovery t true .wake =
      some ((c.observe r t).terminated t cleanup) := by
    simp [Attempt.step, Attempt.onWake, observe, h.phase, h.exit, past, he]
  rw [next, h.phase]
  dsimp only
  rw [h.exit, await_event (he.trans ht), h.now, max_eq_left he, take_exited hstep h.exit he,
    terminated_phase]

/-- The loop from a poll on, with `n` more polls before its deadline. -/
theorem reaches_group (n : Nat) (he : e ≤ t) (ha : a.exitCode = some r.exitCode)
    (hd : a.descendants = !past r.children t) :
    ∃ c', Reaches cfg discovery r
        ⟨t, a.awaitGroup t (t + n * milliseconds 100) cleanup, some e⟩ c' ∧
      At c' (t + polls n r.children t * milliseconds 100) (some e)
        (afterTree (t + polls n r.children t * milliseconds 100) cleanup) := by
  induction n generalizing t a with
  | zero =>
    have hzero : t + ((0 : Nat) : Int) * milliseconds 100 = t := by simp
    have hpolls : polls 0 r.children t = 0 := by cases r.children <;> simp [polls]
    rw [hpolls, hzero, Attempt.awaitGroup, if_neg (lt_irrefl t), Attempt.killGroup]
    split
    · -- The group is killed; the engine is not there any more.
      refine ⟨_, .single (next_killed ⟨rfl, rfl, rfl⟩ he ?_), rfl, rfl, rfl⟩
      simp only [seconds]
      omega
    · exact ⟨_, .refl, rfl, rfl, by rw [terminated_phase]; rfl⟩
  | succ n ih =>
    have hlt : t < t + ((n + 1 : Nat) : Int) * milliseconds 100 := by
      simp only [milliseconds]
      omega
    rw [Attempt.awaitGroup, if_pos hlt]
    cases hpast : past r.children t with
    | true =>
      have hgone : (a.alive || a.descendants) = false := by
        simp [Attempt.alive, ha, hd, hpast]
      rw [hgone, if_neg Bool.false_ne_true, polls_past hpast]
      exact ⟨_, .refl, by simp, rfl, by rw [terminated_phase]; simp [Attempt.goto]⟩
    | false =>
      have hthere : (a.alive || a.descendants) = true := by simp [hd, hpast]
      have hle : t ≤ t + milliseconds 100 := by simp only [milliseconds]; omega
      have he' : e ≤ t + milliseconds 100 := he.trans hle
      have hdeadline : t + ((n + 1 : Nat) : Int) * milliseconds 100 =
          t + milliseconds 100 + n * milliseconds 100 := by push_cast; ring
      have htotal : t + ((polls n r.children (t + milliseconds 100) + 1 : Nat) : Int) *
          milliseconds 100 = t + milliseconds 100 +
            polls n r.children (t + milliseconds 100) * milliseconds 100 := by push_cast; ring
      rw [hthere, if_pos rfl, polls_succ hpast, htotal, hdeadline]
      obtain ⟨c', hreach, hat⟩ := ih (a := (Course.mk t (a.goto (.terminating
          (.group (t + milliseconds 100 + n * milliseconds 100) (t + milliseconds 100)) cleanup))
          (some e)).observe r (t + milliseconds 100)) he' (by simp [observe, past, he']) rfl
      exact ⟨c', .head (next_group ⟨rfl, rfl, rfl⟩ hle he') hreach, hat⟩

/-- The loop of a `_terminate_tree` that finds the engine gone. -/
theorem reaches_tree (cleanup : Bool) (hexit : c.exit = some e) (he : e ≤ t) :
    ∃ c', Reaches cfg discovery r
        ⟨t, (c.observe r t).awaitGroup t (t + seconds 2) cleanup, some e⟩ c' ∧
      At c' (t + polls 20 r.children t * milliseconds 100) (some e)
        (afterTree (t + polls 20 r.children t * milliseconds 100) cleanup) := by
  have htwo : seconds 2 = ((20 : Nat) : Int) * milliseconds 100 := rfl
  rw [htwo]
  exact reaches_group 20 he (by simp [observe, past, hexit, he]) rfl

-- ---------------------------------------------------------------------------
-- The engine exits in time
-- ---------------------------------------------------------------------------

/-- The engine exits on a signal, while the supervisor waits for that. -/
theorem reaches_exit (cfg : Settings) (discovery : Bool) {stage : Int → Stage}
    (hstage : stage = .interrupted ∨ stage = .terminated)
    (h : At c t (some e) (.terminating (stage due) cleanup)) (ht : t ≤ e) (he : e ≤ due) :
    ∃ c', Reaches cfg discovery r c c' ∧
      At c' (e + polls 20 r.children e * milliseconds 100) (some e)
        (afterTree (e + polls 20 r.children e * milliseconds 100) cleanup) := by
  have hstep : (c.observe r e).step cfg discovery e true .wake =
      some ((c.observe r e).awaitGroup e (e + seconds 2) cleanup) := by
    rcases hstage with rfl | rfl <;>
      simp [Attempt.step, Attempt.onWake, Attempt.terminateGroup, Attempt.alive, observe, h.phase,
        h.exit, past]
  have hnext : c.next cfg discovery r =
      some ⟨e, (c.observe r e).awaitGroup e (e + seconds 2) cleanup, some e⟩ := by
    have hawait : c.next cfg discovery r = c.await cfg discovery r c.exit due := by
      rw [next, h.phase]
      rcases hstage with rfl | rfl <;> rfl
    rw [hawait, h.exit, await_event he, h.now, max_eq_right ht, take_exited hstep h.exit le_rfl]
  obtain ⟨c', hreach, hat⟩ := reaches_tree cleanup h.exit (le_refl e)
  exact ⟨c', .head hnext hreach, hat⟩

/-- How long the relay may still take. -/
def drainTime (r : Reactions) (t : Int) : Int :=
  match r.relay with
  | none => seconds 2
  | some (end_, _) => min (seconds 2) (max 0 (end_ - t))

theorem next_draining (cfg : Settings) (discovery : Bool)
    (h : At c t (some e) (.draining (t + seconds 2))) (he : e ≤ t) :
    ∃ c', c.next cfg discovery r = some c' ∧ c'.ended = true ∧ c'.now = t + drainTime r t := by
  have hawait : c.next cfg discovery r =
      c.await cfg discovery r (r.relay.map Prod.fst) (t + seconds 2) := by rw [next, h.phase]
  cases hrelay : past (r.relay.map Prod.fst) (t + seconds 2) with
  | false =>
    have hdrain : drainTime r t = seconds 2 := by
      cases hr : r.relay with
      | none => simp [drainTime, hr]
      | some q =>
        rw [hr] at hrelay
        have hlate : ¬ q.1 ≤ t + seconds 2 := of_decide_eq_false hrelay
        simp only [drainTime, hr, seconds] at hlate ⊢
        omega
    have hle : t ≤ t + seconds 2 := by simp only [seconds]; omega
    have hstep : (c.observe r (t + seconds 2)).step cfg discovery (t + seconds 2) true .timeout =
        some ((c.observe r (t + seconds 2)).goto (.returned r.exitCode)) := by
      simp [Attempt.step, Attempt.onTimeout, observe, h.phase, h.exit, past, he.trans hle]
    rw [hawait, await_timeout hrelay, h.now, max_eq_right hle,
      take_exited hstep h.exit (he.trans hle), hdrain]
    exact ⟨_, rfl, rfl, rfl⟩
  | true =>
    obtain ⟨q, hr⟩ : ∃ q, r.relay = some q := by
      cases hr : r.relay with
      | none => rw [hr] at hrelay; cases hrelay
      | some q => exact ⟨q, rfl⟩
    rw [hr] at hrelay
    have hq : q.1 ≤ t + seconds 2 := of_decide_eq_true hrelay
    have hdrain : t + drainTime r t = max t q.1 := by
      simp only [drainTime, hr, seconds] at hq ⊢
      omega
    have hle : t ≤ max t q.1 := le_max_left t q.1
    have hstep : (c.observe r (max t q.1)).step cfg discovery (max t q.1) true .wake =
        some ((c.observe r (max t q.1)).goto
          (if q.2 then .raised else .returned r.exitCode)) := by
      cases hraises : q.2 <;>
        simp [Attempt.step, Attempt.onWake, observe, h.phase, h.exit, past, he, hr, hraises]
    rw [hawait, hr, Option.map_some, await_event hq, h.now,
      take_exited hstep h.exit (he.trans hle), hdrain]
    refine ⟨_, rfl, ?_, rfl⟩
    cases q.2 <;> rfl

/-- The second `_terminate_tree`, and the relay. -/
theorem reaches_end (cfg : Settings) (discovery : Bool)
    (h : At c t (some e) .reaping) (he : e ≤ t) :
    ∃ c', Reaches cfg discovery r c c' ∧ c'.ended = true ∧
      c'.now = t + polls 20 r.children t * milliseconds 100 +
        drainTime r (t + polls 20 r.children t * milliseconds 100) := by
  have hstep : (c.observe r t).step cfg discovery t true .wake =
      some ((c.observe r t).awaitGroup t (t + seconds 2) true) := by
    simp [Attempt.step, Attempt.onWake, Attempt.terminateTree, Attempt.terminateGroup,
      Attempt.alive, observe, h.phase, h.exit, past, he]
  have hnext : c.next cfg discovery r =
      some ⟨t, (c.observe r t).awaitGroup t (t + seconds 2) true, some e⟩ := by
    rw [next, h.phase]
    dsimp only
    rw [h.exit, Option.bind_some, h.now, max_eq_left he, take_exited hstep h.exit he]
  obtain ⟨d, hreach, hd⟩ := reaches_tree true h.exit he
  have hpolls : 0 ≤ (polls 20 r.children t : Int) * milliseconds 100 := by
    simp only [milliseconds]
    omega
  obtain ⟨c', hend, hended, hnow⟩ := next_draining cfg discovery hd
    (he.trans (le_add_of_nonneg_right hpolls))
  exact ⟨c', .head hnext (hreach.tail hend), hended, hnow⟩

/-- One teardown after the other polls on from where the first has stopped. -/
theorem polls_add (children : Option Int) (t : Int) :
    polls 20 children t + polls 20 children (t + polls 20 children t * milliseconds 100) =
      polls 40 children t := by
  cases children with
  | none => rfl
  | some g =>
    simp only [polls, milliseconds]
    omega

-- ---------------------------------------------------------------------------
-- The budget
-- ---------------------------------------------------------------------------

/-- When the engine exits: by itself before the poll, or some time after the
interrupt, or after its group has been told to terminate. -/
def exitTime (r : Reactions) : Option Int :=
  if past r.own r.poll then r.own
  else
    let interrupted := earliest r.own (r.interrupt.map (r.poll + ·))
    if past interrupted (r.poll + seconds 3) then interrupted
    else earliest interrupted (r.terminate.map (r.poll + seconds 3 + ·))

/-- How long the polls for the children go on: two seconds for each
`_terminate_tree` at most. -/
def lingerTime (r : Reactions) (t : Int) : Int :=
  polls (if past r.own r.poll then 20 else 40) r.children t * milliseconds 100

/-- The engine's exit, its children, the relay and the release delay fit. -/
def Fits (cfg : Settings) (r : Reactions) : Prop :=
  ∃ x, exitTime r = some x ∧
    x + lingerTime r x + drainTime r (x + lingerTime r x) + cfg.releaseDelay ≤ seconds killTimeout

theorem lingerTime_nonneg (r : Reactions) (t : Int) : 0 ≤ lingerTime r t := by
  simp only [lingerTime, milliseconds]
  omega

theorem drainTime_nonneg (r : Reactions) (t : Int) : 0 ≤ drainTime r t := by
  simp only [drainTime, seconds]
  split <;> omega

theorem earliest_ge {x y : Option Int} {m z : Int} (hx : ∀ v ∈ x, m ≤ v) (hy : ∀ v ∈ y, m ≤ v)
    (h : earliest x y = some z) : m ≤ z := by
  cases x with
  | none => exact hy z h
  | some v =>
    cases y with
    | none => exact hx z h
    | some w =>
      cases h
      exact le_min (hx v rfl) (hy w rfl)

theorem ge_of_not_past {x : Option Int} {m : Int} (h : past x m = false) : ∀ v ∈ x, m ≤ v := by
  rintro v rfl
  have hlt : ¬ v ≤ m := of_decide_eq_false h
  omega

theorem ge_of_delay {d : Option Int} {m : Int} (h : ∀ v ∈ d, 0 ≤ v) :
    ∀ v ∈ d.map (m + ·), m ≤ v := by
  intro v hv
  obtain ⟨w, hw, rfl⟩ := Option.map_eq_some_iff.mp hv
  exact le_add_of_nonneg_right (h w hw)

/-- Both teardowns, after the first has found the engine gone. -/
theorem reaches_end_twice (cfg : Settings) (discovery : Bool) {x : Int}
    (h : At c (x + polls 20 r.children x * milliseconds 100) (some x) .reaping) :
    ∃ c', Reaches cfg discovery r c c' ∧ c'.ended = true ∧
      c'.now = x + polls 40 r.children x * milliseconds 100 +
        drainTime r (x + polls 40 r.children x * milliseconds 100) := by
  have hle : x ≤ x + polls 20 r.children x * milliseconds 100 := by
    simp only [milliseconds]
    omega
  obtain ⟨c', hreach, hended, hnow⟩ := reaches_end cfg discovery h hle
  refine ⟨c', hreach, hended, ?_⟩
  have hsum : x + polls 20 r.children x * milliseconds 100 +
      polls 20 r.children (x + polls 20 r.children x * milliseconds 100) * milliseconds 100 =
      x + polls 40 r.children x * milliseconds 100 := by
    rw [← polls_add]
    push_cast
    ring
  rw [hnow, hsum]

/-- An engine that exits before the last resort: the time of the whole. -/
theorem reaches_of_exit (cfg : Settings) (discovery : Bool) {x : Int}
    (hx : exitTime r = some x) (hle : x ≤ r.poll + seconds 8)
    (a : Attempt) : ∃ c, Reaches cfg discovery r (start r a) c ∧ c.ended = true ∧
      c.now = x + lingerTime r x + drainTime r (x + lingerTime r x) := by
  have hstart : At (start r a) 0 r.own (.watching r.poll) := ⟨rfl, rfl, rfl⟩
  unfold lingerTime
  unfold exitTime at hx
  cases hown : past r.own r.poll with
  | true =>
    rw [hown, if_pos rfl] at hx
    rw [hx] at hown hstart
    obtain ⟨c, hnext, hc⟩ := next_watching_exit cfg discovery hstart
      (r.own_nonneg x hx) (of_decide_eq_true hown)
    obtain ⟨c', hreach, hended, hnow⟩ :=
      reaches_end cfg discovery hc le_rfl
    exact ⟨c', .head hnext hreach, hended, hnow⟩
  | false =>
    rw [hown, if_neg Bool.false_ne_true] at hx
    obtain ⟨c, hnext, hc⟩ := next_watching_poll cfg discovery hstart
      r.poll_nonneg hown
    have hfirst : ∀ v ∈ earliest r.own (r.interrupt.map (r.poll + ·)), r.poll ≤ v := fun v hv =>
      earliest_ge (ge_of_not_past hown) (ge_of_delay r.interrupt_nonneg) hv
    dsimp only at hx
    cases hinterrupted : past (earliest r.own (r.interrupt.map (r.poll + ·)))
        (r.poll + seconds 3) with
    | true =>
      rw [hinterrupted, if_pos rfl] at hx
      rw [hx] at hinterrupted hc
      obtain ⟨d, hexit, hd⟩ := reaches_exit cfg discovery (.inl rfl) hc
        (hfirst x hx) (of_decide_eq_true hinterrupted)
      obtain ⟨c', hreach, hended, hnow⟩ :=
        reaches_end_twice cfg discovery hd
      exact ⟨c', .head hnext (hexit.trans hreach), hended, hnow⟩
    | false =>
      rw [hinterrupted, if_neg Bool.false_ne_true] at hx
      obtain ⟨c₂, hnext₂, hc₂⟩ := next_interrupted_timeout cfg discovery hc
        (by simp only [seconds]; omega) hinterrupted
      rw [hx] at hc₂
      obtain ⟨d, hexit, hd⟩ := reaches_exit cfg discovery (.inr rfl) hc₂
        (earliest_ge (ge_of_not_past hinterrupted) (ge_of_delay r.terminate_nonneg) hx)
        (by simp only [seconds] at hle ⊢; omega)
      obtain ⟨c', hreach, hended, hnow⟩ :=
        reaches_end_twice cfg discovery hd
      exact ⟨c', .head hnext (.head hnext₂ (hexit.trans hreach)), hended, hnow⟩

/-- Any other is still waited for after eight seconds and the poll. -/
theorem reaches_late (cfg : Settings) (discovery : Bool)
    (hlate : ∀ x, exitTime r = some x → r.poll + seconds 8 < x) (a : Attempt) :
    ∃ c, Reaches cfg discovery r (start r a) c ∧ c.ended = false ∧ c.now = r.poll + seconds 8 := by
  have hstart : At (start r a) 0 r.own (.watching r.poll) := ⟨rfl, rfl, rfl⟩
  unfold exitTime at hlate
  have hnot : ∀ {x : Option Int} {m : Int}, m ≤ r.poll + seconds 8 →
      (∀ v, x = some v → r.poll + seconds 8 < v) → past x m = false := by
    intro x m hm hv
    cases x with
    | none => rfl
    | some v => exact decide_eq_false (not_le.mpr (hm.trans_lt (hv v rfl)))
  have hown : past r.own r.poll = false := by
    by_contra h
    rw [Bool.not_eq_false] at h
    rw [h, if_pos rfl] at hlate
    rw [hnot (by simp only [seconds]; omega) hlate] at h
    cases h
  rw [hown, if_neg Bool.false_ne_true] at hlate
  obtain ⟨c, hnext, hc⟩ := next_watching_poll cfg discovery hstart
    r.poll_nonneg hown
  dsimp only at hlate
  have hinterrupted : past (earliest r.own (r.interrupt.map (r.poll + ·)))
      (r.poll + seconds 3) = false := by
    by_contra h
    rw [Bool.not_eq_false] at h
    rw [h, if_pos rfl] at hlate
    rw [hnot (by simp only [seconds]; omega) hlate] at h
    cases h
  rw [hinterrupted, if_neg Bool.false_ne_true] at hlate
  obtain ⟨c₂, hnext₂, hc₂⟩ := next_interrupted_timeout cfg discovery hc
    (by simp only [seconds]; omega) hinterrupted
  have hdue : r.poll + seconds 3 + seconds 5 = r.poll + seconds 8 := by simp only [seconds]; omega
  rw [hdue] at hc₂
  obtain ⟨c₃, hnext₃, hnow, hended⟩ := next_terminated_timeout cfg discovery hc₂ (by simp only [seconds]; omega) (hnot le_rfl hlate)
  exact ⟨c₃, .head hnext (.head hnext₂ (.single hnext₃)), hended, hnow⟩

-- ---------------------------------------------------------------------------
-- Runs
-- ---------------------------------------------------------------------------

variable {c' d : Course}

theorem take_now (h : c.take cfg discovery r t l = some c') : c'.now = t := by
  obtain ⟨_, -, rfl⟩ := Option.map_eq_some_iff.mp h
  rfl

theorem await_now {event : Option Int} (h : c.await cfg discovery r event due = some c') :
    c.now ≤ c'.now := by
  unfold await at h
  split at h
  · split at h
    · exact take_now h ▸ le_max_left _ _
    · exact take_now h ▸ le_max_left _ _
  · exact take_now h ▸ le_max_left _ _

theorem next_now (h : c.next cfg discovery r = some c') : c.now ≤ c'.now := by
  unfold next at h
  split at h
  · exact await_now h
  · exact await_now h
  · exact await_now h
  · exact await_now h
  · exact take_now h ▸ le_max_left _ _
  · obtain ⟨_, -, h⟩ := Option.bind_eq_some_iff.mp h
    exact take_now h ▸ le_max_left _ _
  · exact await_now h
  · cases h
  · cases h

theorem Reaches.now (h : Reaches cfg discovery r c d) : c.now ≤ d.now := by
  induction h with
  | refl => exact le_rfl
  | tail _ hnext ih => exact ih.trans (next_now hnext)

theorem Reaches.of_ended (h : Reaches cfg discovery r c d) (hended : c.ended = true) : d = c := by
  rcases Relation.ReflTransGen.cases_head h with rfl | ⟨c', hnext, -⟩
  · rfl
  · unfold next at hnext
    unfold ended at hended
    split at hended <;> rename_i hp
    · rw [hp] at hnext
      cases hnext
    · rw [hp] at hnext
      cases hnext
    · cases hended

/-- Of two courses of one run one comes after the other. -/
theorem Reaches.total (h : Reaches cfg discovery r c c') (h' : Reaches cfg discovery r c d) :
    Reaches cfg discovery r c' d ∨ Reaches cfg discovery r d c' :=
  Relation.ReflTransGen.total_of_right_unique
    (fun _ _ _ hb hc => Option.some.inj (hb.symm.trans hc)) h h'

theorem fits_of_inTime (h : InTime cfg discovery r a) : Fits cfg r := by
  obtain ⟨c, hreach, hended, hnow⟩ := h
  by_cases hexit : ∃ x, exitTime r = some x ∧ x ≤ r.poll + seconds 8
  · obtain ⟨x, hx, hle⟩ := hexit
    obtain ⟨d, hd, hdended, hdnow⟩ :=
      reaches_of_exit cfg discovery hx hle a
    have hsame : d = c := by
      rcases hreach.total hd with hcd | hdc
      · exact hcd.of_ended hended
      · exact (hdc.of_ended hdended).symm
    rw [← hsame, hdnow] at hnow
    exact ⟨x, hx, hnow⟩
  · exfalso
    have hlate : ∀ x, exitTime r = some x → r.poll + seconds 8 < x := fun x hx =>
      not_le.mp fun hle => hexit ⟨x, hx, hle⟩
    obtain ⟨d, hd, hdended, hdnow⟩ :=
      reaches_late cfg discovery hlate a
    rcases hreach.total hd with hcd | hdc
    · rw [hcd.of_ended hended, hended] at hdended
      cases hdended
    · have hle := hdc.now
      have hpoll := r.poll_nonneg
      have hdelay := cfg.releaseDelay_nonneg
      simp only [killTimeout, seconds] at hdnow hnow
      omega

/-- The teardown of a running attempt is over in time exactly if its parts
fit: the exit of the engine, its children, the relay and the delay before
the gate is released. -/
theorem teardown_in_time (cfg : Settings) (discovery : Bool) (r : Reactions) (a : Attempt) :
    InTime cfg discovery r a ↔ Fits cfg r := by
  refine ⟨fits_of_inTime, fun ⟨x, hx, hfits⟩ => ?_⟩
  have hlinger := lingerTime_nonneg r x
  have hdrain := drainTime_nonneg r (x + lingerTime r x)
  have hpoll := r.poll_nonneg
  have hdelay := cfg.releaseDelay_nonneg
  have hle : x ≤ r.poll + seconds 8 := by
    simp only [killTimeout, seconds] at hfits ⊢
    omega
  obtain ⟨c, hreach, hended, hnow⟩ := reaches_of_exit cfg discovery hx hle a
  exact ⟨c, hreach, hended, by rw [hnow]; exact hfits⟩

/-- An engine that refuses the interrupt and the termination, and leaves
nothing behind. -/
def stubborn : Reactions where
  poll := 0
  own := none
  interrupt := none
  terminate := none
  kill := some 0
  children := some 0
  relay := some (0, false)
  exitCode := -9
  poll_nonneg := le_rfl
  poll_le := by decide
  own_nonneg := nofun
  interrupt_nonneg := nofun
  terminate_nonneg := nofun
  kill_nonneg _ h := by
    cases h
    exact le_rfl

theorem teardown_too_late : ¬ InTime .default false stubborn (.start 0) := fun h => by
  obtain ⟨x, hx, -⟩ := fits_of_inTime h
  cases hx

end

end Course

end EufyNvr.Supervisor
