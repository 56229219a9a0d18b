import EufyNvr.Stream.Exit
import EufyNvr.Supervisor.AttemptSteps
import EufyNvr.Supervisor.Main

/-!
# A producer: the supervisor and its engine

The two processes side by side. A granted attempt starts an engine, the exit
of the engine is what the attempt waits for, and an interrupt reaches the
engine from `_terminate_tree` or, as a step of its own, from outside. The
log the supervisor reads may hold any lines at any time.

The invariant at the end links the two for any relation `J` between the
reason of the attempt and the state of its engine.
-/

namespace EufyNvr.Supervisor

structure Producer where
  sup : Solo
  /-- The engine of the last attempt. -/
  engine : Option Stream.Engine

inductive ProducerLabel
  | tick (d : Int)
  | stop
  | main (l : MainLabel)
  | engine (l : Stream.Label)
  | outsideInterrupt
  deriving DecidableEq

namespace Producer

def init (now : Int) : Producer := ⟨.init now, none⟩

/-- The supervisor has interrupted the engine of the attempt. -/
def signalled (p : Producer) : Bool :=
  match p.sup.main.phase with
  | .attempting a => decide (.interrupt ∈ a.signals)
  | _ => false

/-- A step of the engine, with its exit passed on to the supervisor. -/
def engineStep (cfg : Settings) (discovery : Bool) (p : Producer) (l : Stream.Label) :
    Option Producer :=
  match p.engine.bind fun e => e.step ⟨discovery⟩ l with
  | some e =>
    match e.phase with
    | .exited rc =>
      (p.sup.step cfg discovery (.main (.attempt (.exit rc)))).map fun s => ⟨s, some e⟩
    | _ => some { p with engine := some e }
  | none => none

def step (cfg : Settings) (discovery : Bool) (p : Producer) : ProducerLabel → Option Producer
  | .tick d =>
    (p.sup.step cfg discovery (.tick d)).map fun s =>
      ⟨s, p.engine.map fun e => { e with now := e.now + d }⟩
  | .stop => (p.sup.step cfg discovery .stop).map fun s => { p with sup := s }
  | .main .granted =>
    (p.sup.step cfg discovery (.main .granted)).map fun s => ⟨s, some (.init p.sup.now)⟩
  | .main (.attempt (.exit _)) => none
  | .main l => (p.sup.step cfg discovery (.main l)).map fun s => { p with sup := s }
  | .engine (.tick _) => none
  | .engine .interrupt => if p.signalled then p.engineStep cfg discovery .interrupt else none
  | .engine l => p.engineStep cfg discovery l
  | .outsideInterrupt => p.engineStep cfg discovery .interrupt

-- ---------------------------------------------------------------------------
-- The link
-- ---------------------------------------------------------------------------

variable {cfg : Settings} {discovery : Bool} {J : Reason → Stream.Engine → Prop}
  {p q : Producer} {l : ProducerLabel}

/-- A relation that the steps of the supervisor keep. -/
structure Carried (J : Reason → Stream.Engine → Prop) : Prop where
  start : ∀ now, J .exit (.init now)
  tick : ∀ {r e now}, J r e → J r { e with now }
  polled : ∀ {r e}, J .exit e → r ≠ .exit → J r e

structure Joined (J : Reason → Stream.Engine → Prop) (a : Attempt) (e : Stream.Engine) :
    Prop where
  exitCode : ∀ rc, a.exitCode = some rc ↔ e.phase = .exited rc
  running : a.reason ≠ .shutdown
  watching : a.phase.isWatching = true → a.reason = .exit
  interrupt : .interrupt ∈ a.signals → a.reason ≠ .exit
  returned : ∀ rc, a.phase = .returned rc → a.exitCode = some rc
  related : J a.reason e

/-- The last attempt ended without a reason, its engine with 0. -/
structure Earned (J : Reason → Stream.Engine → Prop) (p : Producer) (a : Attempt)
    (e : Stream.Engine) : Prop where
  last : p.sup.main.ended.getLast? = some a
  engine : p.engine = some e
  joined : Joined J a e
  reason : a.reason = .exit
  exitCode : a.exitCode = some 0

theorem Earned.exited {a : Attempt} {e : Stream.Engine} (h : Earned J p a e) :
    e.phase = .exited 0 := (h.joined.exitCode 0).mp h.exitCode

structure Linked (J : Reason → Stream.Engine → Prop) (p : Producer) : Prop where
  running : p.sup.stop = false
  current : ∀ a, p.sup.main.phase = .attempting a → ∃ e, p.engine = some e ∧ Joined J a e
  released : ∀ due v, p.sup.main.phase = .releasing due (some v) → v.reason ≠ .shutdown ∧
    (v.rc = 0 → v.reason = .exit → ∃ a e, Earned J p a e)
  returned : p.sup.main.phase = .returned 0 → ∃ a e, Earned J p a e

theorem linked_init (now : Int) : Linked J (init now) where
  running := rfl
  current a h := by cases h
  released due v h := by cases h
  returned h := by cases h

theorem poll_reason {now : Int} {s : SessionState} {reason : Reason}
    (h : Attempt.poll cfg discovery now false s = some reason) :
    reason ≠ .exit ∧ reason ≠ .shutdown := by
  unfold Attempt.poll at h
  rw [if_neg (by simp)] at h
  repeat' split at h
  all_goals first
    | (cases h; simp)
    | cases h

/-- A step of the supervisor that is not the exit of the engine. -/
theorem Joined.step {now : Int} {a b : Attempt} {e : Stream.Engine} {l : AttemptLabel}
    (hJ : Carried J) (h : Joined J a e) (hl : ∀ rc, l ≠ .exit rc)
    (hs : a.step cfg discovery now false l = some b) : Joined J b e := by
  cases Attempt.step_move hs with
  | line => exact { h with }
  | relayEnds => exact { h with }
  | relayRaises => exact { h with }
  | exit => exact absurd rfl (hl _)
  | descendants => exact { h with }
  | noticed hp =>
    exact { h with watching := fun hw => (by cases hw), returned := fun _ hr => by cases hr }
  | polled hp _ hpoll =>
    obtain ⟨hne, hns⟩ := poll_reason hpoll
    obtain ⟨hk, hw⟩ := Attempt.terminateTree_kept { a with reason := _ } now false
    exact {
      exitCode := fun rc => by rw [hk.exitCode]; exact h.exitCode rc
      running := by rw [hk.reason]; exact hns
      watching := fun hww => by rw [not_watching_of_winding hw] at hww; cases hww
      interrupt := fun _ => by rw [hk.reason]; exact hne
      returned := fun rc hr => by rw [hr] at hw; cases hw
      related := by
        rw [hk.reason]
        exact hJ.polled (h.watching (by rw [hp]; rfl) ▸ h.related) hne }
  | watched hp =>
    exact { h with
      watching := fun _ => h.watching (by rw [hp]; rfl)
      returned := fun _ hr => by cases hr }
  | left hp =>
    exact { h with watching := fun hw => (by cases hw), returned := fun _ hr => by cases hr }
  | winding _ hw hk hw' hsp =>
    exact {
      exitCode := fun rc => by rw [hk.exitCode]; exact h.exitCode rc
      running := by rw [hk.reason]; exact h.running
      watching := fun hww => by rw [not_watching_of_winding hw'] at hww; cases hww
      interrupt := fun hi => by rw [hk.reason]; exact h.interrupt (hsp hi)
      returned := fun rc hr => by rw [hr] at hw'; cases hw'
      related := by rw [hk.reason]; exact h.related }
  | returned _ hp he =>
    exact { h with
      watching := fun hw => by cases hw
      returned := fun _ hr => by cases hr; exact he }
  | raised hp =>
    exact { h with watching := fun hw => (by cases hw), returned := fun _ hr => by cases hr }

/-- The engine is running or its exit has been passed on. -/
theorem Joined.linked {b : Attempt} {e : Stream.Engine} {s : Solo} {m : Main} {now : Int}
    (h : Joined J b e) (hstop : s.stop = false) (hs : s.main = m.afterAttempt cfg now b) :
    Linked J ⟨s, some e⟩ := by
  unfold Main.afterAttempt at hs
  split at hs
  · rename_i rc hp
    refine ⟨hstop, fun a ha => ?_, fun due v hv => ?_, fun hr => ?_⟩
    · rw [hs] at ha
      cases ha
    · rw [hs] at hv
      cases hv
      refine ⟨h.running, fun hrc hr => ⟨b, e, ?_, rfl, h, hr, hrc ▸ h.returned rc hp⟩⟩
      simp [hs]
    · rw [hs] at hr
      cases hr
  · refine ⟨hstop, fun a ha => ?_, fun due v hv => ?_, fun hr => ?_⟩
    all_goals simp [hs] at *
  · refine ⟨hstop, fun a ha => ?_, fun due v hv => ?_, fun hr => ?_⟩
    · rw [hs] at ha
      cases ha
      exact ⟨e, rfl, h⟩
    · rw [hs] at hv
      cases hv
    · rw [hs] at hr
      cases hr

-- ---------------------------------------------------------------------------
-- Steps
-- ---------------------------------------------------------------------------

/-- Nothing to link: no engine is awaited and nothing has been concluded. -/
theorem Linked.of_idle (h : p.sup.stop = false)
    (hm : ∀ a, p.sup.main.phase ≠ .attempting a)
    (hv : ∀ due v, p.sup.main.phase ≠ .releasing due (some v))
    (hr : p.sup.main.phase ≠ .returned 0) : Linked J p where
  running := h
  current a ha := absurd ha (hm a)
  released due v hp := absurd hp (hv due v)
  returned hp := absurd hp hr

theorem Linked.conclude {due : Int} {v : Verdict} {s : Solo} {now : Int} (h : Linked J p)
    (hp : p.sup.main.phase = .releasing due (some v)) (hs : s.stop = false)
    (hm : s.main.phase = (Main.conclude cfg discovery now p.sup.main.attempt v).2)
    (hend : s.main.ended = p.sup.main.ended) :
    Linked J { p with sup := s } := by
  obtain ⟨hns, hok⟩ := h.released due v hp
  unfold Main.conclude at hm
  rw [if_neg hns] at hm
  split at hm
  · exact .of_idle hs (by simp [hm]) (by simp [hm]) (by simp [hm])
  · split at hm
    · exact .of_idle hs (by simp [hm]) (by simp [hm]) (by simp [hm])
    · split at hm
      · rename_i hrc
        refine ⟨hs, fun a ha => ?_, fun due v hv => ?_, fun _ => ?_⟩
        · rw [hm] at ha
          cases ha
        · rw [hm] at hv
          cases hv
        · obtain ⟨a, e, hearned⟩ := hok hrc.1 hrc.2
          exact ⟨a, e, { hearned with last := hend ▸ hearned.last }⟩
      · split at hm
        · exact .of_idle hs (by simp [hm]) (by simp [hm]) (by simp [hm])
        · exact .of_idle hs (by simp [hm]) (by simp [hm]) (by simp [hm])

/-- A step of `main` that neither starts an engine nor hears of its exit. -/
theorem Linked.main {ml : MainLabel} {m : Main} (hJ : Carried J) (h : Linked J p)
    (hg : ml ≠ .granted) (hx : ∀ rc, ml ≠ .attempt (.exit rc))
    (hs : p.sup.main.step cfg discovery p.sup.now p.sup.stop ml = some m) :
    Linked J { p with sup.main := m } := by
  rw [h.running] at hs
  cases Main.step_move hs with
  | granted => exact absurd rfl hg
  | spawnFails | gateRaises | retried | failed =>
    exact .of_idle h.running (by simp) (by simp) (by simp)
  | refused _ hstop | stopWake _ hstop => cases hstop
  | @attempt a b al hp hb =>
    obtain ⟨e, he, hj⟩ := h.current a hp
    have hl : ∀ rc, al ≠ .exit rc := by
      rintro rc rfl
      exact hx rc rfl
    rw [he]
    exact (hj.step hJ hl hb).linked h.running rfl
  | concluded hp => exact h.conclude hp h.running rfl rfl

/-- What the engine does with label `el` when the producer takes `l`. -/
structure Drives (discovery : Bool) (p : Producer) (l : ProducerLabel) (el : Stream.Label)
    (e e' : Stream.Engine) : Prop where
  engine : p.engine = some e
  step : e.step ⟨discovery⟩ el = some e'
  notTick : ∀ d, el ≠ .tick d
  label : l = .engine el ∨ l = .outsideInterrupt ∧ el = .interrupt
  signalled : l = .engine .interrupt → p.signalled = true

theorem Drives.not_exited {el : Stream.Label} {e e' : Stream.Engine}
    (h : Drives discovery p l el e e') (rc : Int) : e.phase ≠ .exited rc := fun hp => by
  obtain ⟨d, rfl⟩ := Stream.Engine.tick_of_exited hp h.step
  exact h.notTick d rfl

theorem Linked.engine {el : Stream.Label} {e e' : Stream.Engine} (h : Linked J p)
    (hd : Drives discovery p l el e e')
    (hJ : ∀ a, p.sup.main.phase = .attempting a → Joined J a e → J a.reason e')
    (hs : p.engineStep cfg discovery el = some q) : Linked J q := by
  -- An engine whose success has been acknowledged is gone.
  have hno : ¬ ∃ a x, Earned J p a x := by
    rintro ⟨a, x, hx⟩
    obtain rfl : e = x := Option.some.inj (hd.engine.symm.trans hx.engine)
    exact hd.not_exited 0 hx.exited
  have hjoin {a : Attempt} (ha : p.sup.main.phase = .attempting a) : Joined J a e := by
    obtain ⟨x, hx, hj⟩ := h.current a ha
    rw [hd.engine] at hx
    cases hx
    exact hj
  have hnone {a : Attempt} (ha : p.sup.main.phase = .attempting a) : a.exitCode = none := by
    cases hrc : a.exitCode with
    | none => rfl
    | some rc => exact absurd (((hjoin ha).exitCode rc).mp hrc) (hd.not_exited rc)
  simp only [engineStep, hd.engine, Option.bind_some, hd.step] at hs
  split at hs
  · rename_i rc hp
    obtain ⟨s, hsup, rfl⟩ := Option.map_eq_some_iff.mp hs
    obtain ⟨m, hm, rfl⟩ := Option.map_eq_some_iff.mp hsup
    simp only [Main.step] at hm
    split at hm
    · rename_i a ha
      obtain ⟨b, hb, rfl⟩ := Option.map_eq_some_iff.mp hm
      have hj := hjoin ha
      simp only [Attempt.step, Attempt.alive, hnone ha, Option.isNone_none, if_true,
        Option.some.injEq] at hb
      subst hb
      have hj' : Joined J { a with exitCode := some rc } e' := { hj with
        exitCode := fun rc' => by simp [hp]
        returned := fun rc' hr => by
          have hrc := hj.returned rc' hr
          rw [hnone ha] at hrc
          cases hrc
        related := hJ a ha hj }
      exact hj'.linked h.running rfl
    · cases hm
  · rename_i hp
    cases hs
    refine ⟨h.running, fun a ha => ⟨e', rfl, ?_⟩, fun due v hv => ?_, fun hr => ?_⟩
    · have hj := hjoin ha
      refine { hj with exitCode := fun rc => ?_, related := hJ a ha hj }
      rw [hnone ha]
      exact ⟨fun hrc => (by cases hrc), fun hrc => absurd hrc (hp rc)⟩
    · obtain ⟨hns, hok⟩ := h.released due v hv
      exact ⟨hns, fun hrc hr => absurd (hok hrc hr) hno⟩
    · exact absurd (h.returned hr) hno

theorem Joined.later {a : Attempt} {e : Stream.Engine} {now : Int} (hJ : Carried J)
    (h : Joined J a e) : Joined J a { e with now } := { h with related := hJ.tick h.related }

theorem Earned.later {a : Attempt} {e : Stream.Engine} {now d : Int} (hJ : Carried J)
    (h : Earned J p a e) : ∃ a e, Earned J ⟨{ p.sup with now },
      p.engine.map fun e => { e with now := e.now + d }⟩ a e :=
  ⟨a, _, h.last, by rw [h.engine]; rfl, h.joined.later hJ, h.reason, h.exitCode⟩

theorem Linked.later {d : Int} (hJ : Carried J) (h : Linked J p) :
    Linked J ⟨{ p.sup with now := p.sup.now + d },
      p.engine.map fun e => { e with now := e.now + d }⟩ where
  running := h.running
  current a ha := by
    obtain ⟨e, he, hj⟩ := h.current a ha
    exact ⟨_, by rw [he]; rfl, hj.later hJ⟩
  released due v hv := by
    obtain ⟨hns, hok⟩ := h.released due v hv
    refine ⟨hns, fun hrc hr => ?_⟩
    obtain ⟨a, e, hearned⟩ := hok hrc hr
    exact hearned.later hJ
  returned hr := by
    obtain ⟨a, e, hearned⟩ := h.returned hr
    exact hearned.later hJ

theorem Joined.start (hJ : Carried J) (now : Int) : Joined J (.start now) (.init now) where
  exitCode rc := ⟨fun h => (by cases h), fun h => (by cases h)⟩
  running := by simp [Attempt.start]
  watching _ := rfl
  interrupt h := by cases h
  returned rc h := by cases h
  related := hJ.start now

theorem step_main {ml : MainLabel} (hg : ml ≠ .granted) (hx : ∀ rc, ml ≠ .attempt (.exit rc)) :
    step cfg discovery p (.main ml) =
      (p.sup.step cfg discovery (.main ml)).map fun s => { p with sup := s } := by
  cases ml with
  | granted => exact absurd rfl hg
  | attempt al =>
    cases al with
    | exit rc => exact absurd rfl (hx rc)
    | _ => rfl
  | _ => rfl

theorem step_engine {el : Stream.Label} (ht : ∀ d, el ≠ .tick d) (hi : el ≠ .interrupt) :
    step cfg discovery p (.engine el) = p.engineStep cfg discovery el := by
  cases el with
  | tick d => exact absurd rfl (ht d)
  | interrupt => exact absurd rfl hi
  | _ => rfl

/-- The relation is kept by a step if the engine's part of the step keeps it. -/
theorem Linked.step (hJ : Carried J) (h : Linked J p) (hl : l ≠ .stop)
    (hE : ∀ el e e' a, Drives discovery p l el e e' → p.sup.main.phase = .attempting a →
      Joined J a e → J a.reason e')
    (hs : step cfg discovery p l = some q) : Linked J q := by
  have drive {el : Stream.Label} (hq : p.engineStep cfg discovery el = some q)
      (ht : ∀ d, el ≠ .tick d) (hlabel : l = .engine el ∨ l = .outsideInterrupt ∧ el = .interrupt)
      (hsig : l = .engine .interrupt → p.signalled = true) : Linked J q := by
    have hq' := hq
    unfold engineStep at hq'
    cases he : p.engine with
    | none => simp [he] at hq'
    | some e =>
      cases he' : e.step ⟨discovery⟩ el with
      | none => simp [he, he'] at hq'
      | some e' =>
        have hd : Drives discovery p l el e e' := ⟨he, he', ht, hlabel, hsig⟩
        exact h.engine hd (fun a ha hj => hE el e e' a hd ha hj) hq
  cases l with
  | tick d =>
    simp only [Producer.step, Solo.step] at hs
    split at hs
    · cases hs
      exact h.later hJ
    · cases hs
  | stop => exact absurd rfl hl
  | outsideInterrupt =>
    exact drive hs (by simp) (.inr ⟨rfl, rfl⟩) (by simp)
  | main ml =>
    by_cases hg : ml = .granted
    · subst hg
      obtain ⟨s, hsup, rfl⟩ := Option.map_eq_some_iff.mp hs
      obtain ⟨m, hm, rfl⟩ := Option.map_eq_some_iff.mp hsup
      simp only [Main.step] at hm
      split at hm
      · cases hm
        exact @Joined.linked cfg J _ _ _ p.sup.main p.sup.now (.start hJ p.sup.now) h.running rfl
      · cases hm
    · have hx : ∀ rc, ml ≠ .attempt (.exit rc) := by
        rintro rc rfl
        cases hs
      rw [step_main hg hx] at hs
      obtain ⟨s, hsup, rfl⟩ := Option.map_eq_some_iff.mp hs
      obtain ⟨m, hm, rfl⟩ := Option.map_eq_some_iff.mp hsup
      exact h.main hJ hg hx hm
  | engine el =>
    by_cases ht : ∃ d, el = .tick d
    · obtain ⟨d, rfl⟩ := ht
      cases hs
    · by_cases hi : el = .interrupt
      · subst hi
        simp only [Producer.step] at hs
        split at hs
        · exact drive hs (by simp) (.inl rfl) fun _ => ‹_›
        · cases hs
      · have hne : ∀ d, el ≠ .tick d := fun d hd => ht ⟨d, hd⟩
        rw [step_engine hne hi] at hs
        exact drive hs hne (.inl rfl) fun he => absurd (by simpa using he) hi

end Producer

end EufyNvr.Supervisor
