import EufyNvr.Supervisor.Live

/-!
# The time to the first frame

A live attempt without a video marker, at a poll after the three time-outs
of its phases are over. The poll ends it exactly where no marker has set
`last_progress` for the time-out of the phase it is in; the engine prints one
of those markers for every offer it receives.
-/

namespace EufyNvr.Supervisor

open Machine (exec)

variable {cfg : Settings} {now : Int} {stop : Bool}

theorem ite_some_eq_none {α : Type} {p : Prop} [Decidable p] {a : α} {x : Option α} :
    (if p then some a else x) = none ↔ ¬ p ∧ x = none := by
  split <;> simp [*]

/-- When a poll lets the attempt go on. -/
theorem poll_none_iff {discovery : Bool} {σ : SessionState} :
    Attempt.poll cfg discovery now stop σ = none ↔
      stop = false ∧ σ.authorizationRejection = false ∧ σ.busyRejection = false ∧
        (σ.sdpSeen = false → now - σ.startedAt < cfg.signalTimeout) ∧
        (σ.sdpSeen = true → σ.datachannelSeen = false →
          now - σ.lastProgress < cfg.connectionTimeout) ∧
        (discovery = false → σ.datachannelSeen = true → σ.firstVideoAt = none →
          now - σ.lastProgress < cfg.firstFrameTimeout) ∧
        (discovery = false → ∀ t, σ.lastVideoAt = some t → now - t < cfg.stallTimeout) := by
  have hvideo : (σ.lastVideoAt.any fun t => now - t ≥ cfg.stallTimeout) = true ↔
      ∃ t, σ.lastVideoAt = some t ∧ cfg.stallTimeout ≤ now - t := by
    simp only [Option.any_eq_true, decide_eq_true_eq, ge_iff_le]
  unfold Attempt.poll
  simp only [ite_some_eq_none, hvideo]
  simp

theorem Attempt.interrupt_terminateTree {a : Attempt} {cleanup : Bool} (h : a.exitCode = none) :
    .interrupt ∈ (a.terminateTree now cleanup).signals := by
  unfold Attempt.terminateTree
  rw [if_pos (by simp [Attempt.alive, h])]
  simp [Attempt.goto, Attempt.signal]

namespace Live

variable {s : Live} {start perfStarted : Int} {ls : List LiveLabel} {σ : SessionState}

/-- The poll ends the attempt, and interrupts an engine that is alive. -/
def Terminates (cfg : Settings) (s : Live) : Prop :=
  ∃ s', s.step cfg (.attempt .timeout) = some s' ∧ s'.attempt.phase.isWatching = false ∧
    (s.attempt.exitCode = none → .interrupt ∈ s'.attempt.signals)

/-- The time-out of the phase that the log shows, where an offer has come. -/
def progressTimeout (cfg : Settings) (s : Live) : Int :=
  if ∃ p ∈ s.log, mentions p.2 channelMarker = true then cfg.firstFrameTimeout
  else cfg.connectionTimeout

theorem terminates_iff {due : Int} (hp : s.attempt.phase = .watching due) (hd : due ≤ s.now) :
    s.Terminates cfg ↔ s.attempt.exitCode ≠ none ∨
      Attempt.poll cfg false s.now s.stop s.attempt.session ≠ none := by
  have hstep : s.step cfg (.attempt .timeout) =
      some { s with attempt := s.attempt.onPoll cfg false s.now s.stop } := by
    simp only [step, Attempt.step, Attempt.onTimeout, hp, if_pos hd, Option.map_some]
  have hiff : s.Terminates cfg ↔
      (s.attempt.onPoll cfg false s.now s.stop).phase.isWatching = false ∧
        (s.attempt.exitCode = none →
          .interrupt ∈ (s.attempt.onPoll cfg false s.now s.stop).signals) := by
    simp only [Terminates, hstep, Option.some.injEq, exists_eq_left']
  rw [hiff]
  unfold Attempt.onPoll
  split
  · rename_i reason hpoll
    have hw := (Attempt.terminateTree_kept { s.attempt with reason } s.now false).2
    refine ⟨fun _ => .inr (by rw [hpoll]; simp), fun _ => ⟨not_watching_of_winding hw, ?_⟩⟩
    exact fun he => Attempt.interrupt_terminateTree (a := { s.attempt with reason }) he
  · rename_i hpoll
    cases he : s.attempt.exitCode with
    | none => simp [Attempt.alive, he, hpoll, Attempt.goto, AttemptPhase.isWatching]
    | some rc => simp [Attempt.alive, he, Attempt.goto, AttemptPhase.isWatching]

theorem Logged.offer_none (h : Logged start now s.log σ) :
    (∀ p ∈ s.log, mentions p.2 offerMarker = false) ↔ σ.sdpSeen = false := by
  rw [← Bool.not_eq_true, h.offer]
  simp

theorem Logged.progressTimeout_eq (h : Logged start now s.log σ) : s.progressTimeout cfg =
    if σ.datachannelSeen = true then cfg.firstFrameTimeout else cfg.connectionTimeout := by
  simp only [progressTimeout, h.channel]

/-- `last_progress` is the time of the last marker. -/
theorem Logged.progressed_iff {limit : Int} (h : Logged start now s.log σ)
    (hstart : start ≤ limit) :
    (∀ p ∈ s.log, bearsProgress p.2 = true → p.1 ≤ limit) ↔ σ.lastProgress ≤ limit := by
  constructor
  · intro hall
    rcases h.stamped with hs | ⟨p, hp, hb, hs⟩
    · rwa [hs]
    · rw [← hs]
      exact hall p hp hb
  · intro hle p hp hb
    exact (h.progressed p hp hb).trans hle

/-- At every poll after the three time-outs. -/
theorem first_frame_bound {due : Int}
    (h : exec (step cfg) (init start perfStarted) ls = some s)
    (hvideo : ∀ p ∈ s.log, bearsVideo p.2 = false)
    (hp : s.attempt.phase = .watching due) (hd : due ≤ s.now)
    (hlate : start + cfg.signalTimeout + cfg.connectionTimeout + cfg.firstFrameTimeout ≤ s.now) :
    s.Terminates cfg ↔ s.attempt.exitCode ≠ none ∨ s.stop = true ∨
      (∃ p ∈ s.log, mentions p.2 authorizationMarker = true) ∨
      (∃ p ∈ s.log, reportsBusy p.2 = true) ∨
      (∀ p ∈ s.log, mentions p.2 offerMarker = false) ∨
      ∀ p ∈ s.log, bearsProgress p.2 = true → p.1 ≤ s.now - s.progressTimeout cfg := by
  have hlog := logged_run h
  obtain ⟨hfirst, hlast⟩ := hlog.video hvideo
  have hS := cfg.signalTimeout_ge
  have hC := cfg.connectionTimeout_ge
  have hF := cfg.firstFrameTimeout_ge
  simp only [seconds] at hS hC hF
  have hlimit : start ≤ s.now - s.progressTimeout cfg := by
    rw [hlog.progressTimeout_eq]
    split <;> omega
  rw [terminates_iff hp hd, ← hlog.authorization, ← hlog.busy, hlog.offer_none,
    hlog.progressed_iff hlimit, hlog.progressTimeout_eq, Ne, Ne, poll_none_iff, hlog.started,
    hfirst, hlast, le_sub_comm]
  -- An attempt without an offer has run into the first time-out.
  have hsignal : cfg.signalTimeout ≤ s.now - start := by omega
  cases s.stop <;> cases s.attempt.session.authorizationRejection <;>
    cases s.attempt.session.busyRejection <;> cases s.attempt.session.sdpSeen <;>
    cases s.attempt.session.datachannelSeen <;> simp [hsignal]

def offerLine : String := "[12:00:00] NVR SDP offer received (native)"

def channelLine : String := "[12:00:01] DC open: WebrtcDataChannel"

/-- An offer and the channel, and nothing more. -/
theorem first_frame_bound_silent : ∃ s,
    exec (step .default) (init 0 0) [.line offerLine, .line channelLine, .tick (seconds 110)] =
      some s ∧ s.Terminates .default := by
  obtain ⟨s, hs, hvideo, hp, hd, hlate, hquiet⟩ : ∃ s,
      exec (step .default) (init 0 0) [.line offerLine, .line channelLine, .tick (seconds 110)] =
        some s ∧ (∀ p ∈ s.log, bearsVideo p.2 = false) ∧
          s.attempt.phase = .watching (milliseconds 500) ∧ milliseconds 500 ≤ s.now ∧
            0 + Settings.default.signalTimeout + Settings.default.connectionTimeout +
              Settings.default.firstFrameTimeout ≤ s.now ∧
              ∀ p ∈ s.log, bearsProgress p.2 = true →
                p.1 ≤ s.now - s.progressTimeout .default := by
    apply Machine.exec_of_check
    decide +kernel
  refine ⟨s, hs, (first_frame_bound hs hvideo hp hd hlate).mpr ?_⟩
  exact .inr (.inr (.inr (.inr (.inr hquiet))))

/-- Polls, half a second apart. -/
def polls (n : Nat) : List LiveLabel :=
  (List.replicate n [.tick Supervisor.pollInterval, .attempt .timeout]).flatten

/-- The NVR repeats its offer every 45 seconds, and sends no video. -/
def repeatedOffers : List LiveLabel :=
  polls 2 ++ [.line offerLine] ++ polls 2 ++ [.line channelLine] ++ polls 86 ++
    [.line offerLine] ++ polls 90 ++ [.line offerLine] ++ polls 39 ++ [.tick Supervisor.pollInterval]

/-- The poll at 110 seconds, the sum of the three time-outs, goes on. -/
theorem first_frame_unbounded : ∃ s, exec (step .default) (init 0 0) repeatedOffers = some s ∧
    (∀ p ∈ s.log, bearsVideo p.2 = false) ∧ s.attempt.phase = .watching s.now ∧
      0 + Settings.default.signalTimeout + Settings.default.connectionTimeout +
        Settings.default.firstFrameTimeout ≤ s.now ∧
        ((s.step .default (.attempt .timeout)).any fun s' =>
          s'.attempt.phase.isWatching && s'.attempt.exitCode.isNone) = true := by
  apply Machine.exec_of_check
  decide +kernel

end Live

end EufyNvr.Supervisor
