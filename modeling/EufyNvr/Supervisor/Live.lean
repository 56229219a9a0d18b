import EufyNvr.Stream.Progress
import EufyNvr.Supervisor.AttemptSteps

/-!
# A live attempt and the frames of its engine

One attempt with its clock, next to the video frames that its engine writes. A
line of the engine is relayed at the time it is printed, and the log keeps
it with that time; the lines for frames are those of `on_frame`. The
session is what the log says.
-/

namespace EufyNvr.Supervisor

open EufyNvr.Stream (Progress VideoFrame)
open Machine (exec)

structure Live where
  now : Int
  stop : Bool
  attempt : Attempt
  progress : Progress
  log : List (Int × String)
  /-- The times at which frames were written. -/
  frames : List Int
  deriving DecidableEq

inductive LiveLabel
  | tick (d : Int)
  | stop
  | line (text : String)
  | frame (stamp : String) (f : VideoFrame)
  | attempt (l : AttemptLabel)

namespace Live

/-- The engine has just been spawned; its clock `perf_started` is its own. -/
def init (now perfStarted : Int) : Live := ⟨now, false, .start now, .init perfStarted, [], []⟩

def relay (cfg : Settings) (s : Live) (text : String) : Option Live :=
  (s.attempt.step cfg false s.now s.stop (.line text)).map fun a =>
    { s with attempt := a, log := s.log ++ [(s.now, text)] }

def step (cfg : Settings) (s : Live) : LiveLabel → Option Live
  | .tick d => if 0 ≤ d then some { s with now := s.now + d } else none
  | .stop => some { s with stop := true }
  | .line text => s.relay cfg text
  | .frame stamp f =>
    if s.attempt.alive then
      let r := s.progress.onFrame stamp s.now f
      r.2.foldlM (relay cfg) { s with progress := r.1, frames := s.frames ++ [s.now] }
    else none
  | .attempt (.line _) => none
  | .attempt l => (s.attempt.step cfg false s.now s.stop l).map fun a => { s with attempt := a }

variable {cfg : Settings} {s t : Live} {l : LiveLabel} {text : String}

-- ---------------------------------------------------------------------------
-- The outcomes of a step
-- ---------------------------------------------------------------------------

/-- The session after some lines at one time. -/
def inspectAll (now : Int) (lines : List String) (s : SessionState) : SessionState :=
  lines.foldl (fun s line => inspectLogLine now line s) s

/-- The state with some more lines relayed. -/
def relayed (s : Live) (lines : List String) : Live := { s with
  attempt := { s.attempt with
    session := inspectAll s.now lines s.attempt.session
    relayed := s.attempt.relayed ++ lines }
  log := s.log ++ lines.map fun line => (s.now, line) }

theorem relay_some (h : s.relay cfg text = some t) : t = s.relayed [text] := by
  obtain ⟨a, ha, rfl⟩ := Option.map_eq_some_iff.mp h
  obtain ⟨-, rfl⟩ := Option.ite_some_none_eq_some.mp ha
  rfl

theorem relayed_relayed (s : Live) (xs ys : List String) :
    (s.relayed xs).relayed ys = s.relayed (xs ++ ys) := by
  simp [relayed, inspectAll]

theorem relayed_nil (s : Live) : s.relayed [] = s := by
  simp [relayed, inspectAll]

theorem foldlM_relay {lines : List String} (h : lines.foldlM (relay cfg) s = some t) : t = s.relayed lines := by
  induction lines generalizing s with
  | nil =>
    cases h
    exact (relayed_nil _).symm
  | cons line lines ih =>
    rw [List.foldlM_cons] at h
    obtain ⟨u, hu, h⟩ := Option.bind_eq_some_iff.mp h
    rw [ih h, relay_some hu, relayed_relayed, List.singleton_append]

/-- What a step does. A frame is a step of the engine, with its lines. -/
inductive Move (cfg : Settings) (s : Live) : LiveLabel → Live → Prop
  | tick {d : Int} : 0 ≤ d → Move cfg s (.tick d) { s with now := s.now + d }
  | stop : Move cfg s .stop { s with stop := true }
  | line {text : String} : Move cfg s (.line text) (s.relayed [text])
  | frame {stamp : String} {f : VideoFrame} : s.attempt.exitCode = none →
      Move cfg s (.frame stamp f)
        (relayed { s with
          progress := (s.progress.onFrame stamp s.now f).1, frames := s.frames ++ [s.now] }
          (s.progress.onFrame stamp s.now f).2)
  | attempt {l : AttemptLabel} {a : Attempt} : (∀ text, l ≠ .line text) →
      s.attempt.step cfg false s.now s.stop l = some a →
      Move cfg s (.attempt l) { s with attempt := a }

theorem step_move (h : s.step cfg l = some t) : Move cfg s l t := by
  cases l with
  | tick d =>
    obtain ⟨hd, rfl⟩ := Option.ite_some_none_eq_some.mp h
    exact .tick hd
  | stop =>
    cases h
    exact .stop
  | line text =>
    rw [relay_some h]
    exact .line
  | frame stamp f =>
    obtain ⟨ha, h⟩ := Option.ite_none_right_eq_some.mp h
    rw [foldlM_relay h]
    exact .frame (by simpa [Attempt.alive] using ha)
  | attempt l =>
    have hne : ∀ text, l ≠ .line text := by
      rintro text rfl
      cases h
    have hstep : (s.attempt.step cfg false s.now s.stop l).map
        (fun a => ({ s with attempt := a } : Live)) = some t := by
      cases l with
      | line text => cases h
      | _ => exact h
    obtain ⟨a, ha, rfl⟩ := Option.map_eq_some_iff.mp hstep
    exact .attempt hne ha

/-- Only a line changes the session. -/
theorem session_step {now : Int} {stop : Bool} {a b : Attempt} {l : AttemptLabel}
    (h : a.step cfg false now stop l = some b) (hl : ∀ text, l ≠ .line text) :
    b.session = a.session := by
  cases Attempt.step_move h with
  | line => exact absurd rfl (hl _)
  | @polled due reason =>
    exact (Attempt.terminateTree_kept { a with reason } now false).1.session
  | winding _ _ hk => exact hk.session
  | _ => rfl

-- ---------------------------------------------------------------------------
-- The session and the log
-- ---------------------------------------------------------------------------

/-- The session of an attempt that started at `start`, as its log has it. -/
structure Logged (start now : Int) (log : List (Int × String)) (σ : SessionState) : Prop where
  started : σ.startedAt = start
  authorization : σ.authorizationRejection = true ↔
    ∃ p ∈ log, mentions p.2 authorizationMarker = true
  busy : σ.busyRejection = true ↔ ∃ p ∈ log, reportsBusy p.2 = true
  offer : σ.sdpSeen = true ↔ ∃ p ∈ log, mentions p.2 offerMarker = true
  channel : σ.datachannelSeen = true ↔ ∃ p ∈ log, mentions p.2 channelMarker = true
  video : (∀ p ∈ log, bearsVideo p.2 = false) → σ.firstVideoAt = none ∧ σ.lastVideoAt = none
  progressed : ∀ p ∈ log, bearsProgress p.2 = true → p.1 ≤ σ.lastProgress
  stamped : σ.lastProgress = start ∨
    ∃ p ∈ log, bearsProgress p.2 = true ∧ p.1 = σ.lastProgress
  past : σ.lastProgress ≤ now

variable {start now : Int} {log : List (Int × String)} {σ : SessionState}

theorem logged_start (start : Int) : Logged start start [] (.start start) := by
  constructor <;> simp [SessionState.start]

theorem Logged.tick {later : Int} (h : Logged start now log σ) (hle : now ≤ later) :
    Logged start later log σ := { h with past := h.past.trans hle }

theorem exists_mem_snoc {P : Int × String → Prop} {p : Int × String} :
    (∃ q ∈ log ++ [p], P q) ↔ (∃ q ∈ log, P q) ∨ P p := by
  simp only [List.mem_append, List.mem_singleton, or_and_right, exists_or, exists_eq_left]

theorem Logged.line (h : Logged start now log σ) (text : String) :
    Logged start now (log ++ [(now, text)]) (inspectLogLine now text σ) := by
  rw [inspectLogLine_eq]
  refine ⟨h.started, ?_, ?_, ?_, ?_, fun hv => ?_, fun p hp hb => ?_, ?_, ?_⟩
  · rw [exists_mem_snoc, Bool.or_eq_true, h.authorization]
  · rw [exists_mem_snoc, Bool.or_eq_true, h.busy]
  · rw [exists_mem_snoc, Bool.or_eq_true, h.offer]
  · rw [exists_mem_snoc, Bool.or_eq_true, h.channel]
  · have hlast : bearsVideo text = false := hv (now, text) (by simp)
    simp only [hlast, Bool.false_eq_true, if_false]
    exact h.video fun p hp => hv p (List.mem_append_left _ hp)
  · rcases List.mem_append.mp hp with hp | hp
    · have hle := h.progressed p hp hb
      simp only
      split
      · exact hle.trans h.past
      · exact hle
    · rw [List.mem_singleton.mp hp] at hb ⊢
      simp only [hb, if_true, le_refl]
  · simp only [exists_mem_snoc]
    cases hb : bearsProgress text with
    | true => exact .inr (.inr ⟨rfl, rfl⟩)
    | false =>
      rcases h.stamped with hs | hs
      · exact .inl hs
      · exact .inr (.inl hs)
  · simp only
    split
    · exact le_refl _
    · exact h.past

theorem Logged.lines (h : Logged start now log σ) (lines : List String) :
    Logged start now (log ++ lines.map fun line => (now, line)) (inspectAll now lines σ) := by
  induction lines generalizing log σ with
  | nil => simpa [inspectAll] using h
  | cons line lines ih => simpa [inspectAll] using ih (h.line line)

theorem logged_run {perfStarted : Int} {ls : List LiveLabel}
    (h : exec (step cfg) (init start perfStarted) ls = some s) :
    Logged start s.now s.log s.attempt.session := by
  refine Machine.invariant (I := fun s => Logged start s.now s.log s.attempt.session)
    (fun s l t hi hs => ?_) (logged_start start) h
  cases step_move hs with
  | tick hd => exact hi.tick (by simpa using hd)
  | stop => exact hi
  | line => exact hi.lines [_]
  | frame => exact hi.lines _
  | attempt hne ha =>
    rw [session_step ha hne]
    exact hi

end Live

end EufyNvr.Supervisor
