import EufyNvr.Stream.Frame
import EufyNvr.Supervisor.FirstFrame

/-!
# Stalls

The engine logs its first frame, and then a frame at most once in five
seconds; the supervisor sees those lines only. A poll that finds the stream
stalled finds it without a frame for all but the five seconds of the
time-out. One that finds no frame in the time-out ends the attempt where no
other line has a video marker; a reply of the device that is logged can have
one.
-/

namespace EufyNvr.Supervisor

open EufyNvr.Stream (Progress VideoFrame logLine)
open Machine (exec)

-- ---------------------------------------------------------------------------
-- Markers
-- ---------------------------------------------------------------------------

variable {line text marker : String}

theorem mentions_self (marker : String) : mentions marker marker = true :=
  decide_eq_true (List.infix_refl _)

theorem mentions_append_left (h : mentions line marker = true) :
    mentions (line ++ text) marker = true := by
  have h := of_decide_eq_true h
  refine decide_eq_true ?_
  rw [String.toList_append]
  exact h.trans (List.prefix_append _ _).isInfix

theorem mentions_append_right (h : mentions text marker = true) :
    mentions (line ++ text) marker = true := by
  have h := of_decide_eq_true h
  refine decide_eq_true ?_
  rw [String.toList_append]
  exact h.trans (List.suffix_append _ _).isInfix

theorem bearsVideo_firstLine (stamp : String) (p : Progress) (f : VideoFrame) :
    bearsVideo (logLine stamp (p.firstLine f)) = true := by
  have h : mentions (p.firstLine f) firstVideoMarker = true := by
    unfold Progress.firstLine
    iterate 9 apply mentions_append_left
    exact mentions_self _
  rw [bearsVideo, logLine, mentions_append_right h, Bool.true_or]

theorem bearsVideo_progressLine (stamp : String) (p : Progress) :
    bearsVideo (logLine stamp p.progressLine) = true := by
  have h : mentions p.progressLine videoProgressMarker = true := by
    unfold Progress.progressLine
    iterate 3 apply mentions_append_left
    decide
  rw [bearsVideo, logLine, mentions_append_right h, Bool.or_true]

/-- A frame is logged, or comes within five seconds of one that was. -/
theorem onFrame_cases (stamp : String) (now : Int) (f : VideoFrame) (p : Progress) :
    ((p.onFrame stamp now f).1.lastVideoLog = now ∧
        (p.onFrame stamp now f).2.any bearsVideo = true) ∨
      (p.onFrame stamp now f).1.lastVideoLog = p.lastVideoLog ∧
        (p.onFrame stamp now f).2 = [] ∧ p.vframes ≠ 0 ∧ now < p.lastVideoLog + seconds 5 := by
  unfold Progress.onFrame
  rcases Progress.report_cases (p := p.count f) with
    ⟨hlog, line, lines, hlines, hline⟩ | ⟨hlog, hlines, hne, hlt⟩
  · refine .inl ⟨hlog, ?_⟩
    have hbears : bearsVideo line = true := by
      rcases hline with rfl | rfl
      · exact bearsVideo_firstLine ..
      · exact bearsVideo_progressLine ..
    rw [hlines, List.any_cons, hbears, Bool.true_or]
  · refine .inr ⟨hlog, hlines, ?_, ?_⟩
    · simpa [Progress.count] using hne
    · simpa [Progress.count, sub_lt_iff_lt_add'] using hlt

namespace Live

variable {cfg : Settings} {s t : Live} {l : LiveLabel} {start perfStarted : Int}
  {ls : List LiveLabel}

theorem inspectAll_lastVideoAt (now : Int) (lines : List String) (σ : SessionState) :
    (inspectAll now lines σ).lastVideoAt =
      if lines.any bearsVideo then some now else σ.lastVideoAt := by
  induction lines generalizing σ with
  | nil => rfl
  | cons line lines ih =>
    rw [inspectAll, List.foldl_cons, ← inspectAll, ih, inspectLogLine_eq, List.any_cons]
    cases bearsVideo line <;> cases lines.any bearsVideo <;> rfl

-- ---------------------------------------------------------------------------
-- Frames and lines
-- ---------------------------------------------------------------------------

/-- The frames that were written, the last that was logged, and what the
supervisor has seen of them. -/
structure Tracked (s : Live) : Prop where
  count : s.progress.vframes = s.frames.length
  logged : s.frames ≠ [] → s.progress.lastVideoLog ∈ s.frames
  recent : ∀ w ∈ s.frames, w < s.progress.lastVideoLog + seconds 5
  seen : s.frames ≠ [] →
    ∃ t, s.attempt.session.lastVideoAt = some t ∧ s.progress.lastVideoLog ≤ t
  past : ∀ w ∈ s.frames, w ≤ s.now

theorem Tracked.relayed (h : Tracked s) (lines : List String) : Tracked (s.relayed lines) := by
  refine ⟨h.count, h.logged, h.recent, fun hne => ?_, h.past⟩
  simp only [Live.relayed, inspectAll_lastVideoAt]
  split
  · exact ⟨s.now, rfl, h.past _ (h.logged hne)⟩
  · exact h.seen hne

theorem Tracked.frame (h : Tracked s) (stamp : String) (f : VideoFrame) :
    Tracked (Live.relayed { s with
      progress := (s.progress.onFrame stamp s.now f).1, frames := s.frames ++ [s.now] }
      (s.progress.onFrame stamp s.now f).2) := by
  have hcount : (s.progress.onFrame stamp s.now f).1.vframes = (s.frames ++ [s.now]).length := by
    rw [Progress.onFrame_vframes, h.count, List.length_append, List.length_singleton]
  have hpast : ∀ w ∈ s.frames ++ [s.now], w ≤ s.now := by
    intro w hw
    rcases List.mem_append.mp hw with hw | hw
    · exact h.past w hw
    · exact (List.mem_singleton.mp hw).le
  rcases onFrame_cases stamp s.now f s.progress with ⟨hlog, hlines⟩ | ⟨hlog, hlines, hne, hlt⟩
  · refine ⟨hcount, fun _ => ?_, fun w hw => ?_, fun _ => ?_, hpast⟩
    · simp [Live.relayed, hlog]
    · have hle := hpast w hw
      simp only [Live.relayed, hlog, seconds]
      omega
    · refine ⟨s.now, ?_, hlog.le⟩
      simp only [Live.relayed, inspectAll_lastVideoAt, hlines, if_true]
  · have hframes : s.frames ≠ [] := by
      rintro heq
      rw [h.count, heq] at hne
      exact hne rfl
    refine ⟨hcount, fun _ => ?_, fun w hw => ?_, fun _ => ?_, hpast⟩
    · simp only [Live.relayed, hlog]
      exact List.mem_append_left _ (h.logged hframes)
    · simp only [Live.relayed, hlog]
      rcases List.mem_append.mp hw with hw | hw
      · exact h.recent w hw
      · rw [List.mem_singleton.mp hw]
        exact hlt
    · simp only [Live.relayed, hlog, hlines]
      exact h.seen hframes

theorem Tracked.step (h : Tracked s) (hs : step cfg s l = some t) : Tracked t := by
  cases step_move hs with
  | tick hd =>
    exact ⟨h.count, h.logged, h.recent, h.seen, fun w hw =>
      (h.past w hw).trans (by simpa using hd)⟩
  | stop => exact ⟨h.count, h.logged, h.recent, h.seen, h.past⟩
  | line => exact h.relayed _
  | frame => exact h.frame _ _
  | attempt hne ha =>
    refine ⟨h.count, h.logged, h.recent, ?_, h.past⟩
    rw [session_step ha hne]
    exact h.seen

/-- No line but those for frames has a video marker. -/
def OwnMarkers (_ : Live) : LiveLabel → Prop
  | .line text => bearsVideo text = false
  | _ => True

instance : ∀ s l, Decidable (OwnMarkers s l)
  | _, .line text => inferInstanceAs (Decidable (bearsVideo text = false))
  | _, .tick _ | _, .stop | _, .frame .. | _, .attempt _ => isTrue trivial

/-- The supervisor has seen the last frame that was logged. -/
def InStep (s : Live) : Prop :=
  s.frames ≠ [] → s.attempt.session.lastVideoAt = some s.progress.lastVideoLog

theorem InStep.frame (h : InStep s) (ht : Tracked s) (stamp : String) (f : VideoFrame) :
    InStep (Live.relayed { s with
      progress := (s.progress.onFrame stamp s.now f).1, frames := s.frames ++ [s.now] }
      (s.progress.onFrame stamp s.now f).2) := by
  intro _
  rcases onFrame_cases stamp s.now f s.progress with ⟨hlog, hlines⟩ | ⟨hlog, hlines, hne, -⟩
  · simp only [Live.relayed, inspectAll_lastVideoAt, hlines, hlog, if_true]
  · simp only [Live.relayed, hlog, hlines]
    refine h ?_
    rintro heq
    rw [ht.count, heq] at hne
    exact hne rfl

theorem InStep.step (h : InStep s) (ht : Tracked s) (hl : OwnMarkers s l)
    (hs : Live.step cfg s l = some t) : InStep t := by
  cases step_move hs with
  | tick => exact h
  | stop => exact h
  | line =>
    intro hne
    simp only [relayed, inspectAll_lastVideoAt, List.any_cons, List.any_nil, Bool.or_false]
    rw [if_neg (by rw [show bearsVideo _ = false from hl]; simp)]
    exact h hne
  | frame => exact h.frame ht _ _
  | attempt hne ha =>
    intro hframes
    simp only [session_step ha hne]
    exact h hframes

def frameAt (stamp : String) : LiveLabel := .frame stamp ⟨1300, 1, [0, 0, 0, 1]⟩

def markerText : String := "CTRL cmd=1350 link=1 len=30 VIDEO_PROGRESS"

/-- One frame at 3 seconds, and at 20 seconds the reply. -/
def echoed : List LiveLabel :=
  [.line offerLine, .line channelLine] ++ polls 6 ++ [frameAt "12:00:03"] ++ polls 34 ++
    [.line (logLine "12:00:20" markerText)] ++ polls 19 ++ [.tick Supervisor.pollInterval]

end Live

end EufyNvr.Supervisor
