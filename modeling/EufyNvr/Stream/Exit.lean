import EufyNvr.Stream.Steps

/-!
# How the engine ends

A process that exits with 0 was interrupted or its `main` returned true, and
`discovered` is set only once the camera manifest has been replaced.
-/

namespace EufyNvr.Stream.Engine

variable {mode : Mode} {s t : Engine} {l : Label}

/-- What a step does to the outcome of the process. -/
structure Ends (mode : Mode) (s : Engine) (l : Label) (t : Engine) : Prop where
  interrupted : t.interrupted = true → s.interrupted = true ∨ l = .interrupt
  replaced : s.replaced = true → t.replaced = true
  discovered : t.discovered = true → s.discovered = true ∨ t.replaced = true
  exited : ∀ rc, t.phase = .exited rc →
    (∃ now, t = { s with now }) ∨
      (l = .done ∧ rc = s.exitCode mode ∧ t = { s with phase := .exited rc }) ∨ rc ≠ 0

/-- A step that leaves the outcome and the process alone. -/
theorem Ends.same (hi : t.interrupted = s.interrupted) (hr : t.replaced = s.replaced)
    (hd : t.discovered = s.discovered) (hp : ∀ rc, t.phase ≠ .exited rc) : Ends mode s l t where
  interrupted h := .inl (hi ▸ h)
  replaced h := hr ▸ h
  discovered h := .inl (hd ▸ h)
  exited rc h := absurd h (hp rc)

theorem not_exited_of_running (h : s.running = true) (rc : Int) : s.phase ≠ .exited rc := by
  intro hp
  rw [running, hp] at h
  cases h

theorem not_exited_of_alive (h : s.alive = true) (rc : Int) : s.phase ≠ .exited rc := by
  intro hp
  rw [alive, hp] at h
  cases h

theorem phase_maybeStart (s : Engine) : s.maybeStart.phase = s.phase ∧
    s.maybeStart.interrupted = s.interrupted ∧ s.maybeStart.replaced = s.replaced ∧
    s.maybeStart.discovered = s.discovered := by
  unfold maybeStart
  split <;> exact ⟨rfl, rfl, rfl, rfl⟩

theorem Ends.maybeStart (h : Ends mode s l t) (hp : ∀ rc, t.phase ≠ .exited rc) :
    Ends mode s l t.maybeStart := by
  obtain ⟨hph, hi, hr, hd⟩ := phase_maybeStart t
  exact ⟨hi ▸ h.interrupted, hr ▸ h.replaced, by rw [hd, hr]; exact h.discovered,
    fun rc he => absurd (hph ▸ he) (hp rc)⟩

theorem closeLive_ends (s : Engine) : s.closeLive.interrupted = s.interrupted ∧
    s.closeLive.replaced = s.replaced ∧ s.closeLive.discovered = s.discovered ∧
    ∀ rc, s.closeLive.phase ≠ .exited rc := by
  unfold closeLive
  simp only
  split <;> exact ⟨rfl, rfl, rfl, by simp⟩

theorem startSequence_ends (h : startSequence mode s = some t) : t.phase = s.phase ∧
    t.interrupted = s.interrupted ∧ t.replaced = s.replaced ∧ t.discovered = s.discovered := by
  unfold startSequence at h
  split at h
  · split at h <;> cases h <;> exact ⟨rfl, rfl, rfl, rfl⟩
  · split at h
    · cases h; exact ⟨rfl, rfl, rfl, rfl⟩
    · cases h
  · cases h

theorem onVideo_ends (s : Engine) (sink : Sink) : (s.onVideo sink).phase = s.phase ∧
    (s.onVideo sink).interrupted = s.interrupted ∧ (s.onVideo sink).replaced = s.replaced ∧
    (s.onVideo sink).discovered = s.discovered := by
  unfold onVideo
  split
  · split <;> exact ⟨rfl, rfl, rfl, rfl⟩
  · exact ⟨rfl, rfl, rfl, rfl⟩
  · exact ⟨rfl, rfl, rfl, rfl⟩

theorem handleDevlist_ends (hp : ∀ rc, s.phase ≠ .exited rc) (o : DeviceList) :
    Ends mode s l (s.handleDevlist o) := by
  unfold handleDevlist
  split
  · exact .same rfl rfl rfl hp
  · exact .same rfl rfl rfl hp
  · exact ⟨.inl, fun _ => rfl, .inl, fun rc hrc => absurd hrc (hp rc)⟩
  · exact ⟨.inl, fun _ => rfl, fun _ => .inr rfl, fun rc hrc => absurd hrc (hp rc)⟩

theorem step_ends (h : step mode s l = some t) : Ends mode s l t := by
  cases step_stepped h with
  | tick => exact ⟨.inl, id, .inl, fun rc _ => .inl ⟨_, rfl⟩⟩
  | receiving | acknowledged | acknowledgementTimeout => exact .same rfl rfl rfl nofun
  | answer hp | invalidOffer hp =>
    exact .same rfl rfl rfl fun rc hrc => by rw [hp] at hrc; cases hrc
  | connected hr | channelOpen hr =>
    have hp := not_exited_of_running hr
    exact Ends.maybeStart (.same rfl rfl rfl hp) hp
  | channelClosed hr | status hr | ffmpegExits hr =>
    exact .same rfl rfl rfl (not_exited_of_running hr)
  | sequence ha hq =>
    obtain ⟨hp, hi, hr, hd⟩ := startSequence_ends hq
    exact .same hi hr hd fun rc hrc => not_exited_of_alive ha rc (hp ▸ hrc)
  | video hr =>
    obtain ⟨hp, hi, hrep, hd⟩ := onVideo_ends s _
    exact .same hi hrep hd fun rc hrc => not_exited_of_running hr rc (hp ▸ hrc)
  | deviceList hr => exact handleDevlist_ends (not_exited_of_running hr) _
  | loopEnds =>
    obtain ⟨hi, hr, hd, hp⟩ := closeLive_ends s
    exact .same hi hr hd hp
  | interruptLoop =>
    obtain ⟨-, hr, hd, hp⟩ := closeLive_ends s
    exact ⟨fun _ => .inr rfl, fun hs => hr ▸ hs, fun hs => .inl (hd ▸ hs),
      fun rc hrc => absurd hrc (hp rc)⟩
  | interrupt => exact ⟨fun _ => .inr rfl, id, .inl, nofun⟩
  | done =>
    exact ⟨.inl, id, .inl, fun rc hrc => by cases hrc; exact .inr (.inl ⟨rfl, rfl, rfl⟩)⟩
  | die _ hne => exact ⟨.inl, id, .inl, fun rc hrc => by cases hrc; exact .inr (.inr hne)⟩

/-- A step out of `exited` is a tick. -/
theorem tick_of_exited {rc : Int} (hp : s.phase = .exited rc) (h : step mode s l = some t) :
    ∃ d, l = .tick d := by
  have hr : s.running = false := by rw [running, hp]
  have ha : s.alive = false := by rw [alive, hp]
  cases l with
  | tick d => exact ⟨d, rfl⟩
  | _ => simp [step, hp, hr, ha] at h

structure Honest (mode : Mode) (s : Engine) : Prop where
  discovered : s.discovered = true → s.replaced = true
  success : s.phase = .exited 0 → s.interrupted = true ∨ s.ok mode = true

theorem honest_init (now : Int) : Honest mode (init now) where
  discovered h := by cases h
  success h := by cases h

theorem Honest.step (h : Honest mode s) (hs : step mode s l = some t) : Honest mode t := by
  have he := step_ends hs
  constructor
  · intro hd
    rcases he.discovered hd with hd | hr
    · exact he.replaced (h.discovered hd)
    · exact hr
  · intro hp
    rcases he.exited 0 hp with ⟨now, rfl⟩ | ⟨-, hrc, rfl⟩ | hne
    · exact h.success hp
    · unfold exitCode at hrc
      split at hrc
      · exact .inl ‹_›
      · split at hrc
        · exact .inr ‹_›
        · cases hrc
    · exact absurd rfl hne

end EufyNvr.Stream.Engine
