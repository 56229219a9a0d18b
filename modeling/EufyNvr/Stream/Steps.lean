import EufyNvr.Stream.Engine

/-!
# What a step of the engine does
-/

namespace EufyNvr.Stream.Engine

variable {mode : Mode} {s t : Engine} {l : Label}

/-- What a step can do, with what allows it. -/
inductive Stepped (mode : Mode) (s : Engine) : Label → Engine → Prop
  | tick {d : Int} : 0 ≤ d → Stepped mode s (.tick d) { s with now := s.now + d }
  | receiving : s.phase = .bootstrap → Stepped mode s .receiving { s with phase := .receiving }
  | answer : s.phase = .receiving → s.channel = none →
      Stepped mode s .answer { s with channel := some false }
  | connected : s.running = true →
      Stepped mode s .connected (maybeStart { s.record .connected with connected := true })
  | channelOpen {own : Bool} : s.running = true → (own = true → s.channel.isSome = true) →
      Stepped mode s (.channelOpen own) (maybeStart { s.record .commandChannelOpen with
        cmdDcOpen := true, channel := if own then some true else s.channel })
  | channelClosed : s.running = true → s.channel.isSome = true →
      Stepped mode s .channelClosed { s with channel := some false }
  | sequence {t : Engine} : s.alive = true → startSequence mode s = some t →
      Stepped mode s .sequence t
  | video {sink : Sink} : s.running = true → Stepped mode s (.video sink) (s.onVideo sink)
  | deviceList {outcome : DeviceList} : s.running = true → mode.discover = true →
      ¬ s.discovered = true → Stepped mode s (.deviceList outcome) (s.handleDevlist outcome)
  | status {code : Int} : s.running = true → Stepped mode s (.status code)
      { s with closeAck := s.closeAck || (s.closeSent && code == 0) }
  | ffmpegExits {rc : Int} : s.running = true → ¬ s.shuttingDown = true →
      Stepped mode s (.ffmpegExits rc) { s with fatalReason := some s!"ffmpeg exited rc={rc}" }
  | invalidOffer : s.phase = .receiving →
      Stepped mode s .invalidOffer { s with fatalReason := some "invalid SDP offer" }
  | loopEnds : s.phase = .receiving → Stepped mode s .loopEnds s.closeLive
  | acknowledged {due : Int} : s.phase = .closing due → s.closeAck = true →
      Stepped mode s .acknowledged { s with phase := .teardown }
  | acknowledgementTimeout {due : Int} : s.phase = .closing due → due ≤ s.now →
      Stepped mode s .acknowledgementTimeout { s with phase := .teardown }
  /-- The interrupt ends the loop. -/
  | interruptLoop : s.phase = .receiving →
      Stepped mode s .interrupt { s.closeLive with interrupted := true }
  /-- There is no loop, or it has ended. -/
  | interrupt : s.alive = true → s.phase ≠ .receiving →
      Stepped mode s .interrupt { s with phase := .teardown, interrupted := true }
  | done : s.phase = .teardown → Stepped mode s .done { s with phase := .exited (s.exitCode mode) }
  | die {rc : Int} : s.alive = true → rc ≠ 0 →
      Stepped mode s (.die rc) { s with phase := .exited rc }

theorem step_stepped (h : step mode s l = some t) : Stepped mode s l t := by
  cases l with
  | tick d =>
    obtain ⟨hd, rfl⟩ := Option.ite_some_none_eq_some.mp h
    exact .tick hd
  | receiving =>
    obtain ⟨hp, rfl⟩ := Option.ite_some_none_eq_some.mp h
    exact .receiving hp
  | answer =>
    obtain ⟨hp, rfl⟩ := Option.ite_some_none_eq_some.mp h
    exact .answer hp.1 hp.2
  | connected =>
    obtain ⟨hr, rfl⟩ := Option.ite_some_none_eq_some.mp h
    exact .connected hr
  | channelOpen own =>
    obtain ⟨hr, rfl⟩ := Option.ite_some_none_eq_some.mp h
    exact .channelOpen hr.1 hr.2
  | channelClosed =>
    obtain ⟨hr, rfl⟩ := Option.ite_some_none_eq_some.mp h
    exact .channelClosed hr.1 hr.2
  | sequence =>
    obtain ⟨ha, h⟩ := Option.ite_none_right_eq_some.mp h
    exact .sequence ha h
  | video sink =>
    obtain ⟨hr, rfl⟩ := Option.ite_some_none_eq_some.mp h
    exact .video hr
  | deviceList outcome =>
    obtain ⟨hr, rfl⟩ := Option.ite_some_none_eq_some.mp h
    exact .deviceList hr.1 hr.2.1 hr.2.2
  | status code =>
    obtain ⟨hr, rfl⟩ := Option.ite_some_none_eq_some.mp h
    exact .status hr
  | ffmpegExits rc =>
    obtain ⟨hr, rfl⟩ := Option.ite_some_none_eq_some.mp h
    exact .ffmpegExits hr.1 hr.2
  | invalidOffer =>
    obtain ⟨hp, rfl⟩ := Option.ite_some_none_eq_some.mp h
    exact .invalidOffer hp
  | loopEnds =>
    obtain ⟨hp, rfl⟩ := Option.ite_some_none_eq_some.mp h
    exact .loopEnds hp
  | acknowledged =>
    simp only [step] at h
    split at h
    · obtain ⟨hack, rfl⟩ := Option.ite_some_none_eq_some.mp h
      exact .acknowledged ‹_› hack
    · cases h
  | acknowledgementTimeout =>
    simp only [step] at h
    split at h
    · obtain ⟨hdue, rfl⟩ := Option.ite_some_none_eq_some.mp h
      exact .acknowledgementTimeout ‹_› hdue
    · cases h
  | interrupt =>
    simp only [step] at h
    split at h <;> rename_i hp <;> cases h
    · exact .interruptLoop hp
    · exact .interrupt (by rw [alive, hp]) (by rw [hp]; nofun)
    · exact .interrupt (by rw [alive, hp]) (by rw [hp]; nofun)
    · exact .interrupt (by rw [alive, hp]) (by rw [hp]; nofun)
  | done =>
    obtain ⟨hp, rfl⟩ := Option.ite_some_none_eq_some.mp h
    exact .done hp
  | die rc =>
    obtain ⟨ha, rfl⟩ := Option.ite_some_none_eq_some.mp h
    exact .die ha.1 ha.2

end EufyNvr.Stream.Engine
