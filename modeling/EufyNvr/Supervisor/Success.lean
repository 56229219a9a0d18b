import EufyNvr.Supervisor.Producer

/-!
# What a success of the supervisor means

In discovery, `main` returns 0 only when the last engine has replaced the
camera manifest. In live mode the engine also exits with 0 when its
signaling socket closes before the first frame, so a success there means a
frame only in runs in which no engine ends like that.
-/

namespace EufyNvr.Supervisor.Producer

open Machine

variable {cfg : Settings} {discovery : Bool} {p q : Producer} {now : Int}
  {ls : List ProducerLabel}

theorem linked_run {J : Reason → Stream.Engine → Prop} {C : Producer → ProducerLabel → Prop}
    (hJ : Carried J)
    (hE : ∀ p l el e e' a, C p l → Drives discovery p l el e e' →
      p.sup.main.phase = .attempting a → Joined J a e → J a.reason e')
    (h : exec (step cfg discovery) (init now) ls = some p) (hstop : .stop ∉ ls)
    (hC : Along (step cfg discovery) C (init now) ls) : Linked J p := by
  have hC' : Along (step cfg discovery) (fun p l => l ≠ .stop ∧ C p l) (init now) ls :=
    fun pre l post u hls hu =>
      ⟨fun hl => hstop (by rw [hls, hl]; simp), hC pre l post u hls hu⟩
  exact invariant_along (I := Linked J)
    (fun p l q hl hi hs => hi.step hJ hl.1 (fun el e e' a => hE p l el e e' a hl.2) hs)
    hC' (linked_init now) h

/-- An interrupt of the supervisor comes after its reason. -/
theorem reason_of_signalled {J : Reason → Stream.Engine → Prop} {a : Attempt}
    {e : Stream.Engine} (hp : p.sup.main.phase = .attempting a) (hj : Joined J a e)
    (hs : p.signalled = true) : a.reason ≠ .exit := by
  simp only [signalled, hp, decide_eq_true_eq] at hs
  exact hj.interrupt hs

-- ---------------------------------------------------------------------------
-- Discovery
-- ---------------------------------------------------------------------------

/-- In an attempt without a reason the engine has not been interrupted. -/
structure Genuine (reason : Reason) (e : Stream.Engine) : Prop where
  honest : e.Honest ⟨true⟩
  interrupted : e.interrupted = true → reason ≠ .exit

theorem carried_genuine : Carried Genuine where
  start now := ⟨Stream.Engine.honest_init now, fun h => by cases h⟩
  tick h := ⟨⟨h.honest.discovered, h.honest.success⟩, h.interrupted⟩
  polled h hr := ⟨h.honest, fun _ => hr⟩

theorem genuine_of_drives {l : ProducerLabel} {el : Stream.Label} {e e' : Stream.Engine}
    {a : Attempt} (hl : l ≠ .outsideInterrupt) (hd : Drives true p l el e e')
    (hp : p.sup.main.phase = .attempting a) (hj : Joined Genuine a e) :
    Genuine a.reason e' where
  honest := hj.related.honest.step hd.step
  interrupted hi := by
    rcases (Stream.Engine.step_ends hd.step).interrupted hi with hi | rfl
    · exact hj.related.interrupted hi
    · have hle := hd.label.resolve_right fun h => hl h.1
      exact reason_of_signalled hp hj (hd.signalled hle)

/-- A discovery that returns 0 has replaced the camera manifest in its last
attempt, with an engine that nobody interrupted. -/
theorem discovery_succeeds (h : exec (step cfg true) (init now) ls = some p)
    (hstop : .stop ∉ ls) (hint : .outsideInterrupt ∉ ls)
    (hret : p.sup.main.phase = .returned 0) :
    ∃ a e, p.sup.main.ended.getLast? = some a ∧ p.engine = some e ∧ a.reason = .exit ∧
      .interrupt ∉ a.signals ∧ e.interrupted = false ∧ e.discovered = true ∧
      e.replaced = true := by
  have hlink : Linked Genuine p := by
    refine linked_run (C := fun _ l => l ≠ .outsideInterrupt) carried_genuine
      (fun p l el e e' a hl hd hp hj => genuine_of_drives hl hd hp hj) h hstop ?_
    intro pre l post u hls _ hl
    exact hint (by rw [hls, hl]; simp)
  obtain ⟨a, e, hs⟩ := hlink.returned hret
  have hg := hs.joined.related
  have hni : e.interrupted ≠ true := fun hi => hg.interrupted hi hs.reason
  have hok : e.ok ⟨true⟩ = true := (hg.honest.success hs.exited).resolve_left hni
  have hdisc : e.discovered = true := by
    simp only [Stream.Engine.ok, Bool.not_true, Bool.false_or, Bool.and_eq_true] at hok
    exact hok.1
  exact ⟨a, e, hs.last, hs.engine, hs.reason, fun hi => hs.joined.interrupt hi hs.reason,
    by simpa using hni, hdisc, hg.honest.discovered hdisc⟩

/-- The device list arrives, and the engine leaves by itself. -/
theorem discovery_succeeds_orderly :
    ∃ p, exec (step .default true) (init 0)
      [.main .granted, .engine .receiving, .engine .answer, .engine .connected,
        .engine (.channelOpen true), .engine .sequence, .engine (.deviceList .done),
        .engine .loopEnds, .engine (.status 0), .engine .acknowledged, .engine .done,
        .main (.attempt .wake), .main (.attempt .wake), .main (.attempt (.descendants false)),
        .tick (milliseconds 100), .main (.attempt .timeout), .main (.attempt .relayEnds),
        .main (.attempt .wake), .tick (seconds 1), .main .timeout] = some p ∧
      ∃ e, p.engine = some e ∧ e.replaced = true := by
  have h : exec (step .default true) (init 0)
    [.main .granted, .engine .receiving, .engine .answer, .engine .connected,
      .engine (.channelOpen true), .engine .sequence, .engine (.deviceList .done),
      .engine .loopEnds, .engine (.status 0), .engine .acknowledged, .engine .done,
      .main (.attempt .wake), .main (.attempt .wake), .main (.attempt (.descendants false)),
      .tick (milliseconds 100), .main (.attempt .timeout), .main (.attempt .relayEnds),
      .main (.attempt .wake), .tick (seconds 1), .main .timeout] = some _ := rfl
  obtain ⟨a, e, -, he, -, -, -, -, hr⟩ := discovery_succeeds h (by decide) (by decide) rfl
  exact ⟨_, h, e, he, hr⟩

-- ---------------------------------------------------------------------------
-- Live mode
-- ---------------------------------------------------------------------------

/-- The sink has taken no frame, and nothing says that the session failed. -/
def silent (e : Stream.Engine) : Bool :=
  decide (e.written = 0) && (e.fatalReason.isNone || e.interrupted)

/-- No engine ends silently unless the supervisor has interrupted it. -/
def Framed (p : Producer) : ProducerLabel → Prop
  | .engine .done => p.signalled = true ∨ p.engine.any silent = false
  | _ => True

instance (p : Producer) (l : ProducerLabel) : Decidable (Framed p l) := by
  unfold Framed
  split <;> infer_instance

/-- An engine that exits with 0 in an attempt without a reason has written
a frame. -/
def Written (reason : Reason) (e : Stream.Engine) : Prop :=
  e.phase = .exited 0 → reason = .exit → e.written ≠ 0

theorem carried_written : Carried Written where
  start now := fun h => by cases h
  tick h := h
  polled _ hr := fun _ he => absurd he hr

theorem written_of_drives {l : ProducerLabel} {el : Stream.Label} {e e' : Stream.Engine}
    {a : Attempt} (hl : Framed p l) (hd : Drives false p l el e e')
    (hp : p.sup.main.phase = .attempting a) (hj : Joined Written a e) :
    Written a.reason e' := by
  intro he hr
  rcases (Stream.Engine.step_ends hd.step).exited 0 he with ⟨now, rfl⟩ | ⟨rfl, hrc, rfl⟩ | hne
  · exact hj.related he hr
  · obtain rfl : l = .engine .done := hd.label.resolve_right fun h => by cases h.2
    rcases hl with hs | hw
    · exact absurd hr (reason_of_signalled hp hj hs)
    · rw [hd.engine, Option.any_some] at hw
      cases hfr : e.fatalReason with
      | none => simpa [silent, hfr] using hw
      | some reason =>
        -- A fatal reason makes the exit code 1 unless `main` was interrupted.
        intro hn
        have hi : e.interrupted = false := by simpa [silent, hfr, show e.written = 0 from hn] using hw
        simp [Stream.Engine.exitCode, hi, Stream.Engine.ok, hfr] at hrc
  · exact absurd rfl hne

/-- A live producer that returns 0 has written a frame in its last attempt,
in every run in which no engine ends by itself without a frame. -/
theorem live_succeeds (h : exec (step cfg false) (init now) ls = some p) (hstop : .stop ∉ ls)
    (hC : Along (step cfg false) Framed (init now) ls) (hret : p.sup.main.phase = .returned 0) :
    ∃ a e, p.sup.main.ended.getLast? = some a ∧ p.engine = some e ∧ e.phase = .exited 0 ∧
      e.written ≠ 0 := by
  have hlink : Linked Written p := linked_run carried_written
    (fun p l el e e' a hl hd hp hj => written_of_drives hl hd hp hj) h hstop hC
  obtain ⟨a, e, hs⟩ := hlink.returned hret
  exact ⟨a, e, hs.last, hs.engine, hs.exited, hs.joined.related hs.exited hs.reason⟩

/-- A frame is written and then the signaling socket closes. -/
theorem live_succeeds_framed :
    ∃ p, exec (step .default false) (init 0)
      [.main .granted, .engine .receiving, .engine .answer, .engine .connected,
        .engine (.channelOpen true), .engine .sequence, .tick (milliseconds 150),
        .engine .sequence, .engine (.video .written), .engine .loopEnds, .engine (.status 0),
        .engine .acknowledged, .engine .done, .main (.attempt .wake), .main (.attempt .wake),
        .main (.attempt (.descendants false)), .tick (milliseconds 100),
        .main (.attempt .timeout), .main (.attempt .relayEnds), .main (.attempt .wake),
        .tick (seconds 1), .main .timeout] = some p ∧
      ∃ e, p.engine = some e ∧ e.written ≠ 0 := by
  have h : exec (step .default false) (init 0)
    [.main .granted, .engine .receiving, .engine .answer, .engine .connected,
      .engine (.channelOpen true), .engine .sequence, .tick (milliseconds 150),
      .engine .sequence, .engine (.video .written), .engine .loopEnds, .engine (.status 0),
      .engine .acknowledged, .engine .done, .main (.attempt .wake), .main (.attempt .wake),
      .main (.attempt (.descendants false)), .tick (milliseconds 100),
      .main (.attempt .timeout), .main (.attempt .relayEnds), .main (.attempt .wake),
      .tick (seconds 1), .main .timeout] = some _ := rfl
  obtain ⟨a, e, -, he, -, hw⟩ := live_succeeds h (by decide)
    (along_of_check (by decide +kernel)) rfl
  exact ⟨_, h, e, he, hw⟩

/-- The signaling socket closes before an offer arrives: the engine exits
with 0, and so does the supervisor, without a retry and without a frame. -/
theorem live_success_without_frame :
    ∃ p e, exec (step .default false) (init 0)
      [.main .granted, .engine .receiving, .tick (milliseconds 200), .engine .loopEnds,
        .engine .done, .main (.attempt .wake), .main (.attempt .wake),
        .main (.attempt (.descendants false)), .tick (milliseconds 100),
        .main (.attempt .timeout), .main (.attempt .relayEnds), .main (.attempt .wake),
        .tick (seconds 1), .main .timeout] = some p ∧
      p.sup.main.phase = .returned 0 ∧ p.sup.main.attempt = 1 ∧ p.sup.stop = false ∧
      p.engine = some e ∧ e.written = 0 :=
  ⟨_, _, rfl, rfl, rfl, rfl, rfl, rfl⟩

end EufyNvr.Supervisor.Producer
