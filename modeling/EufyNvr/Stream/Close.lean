import EufyNvr.Lib.Trace
import EufyNvr.Stream.Steps

/-!
# The order of the commands of a session

The start sequence is launched once, on a connected peer with an open
command channel, and `closeLive` is pushed once, after the launch. That no
start command follows `closeLive` holds exactly where the start sequence has
ended by then: `close_live` does not wait for the detached task.
-/

namespace EufyNvr.Stream.Engine

variable {mode : Mode} {s t : Engine} {l : Label}

/-- A command of the start sequence, of either mode. -/
def starts : Event → Prop
  | .pushed .openLive | .pushed .startStream | .pushed .deviceList => True
  | _ => False

-- ---------------------------------------------------------------------------
-- What a step sends
-- ---------------------------------------------------------------------------

/-- Nothing is sent between `s` and `t`, and nothing changes that decides
what may be sent. -/
structure Silent (s t : Engine) : Prop where
  trace : t.trace = s.trace
  connected : t.connected = s.connected
  cmdDcOpen : t.cmdDcOpen = s.cmdDcOpen
  started : t.started = s.started
  closeSent : t.closeSent = s.closeSent
  sequence : t.sequence = s.sequence

theorem Silent.refl (s : Engine) : Silent s s := ⟨rfl, rfl, rfl, rfl, rfl, rfl⟩

inductive Speaks (mode : Mode) (s : Engine) : Label → Engine → Prop
  | nothing {l : Label} {t : Engine} : Silent s t → Speaks mode s l t
  | connected :
      Speaks mode s .connected (maybeStart { s.record .connected with connected := true })
  | opened {own : Bool} : Speaks mode s (.channelOpen own) (maybeStart
      { s.record .commandChannelOpen with
        cmdDcOpen := true, channel := if own then some true else s.channel })
  | sequence {t : Engine} : startSequence mode s = some t → Speaks mode s .sequence t
  | close {l : Label} {t : Engine} : l = .loopEnds ∨ l = .interrupt → s.phase = .receiving →
      s.skipsClose = false →
      Silent { s.pushSend .closeLive with closeSent := true } t → Speaks mode s l t

theorem closeLive_speaks (hp : s.phase = .receiving) (hl : l = .loopEnds ∨ l = .interrupt)
    {b : Bool} : Speaks mode s l { s.closeLive with interrupted := b } := by
  unfold closeLive
  simp only
  have hskip : skipsClose { s with shuttingDown := true } = s.skipsClose := rfl
  rw [hskip]
  split
  · exact .nothing ⟨rfl, rfl, rfl, rfl, rfl, rfl⟩
  · rename_i hs
    exact .close hl hp (by simpa using hs) ⟨rfl, rfl, rfl, rfl, rfl, rfl⟩

theorem onVideo_silent (s : Engine) (sink : Sink) : Silent s (s.onVideo sink) := by
  unfold onVideo
  split
  · split
    · exact ⟨rfl, rfl, rfl, rfl, rfl, rfl⟩
    · exact .refl s
  · exact ⟨rfl, rfl, rfl, rfl, rfl, rfl⟩
  · exact ⟨rfl, rfl, rfl, rfl, rfl, rfl⟩

theorem handleDevlist_silent (s : Engine) (o : DeviceList) : Silent s (s.handleDevlist o) := by
  unfold handleDevlist
  split <;> exact ⟨rfl, rfl, rfl, rfl, rfl, rfl⟩

theorem step_speaks (h : step mode s l = some t) : Speaks mode s l t := by
  cases step_stepped h with
  | connected => exact .connected
  | channelOpen => exact .opened
  | sequence _ hq => exact .sequence hq
  | loopEnds hp => exact closeLive_speaks hp (.inl rfl)
  | interruptLoop hp => exact closeLive_speaks hp (.inr rfl)
  | video => exact .nothing (onVideo_silent s _)
  | deviceList => exact .nothing (handleDevlist_silent s _)
  | _ => exact .nothing ⟨rfl, rfl, rfl, rfl, rfl, rfl⟩

-- ---------------------------------------------------------------------------
-- The order of launch and close
-- ---------------------------------------------------------------------------

structure Ordered (s : Engine) : Prop where
  connected : s.connected = true → .connected ∈ s.trace
  cmdDcOpen : s.cmdDcOpen = true → .commandChannelOpen ∈ s.trace
  launches : s.trace.count .launched = if s.started then 1 else 0
  closes : s.trace.count (.pushed .closeLive) = if s.closeSent then 1 else 0
  idle : s.started = false ↔ s.sequence = .absent
  afterConnected : Trace.Before .connected .launched s.trace
  afterOpen : Trace.Before .commandChannelOpen .launched s.trace
  afterLaunch : Trace.Before .launched (.pushed .closeLive) s.trace

theorem Ordered.silent (h : Ordered s) (hs : Silent s t) : Ordered t := by
  obtain ⟨htr, hc, ho, hst, hcs, hq⟩ := hs
  exact ⟨by rw [htr, hc]; exact h.connected, by rw [htr, ho]; exact h.cmdDcOpen,
    by rw [htr, hst]; exact h.launches, by rw [htr, hcs]; exact h.closes,
    by rw [hst, hq]; exact h.idle, by rw [htr]; exact h.afterConnected,
    by rw [htr]; exact h.afterOpen, by rw [htr]; exact h.afterLaunch⟩

/-- An event that is neither the launch nor the close. -/
theorem Ordered.record {e : Event} (h : Ordered s) (hl : e ≠ .launched)
    (hc : e ≠ .pushed .closeLive) : Ordered (s.record e) where
  connected hs := List.mem_append_left _ (h.connected hs)
  cmdDcOpen hs := List.mem_append_left _ (h.cmdDcOpen hs)
  launches := (Trace.count_snoc_of_ne hl).trans h.launches
  closes := (Trace.count_snoc_of_ne hc).trans h.closes
  idle := h.idle
  afterConnected := h.afterConnected.snoc fun he => absurd he hl
  afterOpen := h.afterOpen.snoc fun he => absurd he hl
  afterLaunch := h.afterLaunch.snoc fun he => absurd he hc

theorem Ordered.maybeStart (h : Ordered s) : Ordered s.maybeStart := by
  unfold Engine.maybeStart
  split
  · rename_i hs
    obtain ⟨hc, ho, hn⟩ := hs
    rw [Bool.not_eq_true] at hn
    have hl := h.launches
    rw [hn] at hl
    exact {
      connected := fun _ => List.mem_append_left _ (h.connected hc)
      cmdDcOpen := fun _ => List.mem_append_left _ (h.cmdDcOpen ho)
      launches := Trace.count_snoc_self.trans (congrArg (· + 1) hl)
      closes := (Trace.count_snoc_of_ne (by simp)).trans h.closes
      idle := by simp
      afterConnected := h.afterConnected.snoc fun _ => h.connected hc
      afterOpen := h.afterOpen.snoc fun _ => h.cmdDcOpen ho
      afterLaunch := h.afterLaunch.snoc fun he => by cases he }
  · exact h

theorem started_of_skipsClose (h : s.skipsClose = false) :
    s.started = true ∧ s.closeSent = false := by
  simp only [skipsClose, Bool.or_eq_false_iff, Bool.not_eq_false'] at h
  exact ⟨h.1.2, h.1.1⟩

theorem mem_of_launched (h : Ordered s) (hs : s.started = true) : .launched ∈ s.trace := by
  have hl := h.launches
  rw [hs] at hl
  exact List.count_pos_iff.mp (by rw [hl]; exact Nat.one_pos)

theorem Ordered.startSequence (h : Ordered s) (hs : startSequence mode s = some t) :
    Ordered t := by
  -- A task that pushes something has been launched.
  have push {c : Command} {q : Sequence} (hs : s.sequence ≠ .absent) (hq : q ≠ .absent)
      (hc : c ≠ .closeLive) : Ordered { s.pushSend c with sequence := q } := by
    have hr := h.record (e := .pushed c) (by simp) (by simpa using hc)
    exact { hr with idle := ⟨fun hf => absurd (h.idle.mp hf) hs, fun ha => absurd ha hq⟩ }
  unfold Engine.startSequence at hs
  split at hs
  · rename_i hq
    split at hs
    · cases hs; exact push (by simp [hq]) (by simp) (by simp)
    · cases hs; exact push (by simp [hq]) (by simp) (by simp)
  · rename_i hq
    split at hs
    · cases hs; exact push (by simp [hq]) (by simp) (by simp)
    · cases hs
  · cases hs

theorem Ordered.close (h : Ordered s) (hs : s.skipsClose = false) :
    Ordered { s.pushSend .closeLive with closeSent := true } := by
  obtain ⟨hst, hc⟩ := started_of_skipsClose hs
  have hcl := h.closes
  rw [hc] at hcl
  exact {
    connected := fun hs => List.mem_append_left _ (h.connected hs)
    cmdDcOpen := fun hs => List.mem_append_left _ (h.cmdDcOpen hs)
    launches := (Trace.count_snoc_of_ne (by simp)).trans h.launches
    closes := Trace.count_snoc_self.trans (congrArg (· + 1) hcl)
    idle := h.idle
    afterConnected := h.afterConnected.snoc fun he => by cases he
    afterOpen := h.afterOpen.snoc fun he => by cases he
    afterLaunch := h.afterLaunch.snoc fun _ => mem_of_launched h hst }

theorem Ordered.speaks (h : Ordered s) (hs : Speaks mode s l t) : Ordered t := by
  cases hs with
  | nothing hq => exact h.silent hq
  | connected =>
    have hr := h.record (e := .connected) (by simp) (by simp)
    exact Ordered.maybeStart { hr with connected := fun _ => by simp [Engine.record] }
  | opened =>
    have hr := h.record (e := .commandChannelOpen) (by simp) (by simp)
    exact Ordered.maybeStart { hr with cmdDcOpen := fun _ => by simp [Engine.record] }
  | sequence hq => exact h.startSequence hq
  | close _ _ hskip hq => exact (h.close hskip).silent hq

theorem ordered_run {now : Int} {ls : List Label}
    (h : Machine.exec (step mode) (init now) ls = some s) : Ordered s := by
  refine Machine.invariant (fun _ _ _ hi hs => hi.speaks (step_speaks hs)) ?_ h
  exact ⟨by simp [init], by simp [init], rfl, rfl, by simp [init], .nil, .nil, .nil⟩

-- ---------------------------------------------------------------------------
-- Nothing after the close
-- ---------------------------------------------------------------------------

/-- Where the step pushes `closeLive`, the start sequence has ended. -/
def ClosesLast (s : Engine) (l : Label) : Prop :=
  l = .loopEnds ∨ l = .interrupt → s.phase = .receiving → s.skipsClose = false →
    s.sequence = .finished

structure Quiet (s : Engine) : Prop where
  ordered : Ordered s
  ended : s.closeSent = true → s.sequence = .finished
  last : Trace.NoneAfter starts (.pushed .closeLive) s.trace

theorem closeSent_of_mem (h : Ordered s) (hm : .pushed .closeLive ∈ s.trace) :
    s.closeSent = true := by
  by_contra hn
  have hc := h.closes
  rw [if_neg hn, List.count_eq_zero] at hc
  exact hc hm

theorem Quiet.of_open (h : Ordered s) (hs : s.closeSent = false) : Quiet s where
  ordered := h
  ended hc := by rw [hs] at hc; cases hc
  last := by
    intro pre post htr
    have hc := closeSent_of_mem h (by rw [htr]; simp)
    rw [hs] at hc
    cases hc

theorem maybeStart_of_started (h : s.started = true) : s.maybeStart = s := by
  simp [maybeStart, h]

theorem closeSent_maybeStart (s : Engine) : s.maybeStart.closeSent = s.closeSent := by
  unfold maybeStart
  split <;> rfl

theorem started_of_finished (h : Ordered s) (hs : s.sequence = .finished) : s.started = true := by
  by_contra hn
  have hi := h.idle.mp (by simpa using hn)
  rw [hs] at hi
  cases hi

/-- A peer event: nothing is launched once `closeLive` has been pushed. -/
theorem Quiet.peer {u : Engine} {e : Event} (h : Quiet s) (hu : Ordered u)
    (htr : u.trace = s.trace ++ [e]) (he : ¬ starts e) (hst : u.started = s.started)
    (hcs : u.closeSent = s.closeSent) (hq : u.sequence = s.sequence) : Quiet u.maybeStart := by
  by_cases hc : s.closeSent = true
  · have hf := h.ended hc
    rw [maybeStart_of_started (hst.trans (started_of_finished h.ordered hf))]
    exact ⟨hu, fun _ => hq.trans hf, htr ▸ h.last.snoc fun _ => he⟩
  · refine .of_open hu.maybeStart ?_
    rw [closeSent_maybeStart, hcs]
    simpa using hc

theorem closeSent_startSequence (hs : startSequence mode s = some t) :
    t.closeSent = s.closeSent ∧ s.sequence ≠ .finished := by
  unfold startSequence at hs
  split at hs
  · split at hs <;> cases hs <;> exact ⟨rfl, by simp_all⟩
  · split at hs
    · cases hs; exact ⟨rfl, by simp_all⟩
    · cases hs
  · cases hs

theorem Quiet.speaks (h : Quiet s) (hC : ClosesLast s l) (hs : Speaks mode s l t) : Quiet t := by
  have ht : Ordered t := h.ordered.speaks hs
  cases hs with
  | nothing hq =>
    exact ⟨ht, by rw [hq.closeSent, hq.sequence]; exact h.ended, by rw [hq.trace]; exact h.last⟩
  | connected =>
    have hr := h.ordered.record (e := .connected) (by simp) (by simp)
    exact h.peer { hr with connected := fun _ => by simp [Engine.record] } rfl (by simp [starts])
      rfl rfl rfl
  | opened =>
    have hr := h.ordered.record (e := .commandChannelOpen) (by simp) (by simp)
    exact h.peer { hr with cmdDcOpen := fun _ => by simp [Engine.record] } rfl (by simp [starts])
      rfl rfl rfl
  | sequence hq =>
    obtain ⟨hc, hn⟩ := closeSent_startSequence hq
    refine .of_open ht (hc.trans ?_)
    by_contra hcs
    exact hn (h.ended (by simpa using hcs))
  | close hl hp hskip hq =>
    refine ⟨ht, fun _ => hq.sequence.trans (hC hl hp hskip), hq.trace ▸ h.last.snoc fun _ => ?_⟩
    simp [starts]

theorem closeSent_speaks (hc : s.closeSent = true) (hs : Speaks mode s l t) : t.closeSent = true := by
  cases hs with
  | nothing hq => rw [hq.closeSent, hc]
  | connected => rw [closeSent_maybeStart]; exact hc
  | opened => rw [closeSent_maybeStart]; exact hc
  | sequence hq => rw [(closeSent_startSequence hq).1, hc]
  | close _ _ _ hq => rw [hq.closeSent]

/-- Once `closeLive` is pushed with nothing left to start, no step needs a
condition any more. -/
theorem Quiet.closed_run {ls : List Label} (h : Quiet s) (hc : s.closeSent = true)
    (hr : Machine.exec (step mode) s ls = some t) : Quiet t := by
  refine (Machine.invariant (I := fun s => Quiet s ∧ s.closeSent = true) ?_ ⟨h, hc⟩ hr).1
  rintro s l t ⟨hs, hcs⟩ hstep
  have hC : ClosesLast s l := fun _ _ hskip => by
    rw [(started_of_skipsClose hskip).2] at hcs
    cases hcs
  exact ⟨hs.speaks hC (step_speaks hstep), closeSent_speaks hcs (step_speaks hstep)⟩

theorem closeLive_of_open (hskip : s.skipsClose = false) :
    s.closeLive = { s.pushSend .closeLive with
      shuttingDown := true, closeSent := true, phase := .closing (s.now + closeTimeout) } := by
  unfold closeLive
  exact if_neg (by simpa [skipsClose] using hskip)

/-- A start sequence with a command due pushes it. -/
theorem startSequence_pushes
    (h : s.sequence = .scheduled ∨ ∃ due, s.sequence = .paused due ∧ due ≤ s.now) :
    ∃ u c, startSequence mode s = some u ∧ starts (.pushed c) ∧
      u.trace = s.trace ++ [.pushed c] := by
  unfold startSequence
  rcases h with hq | ⟨due, hq, hd⟩
  · rw [hq]
    cases mode.discover with
    | true => exact ⟨_, .deviceList, rfl, trivial, rfl⟩
    | false => exact ⟨_, .openLive, rfl, trivial, rfl⟩
  · rw [hq]
    exact ⟨_, .startStream, if_pos hd, trivial, rfl⟩

/-- The start sequence goes on after `closeLive` where it has not ended. -/
theorem late_start (hp : s.phase = .receiving) (hskip : s.skipsClose = false)
    (ha : s.sequence ≠ .absent) (hf : s.sequence ≠ .finished) :
    ∃ post w c, Machine.exec (step mode) s (.loopEnds :: post) = some w ∧
      starts (.pushed c) ∧ w.trace = s.trace ++ .pushed .closeLive :: [.pushed c] := by
  have hstep : step mode s .loopEnds = some s.closeLive := if_pos hp
  have hclose := closeLive_of_open hskip
  have hq : s.closeLive.sequence = s.sequence := by rw [hclose]; rfl
  have htr : s.closeLive.trace = s.trace ++ [.pushed .closeLive] := by rw [hclose]; rfl
  have halive : s.closeLive.alive = true := by rw [hclose]; rfl
  cases hsq : s.sequence with
  | absent => exact absurd hsq ha
  | finished => exact absurd hsq hf
  | scheduled =>
    obtain ⟨u, c, hu, hc, hut⟩ :=
      startSequence_pushes (s := s.closeLive) (.inl (hq.trans hsq))
    refine ⟨[.sequence], u, c, ?_, hc, by simp [hut, htr]⟩
    exact Machine.exec_cons.mpr ⟨_, hstep, Machine.exec_cons.mpr ⟨u, (if_pos halive).trans hu, rfl⟩⟩
  | paused due =>
    -- The pause is over after a tick.
    have hd : 0 ≤ max 0 (due - s.closeLive.now) := le_max_left _ _
    have hdue : due ≤ s.closeLive.now + max 0 (due - s.closeLive.now) := by omega
    obtain ⟨u, c, hu, hc, hut⟩ := startSequence_pushes
      (s := { s.closeLive with now := s.closeLive.now + max 0 (due - s.closeLive.now) })
      (.inr ⟨due, hq.trans hsq, hdue⟩)
    refine ⟨[.tick (max 0 (due - s.closeLive.now)), .sequence], u, c, ?_, hc, by simp [hut, htr]⟩
    exact Machine.exec_cons.mpr ⟨_, hstep, Machine.exec_cons.mpr ⟨_, if_pos hd,
      Machine.exec_cons.mpr ⟨u, (if_pos halive).trans hu, rfl⟩⟩⟩

/-- The order of the commands of a session, over every run of an engine. The
launch and the close are in order in every run; no start command follows
`closeLive` in a run that closes only after its start sequence; and where it
closes earlier, some continuation sends a start command after `closeLive`. -/
theorem closes_last {now : Int} {ls : List Label}
    (h : Machine.exec (step mode) (init now) ls = some s) :
    (s.trace.count .launched ≤ 1 ∧ Trace.Before .connected .launched s.trace ∧
      Trace.Before .commandChannelOpen .launched s.trace) ∧
    (s.trace.count (.pushed .closeLive) ≤ 1 ∧
      Trace.Before .launched (.pushed .closeLive) s.trace) ∧
    (Machine.Along (step mode) ClosesLast (init now) ls →
      Trace.NoneAfter starts (.pushed .closeLive) s.trace) ∧
    (s.phase = .receiving → s.skipsClose = false →
      ((∀ post w, Machine.exec (step mode) s (.loopEnds :: post) = some w →
        Trace.NoneAfter starts (.pushed .closeLive) w.trace) ↔ s.sequence = .finished)) := by
  have ho := ordered_run h
  refine ⟨⟨?_, ho.afterConnected, ho.afterOpen⟩, ⟨?_, ho.afterLaunch⟩, fun hC => ?_,
    fun hp hskip => ⟨fun hall => ?_, fun hf post w hw => ?_⟩⟩
  · rw [ho.launches]
    split <;> omega
  · rw [ho.closes]
    split <;> omega
  · have hinit : Quiet (init now) := .of_open (@ordered_run mode _ _ [] rfl) rfl
    exact (Machine.invariant_along (fun _ _ _ hC hi hs => hi.speaks hC (step_speaks hs)) hC hinit h).last
  · have hst := (started_of_skipsClose hskip).1
    have ha : s.sequence ≠ .absent := fun ha => by
      rw [ho.idle.mpr ha] at hst
      cases hst
    by_contra hf
    obtain ⟨post, w, c, hw, hc, htr⟩ := late_start hp hskip ha hf
    exact hall post w hw _ _ htr _ (List.mem_singleton.mpr rfl) hc
  · obtain ⟨u, hu, hrest⟩ := Machine.exec_cons.mp hw
    have hq := Quiet.of_open ho (started_of_skipsClose hskip).2
    have hs := hq.speaks (l := .loopEnds) (fun _ _ _ => hf) (step_speaks hu)
    refine (hs.closed_run ?_ hrest).last
    have hstep : step mode s .loopEnds = some s.closeLive := if_pos hp
    rw [closeLive_of_open hskip, hu, Option.some.injEq] at hstep
    rw [hstep]

/-- A session closed after its start sequence. -/
theorem closes_last_orderly :
    ∃ s, Machine.exec (step ⟨false⟩) (init 0)
      [.receiving, .answer, .connected, .channelOpen true, .sequence, .tick (seconds 1), .sequence,
        .loopEnds, .status 0, .acknowledged, .done] = some s ∧
      s.trace = [.connected, .commandChannelOpen, .launched, .pushed .openLive,
        .pushed .startStream, .pushed .closeLive] ∧ s.trace.count (.pushed .closeLive) ≤ 1 := by
  have h : Machine.exec (step ⟨false⟩) (init 0)
    [.receiving, .answer, .connected, .channelOpen true, .sequence, .tick (seconds 1), .sequence,
      .loopEnds, .status 0, .acknowledged, .done] = some _ := rfl
  exact ⟨_, h, rfl, (closes_last h).2.1.1⟩

/-- The socket is lost in the pause of the start sequence: `startStream` goes
out after `closeLive`, while the acknowledgement is still awaited. -/
theorem starts_after_close :
    ∃ s, Machine.exec (step ⟨false⟩) (init 0)
      [.receiving, .answer, .connected, .channelOpen true, .sequence, .tick (milliseconds 50),
        .loopEnds, .tick (milliseconds 100), .sequence] = some s ∧
      s.trace = [.connected, .commandChannelOpen, .launched, .pushed .openLive,
        .pushed .closeLive, .pushed .startStream] ∧
      ¬ Trace.NoneAfter starts (.pushed .closeLive) s.trace := by
  refine ⟨_, rfl, rfl, fun h => ?_⟩
  exact h [.connected, .commandChannelOpen, .launched, .pushed .openLive] [.pushed .startStream] rfl
    _ (List.mem_singleton.mpr rfl) trivial

end EufyNvr.Stream.Engine
