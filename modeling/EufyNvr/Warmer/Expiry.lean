import EufyNvr.Warmer.Lease

/-!
# The end of a lease

What a poll does that shows no viewer when the lease is over. It ends without
a warm stream, and none is started until a viewer appears, exactly where the
warm consumer is not due for a restart.
-/

namespace EufyNvr.Warmer.AdaptiveWarmer

open Machine (exec)

variable {lease : Int} {w w' : AdaptiveWarmer} {l : Label} {streams : Dict Str Json}
  {payload : Option Json} {next : Next}

-- ---------------------------------------------------------------------------
-- Steps that start no consumer
-- ---------------------------------------------------------------------------

theorem length_stopWarmer (w : AdaptiveWarmer) (hn : next.target = none) :
    (w.stopWarmer next).tasks.length = w.tasks.length := by
  unfold stopWarmer
  split
  · cases next with
    | start stream => cases hn
    | wait | finish => rfl
  · split <;> simp [setStatus]

theorem length_polled (hpoll : Polled lease w streams w') (ht : w'.target = none) :
    w'.tasks.length = w.tasks.length := by
  have hstart {v : AdaptiveWarmer} {stream : Str} (heq : w' = v.startWarmer stream) : False := by
    rw [heq, startWarmer, target_stopWarmer] at ht
    cases ht
  cases hpoll with
  | switch => exact (hstart rfl).elim
  | revive => exact (hstart rfl).elim
  | restart => exact (hstart rfl).elim
  | hold => rfl
  | release => exact length_stopWarmer _ rfl
  | keep => rfl
  | quiet => rfl

/-- A consumer is started for a stream that is held from then on. -/
theorem length_step (h : LeaseOk w) (hs : w.step lease l = some w') (ht : w'.target = none) :
    w'.tasks.length = w.tasks.length := by
  cases step_stepped hs with
  | tick | requestStop | idle | fetch | woken => rfl
  | taskEnds => exact List.length_modify ..
  | finish | preempt | failure => exact length_stopWarmer _ rfl
  | polled _ _ hpoll => exact length_polled hpoll ht
  | @stopped t next hp =>
    rw [target_proceed (h.stopping hp).2] at ht
    cases next with
    | start stream => cases ht
    | wait | finish => rfl

-- ---------------------------------------------------------------------------
-- Polls that show no viewer
-- ---------------------------------------------------------------------------

/-- A poll, where the label is one, shows no viewer. -/
def ShowsNobody (w : AdaptiveWarmer) (l : Label) : Prop :=
  ∀ payload streams, l = .fetched payload → payload.bind streamsOf = some streams →
    w.Nobody streams

theorem target_nobody (h : LeaseOk w) (hl : ShowsNobody w l) (ht : w.target = none)
    (hs : w.step lease l = some w') : w'.target = none := by
  by_contra hne
  have hchanged := target_changed h hs fun heq => hne (heq.trans ht)
  generalize w'.target = target at hchanged hne
  cases hchanged with
  | switch hpay _ hmost =>
    obtain ⟨n, hn, hpos, -⟩ := hmost
    exact hl _ _ rfl hpay _ ⟨n, hn, hpos⟩
  | stop | preempt | failure | release => exact hne rfl

/-- Nothing is held where the poll with this payload ends, nor where a later
one does until a viewer is shown, and no consumer is started. -/
def Released (lease : Int) (w : AdaptiveWarmer) (payload : Option Json) : Prop :=
  ∀ ms w', Machine.Along (step lease) ShowsNobody w (.fetched payload :: ms) →
    exec (step lease) w (.fetched payload :: ms) = some w' →
      w'.tasks.length = w.tasks.length ∧
        ∀ wake, w'.phase = .waiting wake → w'.warmStream = none

theorem released_of_target (h : LeaseOk w)
    (ht : ∀ w', w.step lease (.fetched payload) = some w' → w'.target = none) :
    Released lease w payload := by
  intro ms w' halong hrun
  obtain ⟨v, hv, hms⟩ := Machine.exec_cons.mp hrun
  have hinv := Machine.invariant_along
    (I := fun u => LeaseOk u ∧ u.target = none ∧ u.tasks.length = w.tasks.length)
    (fun u l u' hl hi hs =>
      have ht' := target_nobody hi.1 hl hi.2.1 hs
      ⟨hi.1.step hs, ht', (length_step hi.1 hs ht').trans hi.2.2⟩)
    (halong.tail hv) ⟨h.step hv, ht v hv, length_step h hv (ht v hv)⟩ hms
  refine ⟨hinv.2.2, fun wake hp => ?_⟩
  rw [← target_of_free (by rw [hp]; rfl)]
  exact hinv.2.1

/-- At the end of a lease the stream is kept for a restart only. -/
theorem target_expired (hnobody : w.Nobody streams) (hexp : seconds lease ≤ w.now - w.lastExternalAt)
    (hdue : w.warmStream = none ∨ w.restartDue = false) (hpoll : Polled lease w streams w') :
    w'.target = none := by
  cases hpoll with
  | switch _ _ hmost =>
    obtain ⟨n, hn, hpos, -⟩ := hmost
    exact (hnobody _ ⟨n, hn, hpos⟩).elim
  | revive _ hv => exact (hnobody _ hv).elim
  | hold _ hv => exact (hnobody _ hv).elim
  | restart hw _ hr =>
    rcases hdue with hdue | hdue
    · rw [hw] at hdue
      cases hdue
    · rw [hr] at hdue
      cases hdue
  | release => exact target_stopWarmer ..
  | keep _ _ _ hlt => exact absurd hexp (not_le.mpr hlt)
  | quiet hw => exact hw

/-- A consumer that is gone is started again at once. -/
theorem restart_stopped {stream : Str} (h : LeaseOk w) (hw : w.warmStream = some stream)
    (hrun : w.warmerRunning = false) :
    ∃ w', (w.startWarmer stream).step lease .stopped = some w' ∧
      w'.tasks.length = w.tasks.length + 1 := by
  obtain ⟨t, c, ht, hc, -⟩ := h.recorded hw
  have hdone : c.status = .done := by simpa [warmerRunning, ht, hc] using hrun
  let w' : AdaptiveWarmer := { w with
    warmer := none, warmStream := none, phase := .stopping t (.start stream) }
  refine ⟨w'.proceed (.start stream), ?_, ?_⟩
  · simp [startWarmer, stopWarmer, ht, hrun, AdaptiveWarmer.step, hc, hdone, w']
  · simp [proceed, goWait, w']

theorem not_released {stream : Str} (h : LeaseOk w) (hp : w.phase = .fetching)
    (hpay : payload.bind streamsOf = some streams) (hw : w.warmStream = some stream)
    (hr : w.restartDue = true) (hnobody : w.Nobody streams) : ¬ Released lease w payload := by
  intro hrel
  have hrun : w.warmerRunning = false := by
    simpa using (Bool.and_eq_true_iff.mp hr).1
  obtain ⟨w', hs, hlen⟩ : ∃ w', (w.startWarmer stream).step lease .stopped = some w' ∧
      w'.tasks.length = w.tasks.length + 1 := restart_stopped h hw hrun
  have hpoll : w.step lease (.fetched payload) = some (w.startWarmer stream) := by
    have hc : chooseStream (w.counts streams) (some stream) = none :=
      chooseStream_none.mpr hnobody
    simp only [AdaptiveWarmer.step, hp, hpay, poll, hw, hc, hr, if_true]
  have halong : Machine.Along (step lease) ShowsNobody w [.fetched payload, .stopped] := by
    refine .cons ?_ fun _ _ => .cons ?_ fun _ _ => .nil
    · rintro _ _ ⟨⟩ hstreams
      rw [hpay] at hstreams
      cases hstreams
      exact hnobody
    · rintro _ _ ⟨⟩
  have hrest := hrel [.stopped] w' halong
    (Machine.exec_cons.mpr ⟨_, hpoll, Machine.exec_cons.mpr ⟨_, hs, rfl⟩⟩)
  rw [hrest.1] at hlen
  omega

theorem lease_bound {now : Int} {ls : List Label}
    (h : exec (AdaptiveWarmer.step lease) (init now) ls = some w) (hp : w.phase = .fetching)
    (hpay : payload.bind streamsOf = some streams) (hnobody : w.Nobody streams)
    (hexp : seconds lease ≤ w.now - w.lastExternalAt) :
    Released lease w payload ↔ w.warmStream = none ∨ w.warmerRunning = true ∨
      w.now - w.lastStartAttempt < restartDelay := by
  have hok := leaseOk_run h
  have hdue : w.restartDue = false ↔ w.warmerRunning = true ∨
      w.now - w.lastStartAttempt < restartDelay := by
    simp [restartDue, or_iff_not_imp_left]
  rw [← hdue]
  constructor
  · intro hrel
    by_contra hne
    rw [not_or, Bool.not_eq_false] at hne
    obtain ⟨stream, hw⟩ := Option.ne_none_iff_exists'.mp hne.1
    exact not_released hok hp hpay hw hne.2 hnobody hrel
  · intro hcond
    refine released_of_target hok fun w' hs => ?_
    simp only [AdaptiveWarmer.step, hp, hpay, Option.some.injEq] at hs
    exact target_expired hnobody hexp hcond (hs ▸ poll_polled ..)

-- ---------------------------------------------------------------------------
-- Runs
-- ---------------------------------------------------------------------------

instance : Decidable (w.Nobody streams) :=
  decidable_of_iff (chooseStream (w.counts streams) w.warmStream = none) chooseStream_none

def shed : Str := lit "eufy_shed"

/-- A poll, 200 ms after the one before, up to its report. -/
def nextPoll : List Label := [.tick (milliseconds 200), .woken, .top false]

/-- A viewer of the shed, and four polls without one: the lease of a second
has 200 ms to go. -/
def unviewed : List Label :=
  [.top false, .fetched (some (listing shed [lit "rtsp"]))] ++
    (List.replicate 4 (nextPoll ++ [.fetched (some (listing shed [lit "mpegts"]))])).flatten

/-- The warm consumer runs on, and the lease ends. -/
theorem lease_bound_running : ∃ w streams,
    exec (step 1) (init (seconds 10)) (unviewed ++ nextPoll) = some w ∧
      streamsOf (listing shed [lit "mpegts"]) = some streams ∧ w.warmStream = some shed ∧
        Released 1 w (some (listing shed [lit "mpegts"])) := by
  obtain ⟨streams, hstreams⟩ : ∃ streams, streamsOf (listing shed [lit "mpegts"]) = some streams :=
    ⟨_, rfl⟩
  obtain ⟨w, hw, hp, hs, hnobody, hexp, hrun⟩ : ∃ w,
      exec (step 1) (init (seconds 10)) (unviewed ++ nextPoll) = some w ∧ w.phase = .fetching ∧
        w.warmStream = some shed ∧
          ((streamsOf (listing shed [lit "mpegts"])).any fun streams => w.Nobody streams) = true ∧
            seconds 1 ≤ w.now - w.lastExternalAt ∧ w.warmerRunning = true := by
    apply Machine.exec_of_check
    decide +kernel
  rw [hstreams] at hnobody
  refine ⟨w, streams, hw, hstreams, hs, ?_⟩
  have hpay : (some (listing shed [lit "mpegts"])).bind streamsOf = some streams := hstreams
  exact (lease_bound hw hp hpay (of_decide_eq_true hnobody) hexp).mpr (.inr (.inl hrun))

/-- The warm consumer dies 100 ms before the lease ends, and is started again
when it has ended. -/
theorem lease_overrun : ∃ w, exec (step 1) (init (seconds 10))
    (unviewed ++ [.tick (milliseconds 100), .taskEnds 0, .tick (milliseconds 100), .woken,
      .top false]) = some w ∧
    (w.phase = .fetching ∧
      ((streamsOf (listing shed [])).any fun streams => w.Nobody streams) = true ∧
      seconds 1 ≤ w.now - w.lastExternalAt) ∧
    ((exec (step 1) w [.fetched (some (listing shed [])), .stopped]).any fun w' =>
      w'.phase = .waiting (w'.now + pollInterval) ∧ w'.warmStream = some shed ∧
        w'.tasks[1]? = some ⟨shed, .running⟩) = true := by
  apply Machine.exec_of_check
  decide +kernel

end EufyNvr.Warmer.AdaptiveWarmer
