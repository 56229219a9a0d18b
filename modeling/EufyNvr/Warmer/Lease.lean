import EufyNvr.Warmer.Warmer
import EufyNvr.Lib.Table

/-!
# One lease at a time

The controller holds at most one warm consumer, moves it only to the most
viewed stream and only from a stream nobody views, and gives a viewed stream
up for a preempt hint, an API failure or a stop request only. The lease runs
out with the last viewer, unless the warm consumer has died by then: a poll
restarts it before it looks at the lease.
-/

namespace EufyNvr.Warmer

/-- The stream that `run` goes on to start. -/
def Next.target : Next → Option Str
  | .start stream => some stream
  | _ => none

namespace AdaptiveWarmer

open Machine (exec)

variable {lease : Int} {w w' : AdaptiveWarmer} {l : Label} {streams : Dict Str Json}
  {t : TaskId} {next : Next} {stream : Str}

-- ---------------------------------------------------------------------------
-- The outcomes of a poll
-- ---------------------------------------------------------------------------

def Nobody (w : AdaptiveWarmer) (streams : Dict Str Json) : Prop :=
  ∀ name, ¬ Viewed (w.counts streams) name

/-- What a poll can do, with what it has found on the way. -/
inductive Polled (lease : Int) (w : AdaptiveWarmer) (streams : Dict Str Json) :
    AdaptiveWarmer → Prop
  | switch {stream : Str} : w.warmStream ≠ some stream →
      (∀ held, w.warmStream = some held → ¬ Viewed (w.counts streams) held) →
      MostViewed (w.counts streams) stream →
      Polled lease w streams ({ w with lastExternalAt := w.now }.startWarmer stream)
  | revive {stream : Str} : w.warmStream = some stream → Viewed (w.counts streams) stream →
      w.restartDue = true →
      Polled lease w streams ({ w with lastExternalAt := w.now }.startWarmer stream)
  | hold {stream : Str} : w.warmStream = some stream → Viewed (w.counts streams) stream →
      w.restartDue = false → Polled lease w streams ({ w with lastExternalAt := w.now }.goWait)
  | restart {stream : Str} : w.warmStream = some stream → w.Nobody streams →
      w.restartDue = true → Polled lease w streams (w.startWarmer stream)
  | release {stream : Str} : w.warmStream = some stream → w.Nobody streams →
      w.restartDue = false → seconds lease ≤ w.now - w.lastExternalAt →
      Polled lease w streams (w.stopWarmer .wait)
  | keep {stream : Str} : w.warmStream = some stream → w.Nobody streams →
      w.restartDue = false → w.now - w.lastExternalAt < seconds lease →
      Polled lease w streams w.goWait
  | quiet : w.warmStream = none → w.Nobody streams → Polled lease w streams w.goWait

theorem poll_polled (lease : Int) (w : AdaptiveWarmer) (streams : Dict Str Json) :
    Polled lease w streams (w.poll lease streams) := by
  unfold poll
  split
  · rename_i requested hc
    have hdue : ({ w with lastExternalAt := w.now } : AdaptiveWarmer).restartDue = w.restartDue :=
      rfl
    simp only [hdue]
    split
    · rename_i hne
      rcases chooseStream_some hc with ⟨heq, -⟩ | ⟨hheld, hmost⟩
      · exact absurd heq.symm hne
      · exact .switch (Ne.symm hne) hheld hmost
    · rename_i heq
      have heq := (not_not.mp heq).symm
      have hv : Viewed (w.counts streams) requested := by
        rcases chooseStream_some hc with ⟨-, hv⟩ | ⟨-, n, hn, hpos, -⟩
        · exact hv
        · exact ⟨n, hn, hpos⟩
      split
      · rename_i hr
        exact .revive heq hv hr
      · rename_i hr
        exact .hold heq hv (Bool.not_eq_true _ ▸ hr)
  · rename_i hc
    have hnobody : w.Nobody streams := chooseStream_none.mp hc
    split
    · rename_i stream hs
      split
      · rename_i hr
        exact .restart hs hnobody hr
      · rename_i hr
        have hr := Bool.not_eq_true _ ▸ hr
        split
        · exact .release hs hnobody hr ‹_›
        · exact .keep hs hnobody hr (not_le.mp ‹_›)
    · rename_i hs
      exact .quiet hs hnobody

-- ---------------------------------------------------------------------------
-- The outcomes of a step
-- ---------------------------------------------------------------------------

/-- What a step can do, with what allows it. -/
inductive Stepped (lease : Int) (w : AdaptiveWarmer) : Label → AdaptiveWarmer → Prop
  | tick {d : Int} : 0 ≤ d → Stepped lease w (.tick d) { w with now := w.now + d }
  | requestStop : Stepped lease w .requestStop { w with stopRequested := true }
  | taskEnds {t : TaskId} : t < w.tasks.length →
      Stepped lease w (.taskEnds t) (w.setStatus t .done)
  | finish {preempted : Bool} : w.phase = .top → w.stopRequested = true →
      Stepped lease w (.top preempted) (w.stopWarmer .finish)
  | preempt : w.phase = .top → w.stopRequested = false → w.warmStream.isSome = true →
      Stepped lease w (.top true) (w.stopWarmer .wait)
  | idle : w.phase = .top → w.stopRequested = false → w.warmStream.isSome = false →
      Stepped lease w (.top true) w.goWait
  | fetch : w.phase = .top → w.stopRequested = false →
      Stepped lease w (.top false) { w with phase := .fetching }
  | failure {payload : Option Json} : w.phase = .fetching → payload.bind streamsOf = none →
      Stepped lease w (.fetched payload) (w.stopWarmer .wait)
  | polled {payload : Option Json} {streams : Dict Str Json} {w' : AdaptiveWarmer} :
      w.phase = .fetching → payload.bind streamsOf = some streams → Polled lease w streams w' →
        Stepped lease w (.fetched payload) w'
  | stopped {t : TaskId} {next : Next} : w.phase = .stopping t next →
      (w.tasks[t]?.all fun c => c.status = .done) = true →
        Stepped lease w .stopped (w.proceed next)
  | woken {wake : Int} : w.phase = .waiting wake → w.stopRequested ∨ wake ≤ w.now →
      Stepped lease w .woken { w with phase := .top }

theorem step_stepped (hs : w.step lease l = some w') : Stepped lease w l w' := by
  cases l with
  | tick d =>
    obtain ⟨hd, rfl⟩ := Option.ite_some_none_eq_some.mp hs
    exact .tick hd
  | requestStop =>
    cases hs
    exact .requestStop
  | taskEnds t =>
    obtain ⟨ht, rfl⟩ := Option.ite_some_none_eq_some.mp hs
    exact .taskEnds ht
  | top preempted =>
    simp only [AdaptiveWarmer.step] at hs
    split at hs
    · rename_i hp
      split at hs
      · rename_i hstop
        cases hs
        exact .finish hp hstop
      · rename_i hstop
        have hstop := Bool.not_eq_true _ ▸ hstop
        cases preempted with
        | true =>
          simp only [if_true] at hs
          split at hs
          · rename_i hw
            cases hs
            exact .preempt hp hstop hw
          · rename_i hw
            cases hs
            exact .idle hp hstop (Bool.not_eq_true _ ▸ hw)
        | false =>
          simp only [Bool.false_eq_true, if_false] at hs
          cases hs
          exact .fetch hp hstop
    · cases hs
  | fetched payload =>
    simp only [AdaptiveWarmer.step] at hs
    split at hs
    · rename_i hp
      split at hs
      · rename_i hpay
        cases hs
        exact .failure hp hpay
      · rename_i hpay
        cases hs
        exact .polled hp hpay (poll_polled ..)
    · cases hs
  | stopped =>
    simp only [AdaptiveWarmer.step] at hs
    split at hs
    · rename_i t next hp
      obtain ⟨hd, rfl⟩ := Option.ite_some_none_eq_some.mp hs
      exact .stopped hp hd
    · cases hs
  | woken =>
    simp only [AdaptiveWarmer.step] at hs
    split at hs
    · rename_i wake hp
      obtain ⟨hw, rfl⟩ := Option.ite_some_none_eq_some.mp hs
      exact .woken hp hw
    · cases hs

-- ---------------------------------------------------------------------------
-- The stream that is held, or about to be
-- ---------------------------------------------------------------------------

/-- The stream of the warm consumer, also while the previous one is being stopped. -/
def target (w : AdaptiveWarmer) : Option Str :=
  match w.phase with
  | .stopping _ (.start stream) => some stream
  | _ => w.warmStream

theorem target_of_phase (h : ∀ t stream, w.phase ≠ .stopping t (.start stream)) :
    w.target = w.warmStream := by
  unfold AdaptiveWarmer.target
  split
  · exact absurd ‹_› (h _ _)
  · rfl

theorem target_proceed (hw : w.warmStream = none) : (w.proceed next).target = next.target := by
  cases next with
  | wait => exact hw
  | start stream => rfl
  | finish => exact hw

theorem target_stopWarmer (w : AdaptiveWarmer) (next : Next) :
    (w.stopWarmer next).target = next.target := by
  unfold stopWarmer
  split
  · exact target_proceed rfl
  · cases next <;> rfl

-- ---------------------------------------------------------------------------
-- The invariant
-- ---------------------------------------------------------------------------

def Unfinished (w : AdaptiveWarmer) (t : TaskId) : Prop :=
  ∃ c, w.tasks[t]? = some c ∧ c.status ≠ .done

structure LeaseOk (w : AdaptiveWarmer) : Prop where
  recorded : ∀ {stream}, w.warmStream = some stream → ∃ t c, w.warmer = some t ∧
    w.tasks[t]? = some c ∧ c.stream = stream
  held : ∀ {t}, w.warmer = some t → ∃ stream, w.warmStream = some stream
  unfinished : ∀ {t}, w.Unfinished t → w.warmer = some t ∨ ∃ next, w.phase = .stopping t next
  stopping : ∀ {t next}, w.phase = .stopping t next → w.warmer = none ∧ w.warmStream = none
  finished : w.phase = .finished → w.warmer = none

/-- `run` has not begun to wait for a task, nor returned. -/
def Phase.free : Phase → Bool
  | .stopping .. | .finished => false
  | _ => true

theorem LeaseOk.frame {p : Phase} (h : LeaseOk w) (hp : Phase.free w.phase = true)
    (hq : Phase.free p = true) (hs : w'.warmStream = w.warmStream) (hw : w'.warmer = w.warmer)
    (ht : w'.tasks = w.tasks) (hphase : w'.phase = p) : LeaseOk w' where
  recorded hstream := by
    rw [hw, ht]
    exact h.recorded (hs ▸ hstream)
  held ht' := by
    rw [hs]
    exact h.held (hw ▸ ht')
  unfinished {t} hu := by
    have hu' : w.Unfinished t := by unfold Unfinished at hu ⊢; rwa [ht] at hu
    rcases h.unfinished hu' with hr | ⟨next, hn⟩
    · exact .inl (hw.trans hr)
    · rw [hn] at hp
      cases hp
  stopping hn := by
    rw [← hphase, hn] at hq
    cases hq
  finished hn := by
    rw [← hphase, hn] at hq
    cases hq

theorem LeaseOk.proceed (hnone : ∀ t, ¬ w.Unfinished t) (hw : w.warmer = none)
    (hs : w.warmStream = none) : LeaseOk (w.proceed next) := by
  cases next with
  | wait =>
    exact ⟨fun h => by simp [AdaptiveWarmer.proceed, goWait, hs] at h,
      fun h => by simp [AdaptiveWarmer.proceed, goWait, hw] at h,
      fun h => absurd h (hnone _), fun h => (by cases h), fun h => (by cases h)⟩
  | start stream =>
    refine ⟨fun h => ?_, fun h => ⟨stream, rfl⟩, fun {t} h => ?_, fun h => (by cases h),
      fun h => (by cases h)⟩
    · exact ⟨w.tasks.length, ⟨stream, .running⟩, rfl, by simp [AdaptiveWarmer.proceed, goWait],
        Option.some.inj h⟩
    · obtain ⟨c, hc, hne⟩ := h
      rcases Table.getElem?_snoc hc with hold | ⟨rfl, -⟩
      · exact absurd ⟨c, hold, hne⟩ (hnone t)
      · exact .inl rfl
  | finish =>
    exact ⟨fun h => by simp [AdaptiveWarmer.proceed, hs] at h,
      fun h => by simp [AdaptiveWarmer.proceed, hw] at h,
      fun h => absurd h (hnone _), fun h => (by cases h), fun _ => hw⟩

theorem LeaseOk.stopWarmer (h : LeaseOk w) (hp : Phase.free w.phase = true) (next : Next) :
    LeaseOk (w.stopWarmer next) := by
  have honly {t : TaskId} (hu : w.Unfinished t) : w.warmer = some t := by
    rcases h.unfinished hu with hr | ⟨next, hn⟩
    · exact hr
    · rw [hn] at hp
      cases hp
  unfold AdaptiveWarmer.stopWarmer
  split
  · rename_i hnone
    refine LeaseOk.proceed (fun t hu => ?_) hnone rfl
    have hr := honly hu
    rw [hnone] at hr
    cases hr
  · rename_i t ht
    refine ⟨fun h => (by cases h), fun h => (by cases h), fun {u} hu => ?_, fun _ => ⟨rfl, rfl⟩,
      fun h => (by cases h)⟩
    have hut : u = t := by
      by_contra hne
      have hold : w.Unfinished u := by
        obtain ⟨c, hc, hstatus⟩ := hu
        refine ⟨c, ?_, hstatus⟩
        split at hc
        · exact (Table.getElem?_modify_ne hne).symm.trans hc
        · exact hc
      exact hne (Option.some.inj ((honly hold).symm.trans ht))
    exact .inr ⟨next, by rw [hut]⟩

theorem LeaseOk.polled (h : LeaseOk w) (hp : Phase.free w.phase = true)
    (hpoll : Polled lease w streams w') : LeaseOk w' := by
  have hext : LeaseOk { w with lastExternalAt := w.now } := h.frame hp hp rfl rfl rfl rfl
  cases hpoll with
  | switch => exact hext.stopWarmer hp _
  | revive => exact hext.stopWarmer hp _
  | hold => exact hext.frame hp rfl rfl rfl rfl rfl
  | restart => exact h.stopWarmer hp _
  | release => exact h.stopWarmer hp _
  | keep => exact h.frame hp rfl rfl rfl rfl rfl
  | quiet => exact h.frame hp rfl rfl rfl rfl rfl

theorem LeaseOk.setDone (h : LeaseOk w) (t : TaskId) : LeaseOk (w.setStatus t .done) where
  recorded hs := by
    obtain ⟨u, c, hu, hc, hstream⟩ := h.recorded hs
    by_cases hut : u = t
    · exact ⟨u, { c with status := .done }, hu, by subst hut; exact Table.getElem?_modify_self hc,
        hstream⟩
    · exact ⟨u, c, hu, (Table.getElem?_modify_ne hut).trans hc, hstream⟩
  held := h.held
  unfinished hu := by
    obtain ⟨c, hc, hne⟩ := hu
    rcases Table.getElem?_modify hc with ⟨-, hold⟩ | ⟨-, c', -, rfl⟩
    · exact h.unfinished ⟨c, hold, hne⟩
    · exact absurd rfl hne
  stopping := h.stopping
  finished := h.finished

/-- Nothing is unfinished once the task that was stopped is done. -/
theorem LeaseOk.none_unfinished (h : LeaseOk w) (hp : w.phase = .stopping t next)
    (hd : (w.tasks[t]?.all fun c => c.status = .done) = true) (u : TaskId) : ¬ w.Unfinished u := by
  rintro ⟨c, hc, hne⟩
  rcases h.unfinished ⟨c, hc, hne⟩ with hr | ⟨next', hn⟩
  · rw [(h.stopping hp).1] at hr
    cases hr
  · rw [hp] at hn
    cases hn
    rw [hc] at hd
    exact hne (by simpa using hd)

theorem LeaseOk.unfinished_unique {u : TaskId} (h : LeaseOk w) (ht : w.Unfinished t)
    (hu : w.Unfinished u) : t = u := by
  rcases h.unfinished ht with ht | ⟨next, ht⟩ <;> rcases h.unfinished hu with hu | ⟨next', hu⟩
  · exact Option.some.inj (ht.symm.trans hu)
  · rw [(h.stopping hu).1] at ht
    cases ht
  · rw [(h.stopping ht).1] at hu
    cases hu
  · rw [ht] at hu
    cases hu
    rfl

theorem LeaseOk.isSome_iff (h : LeaseOk w) : w.warmStream.isSome ↔ w.warmer.isSome := by
  simp only [Option.isSome_iff_exists]
  constructor
  · rintro ⟨stream, hs⟩
    obtain ⟨t, -, ht, -⟩ := h.recorded hs
    exact ⟨t, ht⟩
  · rintro ⟨t, ht⟩
    exact h.held ht

theorem LeaseOk.none_left (h : LeaseOk w) (hp : w.phase = .finished) :
    w.warmer = none ∧ ∀ t, ¬ w.Unfinished t := by
  refine ⟨h.finished hp, fun t hu => ?_⟩
  rcases h.unfinished hu with hr | ⟨next, hn⟩
  · rw [h.finished hp] at hr
    cases hr
  · rw [hp] at hn
    cases hn

theorem free_of_phase {p : Phase} (hp : w.phase = p) (h : Phase.free p = true) :
    Phase.free w.phase = true := by
  rw [hp]
  exact h

theorem LeaseOk.step (h : LeaseOk w) (hs : w.step lease l = some w') : LeaseOk w' := by
  cases step_stepped hs with
  | tick => exact ⟨h.recorded, h.held, h.unfinished, h.stopping, h.finished⟩
  | requestStop => exact ⟨h.recorded, h.held, h.unfinished, h.stopping, h.finished⟩
  | taskEnds => exact h.setDone _
  | finish hp => exact h.stopWarmer (free_of_phase hp rfl) _
  | preempt hp => exact h.stopWarmer (free_of_phase hp rfl) _
  | idle hp => exact h.frame (free_of_phase hp rfl) rfl rfl rfl rfl rfl
  | fetch hp => exact h.frame (p := .fetching) (free_of_phase hp rfl) rfl rfl rfl rfl rfl
  | failure hp => exact h.stopWarmer (free_of_phase hp rfl) _
  | polled hp _ hpoll => exact h.polled (free_of_phase hp rfl) hpoll
  | stopped hp hd =>
    exact LeaseOk.proceed (h.none_unfinished hp hd) (h.stopping hp).1 (h.stopping hp).2
  | woken hp => exact h.frame (p := .top) (free_of_phase hp rfl) rfl rfl rfl rfl rfl

theorem leaseOk_run {now : Int} {ls : List Label}
    (h : exec (AdaptiveWarmer.step lease) (init now) ls = some w) : LeaseOk w := by
  refine Machine.invariant (fun _ _ _ hi hs => hi.step hs) ?_ h
  exact ⟨fun h => (by cases h), fun h => (by cases h), fun ⟨_, h, _⟩ => (by cases h),
    fun h => (by cases h), fun h => (by cases h)⟩

-- ---------------------------------------------------------------------------
-- Moving and giving up
-- ---------------------------------------------------------------------------

theorem target_of_free (h : Phase.free w.phase = true) : w.target = w.warmStream :=
  target_of_phase fun t stream hp => by rw [hp] at h; cases h

/-- The labels at which `run` decides something. -/
def Label.decides : Label → Bool
  | .top _ | .fetched _ => true
  | _ => false

/-- Between two decisions the stream that is held, or about to be, stays. -/
theorem target_step (h : LeaseOk w) (hs : w.step lease l = some w')
    (hl : Label.decides l = false) : w'.target = w.target := by
  cases step_stepped hs with
  | tick => rfl
  | requestStop => rfl
  | taskEnds => rfl
  | finish | preempt | idle | fetch | failure | polled => cases hl
  | @stopped t next hp =>
    obtain ⟨-, hnone⟩ := h.stopping hp
    rw [target_proceed hnone]
    unfold AdaptiveWarmer.target
    rw [hp]
    cases next with
    | start stream => rfl
    | wait => exact hnone.symm
    | finish => exact hnone.symm
  | woken hp => exact (target_of_free (free_of_phase hp rfl)).symm

/-- The decisions of `run` that change the stream it holds, with the stream
after them. -/
inductive Changed (w : AdaptiveWarmer) : Label → Option Str → Prop
  | stop {preempted : Bool} : w.stopRequested = true → Changed w (.top preempted) none
  | preempt : Changed w (.top true) none
  | failure {payload : Option Json} : payload.bind streamsOf = none →
      Changed w (.fetched payload) none
  | release {payload : Option Json} {streams : Dict Str Json} :
      payload.bind streamsOf = some streams → w.Nobody streams → Changed w (.fetched payload) none
  | switch {payload : Option Json} {streams : Dict Str Json} {stream : Str} :
      payload.bind streamsOf = some streams →
      (∀ held, w.target = some held → ¬ Viewed (w.counts streams) held) →
      MostViewed (w.counts streams) stream → Changed w (.fetched payload) (some stream)

theorem changed_of_polled {payload : Option Json} (hp : w.phase = .fetching)
    (hpay : payload.bind streamsOf = some streams) (hpoll : Polled lease w streams w')
    (hne : w'.target ≠ w.target) : Changed w (.fetched payload) w'.target := by
  have htarget : w.target = w.warmStream := target_of_free (by rw [hp]; rfl)
  rw [htarget] at hne
  cases hpoll with
  | switch _ hheld hmost =>
    rw [startWarmer, target_stopWarmer]
    exact .switch hpay (htarget ▸ hheld) hmost
  | revive hw => exact absurd ((target_stopWarmer _ (.start _)).trans hw.symm) hne
  | hold => exact absurd rfl hne
  | restart hw => exact absurd ((target_stopWarmer _ (.start _)).trans hw.symm) hne
  | release _ hnobody =>
    rw [target_stopWarmer]
    exact .release hpay hnobody
  | keep => exact absurd rfl hne
  | quiet => exact absurd rfl hne

theorem target_changed (h : LeaseOk w) (hs : w.step lease l = some w')
    (hne : w'.target ≠ w.target) : Changed w l w'.target := by
  cases step_stepped hs with
  | finish _ hstop =>
    rw [target_stopWarmer]
    exact .stop hstop
  | preempt =>
    rw [target_stopWarmer]
    exact .preempt
  | idle hp => exact absurd (target_of_free (free_of_phase hp rfl)).symm hne
  | fetch hp => exact absurd (target_of_free (free_of_phase hp rfl)).symm hne
  | failure _ hpay =>
    rw [target_stopWarmer]
    exact .failure hpay
  | polled hp hpay hpoll => exact changed_of_polled hp hpay hpoll hne
  | tick | requestStop | taskEnds | stopped | woken => exact absurd (target_step h hs rfl) hne

theorem restartDue_of_polled (hpoll : Polled lease w streams w') (hw : w.warmStream = some stream)
    (hlost : w'.warmStream ≠ some stream) (ht : w'.target = some stream) :
    w.restartDue = true := by
  cases hpoll with
  | switch hne =>
    rw [startWarmer, target_stopWarmer] at ht
    cases ht
    exact absurd hw hne
  | revive _ _ hdue => exact hdue
  | hold => exact absurd hw hlost
  | restart _ _ hdue => exact hdue
  | release =>
    rw [target_stopWarmer] at ht
    cases ht
  | keep => exact absurd hw hlost
  | quiet => exact absurd hw hlost

/-- A step that lets go of the warm consumer and still holds its stream is a
poll that restarts it. -/
theorem restarted (h : LeaseOk w) (hs : w.step lease l = some w') (hw : w.warmStream = some stream)
    (hlost : w'.warmStream ≠ some stream) (ht : w'.target = some stream) :
    ∃ payload, l = .fetched payload ∧ w.restartDue = true := by
  cases step_stepped hs with
  | tick | requestStop | taskEnds | idle | fetch | woken => exact absurd hw hlost
  | finish | preempt | failure =>
    rw [target_stopWarmer] at ht
    cases ht
  | polled _ _ hpoll => exact ⟨_, rfl, restartDue_of_polled hpoll hw hlost ht⟩
  | stopped hp =>
    rw [(h.stopping hp).2] at hw
    cases hw

-- ---------------------------------------------------------------------------
-- Whole runs
-- ---------------------------------------------------------------------------

/-- No stop request, preempt hint or API failure, and every poll shows a viewer
of the stream. -/
def ShowsViewer (stream : Str) (w : AdaptiveWarmer) : Label → Prop
  | .top preempted => w.stopRequested = false ∧ preempted = false
  | .fetched payload =>
    ∃ streams, payload.bind streamsOf = some streams ∧ Viewed (w.counts streams) stream
  | _ => True

theorem target_shown (h : LeaseOk w) (hl : ShowsViewer stream w l)
    (ht : w.target = some stream) (hs : w.step lease l = some w') : w'.target = some stream := by
  by_contra hne
  have hchanged := target_changed h hs (ht ▸ hne)
  generalize w'.target = target at hchanged
  cases hchanged with
  | stop hstop =>
    rw [hl.1] at hstop
    cases hstop
  | preempt => cases hl.2
  | failure hpay =>
    obtain ⟨streams, hstreams, -⟩ := hl
    rw [hpay] at hstreams
    cases hstreams
  | release hpay hnobody =>
    obtain ⟨streams, hstreams, hv⟩ := hl
    rw [hpay] at hstreams
    cases hstreams
    exact hnobody _ hv
  | switch hpay hheld =>
    obtain ⟨streams, hstreams, hv⟩ := hl
    rw [hpay] at hstreams
    cases hstreams
    exact hheld stream ht hv

theorem target_moved {old new : Str} (h : LeaseOk w) (hs : w.step lease l = some w')
    (hold : w.target = some old) (hnew : w'.target = some new) (hne : new ≠ old) :
    ∃ payload streams, l = .fetched payload ∧ payload.bind streamsOf = some streams ∧
      ¬ Viewed (w.counts streams) old ∧ MostViewed (w.counts streams) new := by
  have hchanged := target_changed h hs fun heq =>
    hne (Option.some.inj (hnew.symm.trans (heq.trans hold)))
  rw [hnew] at hchanged
  cases hchanged with
  | switch hpay hheld hmost => exact ⟨_, _, rfl, hpay, hheld old hold, hmost⟩

theorem one_lease {now : Int} {ls : List Label}
    (h : exec (AdaptiveWarmer.step lease) (init now) ls = some w) :
    (∀ t u, w.Unfinished t → w.Unfinished u → t = u) ∧
      (w.warmStream.isSome ↔ w.warmer.isSome) ∧
      (w.phase = .finished → w.warmer = none ∧ ∀ t, ¬ w.Unfinished t) ∧
      (∀ l w' old new, w.step lease l = some w' → w.target = some old → w'.target = some new →
        new ≠ old → ∃ payload streams, l = .fetched payload ∧
          payload.bind streamsOf = some streams ∧ ¬ Viewed (w.counts streams) old ∧
            MostViewed (w.counts streams) new) ∧
      (∀ stream ms w', w.target = some stream →
        Machine.Along (AdaptiveWarmer.step lease) (ShowsViewer stream) w ms →
          exec (AdaptiveWarmer.step lease) w ms = some w' → w'.target = some stream) ∧
      ∀ stream l w', w.step lease l = some w' → w.warmStream = some stream →
        w'.target = some stream → w'.warmStream ≠ some stream →
          ∃ payload, l = .fetched payload ∧ w.restartDue = true := by
  have hok := leaseOk_run h
  refine ⟨fun t u => hok.unfinished_unique, hok.isSome_iff, hok.none_left,
    fun l w' old new hs hold hnew hne => target_moved hok hs hold hnew hne,
    fun stream ms w' ht hshown hms => ?_, fun stream l w' hs hw ht hlost =>
      restarted hok hs hw hlost ht⟩
  have hinv := Machine.invariant_along (I := fun v => LeaseOk v ∧ v.target = some stream)
    (fun v l v' hl hi hs => ⟨hi.1.step hs, target_shown hi.1 hl hi.2 hs⟩) hshown ⟨hok, ht⟩ hms
  exact hinv.2

/-- A viewer of the shed that stays for two polls. -/
def viewedTwice : List Label :=
  [.top false, .fetched (some (listing (lit "eufy_shed") [lit "rtsp"])),
    .tick (milliseconds 200), .woken, .top false,
    .fetched (some (listing (lit "eufy_shed") [lit "rtsp", lit "mpegts"]))]

theorem one_lease_viewed : ∃ w, exec (AdaptiveWarmer.step 30) (init (seconds 10)) viewedTwice =
    some w ∧ w.warmStream = some (lit "eufy_shed") ∧ w.warmer.isSome ∧
      ∀ t u, w.Unfinished t → w.Unfinished u → t = u := by
  obtain ⟨w, hw, hs⟩ : ∃ w, exec (AdaptiveWarmer.step 30) (init (seconds 10)) viewedTwice =
      some w ∧ w.warmStream = some (lit "eufy_shed") := by
    apply Machine.exec_of_check
    decide +kernel
  have hlease := one_lease hw
  exact ⟨w, hw, hs, hlease.2.1.mp (by rw [hs]; rfl), hlease.1⟩

end AdaptiveWarmer

end EufyNvr.Warmer
