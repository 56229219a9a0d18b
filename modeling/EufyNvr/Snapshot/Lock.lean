import EufyNvr.Snapshot.Steps

/-!
# The lock of the cache

The lock is held by a task exactly while the capture of that task runs or
unwinds, in every state a run reaches. So two captures never overlap, and a
cache with no capture in progress has a free lock.
-/

namespace EufyNvr.Snapshot

/-- The capture of the task runs, or unwinds after a cancellation. -/
def Phase.holds : Phase → Bool
  | .capturing .. | .unwinding _ => true
  | _ => false

namespace World

variable {κ : Type} {cfg : Limits} {w v : World κ} {l : Label κ}

def holding (w : World κ) (t : TaskId) : Bool := w.tasks[t]?.any fun task => task.phase.holds

def LockOk (w : World κ) : Prop := ∀ t, w.holder = some t ↔ w.holding t = true

theorem holding_of {t : TaskId} {task : Task κ} (ht : w.tasks[t]? = some task) :
    w.holding t = task.phase.holds := by simp [holding, ht]

theorem holding_setPhase (w : World κ) (t u : TaskId) (p : Phase) :
    (w.setPhase t p).holding u = if u = t then w.tasks[t]?.any fun _ => p.holds else w.holding u := by
  simp only [holding, tasks_setPhase]
  by_cases h : u = t
  · subst h; cases w.tasks[u]? <;> simp
  · simp [h]

theorem holding_spawn (w : World κ) (task : Task κ) (u : TaskId) (hp : task.phase.holds = false) :
    (w.spawn task).holding u = w.holding u := by
  simp only [holding, tasks_spawn]
  by_cases h : u = w.tasks.length
  · subst h; simp [hp]
  · simp [h]

theorem holds_cancelled (task : Task κ) : (cancelled task).phase.holds = task.phase.holds := by
  obtain ⟨kind, key, phase⟩ := task
  cases kind <;> cases phase <;> rfl

theorem holding_cancelled {t : TaskId} {c : Prop} [Decidable c]
    (h : v.tasks[t]? = if c then w.tasks[t]?.map cancelled else w.tasks[t]?) :
    v.holding t = w.holding t := by
  simp only [holding, h]
  split
  · cases w.tasks[t]? <;> simp [holds_cancelled]
  · rfl

-- ---------------------------------------------------------------------------
-- The invariant under the updates
-- ---------------------------------------------------------------------------

theorem LockOk.congr (h : LockOk w) (hh : v.holder = w.holder)
    (ht : ∀ t, v.holding t = w.holding t) : LockOk v := by
  intro t
  rw [hh, ht]
  exact h t

theorem LockOk.spawn {task : Task κ} (h : LockOk w) (hp : task.phase.holds = false) :
    LockOk (w.spawn task) := h.congr rfl fun t => holding_spawn w task t hp

/-- A task that stays on its side of the lock. -/
theorem LockOk.setPhase {t : TaskId} {p : Phase} (h : LockOk w) (hp : p.holds = w.holding t) :
    LockOk (w.setPhase t p) := by
  refine h.congr rfl fun u => ?_
  rw [holding_setPhase]
  by_cases hu : u = t
  · subst hu
    rw [if_pos rfl, hp, holding]
    cases w.tasks[u]? <;> simp
  · rw [if_neg hu]

/-- The holder leaves the lock. -/
theorem LockOk.leave {t : TaskId} {p : Phase} (h : LockOk w) (ht : w.holding t = true)
    (hp : p.holds = false) : LockOk (w.release.setPhase t p) := by
  intro u
  have hw : w.holder = some t := (h t).mpr ht
  rw [holding_setPhase]
  by_cases hu : u = t
  · cases w.tasks[t]? <;> simp [hu, hp]
  · have hn : ¬ w.holding u = true := fun hu' =>
      hu (Option.some.inj (((h u).mpr hu').symm.trans hw))
    simpa [hu, holding] using hn

theorem LockOk.unique {t u : TaskId} (h : LockOk w) (ht : w.holding t = true)
    (hu : w.holding u = true) : t = u :=
  Option.some.inj (((h t).mpr ht).symm.trans ((h u).mpr hu))

theorem LockOk.free (h : LockOk w) : w.holder = none ↔ ∀ t, w.holding t = false := by
  constructor
  · intro hn t
    by_contra ht
    rw [Bool.not_eq_false] at ht
    rw [(h t).mpr ht] at hn
    cases hn
  · intro hf
    cases hw : w.holder with
    | none => rfl
    | some t =>
      have ht := (h t).mp hw
      rw [hf t] at ht
      cases ht

theorem LockOk.cancelTask (h : LockOk w) (t : TaskId) : LockOk (w.cancelTask t) :=
  h.congr (cancelTask_frame w t).2.2.2.1 fun u => holding_cancelled (tasks_cancelTask w t u)

theorem LockOk.clear (h : LockOk w) : LockOk w.clear :=
  h.congr (clear_frame w).2.2.2.1 fun u => holding_cancelled (tasks_clear w u)

theorem lockOk_init (now : Int) : LockOk (init (κ := κ) now) := by
  intro t
  simp [init, holding]

variable [DecidableEq κ]

theorem LockOk.discard (h : LockOk w) (key : κ) : LockOk (w.discard key) :=
  h.congr (discard_frame w key).2.2.1 fun u => holding_cancelled (tasks_discard w key u)

theorem LockOk.cached {key : κ} {hit : Bool} {image : Option Bytes} (h : LockOk w)
    (hc : Cached w key v hit image) : LockOk v := by
  cases hc with
  | fresh => exact h
  | stale =>
    unfold startRefresh
    split
    · exact h
    · exact LockOk.spawn (w := w) h rfl
  | miss => exact h

/-- A task takes the free lock. -/
theorem LockOk.enter {t : TaskId} {task : Task κ} {key : κ} {due : Int} (h : LockOk w)
    (hw : w.holder = none) (ht : w.tasks[t]? = some task) : LockOk (w.beginCapture t key due) := by
  intro u
  have hn := h.free.mp hw u
  have hb : (w.beginCapture t key due).holding u =
      (w.setPhase t (.capturing due w.now (w.cache.get? key))).holding u := rfl
  rw [hb, holding_setPhase, beginCapture_holder]
  by_cases hu : u = t
  · simp [hu, ht, Phase.holds]
  · simp [hu, hn, Ne.symm hu]

-- ---------------------------------------------------------------------------
-- Steps and runs
-- ---------------------------------------------------------------------------

theorem LockOk.move (h : LockOk w) (hm : Move cfg w l v) : LockOk v := by
  cases hm with
  | tick => exact h
  | hit hc => exact (h.cached hc).spawn rfl
  | miss hc => exact (h.cached hc).spawn rfl
  | start ht => exact LockOk.setPhase (w := w.enqueue _) h (holding_of ht).symm
  | lockHit hw ht hc =>
    exact LockOk.setPhase (p := .returned _) (LockOk.cached (w := w.popQueue) h hc)
      (holding_of (hc.task ht)).symm
  | lockMiss hw ht hc =>
    exact (LockOk.cached (w := w.popQueue) h hc).enter (hc.holder.trans hw) (hc.task ht)
  | refreshSkip hw => exact LockOk.setPhase (w := w.popQueue) h (h.free.mp hw _).symm
  | refreshCapture hw ht => exact LockOk.enter (w := w.popQueue) h hw ht
  | cool hw =>
    exact LockOk.setPhase (w := w.popQueue) (p := .finished) h (h.free.mp hw _).symm
  | fallback ht => exact h.leave (p := .returned _) (holding_of ht) rfl
  | captureRaised ht => exact h.leave (p := .raised) (holding_of ht) rfl
  | captured ht => exact h.leave (p := .returned _) (holding_of ht) rfl
  | refreshFailed ht => exact h.leave (p := .finished) (holding_of ht) rfl
  | refreshed ht => exact h.leave (p := .finished) (holding_of ht) rfl
  | expireGet ht => exact LockOk.setPhase (w := w.leaveQueue _) h (holding_of ht).symm
  | expireRefresh ht =>
    exact LockOk.setPhase (w := (w.leaveQueue _).enqueue _) h (holding_of ht).symm
  | expireCapture ht => exact h.setPhase (holding_of ht).symm
  | cancel => exact h.cancelTask _
  | unwindGet ht => exact h.leave (holding_of ht) rfl
  | unwindCool ht => exact h.leave (p := .cooling) (holding_of ht) rfl
  | unwindRefresh ht => exact h.leave (holding_of ht) rfl
  | forget ht =>
    unfold refreshDone
    split
    · exact LockOk.setPhase (w := { w with refreshTasks := _ }) h (holding_of ht).symm
    · exact h.setPhase (holding_of ht).symm
  | discard => exact h.discard _
  | clear => exact h.clear

theorem lockOk_run {now : Int} {ls : List (Label κ)}
    (h : Machine.exec (step cfg) (init now) ls = some w) : LockOk w :=
  Machine.invariant (fun _ _ _ hi hs => hi.move (step_move hs)) (lockOk_init now) h

end World

end EufyNvr.Snapshot
