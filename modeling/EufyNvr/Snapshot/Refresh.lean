import EufyNvr.Snapshot.Steps

/-!
# The refresh registry

`_refresh_tasks` maps a key to its refresh task. In every state a run
reaches, a registered task is a refresh of its key that has not been
forgotten, and every refresh that may still write is registered. A done
callback removes its own task from the registry and nothing else.
-/

namespace EufyNvr.Snapshot

/-- A refresh that may still write: neither cancelled nor done. -/
def Phase.live : Phase → Bool
  | .scheduled | .waiting _ | .capturing .. | .unwinding .deadline | .cooling => true
  | _ => false

namespace World

variable {κ : Type} [DecidableEq κ] {cfg : Limits} {w v : World κ} {l : Label κ}

structure RegistryOk (w : World κ) : Prop where
  known : ∀ {key t}, w.refreshTasks.get? key = some t →
    ∃ p, w.tasks[t]? = some ⟨.refresh, key, p⟩ ∧ p ≠ .forgotten
  live : ∀ {key t p}, w.tasks[t]? = some ⟨.refresh, key, p⟩ → p.live = true →
    w.refreshTasks.get? key = some t

omit [DecidableEq κ] in
theorem lt_of_getElem? {t : TaskId} {task : Task κ} (h : w.tasks[t]? = some task) :
    t < w.tasks.length := (List.getElem?_eq_some_iff.mp h).1

/-- Two refreshes of one key that may still write are one task. -/
theorem RegistryOk.unique {key : κ} {t u : TaskId} {p q : Phase} (h : RegistryOk w)
    (ht : w.tasks[t]? = some ⟨.refresh, key, p⟩) (hp : p.live = true)
    (hu : w.tasks[u]? = some ⟨.refresh, key, q⟩) (hq : q.live = true) : t = u :=
  Option.some.inj ((h.live ht hp).symm.trans (h.live hu hq))

theorem refreshTasks_refreshDone (w : World κ) (key k : κ) (t u : TaskId) :
    (w.refreshDone key t).refreshTasks.get? k = some u ↔
      w.refreshTasks.get? k = some u ∧ ¬(k = key ∧ u = t) := by
  unfold refreshDone
  split
  · rename_i ht
    rw [Dict.get?_erase]
    by_cases hk : k = key
    · subst hk
      simp [ht, eq_comm]
    · simp [hk]
  · rename_i ht
    refine ⟨fun hu => ⟨hu, ?_⟩, And.left⟩
    rintro ⟨rfl, rfl⟩
    exact ht hu

-- ---------------------------------------------------------------------------
-- The invariant under the updates
-- ---------------------------------------------------------------------------

theorem RegistryOk.setPhase {t : TaskId} {task : Task κ} {p : Phase} (h : RegistryOk w)
    (ht : w.tasks[t]? = some task) (hp : p ≠ .forgotten)
    (hl : task.kind = .refresh → p.live = true → task.phase.live = true) :
    RegistryOk (w.setPhase t p) where
  known {key u} hu := by
    obtain ⟨q, hq, hn⟩ := h.known hu
    rw [tasks_setPhase]
    by_cases hut : u = t
    · exact ⟨p, by subst hut; simp [hq], hp⟩
    · exact ⟨q, by simp [hut, hq], hn⟩
  live {key u q} hu hq := by
    rw [tasks_setPhase] at hu
    by_cases hut : u = t
    · subst hut
      obtain ⟨kind, k, ph⟩ := task
      simp only [if_true, ht, Option.map_some, Option.some.injEq, Task.mk.injEq] at hu
      obtain ⟨rfl, rfl, rfl⟩ := hu
      exact h.live ht (hl rfl hq)
    · rw [if_neg hut] at hu
      exact h.live hu hq

theorem RegistryOk.spawnGet {key : κ} {p : Phase} (h : RegistryOk w) :
    RegistryOk (w.spawn ⟨.get, key, p⟩) where
  known {k u} hu := by
    obtain ⟨q, hq, hn⟩ := h.known hu
    exact ⟨q, by rw [tasks_spawn, if_neg (Nat.ne_of_lt (lt_of_getElem? hq)), hq], hn⟩
  live {k u q} hu hq := by
    rw [tasks_spawn] at hu
    split at hu
    · cases hu
    · exact h.live hu hq

theorem RegistryOk.startRefresh (h : RegistryOk w) (key : κ) : RegistryOk (w.startRefresh key) := by
  unfold World.startRefresh
  split
  · exact h
  · rename_i hn
    rw [Bool.not_eq_true, Option.isSome_eq_false_iff, Option.isNone_iff_eq_none] at hn
    constructor
    · intro k u hu
      rw [Dict.get?_set] at hu
      change ∃ p, (w.spawn _).tasks[u]? = _ ∧ _
      rw [tasks_spawn]
      split at hu
      · rename_i hk
        cases hu
        exact ⟨.scheduled, by simp [hk], by simp⟩
      · obtain ⟨q, hq, hf⟩ := h.known hu
        exact ⟨q, by rw [if_neg (Nat.ne_of_lt (lt_of_getElem? hq)), hq], hf⟩
    · intro k u q hu hq
      change (w.spawn _).tasks[u]? = _ at hu
      rw [tasks_spawn] at hu
      rw [Dict.get?_set]
      split at hu
      · rename_i hu'
        cases hu
        simp [hu']
      · have hk := h.live hu hq
        rw [if_neg, hk]
        rintro rfl
        rw [hn] at hk
        cases hk

theorem RegistryOk.cached {key : κ} {hit : Bool} {image : Option Bytes} (h : RegistryOk w)
    (hc : Cached w key v hit image) : RegistryOk v := by
  cases hc with
  | fresh => exact ⟨h.known, h.live⟩
  | stale => exact RegistryOk.startRefresh (w := w.sweep.touch key) ⟨h.known, h.live⟩ key
  | miss => exact ⟨h.known, h.live⟩

omit [DecidableEq κ] in
theorem not_live_cancelled {task : Task κ} {key : κ} {p : Phase}
    (h : cancelled task = ⟨.refresh, key, p⟩) : p.live = false := by
  obtain ⟨kind, k, phase⟩ := task
  cases kind <;> cases phase <;> cases h <;> rfl

omit [DecidableEq κ] in
theorem cancelled_refresh (key : κ) {p : Phase} (hp : p ≠ .forgotten) :
    ∃ q, cancelled ⟨.refresh, key, p⟩ = ⟨.refresh, key, q⟩ ∧ q ≠ .forgotten := by
  refine ⟨_, rfl, ?_⟩
  cases p <;> simp_all [cancelledPhase]

/-- Cancelling tasks and unregistering at least the keys of none but them. -/
theorem RegistryOk.cancel {c : TaskId → Prop} [DecidablePred c] (h : RegistryOk w)
    (ht : ∀ t, v.tasks[t]? = if c t then w.tasks[t]?.map cancelled else w.tasks[t]?)
    (hr : ∀ {key t}, v.refreshTasks.get? key = some t → w.refreshTasks.get? key = some t)
    (hc : ∀ {key t}, w.refreshTasks.get? key = some t → ¬ c t → v.refreshTasks.get? key = some t) :
    RegistryOk v where
  known {key t} hk := by
    obtain ⟨p, hp, hn⟩ := h.known (hr hk)
    rw [ht, hp]
    split
    · obtain ⟨q, hq, hqn⟩ := cancelled_refresh key hn
      exact ⟨q, by simp [hq], hqn⟩
    · exact ⟨p, rfl, hn⟩
  live {key t p} hk hp := by
    rw [ht] at hk
    split at hk
    · obtain ⟨task, -, htask⟩ := Option.map_eq_some_iff.mp hk
      rw [not_live_cancelled htask] at hp
      cases hp
    · exact hc (h.live hk hp) ‹_›

theorem RegistryOk.cancelTask (h : RegistryOk w) (t : TaskId) : RegistryOk (w.cancelTask t) := by
  refine h.cancel (c := (· = t)) (tasks_cancelTask w t) ?_ ?_
  · intro key u hu
    rwa [(cancelTask_frame w t).2.2.1] at hu
  · intro key u hu _
    rwa [(cancelTask_frame w t).2.2.1]

theorem RegistryOk.discard (h : RegistryOk w) (key : κ) : RegistryOk (w.discard key) := by
  refine h.cancel (c := fun t => w.refreshTasks.get? key = some t) (tasks_discard w key) ?_ ?_
  · intro k t hk
    rw [refreshTasks_discard] at hk
    split at hk
    · cases hk
    · exact hk
  · intro k t hk hc
    rw [refreshTasks_discard, if_neg, hk]
    rintro rfl
    exact hc hk

theorem RegistryOk.clear (h : RegistryOk w) : RegistryOk w.clear := by
  refine h.cancel (c := (· ∈ w.refreshTasks.items.map Prod.snd)) (tasks_clear w) ?_ ?_
  · intro key t hk
    rw [(clear_frame w).2.2.1] at hk
    cases hk
  · intro key t hk hc
    exact absurd (List.mem_map.mpr ⟨_, Dict.get?_eq_some.mp hk, rfl⟩) hc

theorem RegistryOk.forget {key : κ} {t : TaskId} (h : RegistryOk w)
    (ht : w.tasks[t]? = some ⟨.refresh, key, .finished⟩) :
    RegistryOk ((w.refreshDone key t).setPhase t .forgotten) := by
  have htasks : (w.refreshDone key t).tasks = w.tasks := by unfold refreshDone; split <;> rfl
  constructor
  · intro k u hu
    obtain ⟨hu, hne⟩ := (refreshTasks_refreshDone w key k t u).mp hu
    obtain ⟨q, hq, hf⟩ := h.known hu
    have hut : u ≠ t := by
      rintro rfl
      rw [ht] at hq
      cases hq
      exact hne ⟨rfl, rfl⟩
    exact ⟨q, by rw [tasks_setPhase, if_neg hut, htasks, hq], hf⟩
  · intro k u q hu hq
    rw [tasks_setPhase, htasks] at hu
    split at hu
    · rename_i hut
      rw [hut, ht] at hu
      cases hu
      cases hq
    · rename_i hut
      exact (refreshTasks_refreshDone w key k t u).mpr ⟨h.live hu hq, fun hc => hut hc.2⟩

-- ---------------------------------------------------------------------------
-- Steps and runs
-- ---------------------------------------------------------------------------

theorem RegistryOk.move (h : RegistryOk w) (hm : Move cfg w l v) : RegistryOk v := by
  -- `of` carries the invariant over updates of the other fields.
  have of {x y : World κ} (hx : RegistryOk x) (hr : y.refreshTasks = x.refreshTasks)
      (ht : y.tasks = x.tasks) : RegistryOk y :=
    ⟨fun {key t} => by rw [hr, ht]; exact hx.known, fun {key t p} => by rw [hr, ht]; exact hx.live⟩
  cases hm with
  | tick => exact of h rfl rfl
  | hit hc => exact of (h.cached hc).spawnGet rfl rfl
  | miss hc => exact of (h.cached hc).spawnGet rfl rfl
  | start ht =>
    exact RegistryOk.setPhase (w := w.enqueue _) (of h rfl rfl) ht (by simp) fun _ _ => rfl
  | lockHit hw ht hc =>
    have hc' := RegistryOk.cached (w := w.popQueue) (of h rfl rfl) hc
    exact of (hc'.setPhase (p := .returned _) (hc.task ht) (by simp) (by simp)) rfl rfl
  | lockMiss hw ht hc =>
    have hc' := RegistryOk.cached (w := w.popQueue) (of h rfl rfl) hc
    exact of (hc'.setPhase (p := .capturing _ _ _) (hc.task ht) (by simp) (by simp)) rfl rfl
  | refreshSkip hw ht =>
    exact RegistryOk.setPhase (w := w.popQueue) (of h rfl rfl) ht (by simp) (by simp [Phase.live])
  | refreshCapture hw ht =>
    exact of (h.setPhase (p := .capturing _ _ _) ht (by simp) fun _ _ => rfl) rfl rfl
  | cool hw ht =>
    exact of (h.setPhase (p := .finished) ht (by simp) (by simp [Phase.live])) rfl rfl
  | fallback ht => exact of (h.setPhase (p := .returned _) ht (by simp) (by simp)) rfl rfl
  | captureRaised ht => exact of (h.setPhase (p := .raised) ht (by simp) (by simp)) rfl rfl
  | captured ht => exact of (h.setPhase (p := .returned _) ht (by simp) (by simp)) rfl rfl
  | refreshFailed ht =>
    exact of (h.setPhase (p := .finished) ht (by simp) (by simp [Phase.live])) rfl rfl
  | refreshed ht =>
    exact of (h.setPhase (p := .finished) ht (by simp) (by simp [Phase.live])) rfl rfl
  | expireGet ht => exact of (h.setPhase (p := .ended _) ht (by simp) (by simp)) rfl rfl
  | expireRefresh ht => exact of (h.setPhase (p := .cooling) ht (by simp) fun _ _ => rfl) rfl rfl
  | expireCapture ht => exact h.setPhase ht (by simp) fun _ _ => rfl
  | cancel => exact h.cancelTask _
  | unwindGet ht => exact of (h.setPhase (p := .ended _) ht (by simp) (by simp)) rfl rfl
  | unwindCool ht => exact of (h.setPhase (p := .cooling) ht (by simp) fun _ _ => rfl) rfl rfl
  | unwindRefresh ht =>
    exact of (h.setPhase (p := .finished) ht (by simp) (by simp [Phase.live])) rfl rfl
  | forget ht => exact h.forget ht
  | discard => exact of (h.discard _) rfl rfl
  | clear => exact of h.clear rfl rfl

theorem registryOk_run {now : Int} {ls : List (Label κ)}
    (h : Machine.exec (step cfg) (init now) ls = some w) : RegistryOk w := by
  refine Machine.invariant (fun _ _ _ hi hs => hi.move (step_move hs)) ?_ h
  exact ⟨fun h => by simp [init] at h, fun h => by simp [init] at h⟩

/-- A done callback keeps the registration of every other task. -/
theorem registered_of_doneCallback {t u : TaskId} {key : κ}
    (h : step cfg w (.doneCallback t) = some v) (hu : u ≠ t)
    (hr : w.refreshTasks.get? key = some u) : v.refreshTasks.get? key = some u := by
  cases step_move h with
  | forget ht => exact (refreshTasks_refreshDone w _ key t u).mpr ⟨hr, fun hc => hu hc.2⟩

end World

end EufyNvr.Snapshot
