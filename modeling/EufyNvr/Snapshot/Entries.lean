import EufyNvr.Snapshot.Lock

/-!
# What a step does to one entry

`Move` says what a step does to the whole cache. Here it is read for one
key: where an entry found after the step comes from (`Move.written`), how an
entry can be lost (`Move.lost`), when a task found capturing began
(`Move.capturing`), and where the answer of a call comes from
(`Move.returned`).
-/

namespace EufyNvr.Snapshot.World

variable {κ : Type} [DecidableEq κ] {cfg : Limits} {w v : World κ} {l : Label κ} {key : κ}
  {e : Entry}

theorem Cached.get? {k : κ} {hit : Bool} {image : Option Bytes} (hc : Cached w key v hit image) :
    v.cache.get? k = some e ↔ w.cache.get? k = some e ∧ w.now < e.staleUntil := by
  have htouch : (w.sweep.touch key).cache.get? k = some e ↔
      w.cache.get? k = some e ∧ w.now < e.staleUntil := by
    rw [touch, Dict.get?_moveToEnd, get?_sweep]
  cases hc with
  | fresh => exact htouch
  | stale =>
    have hs : ((w.sweep.touch key).startRefresh key).cache = (w.sweep.touch key).cache := by
      unfold startRefresh
      split <;> rfl
    rw [hs, htouch]
  | miss => exact get?_sweep

theorem Move.now_le (hm : Move cfg w l v) : w.now ≤ v.now := by
  cases hm with
  | tick hd => simpa using hd
  | hit hc => exact hc.now.ge
  | miss hc => exact hc.now.ge
  | lockHit hw ht hc => exact hc.now.ge
  | lockMiss hw ht hc => exact hc.now.ge
  | cancel => exact (cancelTask_frame w _).1.ge
  | forget => unfold refreshDone; split <;> exact le_rfl
  | discard => exact (discard_frame w _).1.ge
  | clear => exact (clear_frame w).1.ge
  | _ => exact le_rfl

-- ---------------------------------------------------------------------------
-- Where an entry comes from
-- ---------------------------------------------------------------------------

/-- The sources of an entry of `key` found after a step by `l`. -/
inductive Written (cfg : Limits) (w : World κ) (key : κ) : Label κ → Entry → Prop
  | kept {l : Label κ} {e : Entry} : w.cache.get? key = some e → Written cfg w key l e
  | cooled {t : TaskId} {e : Entry} : w.holder = none →
      w.tasks[t]? = some ⟨.refresh, key, .cooling⟩ → w.cache.get? key = some e →
      w.now < e.staleUntil →
      Written cfg w key (.acquire t) ⟨w.now + cfg.failureTtl, e.staleUntil, e.image⟩
  | retained {t : TaskId} {kind : Kind} {due now : Int} {e : Entry} {o : Outcome} :
      w.tasks[t]? = some ⟨kind, key, .capturing due now (some e)⟩ →
      Written cfg w key (.capture t o) ⟨now + cfg.failureTtl, e.staleUntil, e.image⟩
  | remembered {t : TaskId} {kind : Kind} {due now : Int} {stale : Option Entry} {o : Outcome}
      {image : Option Bytes} :
      w.tasks[t]? = some ⟨kind, key, .capturing due now stale⟩ →
      (kind = .get ∧ image = none) ∨ o = .image image →
      Written cfg w key (.capture t o) (remembered cfg w.now image)

theorem get?_remember_self (cfg : Limits) (w : World κ) (t : TaskId) (image : Option Bytes) :
    (remember cfg w t key image).cache.get? key = some (World.remembered cfg w.now image) := by
  refine Dict.get?_popDownTo_last cfg.maxEntries_pos (Dict.getLast?_moveToEnd ?_)
  rw [Dict.get?_set, if_pos rfl]

theorem get?_of_coolDown {k : κ} {now : Int} {e' : Entry}
    (h : (coolDown cfg w k now e').cache.get? key = some e) :
    (key = k ∧ e = ⟨now + cfg.failureTtl, e'.staleUntil, e'.image⟩) ∨
      w.cache.get? key = some e := by
  rw [get?_coolDown] at h
  split at h
  · exact .inl ⟨‹_›, (Option.some.inj h).symm⟩
  · exact .inr h

theorem Move.written (hm : Move cfg w l v) (he : v.cache.get? key = some e) :
    Written cfg w key l e := by
  cases hm with
  | hit hc => exact .kept (hc.get?.mp he).1
  | miss hc => exact .kept (hc.get?.mp he).1
  | lockHit hw ht hc => exact .kept (hc.get?.mp he).1
  | lockMiss hw ht hc => exact .kept (hc.get?.mp he).1
  | cool hw ht hk hs =>
    rw [setPhase_cache] at he
    rcases get?_of_coolDown he with ⟨rfl, rfl⟩ | hk'
    · exact .cooled hw ht hk hs
    · exact .kept hk'
  | fallback ht =>
    rw [giveBack_cache] at he
    rcases get?_of_coolDown he with ⟨rfl, rfl⟩ | hk
    · exact .retained ht
    · exact .kept hk
  | captureRaised ht =>
    rw [setPhase_cache] at he
    rcases get?_of_remember he with ⟨rfl, rfl⟩ | hk
    · exact .remembered ht (.inl ⟨rfl, rfl⟩)
    · exact .kept hk
  | captured ht =>
    rw [giveBack_cache] at he
    rcases get?_of_remember he with ⟨rfl, rfl⟩ | hk
    · exact .remembered ht (.inr rfl)
    · exact .kept hk
  | refreshFailed ht =>
    rw [setPhase_cache] at he
    rcases get?_of_coolDown he with ⟨rfl, rfl⟩ | hk
    · exact .retained ht
    · exact .kept hk
  | refreshed ht =>
    rw [setPhase_cache] at he
    rcases get?_of_remember he with ⟨rfl, rfl⟩ | hk
    · exact .remembered ht (.inr rfl)
    · exact .kept hk
  | cancel => exact .kept ((cancelTask_frame w _).2.1 ▸ he)
  | forget => exact .kept (by unfold refreshDone at he; split at he <;> exact he)
  | discard =>
    rw [record_cache, (discard_frame w _).2.1, Dict.get?_erase] at he
    split at he
    · cases he
    · exact .kept he
  | clear =>
    rw [record_cache, (clear_frame w).2.1] at he
    cases he
  | _ => exact .kept he

-- ---------------------------------------------------------------------------
-- How an entry is lost
-- ---------------------------------------------------------------------------

/-- The capture step drops the entry of `key` to keep the size limit. -/
def evicts (cfg : Limits) (w : World κ) (key : κ) : Label κ → Bool
  | .capture t o =>
    (w.cache.get? key).isSome && (step cfg w (.capture t o)).any fun v => (v.cache.get? key).isNone
  | _ => false

/-- The steps after which `key` may have lost an entry that had not run out. -/
def Removes (cfg : Limits) (key : κ) (w : World κ) (l : Label κ) : Prop :=
  l = .discard key ∨ l = .clear ∨ evicts cfg w key l = true

instance (cfg : Limits) (key : κ) (w : World κ) (l : Label κ) : Decidable (Removes cfg key w l) :=
  inferInstanceAs (Decidable (_ ∨ _ ∨ _))

theorem Move.lost (hm : Move cfg w l v) (hs : step cfg w l = some v)
    (he : w.cache.get? key = some e) (hn : v.cache.get? key = none) :
    e.staleUntil ≤ w.now ∨ Removes cfg key w l := by
  have swept {x y : World κ} {k : κ} {hit : Bool} {image : Option Bytes}
      (hc : Cached y k x hit image) (hy : y.cache = w.cache) (hx : x.cache.get? key = none) :
      e.staleUntil ≤ y.now := by
    by_contra hl
    rw [hc.get?.mpr ⟨hy ▸ he, not_le.mp hl⟩] at hx
    cases hx
  have gone {x : World κ} (hx : x.cache = w.cache) (hn : x.cache.get? key = none) : False := by
    rw [hx, he] at hn
    cases hn
  have evicted {t : TaskId} {o : Outcome} (hl : l = .capture t o) : Removes cfg key w l := by
    subst hl
    exact .inr (.inr (by simp [evicts, he, hs, hn]))
  cases hm with
  | hit hc => exact .inl (swept hc rfl hn)
  | miss hc => exact .inl (swept hc rfl hn)
  | lockHit hw ht hc => exact .inl (swept (y := w.popQueue) hc rfl hn)
  | lockMiss hw ht hc => exact .inl (swept (y := w.popQueue) hc rfl hn)
  | cool hw ht hk hs =>
    rw [setPhase_cache, get?_coolDown] at hn
    split at hn
    · cases hn
    · exact (gone rfl hn).elim
  | fallback | captureRaised | captured | refreshFailed | refreshed => exact .inr (evicted rfl)
  | cancel => exact (gone (cancelTask_frame w _).2.1 hn).elim
  | forget => exact (gone (by unfold refreshDone; split <;> rfl) hn).elim
  | @discard k =>
    rw [record_cache, (discard_frame w k).2.1, Dict.get?_erase, he] at hn
    split at hn
    · rename_i hk
      exact .inr (.inl (by rw [hk]))
    · cases hn
  | clear => exact .inr (.inr (.inl rfl))
  | _ => exact (gone rfl hn).elim

-- ---------------------------------------------------------------------------
-- When a capture began
-- ---------------------------------------------------------------------------

/-- The step from `w` to `v` starts the capture that `t` is found running. -/
structure Began (w v : World κ) (l : Label κ) (t : TaskId) (kind : Kind) (key : κ)
    (due now : Int) (stale : Option Entry) : Prop where
  label : l = .acquire t
  free : w.holder = none
  task : w.tasks[t]? = some ⟨kind, key, .waiting due⟩
  read : now = w.now ∧ v.now = w.now
  aside : stale = v.cache.get? key
  due : ∀ e, v.cache.get? key = some e → e.freshUntil ≤ w.now
  log : v.log = w.log ++ [.captureStarted t key w.now]

section
variable {t u : TaskId} {kind : Kind} {due now : Int} {stale : Option Entry}

omit [DecidableEq κ] in
theorem task_of_setPhase {p : Phase} {task : Task κ} (hp : p ≠ task.phase)
    (h : (w.setPhase u p).tasks[t]? = some task) : w.tasks[t]? = some task := by
  rw [tasks_setPhase] at h
  split at h
  · obtain ⟨_, -, rfl⟩ := Option.map_eq_some_iff.mp h
    exact absurd rfl hp
  · exact h

omit [DecidableEq κ] in
theorem task_of_spawn {task new : Task κ} (hp : new.phase ≠ task.phase)
    (h : (w.spawn new).tasks[t]? = some task) : w.tasks[t]? = some task := by
  rw [tasks_spawn] at h
  split at h
  · obtain rfl := Option.some.inj h
    exact absurd rfl hp
  · exact h

omit [DecidableEq κ] in
theorem task_of_cancelled {c : Prop} [Decidable c] {task : Task κ}
    (hc : v.tasks[t]? = if c then w.tasks[t]?.map cancelled else w.tasks[t]?)
    (hp : ∀ k p, cancelledPhase k p = task.phase → p = task.phase)
    (h : v.tasks[t]? = some task) : w.tasks[t]? = some task := by
  rw [hc] at h
  split at h
  · obtain ⟨⟨k, key, p⟩, ht, rfl⟩ := Option.map_eq_some_iff.mp h
    rw [ht]
    exact congrArg (fun p => some (Task.mk k key p)) (hp k p rfl)
  · exact h

theorem Cached.task_of {k : κ} {hit : Bool} {image : Option Bytes} {task : Task κ}
    (hc : Cached w k v hit image) (hp : .scheduled ≠ task.phase) (h : v.tasks[t]? = some task) :
    w.tasks[t]? = some task := by
  cases hc with
  | fresh => exact h
  | stale =>
    unfold startRefresh at h
    split at h
    · exact h
    · have h : (w.spawn ⟨.refresh, k, .scheduled⟩).tasks[t]? = some task := h
      refine task_of_spawn ?_ h
      exact hp
  | miss => exact h

omit [DecidableEq κ] in
theorem not_capturing_cancelled (k : Kind) (p : Phase) :
    cancelledPhase k p = .capturing due now stale → p = .capturing due now stale := by
  cases k <;> cases p <;> simp [cancelledPhase]

theorem began_of_beginCapture {x : World κ} {k : κ} {kind' : Kind} {due' : Int}
    (ht : x.tasks[u]? = some ⟨kind', k, .waiting due'⟩)
    (h : (x.beginCapture u k due').tasks[t]? = some ⟨kind, key, .capturing due now stale⟩) :
    x.tasks[t]? = some ⟨kind, key, .capturing due now stale⟩ ∨
      t = u ∧ kind = kind' ∧ key = k ∧ due = due' ∧ now = x.now ∧ stale = x.cache.get? k := by
  rw [beginCapture_tasks, tasks_setPhase] at h
  split at h
  · rename_i htu
    rw [htu, ht] at h
    cases h
    exact .inr ⟨htu, rfl, rfl, rfl, rfl, rfl⟩
  · exact .inl h

theorem Move.capturing (hm : Move cfg w l v)
    (h : v.tasks[t]? = some ⟨kind, key, .capturing due now stale⟩) :
    w.tasks[t]? = some ⟨kind, key, .capturing due now stale⟩ ∨
      Began w v l t kind key due now stale := by
  have keep {x : World κ} {u : TaskId} {p : Phase} (hx : x.tasks = w.tasks)
      (hp : p ≠ .capturing due now stale)
      (h : (x.setPhase u p).tasks[t]? = some ⟨kind, key, .capturing due now stale⟩) :
      w.tasks[t]? = some ⟨kind, key, .capturing due now stale⟩ := by
    rw [← hx]
    exact task_of_setPhase hp h
  cases hm with
  | tick => exact .inl h
  | hit hc => exact .inl (hc.task_of (by simp) (task_of_spawn (by simp) h))
  | miss hc => exact .inl (hc.task_of (by simp) (task_of_spawn (by simp) h))
  | start => exact .inl (keep (x := w.enqueue _) rfl (by simp) h)
  | lockHit hw ht hc =>
    exact .inl (Cached.task_of (w := w.popQueue) hc (by simp) (task_of_setPhase (by simp) h))
  | lockMiss hw ht hc =>
    rcases began_of_beginCapture (hc.task ht) h with h | ⟨rfl, rfl, rfl, rfl, rfl, rfl⟩
    · exact .inl (Cached.task_of (w := w.popQueue) hc (by simp) h)
    · refine .inr ⟨rfl, hw, ht, ⟨hc.now, hc.now⟩, rfl, fun e he => ?_, ?_⟩
      · obtain ⟨hk, hl⟩ := hc.get?.mp he
        cases hc with
        | miss hmiss => exact (hmiss e hk hl).1
      · rw [beginCapture_log, hc.log, hc.now]
        rfl
  | refreshSkip => exact .inl (keep (x := w.popQueue) rfl (by simp) h)
  | refreshCapture hw ht hk hs hf =>
    rcases began_of_beginCapture (x := w.popQueue) ht h with h | ⟨rfl, rfl, rfl, rfl, rfl, rfl⟩
    · exact .inl h
    · refine .inr ⟨rfl, hw, ht, ⟨rfl, rfl⟩, rfl, fun e he => ?_, rfl⟩
      obtain rfl := Option.some.inj (hk.symm.trans he)
      exact hf
  | cool => exact .inl (keep (x := coolDown cfg w.popQueue _ _ _) rfl (by simp) h)
  | fallback => exact .inl (keep (x := coolDown cfg w.release _ _ _) rfl (by simp) h)
  | captureRaised => exact .inl (keep (x := remember cfg w.release _ _ _) rfl (by simp) h)
  | captured => exact .inl (keep (x := remember cfg w.release _ _ _) rfl (by simp) h)
  | refreshFailed => exact .inl (keep (x := coolDown cfg w.release _ _ _) rfl (by simp) h)
  | refreshed => exact .inl (keep (x := remember cfg w.release _ _ _) rfl (by simp) h)
  | expireGet => exact .inl (keep (x := w.leaveQueue _) rfl (by simp) h)
  | expireRefresh => exact .inl (keep (x := (w.leaveQueue _).enqueue _) rfl (by simp) h)
  | expireCapture => exact .inl (keep rfl (by simp) h)
  | cancel => exact .inl (task_of_cancelled (tasks_cancelTask w _ t) not_capturing_cancelled h)
  | unwindGet => exact .inl (keep (x := w.release) rfl (by simp) h)
  | unwindCool => exact .inl (keep (x := w.release.enqueue _) rfl (by simp) h)
  | unwindRefresh => exact .inl (keep (x := w.release) rfl (by simp) h)
  | forget =>
    refine .inl (keep (x := w.refreshDone _ _) ?_ (by simp) h)
    unfold refreshDone
    split <;> rfl
  | discard => exact .inl (task_of_cancelled (tasks_discard w _ t) not_capturing_cancelled h)
  | clear => exact .inl (task_of_cancelled (tasks_clear w t) not_capturing_cancelled h)

-- ---------------------------------------------------------------------------
-- Where an answer comes from
-- ---------------------------------------------------------------------------

/-- The sources of the answer of a call that is found answered after a step
from `w` to `v`. A new answer is the image of the entry of its key. -/
inductive Answered (cfg : Limits) (w v : World κ) (t : TaskId) (key : κ) :
    Label κ → Option Bytes → Prop
  | before {l : Label κ} {image : Option Bytes} :
      w.tasks[t]? = some ⟨.get, key, .returned image⟩ → Answered cfg w v t key l image
  | hit {l : Label κ} {e : Entry} : w.cache.get? key = some e → v.cache.get? key = some e →
      Answered cfg w v t key l e.image
  | fallback {due now : Int} {e : Entry} {o : Outcome} :
      w.tasks[t]? = some ⟨.get, key, .capturing due now (some e)⟩ →
      v.cache.get? key = some ⟨now + cfg.failureTtl, e.staleUntil, e.image⟩ →
      Answered cfg w v t key (.capture t o) e.image
  | captured {due now : Int} {stale : Option Entry} {image : Option Bytes} :
      w.tasks[t]? = some ⟨.get, key, .capturing due now stale⟩ →
      v.cache.get? key = some (remembered cfg w.now image) →
      Answered cfg w v t key (.capture t (.image image)) image

theorem Cached.hit_entry {x : World κ} {k : κ} {image : Option Bytes} (hc : Cached x k v true image) :
    ∃ e, x.cache.get? k = some e ∧ v.cache.get? k = some e ∧ e.image = image := by
  have hc' := hc
  cases hc with
  | fresh he hs => exact ⟨_, he, hc'.get?.mpr ⟨he, hs⟩, rfl⟩
  | stale he hs => exact ⟨_, he, hc'.get?.mpr ⟨he, hs⟩, rfl⟩

omit [DecidableEq κ] in
theorem not_returned_cancelled {image : Option Bytes} (k : Kind) (p : Phase) :
    cancelledPhase k p = .returned image → p = .returned image := by
  cases k <;> cases p <;> simp [cancelledPhase]

omit [DecidableEq κ] in
/-- The task that a step leaves in phase `p`, if it is `t`, or `t` as it was. -/
theorem setPhase_task {x : World κ} {p : Phase} {task task' : Task κ}
    (hu : x.tasks[u]? = some task') (h : (x.setPhase u p).tasks[t]? = some task) :
    (t = u ∧ task = ⟨task'.kind, task'.key, p⟩) ∨ x.tasks[t]? = some task := by
  rw [tasks_setPhase] at h
  split at h
  · rename_i htu
    rw [htu, hu] at h
    exact .inl ⟨htu, (Option.some.inj h).symm⟩
  · exact .inr h

theorem Move.returned {image : Option Bytes} (hm : Move cfg w l v)
    (h : v.tasks[t]? = some ⟨.get, key, .returned image⟩) : Answered cfg w v t key l image := by
  have keep {x : World κ} {u : TaskId} {p : Phase} (hx : x.tasks = w.tasks)
      (hp : p ≠ .returned image)
      (h : (x.setPhase u p).tasks[t]? = some ⟨.get, key, .returned image⟩) :
      w.tasks[t]? = some ⟨.get, key, .returned image⟩ := by
    rw [← hx]
    exact task_of_setPhase hp h
  cases hm with
  | tick => exact .before h
  | @hit x k i hc =>
    rw [record_tasks, tasks_spawn] at h
    split at h
    · obtain ⟨e, he, he', hi⟩ := hc.hit_entry
      cases h
      exact hi ▸ .hit he he'
    · exact .before (hc.task_of (by simp) h)
  | miss hc => exact .before (hc.task_of (by simp) (task_of_spawn (by simp) h))
  | start => exact .before (keep (x := w.enqueue _) rfl (by simp) h)
  | lockHit hw ht hc =>
    rcases setPhase_task (hc.task ht) h with ⟨rfl, htask⟩ | h
    · obtain ⟨e, he, he', hi⟩ := hc.hit_entry
      cases htask
      exact hi ▸ .hit he he'
    · exact .before (Cached.task_of (w := w.popQueue) hc (by simp) h)
  | lockMiss hw ht hc =>
    exact .before (Cached.task_of (w := w.popQueue) hc (by simp) (task_of_setPhase (by simp) h))
  | refreshSkip => exact .before (keep (x := w.popQueue) rfl (by simp) h)
  | refreshCapture => exact .before (keep (x := w.popQueue) rfl (by simp) h)
  | cool => exact .before (keep (x := coolDown cfg w.popQueue _ _ _) rfl (by simp) h)
  | fallback ht =>
    rcases setPhase_task (x := coolDown cfg w.release _ _ _) ht h with ⟨rfl, htask⟩ | h
    · cases htask
      exact .fallback ht (by rw [giveBack_cache, get?_coolDown, if_pos rfl])
    · exact .before h
  | captureRaised => exact .before (keep (x := remember cfg w.release _ _ _) rfl (by simp) h)
  | captured ht =>
    rcases setPhase_task (x := remember cfg w.release _ _ _) ht h with ⟨rfl, htask⟩ | h
    · cases htask
      exact .captured ht (by rw [giveBack_cache]; exact get?_remember_self cfg w.release _ _)
    · exact .before h
  | refreshFailed => exact .before (keep (x := coolDown cfg w.release _ _ _) rfl (by simp) h)
  | refreshed => exact .before (keep (x := remember cfg w.release _ _ _) rfl (by simp) h)
  | expireGet => exact .before (keep (x := w.leaveQueue _) rfl (by simp) h)
  | expireRefresh => exact .before (keep (x := (w.leaveQueue _).enqueue _) rfl (by simp) h)
  | expireCapture => exact .before (keep rfl (by simp) h)
  | cancel => exact .before (task_of_cancelled (tasks_cancelTask w _ t) not_returned_cancelled h)
  | unwindGet => exact .before (keep (x := w.release) rfl (by simp) h)
  | unwindCool => exact .before (keep (x := w.release.enqueue _) rfl (by simp) h)
  | unwindRefresh => exact .before (keep (x := w.release) rfl (by simp) h)
  | forget =>
    refine .before (keep (x := w.refreshDone _ _) ?_ (by simp) h)
    unfold refreshDone
    split <;> rfl
  | discard => exact .before (task_of_cancelled (tasks_discard w _ t) not_returned_cancelled h)
  | clear => exact .before (task_of_cancelled (tasks_clear w t) not_returned_cancelled h)

end

end EufyNvr.Snapshot.World
