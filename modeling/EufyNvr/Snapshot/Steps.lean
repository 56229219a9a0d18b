import EufyNvr.Snapshot.Cache

/-!
# What a step of the cache can do

`Move` lists the outcomes of a step with everything the code checked on the
way; `step_move` reads a successful step as one of them. Later modules do
not unfold `step`.
-/

namespace EufyNvr.Snapshot.World

variable {κ : Type}

-- ---------------------------------------------------------------------------
-- Frames of the primitive updates
-- ---------------------------------------------------------------------------

theorem tasks_setPhase (w : World κ) (t u : TaskId) (p : Phase) :
    (w.setPhase t p).tasks[u]? =
      if u = t then w.tasks[u]?.map fun task => { task with phase := p } else w.tasks[u]? := by
  by_cases h : u = t
  · subst h; simp [setPhase]
  · simp [setPhase, h, List.getElem?_modify_ne, Ne.symm h]

theorem tasks_spawn (w : World κ) (task : Task κ) (u : TaskId) :
    (w.spawn task).tasks[u]? = if u = w.tasks.length then some task else w.tasks[u]? := by
  simp only [spawn, List.getElem?_append]
  by_cases h : u < w.tasks.length
  · simp [h, Nat.ne_of_lt h]
  · by_cases h' : u = w.tasks.length
    · simp [h']
    · have hn : w.tasks[u]? = none := List.getElem?_eq_none (Nat.le_of_not_lt h)
      have hs : [task][u - w.tasks.length]? = none := by
        apply List.getElem?_eq_none
        simp only [List.length_singleton]
        have : w.tasks.length < u := Nat.lt_of_le_of_ne (Nat.le_of_not_lt h) (Ne.symm h')
        exact Nat.sub_pos_of_lt this
      rw [if_neg h, if_neg h', hn, hs]

section
variable (w : World κ) (t : TaskId) (p : Phase) (task : Task κ) (e : Event κ)

@[simp] theorem setPhase_now : (w.setPhase t p).now = w.now := rfl
@[simp] theorem setPhase_cache : (w.setPhase t p).cache = w.cache := rfl
@[simp] theorem setPhase_refreshTasks : (w.setPhase t p).refreshTasks = w.refreshTasks := rfl
@[simp] theorem setPhase_holder : (w.setPhase t p).holder = w.holder := rfl
@[simp] theorem setPhase_log : (w.setPhase t p).log = w.log := rfl

@[simp] theorem spawn_now : (w.spawn task).now = w.now := rfl
@[simp] theorem spawn_cache : (w.spawn task).cache = w.cache := rfl
@[simp] theorem spawn_refreshTasks : (w.spawn task).refreshTasks = w.refreshTasks := rfl
@[simp] theorem spawn_holder : (w.spawn task).holder = w.holder := rfl
@[simp] theorem spawn_log : (w.spawn task).log = w.log := rfl

@[simp] theorem record_now : (w.record e).now = w.now := rfl
@[simp] theorem record_cache : (w.record e).cache = w.cache := rfl
@[simp] theorem record_refreshTasks : (w.record e).refreshTasks = w.refreshTasks := rfl
@[simp] theorem record_holder : (w.record e).holder = w.holder := rfl
@[simp] theorem record_tasks : (w.record e).tasks = w.tasks := rfl
@[simp] theorem record_log : (w.record e).log = w.log ++ [e] := rfl

@[simp] theorem enqueue_now : (w.enqueue t).now = w.now := rfl
@[simp] theorem enqueue_cache : (w.enqueue t).cache = w.cache := rfl
@[simp] theorem enqueue_refreshTasks : (w.enqueue t).refreshTasks = w.refreshTasks := rfl
@[simp] theorem enqueue_holder : (w.enqueue t).holder = w.holder := rfl
@[simp] theorem enqueue_tasks : (w.enqueue t).tasks = w.tasks := rfl
@[simp] theorem enqueue_log : (w.enqueue t).log = w.log := rfl

@[simp] theorem leaveQueue_now : (w.leaveQueue t).now = w.now := rfl
@[simp] theorem leaveQueue_cache : (w.leaveQueue t).cache = w.cache := rfl
@[simp] theorem leaveQueue_refreshTasks : (w.leaveQueue t).refreshTasks = w.refreshTasks := rfl
@[simp] theorem leaveQueue_holder : (w.leaveQueue t).holder = w.holder := rfl
@[simp] theorem leaveQueue_tasks : (w.leaveQueue t).tasks = w.tasks := rfl
@[simp] theorem leaveQueue_log : (w.leaveQueue t).log = w.log := rfl

@[simp] theorem popQueue_now : w.popQueue.now = w.now := rfl
@[simp] theorem popQueue_cache : w.popQueue.cache = w.cache := rfl
@[simp] theorem popQueue_refreshTasks : w.popQueue.refreshTasks = w.refreshTasks := rfl
@[simp] theorem popQueue_holder : w.popQueue.holder = w.holder := rfl
@[simp] theorem popQueue_tasks : w.popQueue.tasks = w.tasks := rfl
@[simp] theorem popQueue_log : w.popQueue.log = w.log := rfl

@[simp] theorem giveBack_now (key : κ) (image : Option Bytes) (lookup : Int) :
    (w.giveBack t key image lookup).now = w.now := rfl
@[simp] theorem giveBack_cache (key : κ) (image : Option Bytes) (lookup : Int) :
    (w.giveBack t key image lookup).cache = w.cache := rfl
@[simp] theorem giveBack_holder (key : κ) (image : Option Bytes) (lookup : Int) :
    (w.giveBack t key image lookup).holder = w.holder := rfl

@[simp] theorem release_now : w.release.now = w.now := rfl
@[simp] theorem release_cache : w.release.cache = w.cache := rfl
@[simp] theorem release_refreshTasks : w.release.refreshTasks = w.refreshTasks := rfl
@[simp] theorem release_holder : w.release.holder = none := rfl
@[simp] theorem release_tasks : w.release.tasks = w.tasks := rfl
@[simp] theorem release_log : w.release.log = w.log := rfl

end

-- ---------------------------------------------------------------------------
-- Cancellation
-- ---------------------------------------------------------------------------

/-- The phase of a task after a cancellation. -/
def cancelledPhase : Kind → Phase → Phase
  | .get, .waiting _ => .ended .cancelled
  | .refresh, .waiting _ | .refresh, .cooling | .refresh, .scheduled => .finished
  | _, .capturing .. | _, .unwinding _ => .unwinding .cancelled
  | _, p => p

def cancelled (task : Task κ) : Task κ :=
  { task with phase := cancelledPhase task.kind task.phase }

theorem cancelled_cancelled (task : Task κ) : cancelled (cancelled task) = cancelled task := by
  obtain ⟨kind, key, phase⟩ := task
  cases kind <;> cases phase <;> rfl

theorem tasks_cancelTask (w : World κ) (t u : TaskId) :
    (w.cancelTask t).tasks[u]? =
      if u = t then w.tasks[u]?.map cancelled else w.tasks[u]? := by
  unfold cancelTask
  split
  case h_7 hne =>
    by_cases hu : u = t
    · subst hu
      cases ht : w.tasks[u]? with
      | none => simp
      | some task =>
        obtain ⟨kind, key, phase⟩ := task
        cases kind <;> cases phase <;> grind [cancelled, cancelledPhase]
    · simp [hu]
  all_goals
    rename_i ht
    simp only [tasks_setPhase, leaveQueue_tasks]
    by_cases hu : u = t
    · subst hu; simp [ht, cancelled, cancelledPhase]
    · simp [hu]

theorem cancelTask_frame (w : World κ) (t : TaskId) :
    (w.cancelTask t).now = w.now ∧ (w.cancelTask t).cache = w.cache ∧
      (w.cancelTask t).refreshTasks = w.refreshTasks ∧ (w.cancelTask t).holder = w.holder ∧
      (w.cancelTask t).log = w.log := by
  unfold cancelTask
  split <;> exact ⟨rfl, rfl, rfl, rfl, rfl⟩

theorem foldl_cancelTask_frame (w : World κ) (ts : List TaskId) :
    (ts.foldl cancelTask w).now = w.now ∧ (ts.foldl cancelTask w).cache = w.cache ∧
      (ts.foldl cancelTask w).holder = w.holder ∧ (ts.foldl cancelTask w).log = w.log := by
  induction ts generalizing w with
  | nil => exact ⟨rfl, rfl, rfl, rfl⟩
  | cons t ts ih =>
    obtain ⟨hn, hc, -, hh, hl⟩ := cancelTask_frame w t
    obtain ⟨hn', hc', hh', hl'⟩ := ih (w.cancelTask t)
    exact ⟨hn'.trans hn, hc'.trans hc, hh'.trans hh, hl'.trans hl⟩

theorem tasks_foldl_cancelTask (w : World κ) (ts : List TaskId) (u : TaskId) :
    (ts.foldl cancelTask w).tasks[u]? =
      if u ∈ ts then w.tasks[u]?.map cancelled else w.tasks[u]? := by
  induction ts generalizing w with
  | nil => simp
  | cons t ts ih =>
    rw [List.foldl_cons, ih, tasks_cancelTask]
    by_cases hu : u = t
    · subst hu
      cases w.tasks[u]? <;> simp [cancelled_cancelled]
    · simp [hu]

theorem clear_frame (w : World κ) :
    w.clear.now = w.now ∧ w.clear.cache = .empty ∧ w.clear.refreshTasks = .empty ∧
      w.clear.holder = w.holder ∧ w.clear.log = w.log := by
  obtain ⟨hn, hc, hh, hl⟩ := foldl_cancelTask_frame { w with cache := .empty }
    (w.refreshTasks.items.map Prod.snd)
  exact ⟨hn, hc, rfl, hh, hl⟩

theorem tasks_clear (w : World κ) (u : TaskId) :
    w.clear.tasks[u]? =
      if u ∈ w.refreshTasks.items.map Prod.snd then w.tasks[u]?.map cancelled
      else w.tasks[u]? :=
  tasks_foldl_cancelTask { w with cache := .empty } _ u

variable [DecidableEq κ]

section
variable (cfg : Limits) (w : World κ) (key : κ) (e : Entry) (t : TaskId) (image : Option Bytes)
  (now due : Int)

@[simp] theorem put_now : (w.put key e).now = w.now := rfl
@[simp] theorem put_refreshTasks : (w.put key e).refreshTasks = w.refreshTasks := rfl
@[simp] theorem put_holder : (w.put key e).holder = w.holder := rfl
@[simp] theorem put_tasks : (w.put key e).tasks = w.tasks := rfl
@[simp] theorem put_log : (w.put key e).log = w.log := rfl

@[simp] theorem coolDown_now : (coolDown cfg w key now e).now = w.now := rfl
@[simp] theorem coolDown_refreshTasks : (coolDown cfg w key now e).refreshTasks = w.refreshTasks :=
  rfl
@[simp] theorem coolDown_holder : (coolDown cfg w key now e).holder = w.holder := rfl
@[simp] theorem coolDown_tasks : (coolDown cfg w key now e).tasks = w.tasks := rfl
@[simp] theorem coolDown_log : (coolDown cfg w key now e).log = w.log := rfl

@[simp] theorem beginCapture_now : (w.beginCapture t key due).now = w.now := rfl
@[simp] theorem beginCapture_cache : (w.beginCapture t key due).cache = w.cache := rfl
@[simp] theorem beginCapture_refreshTasks :
    (w.beginCapture t key due).refreshTasks = w.refreshTasks := rfl
@[simp] theorem beginCapture_holder : (w.beginCapture t key due).holder = some t := rfl
@[simp] theorem beginCapture_tasks : (w.beginCapture t key due).tasks =
    (w.setPhase t (.capturing due w.now (w.cache.get? key))).tasks := rfl
@[simp] theorem beginCapture_log :
    (w.beginCapture t key due).log = w.log ++ [.captureStarted t key w.now] := rfl

@[simp] theorem remember_now : (remember cfg w t key image).now = w.now := rfl
@[simp] theorem remember_refreshTasks :
    (remember cfg w t key image).refreshTasks = w.refreshTasks :=
  rfl
@[simp] theorem remember_holder : (remember cfg w t key image).holder = w.holder := rfl
@[simp] theorem remember_tasks : (remember cfg w t key image).tasks = w.tasks := rfl

end

-- ---------------------------------------------------------------------------
-- Reading the cache
-- ---------------------------------------------------------------------------

theorem get?_sweep {w : World κ} {k : κ} {e : Entry} :
    w.sweep.cache.get? k = some e ↔ w.cache.get? k = some e ∧ w.now < e.staleUntil := by
  simp [sweep, Dict.get?_filter, not_le]

theorem get?_put (w : World κ) (key k : κ) (e : Entry) :
    (w.put key e).cache.get? k = if k = key then some e else w.cache.get? k := by
  simp [put, Dict.get?_set]

theorem get?_coolDown (cfg : Limits) (w : World κ) (key k : κ) (now : Int) (e : Entry) :
    (coolDown cfg w key now e).cache.get? k =
      if k = key then some ⟨now + cfg.failureTtl, e.staleUntil, e.image⟩ else w.cache.get? k :=
  get?_put ..

theorem get?_of_remember {cfg : Limits} {w : World κ} {t : TaskId} {key k : κ}
    {image : Option Bytes} {e : Entry} (h : (remember cfg w t key image).cache.get? k = some e) :
    (k = key ∧ e = remembered cfg w.now image) ∨ w.cache.get? k = some e := by
  have h' := Dict.get?_of_popDownTo h
  rw [get?_put] at h'
  split at h'
  · exact .inl ⟨‹_›, (Option.some.inj h').symm⟩
  · exact .inr h'

/-- The three ways `_cached` ends: a fresh hit, a stale hit that starts a
refresh, a miss. -/
inductive Cached (w : World κ) (key : κ) : World κ → Bool → Option Bytes → Prop
  | fresh {e : Entry} : w.cache.get? key = some e → w.now < e.staleUntil → w.now < e.freshUntil →
      Cached w key (w.sweep.touch key) true e.image
  | stale {e : Entry} : w.cache.get? key = some e → w.now < e.staleUntil → e.freshUntil ≤ w.now →
      truthy e.image = true → Cached w key ((w.sweep.touch key).startRefresh key) true e.image
  | miss : (∀ e, w.cache.get? key = some e → w.now < e.staleUntil →
      e.freshUntil ≤ w.now ∧ truthy e.image = false) → Cached w key w.sweep false none

theorem cached_cases {w v : World κ} {key : κ} {hit : Bool} {image : Option Bytes}
    (h : w.cached key = (v, hit, image)) : Cached w key v hit image := by
  unfold cached at h
  split at h
  · rename_i hn
    cases h
    refine .miss fun e he hl => ?_
    rw [get?_sweep.mpr ⟨he, hl⟩] at hn
    cases hn
  · rename_i e he
    obtain ⟨hk, hl⟩ := get?_sweep.mp he
    split at h
    · rename_i hf
      cases h
      exact .fresh hk hl hf
    · rename_i hf
      split at h
      · rename_i hs
        cases h
        exact .stale hk hl (not_lt.mp hf) hs.1
      · rename_i hs
        cases h
        refine .miss fun e' he' _ => ?_
        obtain rfl : e' = e := Option.some.inj (he'.symm.trans hk)
        exact ⟨not_lt.mp hf, by simpa [hl] using hs⟩

/-- `_cached` leaves the tasks it finds as they are. -/
theorem Cached.task {w v : World κ} {key : κ} {hit : Bool} {image : Option Bytes} {t : TaskId}
    {task : Task κ} (hc : Cached w key v hit image) (ht : w.tasks[t]? = some task) :
    v.tasks[t]? = some task := by
  cases hc with
  | fresh => exact ht
  | stale =>
    unfold startRefresh
    split
    · exact ht
    · have hlt : t ≠ w.tasks.length := by
        intro h
        rw [h, List.getElem?_eq_none (Nat.le_refl _)] at ht
        cases ht
      exact (tasks_spawn w ⟨.refresh, key, .scheduled⟩ t).trans ((if_neg hlt).trans ht)
  | miss => exact ht

theorem Cached.holder {w v : World κ} {key : κ} {hit : Bool} {image : Option Bytes}
    (hc : Cached w key v hit image) : v.holder = w.holder := by
  cases hc with
  | fresh => rfl
  | stale => unfold startRefresh; split <;> rfl
  | miss => rfl

theorem Cached.log {w v : World κ} {key : κ} {hit : Bool} {image : Option Bytes}
    (hc : Cached w key v hit image) : v.log = w.log := by
  cases hc with
  | fresh => rfl
  | stale => unfold startRefresh; split <;> rfl
  | miss => rfl

theorem Cached.now {w v : World κ} {key : κ} {hit : Bool} {image : Option Bytes}
    (hc : Cached w key v hit image) : v.now = w.now := by
  cases hc with
  | fresh => rfl
  | stale => unfold startRefresh; split <;> rfl
  | miss => rfl

-- ---------------------------------------------------------------------------
-- Discarding
-- ---------------------------------------------------------------------------

theorem discard_frame (w : World κ) (key : κ) :
    (w.discard key).now = w.now ∧ (w.discard key).cache = w.cache.erase key ∧
      (w.discard key).holder = w.holder ∧ (w.discard key).log = w.log := by
  unfold discard
  simp only
  split
  · rename_i t _
    obtain ⟨hn, hc, -, hh, hl⟩ := cancelTask_frame { w with
      cache := w.cache.erase key, refreshTasks := w.refreshTasks.erase key } t
    exact ⟨hn, hc, hh, hl⟩
  · exact ⟨rfl, rfl, rfl, rfl⟩

theorem refreshTasks_discard (w : World κ) (key k : κ) :
    (w.discard key).refreshTasks.get? k = if k = key then none else w.refreshTasks.get? k := by
  unfold discard
  simp only
  split
  · rename_i t _
    rw [(cancelTask_frame _ t).2.2.1, Dict.get?_erase]
  · rename_i hn
    by_cases hk : k = key
    · simp only [hk, if_true]; exact hn
    · simp [hk]

theorem tasks_discard (w : World κ) (key : κ) (u : TaskId) :
    (w.discard key).tasks[u]? =
      if w.refreshTasks.get? key = some u then w.tasks[u]?.map cancelled else w.tasks[u]? := by
  unfold discard
  simp only
  split
  · rename_i t ht
    rw [tasks_cancelTask, ht]
    simp [eq_comm]
  · rename_i hn
    simp [show w.refreshTasks.get? key = none from hn]

-- ---------------------------------------------------------------------------
-- Moves
-- ---------------------------------------------------------------------------

/-- The outcomes of one step. -/
inductive Move (cfg : Limits) (w : World κ) : Label κ → World κ → Prop
  | tick {d : Int} : 0 ≤ d → Move cfg w (.tick d) { w with now := w.now + d }
  | hit {v : World κ} {key : κ} {image : Option Bytes} : Cached w key v true image →
      Move cfg w (.call key) ((v.spawn ⟨.get, key, .returned image⟩).record
        (.returned v.tasks.length key image w.now))
  | miss {v : World κ} {key : κ} {image : Option Bytes} : Cached w key v false image →
      Move cfg w (.call key) ((v.spawn ⟨.get, key, .waiting (w.now + cfg.timeout)⟩).enqueue
        v.tasks.length)
  | start {t : TaskId} {key : κ} : w.tasks[t]? = some ⟨.refresh, key, .scheduled⟩ →
      Move cfg w (.start t) ((w.enqueue t).setPhase t (.waiting (w.now + cfg.timeout)))
  | lockHit {t : TaskId} {key : κ} {due : Int} {v : World κ} {image : Option Bytes} :
      w.holder = none → w.tasks[t]? = some ⟨.get, key, .waiting due⟩ →
      Cached w.popQueue key v true image → Move cfg w (.acquire t) (v.giveBack t key image w.now)
  | lockMiss {t : TaskId} {key : κ} {due : Int} {v : World κ} {image : Option Bytes} :
      w.holder = none → w.tasks[t]? = some ⟨.get, key, .waiting due⟩ →
      Cached w.popQueue key v false image → Move cfg w (.acquire t) (v.beginCapture t key due)
  | refreshSkip {t : TaskId} {key : κ} {p : Phase} :
      w.holder = none → w.tasks[t]? = some ⟨.refresh, key, p⟩ →
      (∃ due, p = .waiting due) ∨ p = .cooling →
      Move cfg w (.acquire t) (w.popQueue.setPhase t .finished)
  | refreshCapture {t : TaskId} {key : κ} {due : Int} {e : Entry} :
      w.holder = none → w.tasks[t]? = some ⟨.refresh, key, .waiting due⟩ →
      w.cache.get? key = some e → w.now < e.staleUntil → e.freshUntil ≤ w.now →
      Move cfg w (.acquire t) (w.popQueue.beginCapture t key due)
  | cool {t : TaskId} {key : κ} {e : Entry} :
      w.holder = none → w.tasks[t]? = some ⟨.refresh, key, .cooling⟩ →
      w.cache.get? key = some e → w.now < e.staleUntil →
      Move cfg w (.acquire t) ((coolDown cfg w.popQueue key w.now e).setPhase t .finished)
  | fallback {t : TaskId} {key : κ} {due now : Int} {e : Entry} {o : Outcome} :
      w.tasks[t]? = some ⟨.get, key, .capturing due now (some e)⟩ → truthy e.image = true →
      Move cfg w (.capture t o) ((coolDown cfg w.release key now e).giveBack t key e.image now)
  | captureRaised {t : TaskId} {key : κ} {due now : Int} {stale : Option Entry} :
      w.tasks[t]? = some ⟨.get, key, .capturing due now stale⟩ →
      Move cfg w (.capture t .raised) ((remember cfg w.release t key none).setPhase t .raised)
  | captured {t : TaskId} {key : κ} {due now : Int} {stale : Option Entry} {image : Option Bytes} :
      w.tasks[t]? = some ⟨.get, key, .capturing due now stale⟩ →
      Move cfg w (.capture t (.image image))
        ((remember cfg w.release t key image).giveBack t key image w.now)
  | refreshFailed {t : TaskId} {key : κ} {due now : Int} {e : Entry} {o : Outcome} :
      w.tasks[t]? = some ⟨.refresh, key, .capturing due now (some e)⟩ →
      Move cfg w (.capture t o) ((coolDown cfg w.release key now e).setPhase t .finished)
  | refreshed {t : TaskId} {key : κ} {due now : Int} {e : Entry} {image : Option Bytes} :
      w.tasks[t]? = some ⟨.refresh, key, .capturing due now (some e)⟩ →
      Move cfg w (.capture t (.image image))
        ((remember cfg w.release t key image).setPhase t .finished)
  | expireGet {t : TaskId} {key : κ} {due : Int} :
      w.tasks[t]? = some ⟨.get, key, .waiting due⟩ → due ≤ w.now →
      Move cfg w (.deadline t) ((w.leaveQueue t).setPhase t (.ended .deadline))
  | expireRefresh {t : TaskId} {key : κ} {due : Int} :
      w.tasks[t]? = some ⟨.refresh, key, .waiting due⟩ → due ≤ w.now →
      Move cfg w (.deadline t) (((w.leaveQueue t).enqueue t).setPhase t .cooling)
  | expireCapture {t : TaskId} {kind : Kind} {key : κ} {due now : Int} {stale : Option Entry} :
      w.tasks[t]? = some ⟨kind, key, .capturing due now stale⟩ → due ≤ w.now →
      Move cfg w (.deadline t) (w.setPhase t (.unwinding .deadline))
  | cancel {t : TaskId} : Move cfg w (.cancel t) (w.cancelTask t)
  | unwindGet {t : TaskId} {key : κ} {ending : Ending} :
      w.tasks[t]? = some ⟨.get, key, .unwinding ending⟩ →
      Move cfg w (.unwound t) (w.release.setPhase t (.ended ending))
  | unwindCool {t : TaskId} {key : κ} :
      w.tasks[t]? = some ⟨.refresh, key, .unwinding .deadline⟩ →
      Move cfg w (.unwound t) ((w.release.enqueue t).setPhase t .cooling)
  | unwindRefresh {t : TaskId} {key : κ} :
      w.tasks[t]? = some ⟨.refresh, key, .unwinding .cancelled⟩ →
      Move cfg w (.unwound t) (w.release.setPhase t .finished)
  | forget {t : TaskId} {key : κ} : w.tasks[t]? = some ⟨.refresh, key, .finished⟩ →
      Move cfg w (.doneCallback t) ((w.refreshDone key t).setPhase t .forgotten)
  | discard {key : κ} : Move cfg w (.discard key) ((w.discard key).record (.discarded key))
  | clear : Move cfg w .clear (w.clear.record .cleared)

theorem grant_move {cfg : Limits} {w v : World κ} {t : TaskId} {task : Task κ}
    (hw : w.holder = none) (ht : w.tasks[t]? = some task)
    (h : grant cfg w.popQueue t task = some v) : Move cfg w (.acquire t) v := by
  unfold grant at h
  split at h
  · split at h <;> cases h <;> rename_i hc
    · exact .lockHit hw ht (cached_cases hc)
    · exact .lockMiss hw ht (cached_cases hc)
  · split at h
    · cases h; exact .refreshSkip hw ht (.inl ⟨_, rfl⟩)
    · rename_i e he
      split at h
      · cases h; exact .refreshSkip hw ht (.inl ⟨_, rfl⟩)
      · split at h
        · cases h; exact .refreshSkip hw ht (.inl ⟨_, rfl⟩)
        · cases h; exact .refreshCapture hw ht he (not_le.mp ‹_›) (not_lt.mp ‹_›)
  · split at h
    · cases h; exact .refreshSkip hw ht (.inr rfl)
    · rename_i e he
      split at h
      · cases h; exact .cool hw ht he ‹_›
      · cases h; exact .refreshSkip hw ht (.inr rfl)
  · cases h

theorem settle_move {cfg : Limits} {w v : World κ} {t : TaskId} {task : Task κ} {o : Outcome}
    (ht : w.tasks[t]? = some task) (h : settle cfg w t o task = some v) :
    Move cfg w (.capture t o) v := by
  unfold settle at h
  split at h
  · rename_i key due now stale
    split at h
    · rename_i e he
      cases h
      obtain ⟨rfl, htr⟩ := Option.filter_eq_some_iff.mp he
      exact .fallback ht htr
    · rename_i e he
      cases h
      obtain ⟨rfl, htr⟩ := Option.filter_eq_some_iff.mp he
      exact .fallback ht htr
    · cases h; exact .captureRaised ht
    · cases h; exact .captured ht
  · split at h <;> cases h
    · exact .refreshFailed ht
    · exact .refreshFailed ht
    · exact .refreshed ht
  · cases h

theorem expire_move {cfg : Limits} {w v : World κ} {t : TaskId} {task : Task κ}
    (ht : w.tasks[t]? = some task) (h : expire w t task = some v) : Move cfg w (.deadline t) v := by
  unfold expire at h
  split at h
  · split at h
    · cases h; exact .expireGet ht ‹_›
    · cases h
  · split at h
    · cases h; exact .expireRefresh ht ‹_›
    · cases h
  · split at h
    · cases h; exact .expireCapture ht ‹_›
    · cases h
  · cases h

theorem unwind_move {cfg : Limits} {w v : World κ} {t : TaskId} {task : Task κ}
    (ht : w.tasks[t]? = some task) (h : unwind w t task = some v) : Move cfg w (.unwound t) v := by
  unfold unwind at h
  split at h <;> cases h
  · exact .unwindGet ht
  · exact .unwindCool ht
  · exact .unwindRefresh ht

theorem step_move {cfg : Limits} {w v : World κ} {l : Label κ} (h : step cfg w l = some v) :
    Move cfg w l v := by
  cases l with
  | tick d =>
    obtain ⟨hd, rfl⟩ := Option.ite_some_none_eq_some.mp h
    exact .tick hd
  | call key =>
    simp only [step, asyncGet, Option.some.injEq] at h
    split at h <;> subst h <;> rename_i hc
    · exact .hit (cached_cases hc)
    · exact .miss (cached_cases hc)
  | start t =>
    simp only [step] at h
    split at h
    · cases h; exact .start ‹_›
    · cases h
  | acquire t =>
    obtain ⟨hw, h⟩ := Option.ite_none_right_eq_some.mp h
    obtain ⟨task, ht, hg⟩ := Option.bind_eq_some_iff.mp h
    exact grant_move hw.1 ht hg
  | capture t o =>
    obtain ⟨task, ht, hs⟩ := Option.bind_eq_some_iff.mp h
    exact settle_move ht hs
  | deadline t =>
    obtain ⟨task, ht, he⟩ := Option.bind_eq_some_iff.mp h
    exact expire_move ht he
  | cancel t => cases h; exact .cancel
  | unwound t =>
    obtain ⟨task, ht, hu⟩ := Option.bind_eq_some_iff.mp h
    exact unwind_move ht hu
  | doneCallback t =>
    simp only [step] at h
    split at h
    · cases h; exact .forget ‹_›
    · cases h
  | discard key => cases h; exact .discard
  | clear => cases h; exact .clear

-- ---------------------------------------------------------------------------
-- The log of a step
-- ---------------------------------------------------------------------------

/-- What a step adds to the log. -/
inductive Logs (w : World κ) : Label κ → List (Event κ) → Prop
  | silent {l : Label κ} : Logs w l []
  | returned {l : Label κ} {t : TaskId} {key : κ} {image : Option Bytes} {lookup : Int} :
      Logs w l [.returned t key image lookup]
  | started {t : TaskId} {kind : Kind} {key : κ} {due : Int} :
      w.tasks[t]? = some ⟨kind, key, .waiting due⟩ →
      (∀ e, w.cache.get? key = some e → e.freshUntil ≤ w.now ∨ e.staleUntil ≤ w.now) →
      Logs w (.acquire t) [.captureStarted t key w.now]
  | stored {t : TaskId} {kind : Kind} {key : κ} {due now : Int} {stale : Option Entry} {b : Bytes}
      {es : List (Event κ)} : w.tasks[t]? = some ⟨kind, key, .capturing due now stale⟩ →
      es = [] ∨ es = [.returned t key (some b) w.now] →
      Logs w (.capture t (.image (some b))) (.stored t key b w.now :: es)
  | discarded {key : κ} : Logs w (.discard key) [.discarded key]
  | cleared : Logs w .clear [.cleared]

theorem Move.log {cfg : Limits} {w v : World κ} {l : Label κ} (hm : Move cfg w l v) :
    ∃ es, v.log = w.log ++ es ∧ Logs w l es := by
  have silent (h : v.log = w.log) : ∃ es, v.log = w.log ++ es ∧ Logs w l es :=
    ⟨[], by rw [h, List.append_nil], .silent⟩
  have returned {x : World κ} {t : TaskId} {key : κ} {image : Option Bytes} {lookup : Int}
      (h : x.log = w.log) : ∃ es, (x.record (.returned t key image lookup)).log = w.log ++ es ∧
        Logs w l es := ⟨_, by rw [record_log, h], .returned⟩
  cases hm with
  | hit hc => exact returned hc.log
  | miss hc => exact silent (by simp [hc.log])
  | lockHit hw ht hc => exact returned hc.log
  | @lockMiss t key due v image hw ht hc =>
    refine ⟨[.captureStarted t key w.now], by simp [hc.log, hc.now], .started ht fun e he => ?_⟩
    cases hc with
    | miss hmiss =>
      by_cases hl : w.now < e.staleUntil
      · exact .inl (hmiss e he hl).1
      · exact .inr (not_lt.mp hl)
  | @refreshCapture t key due e hw ht he hl hf =>
    refine ⟨[.captureStarted t key w.now], by simp, .started ht fun e' he' => ?_⟩
    obtain rfl := Option.some.inj (he.symm.trans he')
    exact .inl hf
  | fallback => exact returned rfl
  | captureRaised => exact silent (by simp [remember, storedEvents])
  | @captured t key due now stale image ht =>
    match image with
    | none => exact returned (by simp [remember, storedEvents])
    | some [] => exact returned (by simp [remember, storedEvents])
    | some (b :: bs) =>
      exact ⟨.stored t key (b :: bs) w.now :: [.returned t key (some (b :: bs)) w.now],
        by simp [giveBack, remember, storedEvents], .stored ht (.inr rfl)⟩
  | @refreshed t key due now e image ht =>
    match image with
    | none => exact silent (by simp [remember, storedEvents])
    | some [] => exact silent (by simp [remember, storedEvents])
    | some (b :: bs) =>
      exact ⟨[.stored t key (b :: bs) w.now], by simp [remember, storedEvents],
        .stored ht (.inl rfl)⟩
  | cancel => exact silent (cancelTask_frame w _).2.2.2.2
  | @discard key => exact ⟨[.discarded key], by simp [(discard_frame w key).2.2.2], .discarded⟩
  | clear => exact ⟨[.cleared], by simp [(clear_frame w).2.2.2.2], .cleared⟩
  | forget => exact silent (by unfold refreshDone; split <;> rfl)
  | _ => exact silent (by simp)

end EufyNvr.Snapshot.World
