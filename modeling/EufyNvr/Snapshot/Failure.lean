import EufyNvr.Snapshot.Lock
import EufyNvr.Snapshot.Refresh

/-!
# Calls that end without an answer

An `async_get` call that ends by its deadline or by a cancellation has at
most removed expired entries in the steps it made. The main result puts this
next to the two other facts about who does what when: captures do not
overlap, and refreshes are registered one per key.
-/

namespace EufyNvr.Snapshot

/-- The call has handed its caller an image or the error of the capture. -/
def Phase.answered : Phase → Bool
  | .returned _ | .raised => true
  | _ => false

def Phase.over : Phase → Bool
  | .returned _ | .raised | .ended _ => true
  | _ => false

theorem over_of_answered {p : Phase} (h : p.answered = true) : p.over = true := by
  cases p with
  | returned | raised => rfl
  | _ => cases h

namespace World

variable {κ : Type} {cfg : Limits} {w v : World κ} {l : Label κ}

/-- The task whose code a step to `v` ran. A call is the newest task of `v`. -/
def actor (v : World κ) : Label κ → Option TaskId
  | .tick _ | .discard _ | .clear => none
  | .call _ => some (v.tasks.length - 1)
  | .start t | .acquire t | .capture t _ | .deadline t | .cancel t | .unwound t | .doneCallback t =>
    some t

/-- Nothing is stored, and nothing is removed but expired entries. -/
def OnlyExpired (w v : World κ) : Prop :=
  (v.cache = w.cache ∨ v.cache = w.cache.filter fun e => ¬ e.2.staleUntil ≤ w.now) ∧
    ∀ t key image time, Event.stored t key image time ∈ v.log →
      Event.stored t key image time ∈ w.log

theorem OnlyExpired.same (hc : v.cache = w.cache) (hl : v.log = w.log) : OnlyExpired w v :=
  ⟨.inl hc, fun _ _ _ _ h => hl ▸ h⟩

/-- What becomes of a task in one step: its kind and key stay, and a call
that is over stays as it is. -/
def Succeeds (task task' : Task κ) : Prop :=
  task'.kind = task.kind ∧ task'.key = task.key ∧
    (task.phase.over = true → task'.phase = task.phase)

theorem Succeeds.refl (task : Task κ) : Succeeds task task := ⟨rfl, rfl, fun _ => rfl⟩

theorem Succeeds.trans {a b c : Task κ} (h : Succeeds a b) (h' : Succeeds b c) : Succeeds a c :=
  ⟨h'.1.trans h.1, h'.2.1.trans h.2.1, fun ho => by
    have hb := h.2.2 ho
    rw [← hb] at ho ⊢
    exact h'.2.2 ho⟩

/-- `v` has every task of `w`, as `Succeeds` says. -/
def Carries (w v : World κ) : Prop :=
  ∀ (t : TaskId) (task : Task κ), w.tasks[t]? = some task → ∃ task', v.tasks[t]? = some task' ∧ Succeeds task task'

theorem Carries.refl (w : World κ) : Carries w w := fun _ task h => ⟨task, h, .refl task⟩

theorem Carries.trans {u : World κ} (h : Carries w v) (h' : Carries v u) : Carries w u := by
  intro t task ht
  obtain ⟨task', ht', hs⟩ := h t task ht
  obtain ⟨task'', ht'', hs'⟩ := h' t task' ht'
  exact ⟨task'', ht'', hs.trans hs'⟩

theorem Carries.setPhase {t : TaskId} {task : Task κ} {p : Phase} (ht : w.tasks[t]? = some task)
    (hp : task.phase.over = false) : Carries w (w.setPhase t p) := by
  intro u task' hu
  rw [tasks_setPhase, hu]
  split
  · rename_i hut
    obtain rfl : task = task' := Option.some.inj (ht.symm.trans (hut ▸ hu))
    exact ⟨_, rfl, rfl, rfl, fun ho => by rw [hp] at ho; cases ho⟩
  · exact ⟨task', rfl, .refl task'⟩

theorem Carries.spawn (w : World κ) (task : Task κ) : Carries w (w.spawn task) := by
  intro u task' hu
  exact ⟨task', by rw [tasks_spawn, if_neg (Nat.ne_of_lt (lt_of_getElem? hu)), hu], .refl task'⟩

theorem succeeds_cancelled (task : Task κ) : Succeeds task (cancelled task) := by
  obtain ⟨kind, key, phase⟩ := task
  refine ⟨rfl, rfl, ?_⟩
  cases kind <;> cases phase <;> simp [Phase.over, cancelled, cancelledPhase]

theorem Carries.cancelled {c : TaskId → Prop} [DecidablePred c]
    (h : ∀ t, v.tasks[t]? = if c t then w.tasks[t]?.map cancelled else w.tasks[t]?) :
    Carries w v := by
  intro t task ht
  rw [h, ht]
  split
  · exact ⟨_, rfl, succeeds_cancelled task⟩
  · exact ⟨task, rfl, .refl task⟩

variable [DecidableEq κ]

theorem Cached.carries {key : κ} {hit : Bool} {image : Option Bytes}
    (hc : Cached w key v hit image) : Carries w v := fun _ task ht => ⟨task, hc.task ht, .refl task⟩

-- ---------------------------------------------------------------------------
-- Steps
-- ---------------------------------------------------------------------------

theorem Move.carries (hm : Move cfg w l v) : Carries w v := by
  cases hm with
  | tick => exact .refl w
  | hit hc => exact hc.carries.trans (.spawn _ _)
  | miss hc => exact hc.carries.trans (.spawn _ _)
  | start ht => exact Carries.setPhase ht rfl
  | @lockHit _ _ _ v _ hw ht hc =>
    exact Carries.trans (v := v) hc.carries (.setPhase (hc.task ht) rfl)
  | @lockMiss _ _ _ v _ hw ht hc =>
    exact Carries.trans (v := v) hc.carries (.setPhase (hc.task ht) rfl)
  | refreshSkip hw ht hp =>
    refine Carries.setPhase ht ?_
    rcases hp with ⟨_, rfl⟩ | rfl <;> rfl
  | refreshCapture hw ht => exact Carries.setPhase ht rfl
  | cool hw ht => exact Carries.setPhase ht rfl
  | fallback ht => exact Carries.setPhase ht rfl
  | captureRaised ht => exact Carries.setPhase ht rfl
  | captured ht => exact Carries.setPhase ht rfl
  | refreshFailed ht => exact Carries.setPhase ht rfl
  | refreshed ht => exact Carries.setPhase ht rfl
  | expireGet ht => exact Carries.setPhase ht rfl
  | expireRefresh ht => exact Carries.setPhase ht rfl
  | expireCapture ht => exact Carries.setPhase ht rfl
  | cancel => exact .cancelled (tasks_cancelTask w _)
  | unwindGet ht => exact Carries.setPhase ht rfl
  | unwindCool ht => exact Carries.setPhase ht rfl
  | unwindRefresh ht => exact Carries.setPhase ht rfl
  | forget ht =>
    unfold refreshDone
    split <;> exact Carries.setPhase ht rfl
  | discard => exact .cancelled (tasks_discard w _)
  | clear => exact .cancelled (tasks_clear w)

theorem carries_run {ls : List (Label κ)} (h : Machine.exec (step cfg) w ls = some v) :
    Carries w v :=
  Machine.relation (I := fun _ => True) Carries.refl (fun _ _ _ => Carries.trans)
    (fun _ _ _ _ _ => trivial) (fun _ _ _ _ hs => (step_move hs).carries) trivial h

/-- A task that stores something is a refresh, or answers its caller in that
step. -/
theorem Move.stores {t : TaskId} (hm : Move cfg w l v) (ha : v.actor l = some t) :
    OnlyExpired w v ∨
      ∃ task, v.tasks[t]? = some task ∧ (task.kind = .refresh ∨ task.phase.answered = true) := by
  -- The task a step leaves behind in phase `p`.
  have left {x : World κ} {task : Task κ} {p : Phase} (hx : x.tasks[t]? = some task) :
      (x.setPhase t p).tasks[t]? = some ⟨task.kind, task.key, p⟩ := by simp [tasks_setPhase, hx]
  cases hm with
  | tick => cases ha
  | @hit v key image hc =>
    cases ha
    exact .inr ⟨⟨.get, key, .returned image⟩, by simp [spawn], .inr rfl⟩
  | miss hc =>
    cases hc with
    | miss => exact .inl ⟨.inr rfl, fun _ _ _ _ h => h⟩
  | start ht => exact .inl (.same rfl rfl)
  | lockHit hw ht hc => cases ha; exact .inr ⟨_, left (hc.task ht), .inr rfl⟩
  | lockMiss hw ht hc =>
    cases hc with
    | miss => exact .inl ⟨.inr rfl, fun _ _ _ _ h => by simpa [sweep] using h⟩
  | refreshSkip hw ht => exact .inl (.same rfl rfl)
  | refreshCapture hw ht => exact .inl ⟨.inl rfl, fun _ _ _ _ h => by simpa using h⟩
  | cool hw ht => cases ha; exact .inr ⟨_, left ht, .inl rfl⟩
  | fallback ht => cases ha; exact .inr ⟨_, left ht, .inr rfl⟩
  | captureRaised ht => cases ha; exact .inr ⟨_, left ht, .inr rfl⟩
  | captured ht => cases ha; exact .inr ⟨_, left ht, .inr rfl⟩
  | refreshFailed ht => cases ha; exact .inr ⟨_, left ht, .inl rfl⟩
  | refreshed ht => cases ha; exact .inr ⟨_, left ht, .inl rfl⟩
  | expireGet ht => exact .inl (.same rfl rfl)
  | expireRefresh ht => exact .inl (.same rfl rfl)
  | expireCapture ht => exact .inl (.same rfl rfl)
  | cancel =>
    obtain ⟨-, hc, -, -, hl⟩ := cancelTask_frame w _
    exact .inl (.same hc hl)
  | unwindGet ht => exact .inl (.same rfl rfl)
  | unwindCool ht => exact .inl (.same rfl rfl)
  | unwindRefresh ht => exact .inl (.same rfl rfl)
  | forget ht => exact .inl (by unfold refreshDone; split <;> exact .same rfl rfl)
  | discard => cases ha
  | clear => cases ha

-- ---------------------------------------------------------------------------
-- Runs
-- ---------------------------------------------------------------------------

/-- A step made by a call that stays unanswered stored nothing. -/
theorem onlyExpired_of_ended {u : World κ} {post : List (Label κ)} {t : TaskId} {key : κ}
    {ending : Ending} (hstep : step cfg u l = some v)
    (hpost : Machine.exec (step cfg) v post = some w) (ha : v.actor l = some t)
    (ht : w.tasks[t]? = some ⟨.get, key, .ended ending⟩) : OnlyExpired u v := by
  rcases (step_move hstep).stores ha with h | ⟨task, htask, hk⟩
  · exact h
  · obtain ⟨task', htask', hkind, -, hphase⟩ := carries_run hpost t task htask
    obtain rfl : task' = ⟨.get, key, .ended ending⟩ := Option.some.inj (htask'.symm.trans ht)
    rcases hk with hk | hk
    · rw [hk] at hkind
      cases hkind
    · rw [← hphase (over_of_answered hk)] at hk
      cases hk

/-- Serialisation and clean failure, in every state `w` that a run `ls`
reaches. -/
theorem serialised {now : Int} {ls : List (Label κ)}
    (h : Machine.exec (step cfg) (init now) ls = some w) :
    (∀ t u, w.holding t = true → w.holding u = true → t = u) ∧
    (∀ (key : κ) (t u : TaskId) (p q : Phase), w.tasks[t]? = some ⟨.refresh, key, p⟩ →
      p.live = true → w.tasks[u]? = some ⟨.refresh, key, q⟩ → q.live = true → t = u) ∧
    (∀ key t, w.refreshTasks.get? key = some t →
      ∃ p, w.tasks[t]? = some ⟨.refresh, key, p⟩ ∧ p ≠ .forgotten) ∧
    (∀ t u key v, step cfg w (.doneCallback t) = some v → u ≠ t →
      w.refreshTasks.get? key = some u → v.refreshTasks.get? key = some u) ∧
    (w.holder = none ↔ ∀ t, w.holding t = false) ∧
    (∀ (t : TaskId) (key : κ) (ending : Ending), w.tasks[t]? = some ⟨.get, key, .ended ending⟩ →
      ∀ pre l post u v, ls = pre ++ l :: post → Machine.exec (step cfg) (init now) pre = some u →
        step cfg u l = some v → v.actor l = some t → OnlyExpired u v) := by
  have hlock := lockOk_run h
  have hreg := registryOk_run h
  refine ⟨fun t u => hlock.unique, fun key t u p q => hreg.unique, fun key t => hreg.known,
    fun t u key v => registered_of_doneCallback, hlock.free, ?_⟩
  rintro t key ending ht pre l post u v rfl hpre hstep ha
  obtain ⟨u', hu', hrest⟩ := Machine.exec_append.mp h
  obtain ⟨v', hv', hpost⟩ := Machine.exec_cons.mp hrest
  obtain rfl : u = u' := Option.some.inj (hpre.symm.trans hu')
  obtain rfl : v = v' := Option.some.inj (hstep.symm.trans hv')
  exact onlyExpired_of_ended hstep hpost ha ht

/-- A cancelled capture with a second request behind it. -/
theorem serialised_cancelled :
    ∃ w : World Nat, Machine.exec (step .default) (init 0)
      [.call 1, .acquire 0, .call 2, .tick 1, .cancel 0, .unwound 0, .acquire 1] = some w ∧
      w.tasks[0]? = some ⟨.get, 1, .ended .cancelled⟩ ∧ w.holding 1 = true ∧ w.holder = some 1 ∧
      (∀ t u, w.holding t = true → w.holding u = true → t = u) := by
  have h : Machine.exec (step .default) (init 0)
    [.call 1, .acquire 0, .call 2, .tick 1, .cancel 0, .unwound 0, .acquire 1] = some _ := rfl
  exact ⟨_, h, rfl, rfl, rfl, (serialised h).1⟩

end World

end EufyNvr.Snapshot
