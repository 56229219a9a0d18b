import EufyNvr.Snapshot.Lock

/-!
# Bounded staleness and bounded size

An image a call hands out was stored by a capture of the same camera less
than the stale limit before the look-up, and the cache never holds more than
its maximum of entries. Cool-downs move only the time at which the next
refresh may start.
-/

namespace EufyNvr.Snapshot

/-- The entry a capture took aside before it started. -/
def Phase.stale? : Phase → Option Entry
  | .capturing _ _ stale => stale
  | _ => none

theorem holds_of_stale? {p : Phase} {e : Entry} (h : p.stale? = some e) : p.holds = true := by
  cases p with
  | capturing => rfl
  | _ => cases h

namespace World

variable {κ : Type} {cfg : Limits} {w v : World κ} {l : Label κ}

/-- The image of `e`, if there is one, was stored for `key`, and `e` runs out
one stale limit after that. -/
def Sourced (cfg : Limits) (w : World κ) (key : κ) (e : Entry) : Prop :=
  truthy e.image = true → ∃ t b s, e.image = some b ∧ .stored t key b s ∈ w.log ∧ s ≤ w.now ∧
    e.staleUntil = s + cfg.staleTtl

/-- An image looked up at `time` was stored for `key` within the stale limit. -/
def Backed (cfg : Limits) (w : World κ) (key : κ) (image : Option Bytes) (time : Int) : Prop :=
  truthy image = true → ∃ t b s, image = some b ∧ .stored t key b s ∈ w.log ∧ s ≤ time ∧
    time < s + cfg.staleTtl

theorem Sourced.mono {key : κ} {e : Entry} (h : Sourced cfg w key e) (hl : w.log ⊆ v.log)
    (hn : w.now ≤ v.now) : Sourced cfg v key e := by
  intro he
  obtain ⟨t, b, s, hb, hs, hsn, hu⟩ := h he
  exact ⟨t, b, s, hb, hl hs, le_trans hsn hn, hu⟩

theorem Backed.mono {key : κ} {image : Option Bytes} {time : Int} (h : Backed cfg w key image time)
    (hl : w.log ⊆ v.log) : Backed cfg v key image time := by
  intro hi
  obtain ⟨t, b, s, hb, hs, hst, hts⟩ := h hi
  exact ⟨t, b, s, hb, hl hs, hst, hts⟩

/-- A look-up that finds an entry in time hands out a backed image. -/
theorem Sourced.backed {key : κ} {e : Entry} (h : Sourced cfg w key e) (he : w.now < e.staleUntil) :
    Backed cfg w key e.image w.now := by
  intro hi
  obtain ⟨t, b, s, hb, hs, hsn, hu⟩ := h hi
  exact ⟨t, b, s, hb, hs, hsn, hu ▸ he⟩

theorem Sourced.cooled {key : κ} {e : Entry} {fresh : Int} (h : Sourced cfg w key e) :
    Sourced cfg w key ⟨fresh, e.staleUntil, e.image⟩ := h

-- ---------------------------------------------------------------------------
-- The tasks that took an entry aside
-- ---------------------------------------------------------------------------

theorem tasks_of_setPhase {t u : TaskId} {p : Phase} {task : Task κ} (hp : p.stale? = none)
    (h : (w.setPhase t p).tasks[u]? = some task) :
    task.phase.stale? = none ∨ w.tasks[u]? = some task := by
  rw [tasks_setPhase] at h
  split at h
  · obtain ⟨_, -, rfl⟩ := Option.map_eq_some_iff.mp h
    exact .inl hp
  · exact .inr h

theorem tasks_of_spawn {u : TaskId} {task task' : Task κ} (hp : task'.phase.stale? = none)
    (h : (w.spawn task').tasks[u]? = some task) :
    task.phase.stale? = none ∨ w.tasks[u]? = some task := by
  rw [tasks_spawn] at h
  split at h
  · cases h; exact .inl hp
  · exact .inr h

theorem tasks_of_cancelled {u : TaskId} {task : Task κ} {c : Prop} [Decidable c]
    (hc : v.tasks[u]? = if c then w.tasks[u]?.map cancelled else w.tasks[u]?)
    (h : v.tasks[u]? = some task) : task.phase.stale? = none ∨ w.tasks[u]? = some task := by
  rw [hc] at h
  split at h
  · obtain ⟨⟨kind, key, phase⟩, -, rfl⟩ := Option.map_eq_some_iff.mp h
    cases kind <;> cases phase <;> exact .inl rfl
  · exact .inr h

-- ---------------------------------------------------------------------------
-- The invariant
-- ---------------------------------------------------------------------------

variable [DecidableEq κ]

structure StaleOk (cfg : Limits) (w : World κ) : Prop where
  size : w.cache.size ≤ cfg.maxEntries
  entry : ∀ {key e}, w.cache.get? key = some e → Sourced cfg w key e
  /-- A capture in progress has room to write its entry back. -/
  room : ∀ {t : TaskId} {task : Task κ} {e}, w.tasks[t]? = some task →
    task.phase.stale? = some e → (w.cache.erase task.key).size < cfg.maxEntries
  stale : ∀ {t : TaskId} {task : Task κ} {e}, w.tasks[t]? = some task →
    task.phase.stale? = some e →
    Sourced cfg w task.key e ∧ (task.kind = .get → truthy e.image = false)
  returned : ∀ {t key image time}, .returned t key image time ∈ w.log →
    Backed cfg w key image time

-- ---------------------------------------------------------------------------
-- Steps that store nothing
-- ---------------------------------------------------------------------------

theorem keys_subset {d d' : Dict κ Entry}
    (h : ∀ k e, d'.get? k = some e → d.get? k = some e) : ∀ k ∈ d'.keys, k ∈ d.keys := by
  intro k hk
  obtain ⟨e, he⟩ := Dict.mem_keys.mp hk
  exact Dict.mem_keys.mpr ⟨e, h k e he⟩

theorem StaleOk.shrink (h : StaleOk cfg w)
    (hc : ∀ k e, v.cache.get? k = some e → w.cache.get? k = some e) (hn : w.now ≤ v.now)
    (ht : ∀ (t : TaskId) task, v.tasks[t]? = some task →
      task.phase.stale? = none ∨ w.tasks[t]? = some task)
    (hl : w.log ⊆ v.log)
    (hr : ∀ t key image time, .returned t key image time ∈ v.log →
      .returned t key image time ∈ w.log ∨ Backed cfg v key image time) : StaleOk cfg v where
  size := le_trans (Dict.size_le_of_subset (keys_subset hc)) h.size
  entry he := (h.entry (hc _ _ he)).mono hl hn
  room {t task e} htask he := by
    rcases ht t task htask with hs | hw
    · rw [hs] at he; cases he
    · refine lt_of_le_of_lt (Dict.size_le_of_subset (keys_subset fun k e hk => ?_)) (h.room hw he)
      rw [Dict.get?_erase] at hk ⊢
      split at hk
      · cases hk
      · rw [if_neg ‹_›]; exact hc k e hk
  stale {t task e} htask he := by
    rcases ht t task htask with hs | hw
    · rw [hs] at he; cases he
    · exact ⟨(h.stale hw he).1.mono hl hn, (h.stale hw he).2⟩
  returned {t key image time} hm := by
    rcases hr t key image time hm with hw | hb
    · exact (h.returned hw).mono hl
    · exact hb

/-- The common case: the log and the clock stay. -/
theorem StaleOk.quiet (h : StaleOk cfg w)
    (hc : ∀ k e, v.cache.get? k = some e → w.cache.get? k = some e) (hn : v.now = w.now)
    (ht : ∀ (t : TaskId) task, v.tasks[t]? = some task →
      task.phase.stale? = none ∨ w.tasks[t]? = some task)
    (hl : v.log = w.log) : StaleOk cfg v :=
  h.shrink hc (le_of_eq hn.symm) ht (fun _ he => hl ▸ he) fun _ _ _ _ he => .inl (hl ▸ he)

theorem StaleOk.congr (h : StaleOk cfg w) (hc : v.cache = w.cache) (hn : v.now = w.now)
    (ht : v.tasks = w.tasks) (hl : v.log = w.log) : StaleOk cfg v :=
  h.quiet (fun _ _ hk => hc ▸ hk) hn (fun _ _ hk => .inr (ht ▸ hk)) hl

theorem StaleOk.setPhase {t : TaskId} {p : Phase} (h : StaleOk cfg w) (hp : p.stale? = none) :
    StaleOk cfg (w.setPhase t p) :=
  h.quiet (fun _ _ => id) rfl (fun _ _ => tasks_of_setPhase hp) rfl

theorem StaleOk.spawn {task : Task κ} (h : StaleOk cfg w) (hp : task.phase.stale? = none) :
    StaleOk cfg (w.spawn task) :=
  h.quiet (fun _ _ => id) rfl (fun _ _ => tasks_of_spawn hp) rfl

theorem StaleOk.sweep (h : StaleOk cfg w) : StaleOk cfg w.sweep :=
  h.quiet (fun _ _ hk => (get?_sweep.mp hk).1) rfl (fun _ _ => .inr) rfl

theorem StaleOk.cached {key : κ} {hit : Bool} {image : Option Bytes} (h : StaleOk cfg w)
    (hc : Cached w key v hit image) : StaleOk cfg v := by
  have htouch : StaleOk cfg (w.sweep.touch key) :=
    h.sweep.quiet (fun _ _ hk => by simpa [touch] using hk) rfl (fun _ _ => .inr) rfl
  cases hc with
  | fresh => exact htouch
  | stale =>
    unfold startRefresh
    split
    · exact htouch
    · exact (htouch.spawn rfl).quiet (fun _ _ => id) rfl (fun _ _ => .inr) rfl
  | miss => exact h.sweep

/-- What `_cached` hands out is backed. -/
theorem StaleOk.backed {key : κ} {image : Option Bytes} (h : StaleOk cfg w)
    (hc : Cached w key v true image) : Backed cfg v key image w.now := by
  cases hc with
  | fresh he hs => exact ((h.entry he).backed hs).mono fun _ => id
  | stale he hs =>
    refine ((h.entry he).backed hs).mono ?_
    unfold startRefresh
    split <;> exact fun _ => id

theorem StaleOk.recordReturned {t : TaskId} {key : κ} {image : Option Bytes} {time : Int}
    (h : StaleOk cfg w) (hb : Backed cfg w key image time) :
    StaleOk cfg (w.record (.returned t key image time)) := by
  refine h.shrink (fun _ _ => id) le_rfl (fun _ _ => .inr) (by simp) fun u k i s hm => ?_
  rw [record_log, List.mem_append, List.mem_singleton] at hm
  rcases hm with hm | hm
  · exact .inl hm
  · cases hm
    exact .inr (hb.mono (by simp))

-- ---------------------------------------------------------------------------
-- Steps that store
-- ---------------------------------------------------------------------------

omit [DecidableEq κ] in
theorem stale?_of_free {t : TaskId} {task : Task κ} (h : LockOk w) (hw : w.holder = none)
    (ht : w.tasks[t]? = some task) : task.phase.stale? = none := by
  have hn := h.free.mp hw t
  rw [holding_of ht] at hn
  cases hs : task.phase.stale? with
  | none => rfl
  | some e => rw [holds_of_stale? hs] at hn; cases hn

theorem size_put_le (w : World κ) (key : κ) (e : Entry) :
    (w.put key e).cache.size ≤ (w.cache.erase key).size + 1 := by
  refine le_trans (Dict.size_le_erase _ key) (Nat.add_le_add_right ?_ 1)
  refine Dict.size_le_of_subset (keys_subset fun k e' hk => ?_)
  rw [Dict.get?_erase, get?_put] at hk
  rw [Dict.get?_erase]
  by_cases hne : k = key
  · simp [hne] at hk
  · simpa [hne] using hk

/-- A step that leaves the lock free may write one entry that is sourced. -/
theorem StaleOk.store (h : StaleOk cfg w) (hv : LockOk v) (hfree : v.holder = none) (key : κ)
    (e : Entry) (hsize : v.cache.size ≤ cfg.maxEntries) (he : Sourced cfg v key e)
    (hc : ∀ k e', v.cache.get? k = some e' → (k = key ∧ e' = e) ∨ w.cache.get? k = some e')
    (hn : v.now = w.now) (hl : w.log ⊆ v.log)
    (hr : ∀ t key image time, .returned t key image time ∈ v.log →
      .returned t key image time ∈ w.log ∨ Backed cfg v key image time) : StaleOk cfg v where
  size := hsize
  entry {k e'} hk := by
    rcases hc k e' hk with ⟨rfl, rfl⟩ | hw
    · exact he
    · exact (h.entry hw).mono hl (le_of_eq hn.symm)
  room ht hs := by rw [stale?_of_free hv hfree ht] at hs; cases hs
  stale ht hs := by rw [stale?_of_free hv hfree ht] at hs; cases hs
  returned {t k image time} hm := by
    rcases hr t k image time hm with hw | hb
    · exact (h.returned hw).mono hl
    · exact hb

theorem StaleOk.coolDown {key : κ} {now : Int} {e : Entry} (h : StaleOk cfg w) (hw : LockOk w)
    (hfree : w.holder = none) (hroom : (w.cache.erase key).size < cfg.maxEntries)
    (he : Sourced cfg w key e) : StaleOk cfg (coolDown cfg w key now e) := by
  refine h.store (hw.congr rfl fun _ => rfl) hfree key
    ⟨now + cfg.failureTtl, e.staleUntil, e.image⟩ (le_trans (size_put_le ..) hroom) he ?_ rfl
    (fun _ => id) fun _ _ _ _ => .inl
  intro k e' hk
  rw [get?_coolDown] at hk
  split at hk
  · exact .inl ⟨‹_›, (Option.some.inj hk).symm⟩
  · exact .inr hk

theorem truthy_eq_some {image : Option Bytes} (h : truthy image = true) :
    ∃ b bs, image = some (b :: bs) := by
  match image, h with
  | some (b :: bs), _ => exact ⟨b, bs, rfl⟩

theorem StaleOk.remember {t : TaskId} {key : κ} {image : Option Bytes} (h : StaleOk cfg w)
    (hw : LockOk w) (hfree : w.holder = none) : StaleOk cfg (remember cfg w t key image) := by
  refine h.store (hw.congr rfl fun _ => rfl) hfree key (remembered cfg w.now image)
    (Dict.size_popDownTo (Nat.le_add_left ..)) ?_ ?_ rfl ?_ ?_
  · intro hi
    obtain ⟨b, bs, rfl⟩ := truthy_eq_some hi
    exact ⟨t, b :: bs, w.now, rfl, by simp [World.remember, storedEvents], le_rfl,
      by simp [remembered, truthy]⟩
  · exact fun k e' hk => get?_of_remember hk
  · exact fun _ he => List.mem_append_left _ he
  · intro u k i s hm
    rcases List.mem_append.mp hm with hm | hm
    · exact .inl hm
    · unfold storedEvents at hm
      split at hm <;> simp at hm

theorem StaleOk.beginCapture {t : TaskId} {task : Task κ} {due : Int} (h : StaleOk cfg w)
    (ht : w.tasks[t]? = some task)
    (hg : task.kind = .get → ∀ e, w.cache.get? task.key = some e → truthy e.image = false) :
    StaleOk cfg (w.beginCapture t task.key due) := by
  -- The tasks of the new state: `t`, which took the entry aside, and the others.
  have htasks : ∀ (u : TaskId) task', (w.beginCapture t task.key due).tasks[u]? = some task' →
      (task' = { task with phase := .capturing due w.now (w.cache.get? task.key) }) ∨
        w.tasks[u]? = some task' := by
    intro u task' hu
    rw [beginCapture_tasks, tasks_setPhase] at hu
    split at hu
    · rename_i hut
      rw [hut, ht] at hu
      exact .inl (Option.some.inj hu).symm
    · exact .inr hu
  have hlog : w.log ⊆ (w.beginCapture t task.key due).log := by simp
  refine ⟨h.size, fun hk => (h.entry hk).mono hlog le_rfl, ?_, ?_, ?_⟩
  · intro u task' e hu he
    rcases htasks u task' hu with rfl | hu
    · have hroom := Dict.size_erase_of_mem (Dict.mem_keys.mpr ⟨e, he⟩)
      have hsize := h.size
      simp only [beginCapture_cache]
      omega
    · exact h.room hu he
  · intro u task' e hu he
    rcases htasks u task' hu with rfl | hu
    · exact ⟨(h.entry he).mono hlog le_rfl, fun hkind => hg hkind e he⟩
    · exact ⟨(h.stale hu he).1.mono hlog le_rfl, (h.stale hu he).2⟩
  · intro u key image time hm
    rw [beginCapture_log, List.mem_append, List.mem_singleton] at hm
    rcases hm with hm | hm
    · exact (h.returned hm).mono hlog
    · cases hm

-- ---------------------------------------------------------------------------
-- Steps and runs
-- ---------------------------------------------------------------------------

theorem StaleOk.giveBack {t : TaskId} {key : κ} {image : Option Bytes} {time : Int}
    (h : StaleOk cfg w) (hb : Backed cfg w key image time) :
    StaleOk cfg (w.giveBack t key image time) :=
  (h.setPhase (p := .returned image) rfl).recordReturned (hb.mono fun _ => id)

/-- A fresh capture is backed by itself. -/
theorem backed_remember {t : TaskId} {key : κ} {image : Option Bytes} :
    Backed cfg (remember cfg w t key image) key image w.now := by
  intro hi
  obtain ⟨b, bs, rfl⟩ := truthy_eq_some hi
  have httl := cfg.ttl_pos
  have hstale := cfg.ttl_le_staleTtl
  exact ⟨t, b :: bs, w.now, rfl, by simp [World.remember, storedEvents], le_rfl, by omega⟩

theorem StaleOk.move (h : StaleOk cfg w) (hw : LockOk w) (hm : Move cfg w l v) :
    StaleOk cfg v := by
  have hpop : StaleOk cfg w.popQueue := h.congr rfl rfl rfl rfl
  -- A task that leaves the lock in phase `p`, before it writes.
  have hleave {t : TaskId} {task : Task κ} (p : Phase) (ht : w.tasks[t]? = some task)
      (hp : task.phase.holds = true) (hq : p.holds = false) (hs : p.stale? = none) :
      StaleOk cfg (w.release.setPhase t p) ∧ LockOk (w.release.setPhase t p) :=
    ⟨StaleOk.setPhase (w := w.release) (h.congr rfl rfl rfl rfl) hs,
      hw.leave ((holding_of ht).trans hp) hq⟩
  cases hm with
  | tick hd =>
    exact h.shrink (fun _ _ => id) (by simpa using hd) (fun _ _ => .inr) (fun _ => id)
      fun _ _ _ _ => .inl
  | @hit v key image hc =>
    have hs : StaleOk cfg (v.spawn ⟨.get, key, .returned image⟩) := (h.cached hc).spawn rfl
    exact hs.recordReturned ((h.backed hc).mono fun _ => id)
  | miss hc => exact ((h.cached hc).spawn rfl).congr rfl rfl rfl rfl
  | start ht => exact StaleOk.setPhase (w := w.enqueue _) (h.congr rfl rfl rfl rfl) rfl
  | lockHit hfree ht hc => exact (hpop.cached hc).giveBack (hpop.backed hc)
  | lockMiss hfree ht hc =>
    refine (hpop.cached hc).beginCapture (hc.task ht) fun _ e he => ?_
    cases hc with
    | miss hmiss =>
      obtain ⟨hk, hs⟩ := get?_sweep.mp he
      exact (hmiss e hk hs).2
  | refreshSkip hfree ht => exact hpop.setPhase rfl
  | refreshCapture hfree ht => exact hpop.beginCapture ht fun hkind => by cases hkind
  | @cool t key e hfree ht he hs =>
    have hcool : StaleOk cfg (World.coolDown cfg w.popQueue key w.now e) := by
      refine hpop.coolDown (hw.congr rfl fun _ => rfl) hfree ?_ (h.entry he)
      have hroom := Dict.size_erase_of_mem (Dict.mem_keys.mpr ⟨_, he⟩)
      have hsize := h.size
      simp only [popQueue_cache]
      omega
    exact hcool.setPhase rfl
  | fallback ht htr =>
    have hf := (h.stale ht rfl).2 rfl
    rw [htr] at hf
    cases hf
  | captureRaised ht =>
    obtain ⟨hs, hl⟩ := hleave .raised ht rfl rfl rfl
    exact hs.remember hl rfl
  | @captured t key due now stale image ht =>
    obtain ⟨hs, hl⟩ := hleave (.returned image) ht rfl rfl rfl
    exact (hs.remember (t := t) hl rfl).recordReturned
      (backed_remember.mono fun _ => id)
  | refreshFailed ht =>
    obtain ⟨hs, hl⟩ := hleave .finished ht rfl rfl rfl
    exact hs.coolDown hl rfl (h.room ht rfl) ((h.stale ht rfl).1.mono (fun _ => id) le_rfl)
  | refreshed ht =>
    obtain ⟨hs, hl⟩ := hleave .finished ht rfl rfl rfl
    exact hs.remember hl rfl
  | expireGet ht => exact StaleOk.setPhase (w := w.leaveQueue _) (h.congr rfl rfl rfl rfl) rfl
  | expireRefresh ht =>
    exact StaleOk.setPhase (w := (w.leaveQueue _).enqueue _) (h.congr rfl rfl rfl rfl) rfl
  | expireCapture ht => exact h.setPhase rfl
  | @cancel t =>
    obtain ⟨hn, hc, -, -, hl⟩ := cancelTask_frame w t
    exact h.quiet (fun _ _ hk => hc ▸ hk) hn
      (fun u _ => tasks_of_cancelled (tasks_cancelTask w t u)) hl
  | unwindGet ht => exact (hleave _ ht rfl rfl rfl).1
  | unwindCool ht => exact (hleave .cooling ht rfl rfl rfl).1.congr rfl rfl rfl rfl
  | unwindRefresh ht => exact (hleave _ ht rfl rfl rfl).1
  | forget ht =>
    unfold refreshDone
    split
    · exact StaleOk.setPhase (w := { w with refreshTasks := _ }) (h.congr rfl rfl rfl rfl) rfl
    · exact h.setPhase rfl
  | @discard key =>
    obtain ⟨hn, hc, -, hl⟩ := discard_frame w key
    have hd : StaleOk cfg (w.discard key) := by
      refine h.quiet (fun k e hk => ?_) hn
        (fun u _ => tasks_of_cancelled (tasks_discard w key u)) hl
      rw [hc, Dict.get?_erase] at hk
      split at hk
      · cases hk
      · exact hk
    refine hd.shrink (fun _ _ => id) le_rfl (fun _ _ => .inr) (by simp) fun u k i s he => ?_
    exact .inl (by simpa using he)
  | clear =>
    obtain ⟨hn, hc, -, -, hl⟩ := clear_frame w
    have hd : StaleOk cfg w.clear := by
      refine h.quiet (fun k e hk => ?_) hn (fun u _ => tasks_of_cancelled (tasks_clear w u)) hl
      rw [hc] at hk
      cases hk
    refine hd.shrink (fun _ _ => id) le_rfl (fun _ _ => .inr) (by simp) fun u k i s he => ?_
    exact .inl (by simpa using he)

theorem staleOk_init (now : Int) : StaleOk cfg (init (κ := κ) now) where
  size := Nat.zero_le _
  entry h := by simp [init] at h
  room h := by simp [init] at h
  stale h := by simp [init] at h
  returned h := by simp [init] at h

theorem staleOk_run {now : Int} {ls : List (Label κ)}
    (h : Machine.exec (step cfg) (init now) ls = some w) : StaleOk cfg w :=
  (Machine.invariant (I := fun w => StaleOk cfg w ∧ LockOk w)
    (fun _ _ _ hi hs => ⟨hi.1.move hi.2 (step_move hs), hi.2.move (step_move hs)⟩)
    ⟨staleOk_init now, lockOk_init now⟩ h).1

/-- A stored image is the result of the capture that is recorded with it. -/
theorem Move.captured_of_stored {t : TaskId} {key : κ} {b : Bytes} {s : Int}
    (hm : Move cfg w l v) (hn : .stored t key b s ∉ w.log) (hs : .stored t key b s ∈ v.log) :
    l = .capture t (.image (some b)) ∧ w.now = s ∧
      ∃ kind due now stale, w.tasks[t]? = some ⟨kind, key, .capturing due now stale⟩ := by
  obtain ⟨es, hlog, hes⟩ := hm.log
  rw [hlog] at hs
  have hs := (List.mem_append.mp hs).resolve_left hn
  cases hes with
  | silent | returned | started | discarded | cleared => simp at hs
  | stored ht hr =>
    rcases List.mem_cons.mp hs with hs | hs
    · cases hs
      exact ⟨rfl, rfl, _, _, _, _, ht⟩
    · rcases hr with rfl | rfl <;> simp at hs

/-- What the log of a run says was stored, a capture of the run returned. -/
theorem captured_of_run {now : Int} {ls : List (Label κ)} {t : TaskId} {key : κ} {b : Bytes}
    {s : Int} (h : Machine.exec (step cfg) (init now) ls = some w)
    (hs : .stored t key b s ∈ w.log) :
    ∃ pre post u, ls = pre ++ .capture t (.image (some b)) :: post ∧
      Machine.exec (step cfg) (init now) pre = some u ∧ u.now = s ∧
      ∃ kind due start stale, u.tasks[t]? = some ⟨kind, key, .capturing due start stale⟩ := by
  obtain ⟨pre, l, post, u, v, hls, hu, hnu, hstep, hv, -⟩ :=
    Machine.exists_step (P := fun w : World κ => .stored t key b s ∈ w.log) (by simp [init]) hs h
  obtain ⟨rfl, hnow, htask⟩ := (step_move hstep).captured_of_stored hnu hv
  exact ⟨pre, post, u, hls, hu, hnow, htask⟩

/-- Bounded staleness and bounded size, for every configuration and run. -/
theorem bounded {now : Int} {ls : List (Label κ)}
    (h : Machine.exec (step cfg) (init now) ls = some w) :
    w.cache.size ≤ cfg.maxEntries ∧
      ∀ t key b time, .returned t key (some b) time ∈ w.log → b ≠ [] →
        ∃ pre post u t', ls = pre ++ .capture t' (.image (some b)) :: post ∧
          Machine.exec (step cfg) (init now) pre = some u ∧
          (∃ kind due start stale, u.tasks[t']? = some ⟨kind, key, .capturing due start stale⟩) ∧
          u.now ≤ time ∧ time < u.now + cfg.staleTtl := by
  have hok := staleOk_run h
  refine ⟨hok.size, fun t key b time hm hb => ?_⟩
  have htruthy : truthy (some b) = true := by
    cases b with
    | nil => exact absurd rfl hb
    | cons => rfl
  obtain ⟨t', b', s, hb', hs, hst, hts⟩ := hok.returned hm htruthy
  obtain rfl : b = b' := Option.some.inj hb'
  obtain ⟨pre, post, u, hls, hu, rfl, htask⟩ := captured_of_run h hs
  exact ⟨pre, post, u, t', hls, hu, htask, hst, hts⟩

/-- A stale answer four minutes after its capture. -/
theorem bounded_stale :
    ∃ w : World Nat, Machine.exec (step .default) (init 0)
      [.call 1, .acquire 0, .capture 0 (.image (some [7])), .tick (seconds 240), .call 1] =
        some w ∧
      .returned 2 1 (some [7]) (seconds 240) ∈ w.log ∧ w.cache.size ≤ Limits.default.maxEntries := by
  have h : Machine.exec (step .default) (init 0)
    [.call 1, .acquire 0, .capture 0 (.image (some [7])), .tick (seconds 240), .call 1] =
      some _ := rfl
  exact ⟨_, h, by decide, (bounded h).1⟩

end World

end EufyNvr.Snapshot
