import EufyNvr.Gate.Gate

/-!
# One call in close-up

`acquire` and `release` of a gate on POSIX, one call of the system at a time:
the handle, the ticket, the lock, and what the `finally` block undoes. Other
processes take and drop the lock and change the queue directory at any point
in between. A step that fails raises; taking the ticket away does not.

When the preempt marker and the message are due is left out, and so is what
they say: the call goes on in the same way.
-/

namespace EufyNvr.Gate

namespace Acquire

/-- What is to be done next. -/
inductive Point
  | entry
  | opening
  | naming
  | makingQueue
  | writing
  | testing
  | listing
  | scanning (todo kept : List Name)
  | locking (queue : List Name)
  | unmarking
  | reporting
  | waiting
  | unlinking (e : Outcome)
  | releasing (e : Outcome)
  | finished (e : Outcome)
  /-- `_process_start` has raised on the call's own process, before the `try`
  block. -/
  | undecoded
  /-- `release` has been called since. -/
  | closed
  deriving DecidableEq

inductive Owner
  | gate
  | other
  deriving DecidableEq

structure State where
  point : Point
  /-- `self.handle` is open. -/
  handle : Bool
  acquired : Bool
  ticket : Name
  dir : List Name
  lock : Option Owner
  deriving DecidableEq

/-- What `os.kill` and `_process_start` say of a PID. -/
inductive Probe
  | gone
  | denied
  | live (start : List Char)

inductive Label
  -- Other processes.
  | create (n : Name)
  | remove (n : Name)
  | take
  | drop
  -- The call.
  | run
  | fail
  | halfWritten
  | test (stopped : Bool)
  | listed (names : List Name)
  | probe (p : Probe)
  | cancel
  | release

def stale (start : List Char) : Probe → Bool
  | .gone => true
  | .denied => false
  | .live now => start ≠ unknown && now ≠ unknown && now ≠ start

/-- Whether a scan removes the ticket. -/
def dropped (name : Name) (p : Probe) : Bool :=
  match parse name with
  | none => true
  | some (_, start) => stale start p

namespace State

def goto (s : State) (p : Point) : State := { s with point := p }

def put (s : State) (n : Name) : State := { s with dir := n :: s.dir }

def unlink (s : State) (n : Name) : State := { s with dir := s.dir.filter (· ≠ n) }

/-- `release` -/
def release (s : State) : State :=
  if s.handle then
    { s with handle := false, lock := if s.lock = some .gate then none else s.lock }
  else s

/-- The head of the queue tries the lock. -/
def tryLock (s : State) (queue : List Name) : State :=
  if queue = [] ∨ queue.head? = some s.ticket then
    if s.lock = none then { s with lock := some .gate, acquired := true, point := .unmarking }
    else s.goto .reporting
  else s.goto .reporting

/-- The next step of the call, where there is only one. -/
def run (s : State) : Option State :=
  match s.point with
  | .entry => some (s.goto .opening)
  | .opening => some { s with handle := true, point := .naming }
  | .naming => some (s.goto .makingQueue)
  | .makingQueue => some (s.goto .writing)
  | .writing => some ((s.put s.ticket).goto .testing)
  | .scanning [] kept => some (s.goto (.locking kept))
  | .locking queue => some (s.tryLock queue)
  | .unmarking => some (s.goto (.unlinking .acquired))
  | .reporting => some (s.goto .waiting)
  | .waiting => some (s.goto .testing)
  | .unlinking e => some ((s.unlink s.ticket).goto (.releasing e))
  | .releasing e => some ((if s.acquired then s else s.release).goto (.finished e))
  | _ => none

/-- An exception of the next step. -/
def fail (s : State) : Option State :=
  match s.point with
  | .entry | .opening => some (s.goto (.finished .raised))
  | .naming => some (s.goto .undecoded)
  | .makingQueue | .writing | .listing | .scanning .. | .locking _ | .reporting =>
    some (s.goto (.unlinking .raised))
  | _ => none

def probe (s : State) (p : Probe) : Option State :=
  match s.point with
  | .scanning (n :: todo) kept =>
    if dropped n p then some ((s.unlink n).goto (.scanning todo kept))
    else some (s.goto (.scanning todo (kept ++ [n])))
  | _ => none

def step (s : State) : Label → Option State
  | .create n => if n ≠ s.ticket then some (s.put n) else none
  | .remove n => some (s.unlink n)
  | .take => if s.lock = none then some { s with lock := some .other } else none
  | .drop => if s.lock = some .other then some { s with lock := none } else none
  | .run => s.run
  | .fail => s.fail
  | .halfWritten =>
    if s.point = .writing then some ((s.put s.ticket).goto (.unlinking .raised)) else none
  | .test stopped =>
    if s.point = .testing then some (s.goto (if stopped then .unlinking .refused else .listing))
    else none
  | .listed names =>
    if s.point = .listing then some (s.goto (.scanning (names.insertionSort (· ≤ ·)) []))
    else none
  | .probe p => s.probe p
  | .cancel => if s.point = .waiting then some (s.goto (.unlinking .cancelled)) else none
  | .release =>
    match s.point with
    | .finished _ | .undecoded | .closed => some (s.release.goto .closed)
    | _ => none

end State

-- ---------------------------------------------------------------------------
-- What is there at each point
-- ---------------------------------------------------------------------------

/-- The handle is open. -/
def Point.opened : Point → Bool
  | .entry | .opening | .closed => false
  | .finished e => e = .acquired
  | _ => true

/-- The lock is this gate's. -/
def Point.holds : Point → Bool
  | .unmarking => true
  | .unlinking e | .releasing e | .finished e => e = .acquired
  | _ => false

/-- The ticket may be in the directory. -/
def Point.published : Point → Bool
  | .entry | .opening | .naming | .makingQueue | .writing | .releasing _ | .finished _ | .undecoded
  | .closed => false
  | _ => true

structure Inv (s : State) : Prop where
  handle : s.handle = s.point.opened
  lock : s.lock = some .gate ↔ s.point.holds = true
  acquired : s.point ≠ .closed → s.acquired = s.point.holds
  ticket : s.ticket ∈ s.dir → s.point.published = true

/-- A call that has not begun: the gate is free, and its name for a ticket is
not in use. -/
structure Fresh (s : State) : Prop where
  point : s.point = .entry
  handle : s.handle = false
  acquired : s.acquired = false
  lock : s.lock ≠ some .gate
  ticket : s.ticket ∉ s.dir

section

variable {s t : State} {n : Name} {p q : Point} {l : Label}

theorem inv_fresh (h : Fresh s) : Inv s where
  handle := by rw [h.point, h.handle]; rfl
  lock := by simp [h.point, h.lock, Point.holds]
  acquired _ := by rw [h.point, h.acquired]; rfl
  ticket hm := absurd hm h.ticket

-- ---------------------------------------------------------------------------
-- One step
-- ---------------------------------------------------------------------------

/-- Two points with the same handle and lock. -/
structure Alike (p q : Point) : Prop where
  closed : p ≠ .closed
  opened : q.opened = p.opened
  holds : q.holds = p.holds

theorem Inv.goto (h : Inv s) (hp : s.point = p) (ha : Alike p q)
    (hpublished : p.published = true → q.published = true) : Inv (s.goto q) where
  handle := by
    rw [State.goto, h.handle, hp]
    exact ha.opened.symm
  lock := by
    rw [State.goto, h.lock, hp, ha.holds]
  acquired _ := by
    have hacquired := h.acquired (by rw [hp]; exact ha.closed)
    rw [State.goto, hacquired, hp]
    exact ha.holds.symm
  ticket hm := by
    have hs := h.ticket hm
    rw [hp] at hs
    exact hpublished hs

theorem Inv.put (h : Inv s) (hn : n ≠ s.ticket) : Inv (s.put n) where
  handle := h.handle
  lock := h.lock
  acquired := h.acquired
  ticket hm := by
    rcases List.mem_cons.mp hm with heq | hm
    · exact absurd heq.symm hn
    · exact h.ticket hm

theorem Inv.publish (h : Inv s) (hp : s.point = p) (ha : Alike p q)
    (hpublished : q.published = true) : Inv ((s.put s.ticket).goto q) where
  handle := (h.goto hp ha fun _ => hpublished).handle
  lock := (h.goto hp ha fun _ => hpublished).lock
  acquired := (h.goto hp ha fun _ => hpublished).acquired
  ticket _ := hpublished

theorem Inv.unlink (h : Inv s) (n : Name) : Inv (s.unlink n) where
  handle := h.handle
  lock := h.lock
  acquired := h.acquired
  ticket hm := h.ticket (List.mem_of_mem_filter hm)

theorem not_mem_unlink (s : State) (n : Name) : n ∉ (s.unlink n).dir := by
  simp [State.unlink]

theorem release_lock (s : State) (h : s.lock = some .gate → s.handle = true) :
    s.release.lock ≠ some .gate := by
  unfold State.release
  split
  · dsimp only
    split
    · simp
    · assumption
  · rename_i hclosed
    exact fun hlock => hclosed (h hlock)

theorem release_handle (s : State) : s.release.handle = false := by
  unfold State.release
  split
  · rfl
  · rename_i hclosed
    exact Bool.eq_false_iff.mpr hclosed

theorem release_dir (s : State) : s.release.dir = s.dir ∧ s.release.ticket = s.ticket ∧
    s.release.acquired = s.acquired := by
  unfold State.release
  split <;> exact ⟨rfl, rfl, rfl⟩

/-- The lock is never this gate's without an open handle. -/
theorem Inv.handle_of_lock (h : Inv s) (hlock : s.lock = some .gate) : s.handle = true := by
  have hholds := h.lock.mp hlock
  rw [h.handle]
  cases hp : s.point <;> rw [hp] at hholds <;> first | rfl | exact hholds

/-- After `release` nothing is left, whatever was there. -/
theorem Inv.release (h : Inv s) (hpublished : s.point.published = false)
    (hq : q.opened = false) (hholds : q.holds = false)
    (hacquired : q ≠ .closed → s.acquired = false) : Inv (s.release.goto q) where
  handle := (release_handle s).trans hq.symm
  lock := by
    have hlock := release_lock s h.handle_of_lock
    simp [State.goto, hlock, hholds]
  acquired hclosed := ((release_dir s).2.2.trans (hacquired hclosed)).trans hholds.symm
  ticket hm := by
    have hmem : s.ticket ∈ s.dir := by
      rw [← (release_dir s).1, ← (release_dir s).2.1]
      exact hm
    rw [h.ticket hmem] at hpublished
    cases hpublished

theorem Inv.tryLock (h : Inv s) {queue : List Name} (hp : s.point = .locking queue) :
    Inv (s.tryLock queue) := by
  have hreporting : Inv (s.goto .reporting) := h.goto hp ⟨nofun, rfl, rfl⟩ id
  unfold State.tryLock
  split
  · split
    · refine ⟨?_, by simp [Point.holds], fun _ => rfl, fun _ => rfl⟩
      rw [h.handle, hp]
      rfl
    · exact hreporting
  · exact hreporting

/-- The end of the `finally` block: the ticket is not there any more, and the
gate is released unless the lock has been taken. -/
theorem Inv.finish (h : Inv s) {e : Outcome} (hp : s.point = .releasing e) :
    Inv ((if s.acquired then s else s.release).goto (.finished e)) := by
  have hacquired := h.acquired (by rw [hp]; nofun)
  rw [hp] at hacquired
  by_cases hlock : e = .acquired
  · subst hlock
    have htaken : s.acquired = true := hacquired
    rw [htaken, if_pos rfl]
    exact h.goto hp ⟨nofun, rfl, rfl⟩ id
  · have hholds : (Point.finished e).holds = false := decide_eq_false hlock
    have hnot : s.acquired = false := hacquired.trans hholds
    rw [hnot, if_neg Bool.false_ne_true]
    exact h.release (by rw [hp]; rfl) (decide_eq_false hlock) hholds fun _ => hnot

/-- The ticket is gone for good. -/
theorem Inv.unpublish (h : Inv s) {e : Outcome} (hp : s.point = .unlinking e) :
    Inv ((s.unlink s.ticket).goto (.releasing e)) where
  handle := by
    rw [State.goto, State.unlink, h.handle, hp]
    rfl
  lock := by
    rw [State.goto, State.unlink, h.lock, hp]
    rfl
  acquired _ := by
    have hacquired := h.acquired (by rw [hp]; nofun)
    rw [State.goto, State.unlink, hacquired, hp]
    rfl
  ticket hm := absurd hm (not_mem_unlink s s.ticket)

theorem inv_run (h : Inv s) (hrun : s.run = some t) : Inv t := by
  unfold State.run at hrun
  split at hrun <;> rename_i hp <;> cases hrun
  · exact h.goto hp ⟨nofun, rfl, rfl⟩ id
  · refine ⟨rfl, ?_, fun _ => ?_, fun hm => ?_⟩
    · rw [h.lock, hp]
      rfl
    · rw [h.acquired (by rw [hp]; nofun), hp]
      rfl
    · have := h.ticket hm
      rw [hp] at this
      cases this
  · exact h.goto hp ⟨nofun, rfl, rfl⟩ id
  · exact h.goto hp ⟨nofun, rfl, rfl⟩ id
  · exact h.publish hp ⟨nofun, rfl, rfl⟩ rfl
  · exact h.goto hp ⟨nofun, rfl, rfl⟩ id
  · exact h.tryLock hp
  · exact h.goto hp ⟨nofun, rfl, rfl⟩ id
  · exact h.goto hp ⟨nofun, rfl, rfl⟩ id
  · exact h.goto hp ⟨nofun, rfl, rfl⟩ id
  · exact h.unpublish hp
  · exact h.finish hp

theorem inv_fail (h : Inv s) (hfail : s.fail = some t) : Inv t := by
  unfold State.fail at hfail
  split at hfail <;> rename_i hp <;> cases hfail
  · exact h.goto hp ⟨nofun, rfl, rfl⟩ id
  · exact h.goto hp ⟨nofun, rfl, rfl⟩ id
  · exact h.goto hp ⟨nofun, rfl, rfl⟩ id
  all_goals exact h.goto hp ⟨nofun, rfl, rfl⟩ fun _ => rfl

theorem inv_probe (h : Inv s) {r : Probe} (hprobe : s.probe r = some t) : Inv t := by
  unfold State.probe at hprobe
  split at hprobe
  · rename_i hp
    split at hprobe <;> cases hprobe
    · exact (h.unlink _).goto hp ⟨nofun, rfl, rfl⟩ id
    · exact h.goto hp ⟨nofun, rfl, rfl⟩ id
  · cases hprobe

theorem inv_release (h : Inv s) (hpublished : s.point.published = false) :
    Inv (s.release.goto .closed) :=
  h.release hpublished rfl rfl fun hclosed => absurd rfl hclosed

theorem inv_step (h : Inv s) (hstep : s.step l = some t) : Inv t := by
  cases l with
  | create n =>
    rw [State.step] at hstep
    split at hstep <;> cases hstep
    exact h.put ‹_›
  | remove n =>
    cases hstep
    exact h.unlink n
  | take =>
    rw [State.step] at hstep
    split at hstep <;> cases hstep
    rename_i hfree
    refine ⟨h.handle, ?_, h.acquired, h.ticket⟩
    have hnot := mt h.lock.mpr (by rw [hfree]; nofun)
    simp [hnot]
  | drop =>
    rw [State.step] at hstep
    split at hstep <;> cases hstep
    rename_i hother
    refine ⟨h.handle, ?_, h.acquired, h.ticket⟩
    have hnot := mt h.lock.mpr (by rw [hother]; nofun)
    simp [hnot]
  | run => exact inv_run h hstep
  | fail => exact inv_fail h hstep
  | halfWritten =>
    rw [State.step] at hstep
    split at hstep <;> cases hstep
    rename_i hp
    exact h.publish hp ⟨nofun, rfl, rfl⟩ rfl
  | test stopped =>
    rw [State.step] at hstep
    split at hstep <;> cases hstep
    rename_i hp
    cases stopped <;> exact h.goto hp ⟨nofun, rfl, rfl⟩ id
  | listed names =>
    rw [State.step] at hstep
    split at hstep <;> cases hstep
    rename_i hp
    exact h.goto hp ⟨nofun, rfl, rfl⟩ id
  | probe r => exact inv_probe h hstep
  | cancel =>
    rw [State.step] at hstep
    split at hstep <;> cases hstep
    rename_i hp
    exact h.goto hp ⟨nofun, rfl, rfl⟩ id
  | release =>
    rw [State.step] at hstep
    split at hstep <;> cases hstep
    all_goals exact inv_release h (by rw [‹s.point = _›]; rfl)

-- ---------------------------------------------------------------------------
-- Runs
-- ---------------------------------------------------------------------------

theorem inv_exec {ls : List Label} (h : Inv s) (hrun : Machine.exec State.step s ls = some t) :
    Inv t :=
  Machine.invariant (fun _ _ _ hi hs => inv_step hi hs) h hrun

/-- The call has ended. -/
def Point.ended : Point → Bool
  | .finished _ | .undecoded | .closed => true
  | _ => false

/-- What can come after the end: the other processes, and `release`. -/
theorem step_ended (h : s.point.ended = true) (hstep : s.step l = some t) :
    t.point = s.point ∧ l ≠ .release ∨ t.point = .closed := by
  cases l with
  | create n | take | drop =>
    rw [State.step] at hstep
    split at hstep <;> cases hstep
    exact .inl ⟨rfl, nofun⟩
  | remove n =>
    cases hstep
    exact .inl ⟨rfl, nofun⟩
  | run =>
    rw [State.step, State.run] at hstep
    split at hstep <;> rename_i hp <;> cases hstep <;> rw [hp] at h <;> cases h
  | fail =>
    rw [State.step, State.fail] at hstep
    split at hstep <;> rename_i hp <;> cases hstep <;> rw [hp] at h <;> cases h
  | halfWritten | test stopped | listed names | cancel =>
    rw [State.step] at hstep
    split at hstep <;> cases hstep
    rename_i hp
    rw [hp] at h
    cases h
  | probe r =>
    rw [State.step, State.probe] at hstep
    split at hstep
    · rename_i hp
      rw [hp] at h
      cases h
    · cases hstep
  | release =>
    rw [State.step] at hstep
    split at hstep <;> cases hstep
    all_goals exact .inr rfl

/-- Once `release` has been called the call stays closed. -/
theorem exec_ended {ms : List Label} (h : s.point.ended = true)
    (hrun : Machine.exec State.step s ms = some t) :
    t.point.ended = true ∧ (s.point = .closed ∨ .release ∈ ms → t.point = .closed) := by
  induction ms generalizing s with
  | nil =>
    cases hrun
    exact ⟨h, fun hclosed => hclosed.resolve_right List.not_mem_nil⟩
  | cons l ms ih =>
    obtain ⟨u, hu, hrest⟩ := Machine.exec_cons.mp hrun
    rcases step_ended h hu with ⟨hsame, hl⟩ | hclosed
    · obtain ⟨hended, hclose⟩ := ih (by rwa [hsame]) hrest
      refine ⟨hended, fun hor => hclose (hor.imp (fun hs => hsame.trans hs) fun hm => ?_)⟩
      exact (List.mem_cons.mp hm).resolve_left (Ne.symm hl)
    · obtain ⟨hended, hclose⟩ := ih (by rw [hclosed]; rfl) hrest
      exact ⟨hended, fun _ => hclose (.inl hclosed)⟩

theorem release_enabled (h : s.point.ended = true) : ∃ u, s.step .release = some u := by
  rw [State.step]
  split
  · exact ⟨_, rfl⟩
  · exact ⟨_, rfl⟩
  · exact ⟨_, rfl⟩
  · rename_i hfinished hundecoded hclosed
    cases hp : s.point with
    | finished e => exact absurd hp (hfinished e)
    | undecoded => exact absurd hp hundecoded
    | closed => exact absurd hp hclosed
    | _ =>
      rw [hp] at h
      cases h

theorem published_of_ended (h : p.ended = true) : p.published = false := by
  cases p <;> first | rfl | cases h

theorem Inv.not_mem_dir (h : Inv s) (hended : s.point.ended = true) : s.ticket ∉ s.dir := by
  intro hm
  have hpublished := h.ticket hm
  rw [published_of_ended hended] at hpublished
  cases hpublished

/-- However the call ends and whatever the others do: its ticket is not in the
directory, and it has the handle and the lock exactly if it has taken the
lock. From then on it can be released any number of times, and has neither
after the first. -/
theorem acquire_leaves_nothing {e : Outcome} {ls : List Label} (hs : Fresh s)
    (hrun : Machine.exec State.step s ls = some t) (hfinished : t.point = .finished e) :
    t.ticket ∉ t.dir ∧ (t.handle = true ↔ e = .acquired) ∧ (t.lock = some .gate ↔ e = .acquired) ∧
      ∀ ms u, Machine.exec State.step t ms = some u →
        u.ticket ∉ u.dir ∧ (∃ v, u.step .release = some v) ∧
          (.release ∈ ms → u.handle = false ∧ u.lock ≠ some .gate) := by
  have hinv := inv_exec (inv_fresh hs) hrun
  have hended : t.point.ended = true := by rw [hfinished]; rfl
  refine ⟨hinv.not_mem_dir hended, ?_, ?_, fun ms u hms => ?_⟩
  · rw [hinv.handle, hfinished]
    exact decide_eq_true_iff
  · rw [hinv.lock, hfinished]
    exact decide_eq_true_iff
  · obtain ⟨hends, hcloses⟩ := exec_ended hended hms
    have hinv' := inv_exec hinv hms
    refine ⟨hinv'.not_mem_dir hends, release_enabled hends, fun hm => ?_⟩
    have hclosed := hcloses (.inr hm)
    refine ⟨?_, fun hlock => ?_⟩
    · rw [hinv'.handle, hclosed]
      rfl
    · have := hinv'.lock.mp hlock
      rw [hclosed] at this
      cases this

/-- The first poll finds the lock taken, and the second takes it. -/
theorem acquire_leaves_nothing_polling : ∃ s t ls, Fresh s ∧
    Machine.exec State.step s ls = some t ∧ t.point = .finished .acquired ∧
    t.ticket ∉ t.dir ∧ (t.handle = true ↔ Outcome.acquired = .acquired) ∧
    (t.lock = some .gate ↔ Outcome.acquired = .acquired) ∧
      ∀ ms u, Machine.exec State.step t ms = some u →
        u.ticket ∉ u.dir ∧ (∃ v, u.step .release = some v) ∧
          (.release ∈ ms → u.handle = false ∧ u.lock ≠ some .gate) := by
  let s : State := ⟨.entry, false, false, ticketName 5 7 ['3'] 9, [], some .other⟩
  let scan : List Label := [.test false, .listed [s.ticket], .probe (.live ['3']), .run, .run]
  let ls : List Label := List.replicate 5 .run ++ scan ++ [.run, .drop, .run] ++ scan ++
    [.run, .run, .run]
  have hs : Fresh s := ⟨rfl, rfl, rfl, by decide, by decide⟩
  obtain ⟨t, ht, hpoint⟩ : ∃ t, Machine.exec State.step s ls = some t ∧
      t.point = .finished .acquired := Machine.exec_of_check (by decide +kernel)
  exact ⟨s, t, ls, hs, ht, hpoint, acquire_leaves_nothing hs ht hpoint⟩

end

end Acquire

end EufyNvr.Gate
