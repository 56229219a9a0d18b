import EufyNvr.Gate.Acquire
import EufyNvr.Gate.Lock

/-!
# A call of the host in close-up

The host has a few steps for what `acquire` does in many, and every call at
once. Whatever the host does, a call whose process is there and whose own
ticket could be removed has come where a run of the close-up comes, with the
steps of all others as those of other processes. What the close-up shows of
the end of a call is so for the calls of the host. A call that raises before
it has published its ticket is in the close-up only.
-/

namespace EufyNvr.Gate

open Acquire (State)

/-- Where the call stands in close-up. -/
def Phase.point : Phase → Acquire.Point
  | .publishing => .writing
  | .looping => .testing
  | .listing .. => .listing
  | .probing scan | .reading scan | .dropping scan => .scanning scan.todo scan.queue
  | .waiting _ => .waiting
  | .leaving outcome => .unlinking outcome
  | .done outcome => .finished outcome
  | .released => .closed

/-- Whose the lock of `d` is, by `c`. -/
def ownerFor (c d : CallId) : Acquire.Owner := if d = c then .gate else .other

namespace Host

variable {s t : Host} {c d : CallId} {call call' : Call} {l : CallLabel} {label : Label}
  {u : State} {p : Phase} {n : Name}

/-- The host as call `c` sees it. -/
structure Closeup (s : Host) (c : CallId) (call : Call) (u : State) : Prop where
  ticket : u.ticket = call.ticket
  dir : ∀ n, n ∈ u.dir ↔ n ∈ s.dir
  lock : u.lock = s.lock.map (ownerFor c)
  point : u.point = call.phase.point

/-- A run of the close-up leads from `u` to what `c` sees in `t`. -/
def Follows (t : Host) (c : CallId) (call : Call) (u : State) : Prop :=
  ∃ ms v, Machine.exec State.step u ms = some v ∧ t.Closeup c call v

theorem Closeup.follows (h : t.Closeup c call u) : t.Follows c call u := ⟨[], u, rfl, h⟩

theorem Follows.step {v : State} {m : Acquire.Label} (h : t.Follows c call v)
    (hm : u.step m = some v) : t.Follows c call u := by
  obtain ⟨ms, w, hms, hw⟩ := h
  exact ⟨m :: ms, w, Machine.exec_cons.mpr ⟨v, hm, hms⟩, hw⟩

-- ---------------------------------------------------------------------------
-- Updates
-- ---------------------------------------------------------------------------

theorem Closeup.goto (h : s.Closeup c call u) :
    (s.goto c p).Closeup c { call with phase := p } (u.goto p.point) :=
  ⟨h.ticket, h.dir, h.lock, rfl⟩

theorem Closeup.goto_other (h : s.Closeup c call u) : (s.goto d p).Closeup c call u :=
  ⟨h.ticket, h.dir, h.lock, h.point⟩

theorem Closeup.create (h : s.Closeup c call u) : (s.create n).Closeup c call (u.put n) where
  ticket := h.ticket
  dir m := by rw [mem_create, State.put, List.mem_cons, h.dir]
  lock := h.lock
  point := h.point

theorem Closeup.remove (h : s.Closeup c call u) (hnodup : s.dir.Nodup) :
    (s.remove n).Closeup c call (u.unlink n) where
  ticket := h.ticket
  dir m := by simp [State.unlink, hnodup.mem_erase_iff, h.dir, and_comm]
  lock := h.lock
  point := h.point

theorem Closeup.free (h : s.Closeup c call u) : u.lock = none ↔ s.lock = none := by
  rw [h.lock, Option.map_eq_none_iff]

theorem Closeup.holds (h : s.Closeup c call u) : u.lock = some .gate ↔ s.lock = some c := by
  rw [h.lock, Option.map_eq_some_iff]
  constructor
  · rintro ⟨d, hd, howner⟩
    by_cases hdc : d = c
    · rwa [← hdc]
    · rw [ownerFor, if_neg hdc] at howner
      cases howner
  · exact fun hc => ⟨c, hc, if_pos rfl⟩

-- ---------------------------------------------------------------------------
-- Steps of the call
-- ---------------------------------------------------------------------------

theorem scanned {queue : List Name} (h : u.point = .scanning [] queue) :
    u.step .run = some (u.goto (.locking queue)) := by
  rw [State.step, State.run, h]

theorem Closeup.took {scan : Scan} (h : s.Closeup c call u) (hp : call.phase = .probing scan)
    (htodo : scan.todo = []) (hhead : scan.queue = [] ∨ scan.queue.head? = some call.ticket)
    (hfree : s.lock = none) : ({ s with lock := some c }.goto c (.leaving .acquired)).Follows c
      { call with phase := .leaving .acquired } u := by
  let v : State := { u with lock := some .gate, acquired := true, point := .unmarking }
  have hscan := scanned (h.point.trans (by rw [hp, Phase.point, htodo]))
  have htry : (u.goto (.locking scan.queue)).step .run = some v := by
    refine congrArg some ?_
    rw [State.tryLock, if_pos (by rwa [State.goto, h.ticket])]
    exact if_pos (h.free.mpr hfree)
  have hmark : v.step .run = some (v.goto (.unlinking .acquired)) := rfl
  have hend : ({ s with lock := some c }.goto c (.leaving .acquired)).Closeup c
      { call with phase := .leaving .acquired } (v.goto (.unlinking .acquired)) :=
    ⟨h.ticket, h.dir, congrArg some (if_pos rfl).symm, rfl⟩
  exact ((hend.follows.step hmark).step htry).step hscan

theorem Closeup.blocked {scan : Scan} {due : Nat} (h : s.Closeup c call u)
    (hp : call.phase = .probing scan) (htodo : scan.todo = [])
    (hnot : scan.queue = [] ∨ scan.queue.head? = some call.ticket → s.lock ≠ none) :
    (s.goto c (.waiting due)).Follows c { call with phase := .waiting due } u := by
  have hscan := scanned (h.point.trans (by rw [hp, Phase.point, htodo]))
  have htry : (u.goto (.locking scan.queue)).step .run = some (u.goto .reporting) := by
    refine congrArg some ?_
    unfold State.tryLock
    split
    · rename_i hhead
      have htaken := hnot (by rwa [State.goto, h.ticket] at hhead)
      exact if_neg fun hfree => htaken (h.free.mp hfree)
    · rfl
  have hreport : (u.goto .reporting).step .run = some (u.goto .waiting) := rfl
  exact ((h.goto.follows.step hreport).step htry).step hscan

/-- The end of the call: its ticket goes, and unless it has the lock the handle
is closed. -/
theorem Closeup.left {outcome : Outcome} (h : s.Closeup c call u) (hu : Acquire.Inv u)
    (hp : call.phase = .leaving outcome) (hnodup : s.dir.Nodup) :
    ((s.remove call.ticket).goto c (.done outcome)).Follows c
      { call with phase := .done outcome } u := by
  have hpoint : u.point = .unlinking outcome := by rw [h.point, hp, Phase.point]
  let v : State := (u.unlink u.ticket).goto (.releasing outcome)
  have hunlink : u.step .run = some v := by rw [State.step, State.run, hpoint]
  let w : State := if v.acquired then v else v.release
  have hrelease : v.step .run = some (w.goto (.finished outcome)) := rfl
  have hv := h.remove (n := u.ticket) hnodup
  have hlock : w.lock = u.lock := by
    unfold w
    split
    · rfl
    · rename_i hacquired
      have hother : u.lock ≠ some .gate := fun hgate => hacquired
        ((hu.acquired (by simp [hpoint])).trans (hu.lock.mp hgate))
      unfold State.release
      split
      · exact if_neg hother
      · rfl
  have hsame : w.ticket = u.ticket ∧ w.dir = (u.unlink u.ticket).dir := by
    unfold w
    split
    · exact ⟨rfl, rfl⟩
    · exact ⟨(Acquire.release_dir v).2.1, (Acquire.release_dir v).1⟩
  have hend : ((s.remove call.ticket).goto c (.done outcome)).Closeup c
      { call with phase := .done outcome } (w.goto (.finished outcome)) := by
    refine ⟨hsame.1.trans h.ticket, fun n => ?_, hlock.trans h.lock, rfl⟩
    rw [State.goto, hsame.2, ← h.ticket]
    exact hv.dir n
  exact (hend.follows.step hrelease).step hunlink

theorem Closeup.released (h : s.Closeup c call u) (hp : call.phase = .done .acquired)
    (hu : Acquire.Inv u) (hlock : s.lock = some c) :
    ({ s with lock := none }.goto c .released).Follows c { call with phase := .released } u := by
  have hpoint : u.point = .finished .acquired := by rw [h.point, hp, Phase.point]
  have hopen : u.handle = true := by rw [hu.handle, hpoint]; rfl
  have hrelease : u.release = { u with handle := false, lock := none } := by
    rw [State.release, if_pos hopen, if_pos (h.holds.mpr hlock)]
  have hstep : u.step .release = some (u.release.goto .closed) := by rw [State.step, hpoint]
  rw [hrelease] at hstep
  have hend : ({ s with lock := none }.goto c .released).Closeup c { call with phase := .released }
      (State.goto { u with handle := false, lock := none } .closed) := ⟨h.ticket, h.dir, rfl, rfl⟩
  exact hend.follows.step hstep

/-- The probe of a ticket that is kept, as one that was not permitted. -/
theorem probe_kept {name : Name} {todo kept : List Name} (hk : s.Known) (he : s.Entry name)
    (h : u.point = .scanning (name :: todo) kept) :
    u.step (.probe .denied) = some (u.goto (.scanning todo (kept ++ [name]))) := by
  obtain ⟨-, -, q, start, -, -, -, hparse, -⟩ := hk.parse_entry he
  have hkept : Acquire.dropped name .denied = false := by rw [Acquire.dropped, hparse]; rfl
  rw [State.step, State.probe, h]
  simp only [hkept, Bool.false_eq_true, if_false]

/-- The probe of a ticket that is removed, as one whose process is gone. -/
theorem probe_gone {name : Name} {todo kept : List Name}
    (h : u.point = .scanning (name :: todo) kept) :
    u.step (.probe .gone) = some ((u.unlink name).goto (.scanning todo kept)) := by
  have hgone : Acquire.dropped name .gone = true := by
    unfold Acquire.dropped
    split <;> rfl
  rw [State.step, State.probe, h]
  simp only [hgone, if_true]

theorem Closeup.own (h : s.Closeup c call u) (hu : Acquire.Inv u) (hq : s.Queued) (hl : s.Locked)
    (hc : s.calls[c]? = some call) (ha : s.alive call.proc = true) (hm : CallMove s c call l t)
    (hleave : l ≠ .leave false) : ∃ call', t.calls[c]? = some call' ∧ t.Follows c call' u := by
  -- In every case the phase of the call is the one that the move names.
  have moved {p : Phase} (hcalls : t.calls = (s.goto c p).calls)
      (hp : t.Follows c { call with phase := p } u) :
      ∃ call', t.calls[c]? = some call' ∧ t.Follows c call' u :=
    ⟨_, by rw [hcalls]; exact getElem?_goto_self hc, hp⟩
  have hpoint := h.point
  cases hm with
  | @published ok hp =>
    rw [hp] at hpoint
    have hput := h.create (n := u.ticket)
    rw [h.ticket] at hput
    cases ok with
    | true =>
      refine moved rfl (Follows.step (m := .run) hput.goto.follows ?_)
      rw [State.step, State.run, hpoint, h.ticket]
      rfl
    | false =>
      refine moved rfl (Follows.step (m := .halfWritten) hput.goto.follows ?_)
      rw [← h.ticket]
      exact if_pos hpoint
  | refused hp =>
    rw [hp] at hpoint
    exact moved rfl (Follows.step (m := .test true) h.goto.follows (if_pos hpoint))
  | began hp =>
    rw [hp] at hpoint
    exact moved rfl (Follows.step (m := .test false) h.goto.follows (if_pos hpoint))
  | @listed _ _ names hp =>
    rw [hp] at hpoint
    exact moved rfl (Follows.step (m := .listed names) h.goto.follows (if_pos hpoint))
  | @kept _ scan name _ _ hp hn =>
    have hok := hq.phases c call hc
    have hs : s.Scanned call.ticket scan := by rcases hp with hp | hp <;> rw [hp] at hok <;> exact hok
    have hscan : u.point = .scanning (name :: scan.todo.tail) scan.queue := by
      rw [← todo_of_head? hn, hpoint]
      rcases hp with hp | hp <;> rw [hp] <;> rfl
    have hprobe := probe_kept hq.known (hs.todo _ (List.mem_of_mem_head? hn)) hscan
    rw [← queue_keep] at hprobe
    exact moved rfl (h.goto.follows.step hprobe)
  | looked hp =>
    rw [hp] at hpoint
    exact moved rfl (Closeup.follows ⟨h.ticket, h.dir, h.lock, hpoint⟩)
  | condemned _ hp =>
    refine moved rfl (Closeup.follows ⟨h.ticket, h.dir, h.lock, hpoint.trans ?_⟩)
    rcases hp with hp | hp <;> rw [hp] <;> rfl
  | @unlinked scan name hp hn =>
    have hscan : u.point = .scanning (name :: scan.todo.tail) scan.queue := by
      rw [← todo_of_head? hn, hpoint, hp]
      rfl
    exact moved rfl ((h.remove hq.nodup).goto.follows.step (probe_gone hscan))
  | took hp htodo hhead hfree => exact moved rfl (h.took hp htodo hhead hfree)
  | blocked hp htodo hnot => exact moved rfl (h.blocked hp htodo hnot)
  | woke hp =>
    rw [hp] at hpoint
    refine moved rfl (Follows.step (m := .run) h.goto.follows ?_)
    rw [State.step, State.run, hpoint]
    rfl
  | cancelled hp =>
    rw [hp] at hpoint
    exact moved rfl (Follows.step (m := .cancel) h.goto.follows (if_pos hpoint))
  | failed hfail =>
    refine moved rfl (Follows.step (m := .fail) h.goto.follows ?_)
    rw [State.step, State.fail, hpoint]
    cases hp : call.phase <;> rw [hp] at hfail <;> first | rfl | cases hfail
  | left hp => exact moved rfl (h.left hu hp hq.nodup)
  | stayed => exact absurd rfl hleave
  | released hp => exact moved rfl (h.released hp hu (hl.held c call hc ha (by rw [hp]; rfl)))

-- ---------------------------------------------------------------------------
-- Steps of the others
-- ---------------------------------------------------------------------------

theorem Closeup.other (h : s.Closeup c call u) (hq : s.Queued) (hl : s.Locked)
    (hc : s.calls[c]? = some call) (hd : s.calls[d]? = some call') (ha : s.alive call'.proc = true)
    (hdc : d ≠ c) (hm : CallMove s d call' l t) : t.Follows c call u := by
  cases hm with
  | published =>
    refine Follows.step (m := .create call'.ticket) h.create.goto_other.follows (if_pos ?_)
    rw [h.ticket]
    exact fun heq => hdc (hq.known.distinct d c call' call hd hc heq)
  | unlinked => exact Follows.step (m := .remove _) (h.remove hq.nodup).goto_other.follows rfl
  | left => exact Follows.step (m := .remove _) (h.remove hq.nodup).goto_other.follows rfl
  | took _ _ _ hfree =>
    have hlock : ({ s with lock := some d } : Host).Closeup c call { u with lock := some .other } :=
      ⟨h.ticket, h.dir, congrArg some (if_neg hdc).symm, h.point⟩
    exact Follows.step (m := .take) hlock.goto_other.follows (if_pos (h.free.mpr hfree))
  | released hp =>
    have hheld := hl.held d call' hd ha (by rw [hp]; rfl)
    have hlock : ({ s with lock := none } : Host).Closeup c call { u with lock := none } :=
      ⟨h.ticket, h.dir, rfl, h.point⟩
    refine Follows.step (m := .drop) hlock.goto_other.follows (if_pos ?_)
    rw [h.lock, hheld]
    exact congrArg some (if_neg hdc)
  | _ => exact h.goto_other.follows

/-- The kernel drops the lock of a process that is gone. -/
theorem Closeup.kill {i : ProcId} (h : s.Closeup c call u) (hc : s.calls[c]? = some call)
    (hi : call.proc ≠ i) : (s.kill i).Follows c call u := by
  have hfollows (hlock : (s.kill i).lock = s.lock) : (s.kill i).Follows c call u :=
    Closeup.follows ⟨h.ticket, h.dir, by rw [h.lock, hlock], h.point⟩
  cases hlock : s.lock with
  | none => exact hfollows (by rw [Host.kill, hlock, Option.filter_none])
  | some d =>
    cases hkill : (s.kill i).lock with
    | some e =>
      obtain ⟨hsame, -⟩ := Option.filter_eq_some_iff.mp hkill
      exact hfollows (hkill.trans hsame.symm)
    | none =>
      have hdc : d ≠ c := by
        rintro rfl
        simp [Host.kill, hlock, hc, hi] at hkill
      have hdropped : (s.kill i).Closeup c call { u with lock := none } :=
        ⟨h.ticket, h.dir, by rw [hkill]; rfl, h.point⟩
      refine Follows.step (m := .drop) hdropped.follows (if_pos ?_)
      rw [h.lock, hlock]
      exact congrArg some (if_neg hdc)

theorem Closeup.step (h : s.Closeup c call u) (hu : Acquire.Inv u) (hq : s.Queued) (hl : s.Locked)
    (hc : s.calls[c]? = some call) (ha : s.alive call.proc = true) (hs : s.step label = some t)
    (hleave : label ≠ .call c (.leave false)) (hexit : label ≠ .exit call.proc) :
    ∃ call', t.calls[c]? = some call' ∧ t.Follows c call' u := by
  have hidle (hcalls : t.calls[c]? = some call) (hdir : t.dir = s.dir) (hlock : t.lock = s.lock) :
      ∃ call', t.calls[c]? = some call' ∧ t.Follows c call' u :=
    ⟨call, hcalls, Closeup.follows ⟨h.ticket, by rw [hdir]; exact h.dir, by rw [hlock]; exact h.lock,
      h.point⟩⟩
  cases step_move hs with
  | ticked | spawned => exact hidle hc rfl rfl
  | exited => exact ⟨call, hc, h.kill hc fun heq => hexit (by rw [heq])⟩
  | entered => exact hidle (Table.getElem?_append_some hc) rfl rfl
  | @called d _ _ _ hd ha' hm =>
    by_cases hdc : d = c
    · subst hdc
      rw [hc] at hd
      cases hd
      exact h.own hu hq hl hc ha hm fun hl => hleave (by rw [hl])
    · obtain ⟨-, -, p, hcalls, -⟩ := hm.calls
      exact ⟨call, by rw [hcalls, getElem?_goto_ne (Ne.symm hdc), hc], h.other hq hl hc hd ha' hdc hm⟩

-- ---------------------------------------------------------------------------
-- Runs
-- ---------------------------------------------------------------------------

/-- A call that has just begun has opened the lock file, and made its name and
the queue directory. -/
theorem begun {i : ProcId} {name : Name} (hq : s.Queued) (hl : s.Locked)
    (hnew : ∀ call ∈ s.calls, call.ticket ≠ name) :
    ∃ u, Acquire.Fresh u ∧
      ({ s with calls := s.calls ++ [⟨i, s.now, name, .publishing⟩] } : Host).Follows s.calls.length
        ⟨i, s.now, name, .publishing⟩ u := by
  let u : State := ⟨.entry, false, false, name, s.dir, s.lock.map (ownerFor s.calls.length)⟩
  have hticket : u.ticket ∉ s.dir := fun hm => by
    obtain ⟨d, call, hd, hname, -⟩ := hq.dir _ hm
    exact hnew call (List.mem_of_getElem? hd) hname
  have hlock : u.lock ≠ some .gate := fun hgate => by
    obtain ⟨d, hd, howner⟩ := Option.map_eq_some_iff.mp hgate
    obtain ⟨call, hcall, -⟩ := hl.holder d hd
    rw [ownerFor, if_neg (List.getElem?_eq_some_iff.mp hcall).1.ne] at howner
    cases howner
  exact ⟨u, ⟨rfl, rfl, rfl, hlock, hticket⟩, List.replicate 4 .run,
    { u with handle := true, point := .writing }, rfl, rfl, fun _ => Iff.rfl, rfl, rfl⟩

/-- A call that is there after the step but not before it. -/
theorem begins (hq : s.Queued) (hl : s.Locked) (hs : s.step label = some t)
    (hnone : s.calls[c]? = none) (hc : t.calls[c]? = some call) :
    ∃ u, Acquire.Fresh u ∧ t.Follows c call u := by
  have hsame (hc : s.calls[c]? = some call) : ∃ u, Acquire.Fresh u ∧ t.Follows c call u := by
    rw [hnone] at hc
    cases hc
  cases step_move hs with
  | ticked | spawned | exited => exact hsame hc
  | entered _ _ _ hnew =>
    rcases Table.getElem?_snoc hc with hc | ⟨rfl, rfl⟩
    · exact hsame hc
    · exact begun hq hl hnew
  | called _ _ hm =>
    obtain ⟨-, -, p, hcalls, -⟩ := hm.calls
    obtain ⟨old, hold, -⟩ := getElem?_of_goto hcalls hc
    rw [hnone] at hold
    cases hold

theorem alive_of_step (hk : s.Known) (hs : s.step label = some t) (hc : s.calls[c]? = some call)
    (hc' : t.calls[c]? = some call') (ha : t.alive call'.proc = true) :
    s.alive call.proc = true ∧ label ≠ .exit call.proc := by
  have hsame (hcalls : t.calls[c]? = s.calls[c]?) : t.alive call.proc = true := by
    rw [hcalls, hc] at hc'
    cases hc'
    exact ha
  cases step_move hs with
  | ticked => exact ⟨hsame rfl, fun heq => by cases heq⟩
  | spawned => exact ⟨(idle_spawn hk).alive c call hc (hsame rfl), fun heq => by cases heq⟩
  | exited =>
    obtain ⟨ha, hne⟩ := alive_kill_iff.mp (hsame rfl)
    exact ⟨ha, fun heq => hne (by cases heq; rfl)⟩
  | entered =>
    exact ⟨hsame ((Table.getElem?_append_some hc).trans hc.symm), fun heq => by cases heq⟩
  | called _ _ hm =>
    obtain ⟨-, hprocs, p, hcalls, -⟩ := hm.calls
    obtain ⟨old, hold, hproc, -⟩ := getElem?_of_goto hcalls hc'
    rw [hc] at hold
    cases hold
    exact ⟨by rwa [hproc, ← alive_congr hprocs], fun heq => by cases heq⟩

theorem queued_locked {now : Fin clockLimit} {ls : List Label}
    (h : Machine.exec step (init now) ls = some t) : t.Queued ∧ t.Locked :=
  Machine.invariant (I := fun s => s.Queued ∧ s.Locked)
    (fun _ _ _ hi hs => ⟨hi.1.step hs, hi.2.step hi.1.known hs⟩) ⟨queued_init now, locked_init now⟩ h

/-- Every run of the host is, for each of its calls, a run of the close-up. -/
theorem closeup_run {now : Fin clockLimit} {ls : List Label}
    (h : Machine.exec step (init now) ls = some t) (hc : t.calls[c]? = some call)
    (ha : t.alive call.proc = true) (hleave : .call c (.leave false) ∉ ls) :
    ∃ u, Acquire.Fresh u ∧ t.Follows c call u := by
  let I (pre : List Label) (s : Host) : Prop := ∀ call, s.calls[c]? = some call →
    s.alive call.proc = true → .call c (.leave false) ∉ pre → ∃ u, Acquire.Fresh u ∧ s.Follows c call u
  have hI : I ls t := by
    refine Machine.invariant_history (I := I) (fun pre label s t hpre hi hs call' hc' ha' hleave => ?_)
      (fun call hc => by cases hc) h
    obtain ⟨hq, hl⟩ := queued_locked hpre
    cases hc : s.calls[c]? with
    | none => exact begins hq hl hs hc hc'
    | some call =>
      simp only [List.mem_append, List.mem_singleton, not_or] at hleave
      obtain ⟨ha, hexit⟩ := alive_of_step hq.known hs hc hc' ha'
      obtain ⟨u, hu, ms, v, hms, hv⟩ := hi call hc ha hleave.1
      obtain ⟨call'', hc'', hfollows⟩ := hv.step (Acquire.inv_exec (Acquire.inv_fresh hu) hms) hq hl hc
        ha hs (Ne.symm hleave.2) hexit
      rw [hc'] at hc''
      cases hc''
      obtain ⟨ns, w, hns, hw⟩ := hfollows
      exact ⟨u, hu, ms ++ ns, w, Machine.exec_append.mpr ⟨v, hms, hns⟩, hw⟩
  exact hI call hc ha hleave

/-- A call that has ended has left no ticket, and has the lock exactly if it
was to take it. -/
theorem done_leaves_nothing {now : Fin clockLimit} {ls : List Label} {outcome : Outcome}
    (h : Machine.exec step (init now) ls = some t) (hc : t.calls[c]? = some call)
    (ha : t.alive call.proc = true) (hleave : .call c (.leave false) ∉ ls)
    (hdone : call.phase = .done outcome) :
    call.ticket ∉ t.dir ∧ (t.lock = some c ↔ outcome = .acquired) := by
  obtain ⟨u, hu, ms, v, hms, hv⟩ := closeup_run h hc ha hleave
  have hinv := Acquire.inv_exec (Acquire.inv_fresh hu) hms
  have hpoint : v.point = .finished outcome := by rw [hv.point, hdone, Phase.point]
  have hended : v.point.ended = true := by rw [hpoint]; rfl
  constructor
  · rw [← hv.dir, ← hv.ticket]
    exact hinv.not_mem_dir hended
  · rw [← hv.holds, hinv.lock, hpoint]
    exact decide_eq_true_iff

end Host

end EufyNvr.Gate
