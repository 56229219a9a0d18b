import EufyNvr.Gate.QueueSteps

/-!
# First come, first served

A call that takes the lock is the oldest of those that wait and were in the
directory when its last scan began; no scan removes a ticket of a waiting
call; and a scan leaves no ticket of a process that was gone when it began,
where it was permitted to probe the process that has its PID now.
-/

namespace EufyNvr.Gate.Host

open Decimal Machine

variable {s t : Host} {c d : CallId} {call : Call} {l : CallLabel} {label : Label}
  {ticket n : Name} {scan : Scan} {ls : List Label}

-- ---------------------------------------------------------------------------
-- Probes of reused PIDs
-- ---------------------------------------------------------------------------

/-- The process of the ticket is gone, and another has its PID. -/
def reused (s : Host) (n : Name) : Bool :=
  !s.owned n && (parse n).any fun r => (s.holder r.1).isSome

/-- No scan is refused the probe of a PID that has been reused. -/
def Permitted (s : Host) : Label → Prop
  | .call c (.probe true) =>
    ((s.calls[c]?.bind fun call => (Phase.scan call.phase).bind fun scan => scan.todo.head?).any
      s.reused) = false
  | _ => True

instance (s : Host) (l : Label) : Decidable (s.Permitted l) := by
  unfold Permitted
  split <;> infer_instance

/-- No scan has kept a ticket of a process gone at its beginning because its
probe was not permitted. -/
def Allowed (s : Host) : Prop :=
  ∀ (c : CallId) (call : Call), s.calls[c]? = some call → ∀ scan, Phase.scan call.phase = some scan →
    ∀ n ∈ scan.gone, (n, Ground.denied) ∉ scan.tickets

theorem Queued.scanned (h : s.Queued) (hc : s.calls[c]? = some call)
    (hs : Phase.scan call.phase = some scan) : s.Scanned call.ticket scan := by
  have hok := h.phases c call hc
  cases hp : call.phase with
  | probing sc | reading sc => rw [hp] at hok hs; cases hs; exact hok
  | dropping sc => rw [hp] at hok hs; cases hs; exact hok.1
  | _ => rw [hp] at hs; cases hs

theorem not_owned_of_gone (h : s.Known) (hg : s.Gone n) : s.owned n = false := by
  obtain ⟨c, call, hc, ht, hdead⟩ := hg
  simp only [owned, List.any_eq_false, Bool.and_eq_true, decide_eq_true_eq, not_and]
  intro call' hm ht'
  obtain ⟨d, hd⟩ := List.getElem?_of_mem hm
  obtain rfl := h.distinct c d call call' hc hd (ht.trans ht'.symm)
  rw [hc] at hd
  cases hd
  simp [hdead]

theorem Allowed.idle (h : s.Allowed) (hi : Idle s t) : t.Allowed := by
  intro c call hc scan hs
  rcases hi.new c call hc with hc | hp
  · exact h c call hc scan hs
  · rw [hp] at hs
    cases hs

/-- The scan of the call after the step: a new one, or the one it was, with or
without one more ticket kept. -/
theorem CallMove.tickets (h : CallMove s c call l t) : ∃ p, t.calls = (s.goto c p).calls ∧
    ∀ scan, Phase.scan p = some scan → scan.tickets = [] ∨
      ∃ old, Phase.scan call.phase = some old ∧ scan.gone = old.gone ∧
        (scan.tickets = old.tickets ∨ ∃ n g, old.todo.head? = some n ∧ s.Keeps n g ∧
          (g = .denied → l = .probe true ∧ call.phase = .probing old) ∧
          scan.tickets = old.tickets ++ [(n, g)]) := by
  cases h with
  | @published ok => cases ok <;> exact ⟨_, rfl, fun _ hs => by cases hs⟩
  | listed => exact ⟨_, rfl, fun _ hs => by cases hs; exact .inl rfl⟩
  | @kept _ old n g _ hp hn hk hd =>
    have ho : Phase.scan call.phase = some old := by rcases hp with hp | hp <;> rw [hp] <;> rfl
    refine ⟨_, rfl, fun scan hs => ?_⟩
    cases hs
    exact .inr ⟨old, ho, rfl, .inr ⟨n, g, hn, hk, hd, rfl⟩⟩
  | looked hp =>
    refine ⟨_, rfl, fun scan hs => ?_⟩
    cases hs
    exact .inr ⟨_, by rw [hp]; rfl, rfl, .inl rfl⟩
  | @condemned _ old n _ hp =>
    have ho : Phase.scan call.phase = some old := by rcases hp with hp | hp <;> rw [hp] <;> rfl
    refine ⟨_, rfl, fun scan hs => ?_⟩
    cases hs
    exact .inr ⟨old, ho, rfl, .inl rfl⟩
  | @unlinked old _ hp =>
    refine ⟨_, rfl, fun scan hs => ?_⟩
    cases hs
    exact .inr ⟨old, by rw [hp]; rfl, rfl, .inl rfl⟩
  | _ => exact ⟨_, rfl, fun _ hs => by cases hs⟩

theorem Allowed.move (h : s.Allowed) (hq : s.Queued) (hc : s.calls[c]? = some call)
    (hm : CallMove s c call l t) (hperm : s.Permitted (.call c l)) : t.Allowed := by
  obtain ⟨p, hcalls, hscan⟩ := hm.tickets
  intro d call' hd scan hs n hn hmem
  rw [hcalls] at hd
  rcases getElem?_goto hd with ⟨-, hd⟩ | ⟨rfl, old, ho, rfl⟩
  · exact h d call' hd scan hs n hn hmem
  · rcases hscan scan hs with hnil | ⟨old', hold, hgone, htickets⟩
    · rw [hnil] at hmem
      cases hmem
    · rw [hgone] at hn
      have hbefore := h d call hc old' hold n hn
      rcases htickets with hsame | ⟨m, g, hhead, hk, hden, hsnoc⟩
      · exact hbefore (hsame ▸ hmem)
      · rw [hsnoc, List.mem_append, List.mem_singleton] at hmem
        rcases hmem with hmem | hmem
        · exact hbefore hmem
        · cases hmem
          obtain ⟨rfl, hp⟩ := hden rfl
          obtain ⟨pid, start, hparse, hsome⟩ := hk
          have hgone := (hq.scanned hc hold).gone n hn
          simp [Permitted, hc, hp, Phase.scan, hhead, reused, hparse, hsome,
            not_owned_of_gone hq.known hgone] at hperm

theorem Allowed.step (h : s.Allowed) (hq : s.Queued) (hperm : s.Permitted label)
    (hs : s.step label = some t) : t.Allowed := by
  cases step_move hs with
  | ticked | spawned | exited => exact h
  | entered => exact h.idle (idle_enter rfl)
  | called hc _ hm => exact h.move hq hc hm hperm

theorem allowed_run {now : Fin clockLimit} (h : exec step (init now) ls = some s)
    (hC : Along step Permitted (init now) ls) : s.Queued ∧ s.Allowed :=
  invariant_along (I := fun s => s.Queued ∧ s.Allowed)
    (fun _ _ _ hp hi hs => ⟨hi.1.step hs, hi.2.step hi.1 hp hs⟩) hC
    ⟨queued_init now, fun c call hc => by cases hc⟩ h

-- ---------------------------------------------------------------------------
-- The order of service
-- ---------------------------------------------------------------------------

/-- A waiting ticket that was in the directory when the scan began is in its
queue. -/
theorem Scanned.mem_queue (h : s.Scanned ticket scan) (htodo : scan.todo = [])
    (hb : n ∈ scan.before) (hw : s.Waits n) : n ∈ scan.queue := by
  simpa [htodo] using h.seen n hb hw

theorem Scanned.head_le (h : s.Scanned ticket scan) (hhead : scan.queue.head? = some ticket)
    (hn : n ∈ scan.queue) : ticket ≤ n := by
  have hord := (List.pairwise_append.mp h.ordered).1
  cases hq : scan.queue with
  | nil => rw [hq] at hn; cases hn
  | cons x rest =>
    rw [hq] at hhead hn hord
    cases hhead
    rcases List.mem_cons.mp hn with rfl | hn
    · exact le_refl _
    · exact ((List.pairwise_cons.mp hord).1 n hn).le

/-- Tickets in file-name order are in the order of arrival. -/
theorem Known.stamp_le {call' : Call} (h : s.Known) (hc : s.calls[c]? = some call)
    (hd : s.calls[d]? = some call') (hle : call.ticket ≤ call'.ticket) :
    call.stamp ≤ call'.stamp := by
  obtain ⟨q, gate, start, -, hs, -, ht⟩ := h.named c call hc
  obtain ⟨q', gate', start', -, hs', -, ht'⟩ := h.named d call' hd
  by_contra hlt
  rw [ht, ht'] at hle
  exact absurd (ticketName_lt hs' hs (not_le.mp hlt)) (not_lt.mpr hle)

/-- The call that has completed its scan `scan`. -/
structure Completed (s : Host) (c : CallId) (call : Call) (scan : Scan) : Prop where
  found : s.calls[c]? = some call
  alive : s.alive call.proc = true
  phase : call.phase = .probing scan
  todo : scan.todo = []

/-- Only a completed scan takes the lock, at the head of its queue. -/
theorem step_lock (h : s.step label = some t) (ht : t.lock = some c) (hs : s.lock ≠ some c) :
    label = .call c .decide ∧ ∃ call scan, Completed s c call scan ∧
      (scan.queue = [] ∨ scan.queue.head? = some call.ticket) := by
  cases step_move h with
  | ticked | spawned | entered => exact absurd ht hs
  | exited => exact absurd (Option.filter_eq_some_iff.mp ht).1 hs
  | called hc ha hm =>
    cases hm with
    | took hp htodo hhead =>
      cases ht
      exact ⟨rfl, _, _, ⟨hc, ha, hp, htodo⟩, hhead⟩
    | released => cases ht
    | _ => exact absurd ht hs

theorem Queued.head (h : s.Queued) (hd : Completed s c call scan)
    (hhead : scan.queue = [] ∨ scan.queue.head? = some call.ticket) :
    scan.queue.head? = some call.ticket := by
  have hscan := h.scanned hd.found (by rw [hd.phase]; rfl)
  have hw : s.Waits call.ticket := ⟨c, call, hd.found, rfl, hd.alive, by rw [hd.phase]; rfl⟩
  have hm := hscan.mem_queue hd.todo hscan.own hw
  refine hhead.resolve_left fun hnil => ?_
  rw [hnil] at hm
  cases hm

/-- A queue with nothing older than the ticket of its call. -/
theorem Queued.head_of_least (h : s.Queued) (hd : Completed s c call scan)
    (hleast : ∀ n ∈ scan.queue, ¬ n < call.ticket) : scan.queue.head? = some call.ticket := by
  have hscan := h.scanned hd.found (by rw [hd.phase]; rfl)
  have hw : s.Waits call.ticket := ⟨c, call, hd.found, rfl, hd.alive, by rw [hd.phase]; rfl⟩
  have hm := hscan.mem_queue hd.todo hscan.own hw
  have hord := (List.pairwise_append.mp hscan.ordered).1
  cases hq : scan.queue with
  | nil => rw [hq] at hm; cases hm
  | cons x rest =>
    rw [hq] at hm hord hleast
    rcases List.mem_cons.mp hm with heq | hm
    · rw [heq]
      rfl
    · exact absurd ((List.pairwise_cons.mp hord).1 _ hm) (hleast x (by simp))

theorem step_decide (hd : Completed s c call scan)
    (hhead : scan.queue.head? = some call.ticket) (hfree : s.lock = none) :
    ∃ t, s.step (.call c .decide) = some t ∧ t.lock = some c := by
  refine ⟨({ s with lock := some c } : Host).goto c (.leaving .acquired), ?_, rfl⟩
  simp [Host.step, hd.found, hd.alive, callStep, hd.phase, hd.todo, decide, hhead, hfree]

/-- A completed scan has removed the tickets that were dead at its beginning,
unless a start time was not known. -/
theorem Scanned.removed (h : s.Scanned ticket scan) (hall : ∀ n ∈ scan.gone,
    (n, Ground.denied) ∉ scan.tickets) (htodo : scan.todo = []) (hn : n ∈ scan.gone)
    (hk : (n, Ground.unknown) ∉ scan.tickets) : n ∉ s.dir ∧ n ∉ scan.queue := by
  rcases h.dead n hn with ht | ⟨g, hg, hm⟩ | hgone
  · rw [htodo] at ht
    cases ht
  · cases g with
    | denied => exact absurd hm (hall n hn)
    | unknown => exact absurd hm hk
    | same => exact absurd rfl hg
  · exact hgone

/-- The gate serves in order of arrival and tolerates crashes, in every run
in which no scan is refused the probe of a reused PID. A ticket that was in
the directory when the scan began and whose call waits at its end was
published by a waiting call throughout the scan. -/
theorem serves_in_order {now : Fin clockLimit} (h : exec step (init now) ls = some s)
    (hC : Along step Permitted (init now) ls) :
    (∀ label t c, s.step label = some t → t.lock = some c → s.lock ≠ some c →
      ∃ call scan, Completed s c call scan ∧
        (∀ n ∈ scan.before, s.Waits n → call.ticket ≤ n) ∧
        ∀ (d : CallId) (call' : Call), s.calls[d]? = some call' → call'.ticket ∈ scan.before →
          s.Waits call'.ticket → call.stamp ≤ call'.stamp) ∧
    (∀ c t n, s.step (.call c .unlink) = some t → s.Waits n → n ∈ s.dir ∧ n ∈ t.dir) ∧
    (∀ c call scan, Completed s c call scan →
      (∀ n ∈ scan.gone, (n, Ground.unknown) ∉ scan.tickets → n ∉ s.dir ∧ n ∉ scan.queue) ∧
      ((∀ n ∈ scan.queue, n < call.ticket → n ∈ scan.gone ∧
          (n, Ground.unknown) ∉ scan.tickets) →
        scan.queue.head? = some call.ticket ∧
        (s.lock = none → ∃ t, s.step (.call c .decide) = some t ∧ t.lock = some c))) := by
  obtain ⟨hq, hall⟩ := allowed_run h hC
  refine ⟨fun label t c hs ht hne => ?_, fun c t n hs hw => ⟨hq.inside n hw, ?_⟩,
    fun c call scan hd => ?_⟩
  · obtain ⟨-, call, scan, hd, hhead⟩ := step_lock hs ht hne
    have hscan := hq.scanned hd.found (by rw [hd.phase]; rfl)
    have hle : ∀ n ∈ scan.before, s.Waits n → call.ticket ≤ n := fun n hb hw =>
      hscan.head_le (hq.head hd hhead) (hscan.mem_queue hd.todo hb hw)
    exact ⟨call, scan, hd, hle, fun d call' hc' hb hw =>
      hq.known.stamp_le hd.found hc' (hle _ hb hw)⟩
  · obtain ⟨call, hc, ha, hm⟩ := step_call hs
    cases hm with
    | @unlinked scan name hp hn =>
      have hok := hq.phases c call hc
      rw [hp] at hok
      have hne : n ≠ name := fun he => hq.known.not_gone hw (he ▸ hok.2 name hn)
      exact (List.mem_erase_of_ne hne).mpr (hq.inside n hw)
    | kept hl | condemned hl => cases hl
  · have hphase : Phase.scan call.phase = some scan := by rw [hd.phase]; rfl
    have hscan := hq.scanned hd.found hphase
    have hremoved : ∀ n ∈ scan.gone, (n, Ground.unknown) ∉ scan.tickets →
        n ∉ s.dir ∧ n ∉ scan.queue := fun n hn hk =>
      hscan.removed (hall c call hd.found scan hphase) hd.todo hn hk
    refine ⟨hremoved, fun hold => ?_⟩
    have hhead : scan.queue.head? = some call.ticket := hq.head_of_least hd fun n hn hlt =>
      (hremoved n (hold n hn hlt).1 (hold n hn hlt).2).2 hn
    exact ⟨hhead, step_decide hd hhead⟩

/-- The ticket of a waiter with PID 7 that crashes. -/
def deadTicket : Name := ticketName 10 7 (decimal 5) 1

def ownTicket : Name := ticketName 20 8 (decimal 6) 2

/-- Another process takes PID 7, and a waiter with PID 8 begins its scan. -/
def uptoProbe : List Label :=
  [.spawn 7 5, .tick 10, .enter 0 1 true, .call 0 (.publish true), .exit 0, .spawn 7 9,
    .spawn 8 6, .tick 10, .enter 2 2 true, .call 1 (.publish true), .call 1 (.loop false),
    .call 1 (.listed [ownTicket, deadTicket])]

/-- The probe shows another start time, the ticket goes, and the lock is taken. -/
theorem serves_in_order_after_crash :
    ∃ s t, exec step (init ⟨0, by decide⟩) (uptoProbe ++
      [.call 1 (.probe false), .call 1 (.read true), .call 1 .unlink, .call 1 (.probe false),
        .call 1 (.read true)]) = some s ∧
      deadTicket ∉ s.dir ∧ s.step (.call 1 .decide) = some t ∧ t.lock = some 1 := by
  obtain ⟨s, hs, hc, ha, hfree⟩ : ∃ s, exec step (init ⟨0, by decide⟩) (uptoProbe ++
      [.call 1 (.probe false), .call 1 (.read true), .call 1 .unlink, .call 1 (.probe false),
        .call 1 (.read true)]) = some s ∧
      s.calls[1]? = some ⟨2, 20, ownTicket,
        .probing ⟨[ownTicket, deadTicket], [deadTicket], [], [(ownTicket, .same)]⟩⟩ ∧
      s.alive 2 = true ∧ s.lock = none := by
    apply exec_of_check
    decide +kernel
  obtain ⟨-, -, hscan⟩ := serves_in_order hs (along_of_check (by decide +kernel))
  obtain ⟨hremoved, hhead⟩ := hscan 1 _ _ ⟨hc, ha, rfl, rfl⟩
  obtain ⟨hdir, -⟩ := hremoved deadTicket (by simp) (by decide +kernel)
  obtain ⟨-, hlock⟩ := hhead (by decide +kernel)
  obtain ⟨t, ht, hl⟩ := hlock hfree
  exact ⟨s, t, hs, hdir, ht, hl⟩

/-- The new process with PID 7 belongs to another user: the probe is refused,
the dead ticket stays at the head although both start times are known, and
the only waiter does not try the free lock. -/
theorem blocked_by_reused_pid :
    ∃ s call scan, exec step (init ⟨0, by decide⟩) (uptoProbe ++
      [.call 1 (.probe true), .call 1 (.probe false), .call 1 (.read true)]) = some s ∧
      Completed s 1 call scan ∧ deadTicket ∈ scan.gone ∧
      (parse deadTicket = some (7, ['5']) ∧ s.processStart 7 true = ['9']) ∧
      deadTicket ∈ s.dir ∧ scan.queue.head? = some deadTicket ∧ s.lock = none ∧
      ∀ t, s.step (.call 1 .decide) = some t → t.lock = none := by
  obtain ⟨s, hs, hc, ha, hfree, hdir, hlive, hstep⟩ :
      ∃ s, exec step (init ⟨0, by decide⟩) (uptoProbe ++
        [.call 1 (.probe true), .call 1 (.probe false), .call 1 (.read true)]) = some s ∧
      s.calls[1]? = some ⟨2, 20, ownTicket, .probing ⟨[ownTicket, deadTicket], [deadTicket], [],
        [(deadTicket, .denied), (ownTicket, .same)]⟩⟩ ∧
      s.alive 2 = true ∧ s.lock = none ∧ deadTicket ∈ s.dir ∧ s.processStart 7 true = ['9'] ∧
      ((s.step (.call 1 .decide)).all fun t => t.lock = none) = true := by
    apply exec_of_check
    decide +kernel
  refine ⟨s, _, _, hs, ⟨hc, ha, rfl, rfl⟩, by simp, ⟨by decide +kernel, hlive⟩, hdir, rfl, hfree,
    fun t ht => ?_⟩
  simpa [ht] using hstep

end EufyNvr.Gate.Host
