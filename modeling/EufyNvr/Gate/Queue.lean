import EufyNvr.Gate.Tickets

/-!
# Scans of the queue

The invariant of the queue directory: every waiting call has its ticket
there, and a scan under way has every ticket of a waiting call that it found
at its beginning among the tickets it has kept or has yet to probe. Only
tickets of processes that are gone are condemned.
-/

namespace EufyNvr.Gate.Host

open Decimal

variable {s t : Host} {c d : CallId} {call : Call} {l : CallLabel} {name ticket n : Name}
  {scan : Scan} {g : Ground} {i : ProcId}

-- ---------------------------------------------------------------------------
-- The invariant
-- ---------------------------------------------------------------------------

/-- What holds of a scan by the call that has `ticket`. -/
structure Scanned (s : Host) (ticket : Name) (scan : Scan) : Prop where
  own : ticket ∈ scan.before
  before : ∀ n ∈ scan.before, s.Entry n
  todo : ∀ n ∈ scan.todo, s.Entry n
  seen : ∀ n ∈ scan.before, s.Waits n → n ∈ scan.queue ++ scan.todo
  ordered : (scan.queue ++ scan.todo).Pairwise (· < ·)
  gone : ∀ n ∈ scan.gone, s.Gone n
  dead : ∀ n ∈ scan.gone, n ∈ scan.todo ∨ (∃ g, g ≠ .same ∧ (n, g) ∈ scan.tickets) ∨
    (n ∉ s.dir ∧ n ∉ scan.queue)

def PhaseOk (s : Host) (ticket : Name) : Phase → Prop
  | .listing before gone =>
    ticket ∈ before ∧ (∀ n ∈ before, s.Entry n) ∧ ∀ n ∈ gone, n ∈ before ∧ s.Gone n
  | .probing scan | .reading scan => s.Scanned ticket scan
  | .dropping scan => s.Scanned ticket scan ∧ ∀ n, scan.todo.head? = some n → s.Gone n
  | _ => True

structure Queued (s : Host) : Prop where
  known : s.Known
  dir : ∀ n ∈ s.dir, s.Entry n
  nodup : s.dir.Nodup
  inside : ∀ n, s.Waits n → n ∈ s.dir
  phases : ∀ (c : CallId) (call : Call), s.calls[c]? = some call → s.PhaseOk call.ticket call.phase

theorem queued_init (now : Fin clockLimit) : Queued (init now) where
  known := known_init now
  dir n h := by cases h
  nodup := List.nodup_nil
  inside := by
    rintro n ⟨c, call, hc, -⟩
    cases hc
  phases c call h := by cases h

-- ---------------------------------------------------------------------------
-- What later states keep
-- ---------------------------------------------------------------------------

structure Later (s t : Host) : Prop where
  entry : ∀ n, s.Entry n → t.Entry n
  gone : ∀ n, s.Gone n → t.Gone n
  waits : ∀ n, s.Entry n → t.Waits n → s.Waits n
  dir : ∀ n, s.Gone n → n ∈ t.dir → n ∈ s.dir

theorem Scanned.later (h : s.Scanned ticket scan) (hl : Later s t) : t.Scanned ticket scan where
  own := h.own
  before n hn := hl.entry n (h.before n hn)
  todo n hn := hl.entry n (h.todo n hn)
  seen n hn hw := h.seen n hn (hl.waits n (h.before n hn) hw)
  ordered := h.ordered
  gone n hn := hl.gone n (h.gone n hn)
  dead n hn := (h.dead n hn).imp_right (Or.imp_right fun hd =>
    ⟨fun hm => hd.1 (hl.dir n (h.gone n hn) hm), hd.2⟩)

theorem PhaseOk.later {p : Phase} (h : s.PhaseOk ticket p) (hl : Later s t) :
    t.PhaseOk ticket p := by
  cases p with
  | listing before gone =>
    exact ⟨h.1, fun n hn => hl.entry n (h.2.1 n hn), fun n hn =>
      ⟨(h.2.2 n hn).1, hl.gone n (h.2.2 n hn).2⟩⟩
  | probing scan | reading scan => exact Scanned.later h hl
  | dropping scan => exact ⟨h.1.later hl, fun n hn => hl.gone n (h.2 n hn)⟩
  | _ => trivial

theorem Known.not_gone (h : s.Known) (hw : s.Waits n) : ¬ s.Gone n := by
  rintro ⟨d, call', hd, ht', hgone⟩
  obtain ⟨c, call, hc, ht, ha, -⟩ := hw
  obtain rfl := h.distinct c d call call' hc hd (ht.trans ht'.symm)
  rw [hc] at hd
  cases hd
  rw [ha] at hgone
  cases hgone

/-- An entry of the directory whose process is not there. -/
theorem gone_of_not_owned (he : s.Entry n) (h : s.owned n = false) : s.Gone n := by
  obtain ⟨c, call, hc, ht, -⟩ := he
  refine ⟨c, call, hc, ht, ?_⟩
  simp only [owned, List.any_eq_false, Bool.and_eq_true, decide_eq_true_eq, not_and] at h
  simpa using h call (List.mem_of_getElem? hc) ht

-- ---------------------------------------------------------------------------
-- What a probe shows
-- ---------------------------------------------------------------------------

/-- The process of an entry, and what a scan reads off its name. -/
theorem Known.parse_entry (h : s.Known) (he : s.Entry n) :
    ∃ (c : CallId) (call : Call) (q : Proc) (start : List Char), s.calls[c]? = some call ∧
      call.ticket = n ∧ s.procs[call.proc]? = some q ∧ parse n = some (q.pid, start) ∧
      (start = unknown ∨ start = decimal q.start) := by
  obtain ⟨c, call, hc, rfl, -⟩ := he
  obtain ⟨q, gate, start, hq, -, hstart, hticket⟩ := h.named c call hc
  exact ⟨c, call, q, start, hc, rfl, hq, by rw [hticket, parse_ticketName hstart], hstart⟩

theorem alive_of_getElem? {q : Proc} (h : s.procs[i]? = some q) : s.alive i = q.alive := by
  rw [alive, h]

/-- A condemned ticket belongs to a process that is gone. -/
theorem Condemns.gone (hc : s.Condemns n) (h : s.Known) (he : s.Entry n) : s.Gone n := by
  obtain ⟨c, call, q, start, hcall, ht, hq, hparse, hstart⟩ := h.parse_entry he
  refine ⟨c, call, hcall, ht, ?_⟩
  rw [alive_of_getElem? hq]
  rcases hc with hnone | ⟨pid, start', hparse', hc⟩
  · rw [hparse] at hnone
    cases hnone
  · rw [hparse] at hparse'
    cases hparse'
    rcases hc with hfree | ⟨r, hr, hs, -, hne⟩
    · exact holder_none hfree hq rfl
    · -- Another process has the PID: it started at another time.
      obtain ⟨j, hj, hra, hrp⟩ := holder_some hr
      have hstart : start = decimal q.start := hstart.resolve_left hs
      by_contra hqa
      have hqa : q.alive = true := by simpa using hqa
      obtain rfl := h.alone _ j q r hq hj hqa hra hrp.symm
      rw [hq] at hj
      cases hj
      exact hne hstart.symm

/-- A start time that is the same shows that the process is there. -/
theorem Keeps.not_gone (hk : s.Keeps n .same) (h : s.Known) : ¬ s.Gone n := by
  rintro ⟨c, call, hc, ht, hdead⟩
  obtain ⟨q, gate, st, hq, -, hst, hticket⟩ := h.named c call hc
  obtain ⟨pid, start, r, hparse, hr, hs, hsame⟩ := hk
  rw [← ht, hticket, parse_ticketName hst] at hparse
  cases hparse
  obtain ⟨j, hj, hra, hrp⟩ := holder_some hr
  have hstart : r.start = q.start := decimal_injective (hsame.trans (hst.resolve_left hs))
  obtain rfl := h.starts _ j q r hq hj hrp.symm hstart.symm
  rw [alive_of_getElem? hj, hra] at hdead
  cases hdead

-- ---------------------------------------------------------------------------
-- One step of a scan
-- ---------------------------------------------------------------------------

theorem todo_of_head? (h : scan.todo.head? = some name) : scan.todo = name :: scan.todo.tail := by
  cases hs : scan.todo with
  | nil => rw [hs] at h; cases h
  | cons x rest => rw [hs] at h; cases h; rfl

theorem queue_keep : (scan.keep name g).queue = scan.queue ++ [name] := by
  simp [Scan.queue, Scan.keep]

theorem keep_append (h : scan.todo.head? = some name) :
    (scan.keep name g).queue ++ (scan.keep name g).todo = scan.queue ++ scan.todo := by
  rw [queue_keep, todo_of_head? h]
  simp [Scan.keep]

theorem Scanned.keep (h : s.Scanned ticket scan) (hk : s.Known)
    (hn : scan.todo.head? = some name) (hg : s.Keeps name g) :
    s.Scanned ticket (scan.keep name g) where
  own := h.own
  before := h.before
  todo n hn' := h.todo n (List.mem_of_mem_tail hn')
  seen n hb hw := by
    rw [keep_append hn]
    exact h.seen n hb hw
  ordered := by
    rw [keep_append hn]
    exact h.ordered
  gone := h.gone
  dead n hgone := by
    have hkept : ∀ x, x ∈ scan.tickets → x ∈ (scan.keep name g).tickets :=
      fun x hx => List.mem_append_left _ hx
    by_cases he : n = name
    · subst he
      refine .inr (.inl ⟨g, ?_, by simp [Scan.keep]⟩)
      rintro rfl
      exact hg.not_gone hk (h.gone n hgone)
    · rcases h.dead n hgone with ht | ⟨g', hg', hm⟩ | ⟨hd, hq⟩
      · rw [todo_of_head? hn] at ht
        exact .inl ((List.mem_cons.mp ht).resolve_left he)
      · exact .inr (.inl ⟨g', hg', hkept _ hm⟩)
      · refine .inr (.inr ⟨hd, ?_⟩)
        rw [queue_keep]
        simp [hq, he]

/-- The head of the tickets yet to probe is not among those kept. -/
theorem Scanned.head_not_mem (h : s.Scanned ticket scan) (hn : scan.todo.head? = some name) :
    name ∉ scan.queue := fun hm => by
  have hord := h.ordered
  rw [todo_of_head? hn, List.pairwise_append] at hord
  exact lt_irrefl name (hord.2.2 name hm name (by simp))

theorem Scanned.drop (h : s.Scanned ticket scan) (hn : scan.todo.head? = some name)
    (hgone : ¬ s.Waits name) (hnodup : s.dir.Nodup) (hl : Later s t)
    (hdir : t.dir = s.dir.erase name) : t.Scanned ticket scan.drop where
  own := h.own
  before n hb := hl.entry n (h.before n hb)
  todo n hn' := hl.entry n (h.todo n (List.mem_of_mem_tail hn'))
  seen n hb hw := by
    have hw := hl.waits n (h.before n hb) hw
    have hne : n ≠ name := fun he => hgone (he ▸ hw)
    have hm := h.seen n hb hw
    rw [todo_of_head? hn] at hm
    simpa [Scan.drop, Scan.queue, hne] using hm
  ordered := by
    refine h.ordered.sublist (List.Sublist.append_left ?_ _)
    exact List.tail_sublist _
  gone n hn' := hl.gone n (h.gone n hn')
  dead n hn' := by
    rcases h.dead n hn' with ht | hk | ⟨hd, hq⟩
    · rw [todo_of_head? hn] at ht
      rcases List.mem_cons.mp ht with rfl | ht
      · refine .inr (.inr ⟨?_, h.head_not_mem hn⟩)
        rw [hdir]
        exact hnodup.not_mem_erase
      · exact .inl ht
    · exact .inr (.inl hk)
    · exact .inr (.inr ⟨fun hm => hd (hl.dir n (h.gone n hn') hm), hq⟩)

/-- The sorted listing has every waiting ticket of the beginning. -/
theorem Queued.listed {before gone names : List Name} (h : s.Queued)
    (hp : s.PhaseOk ticket (.listing before gone)) (hlist : s.Lists before names) :
    s.Scanned ticket ⟨before, gone, names.insertionSort (· ≤ ·), []⟩ where
  own := hp.1
  before := hp.2.1
  todo n hn := by
    rw [List.mem_insertionSort] at hn
    obtain ⟨call, hcall, ht, hph⟩ := hlist.2.2 n hn
    obtain ⟨c, hc⟩ := List.getElem?_of_mem hcall
    exact ⟨c, call, hc, ht, hph⟩
  seen n hb hw := by
    simpa [Scan.queue] using hlist.2.1 n hb (h.inside n hw)
  ordered := by
    have hsorted := List.pairwise_insertionSort (· ≤ ·) names
    have hnodup : (names.insertionSort (· ≤ ·)).Nodup :=
      (List.perm_insertionSort (· ≤ ·) names).nodup_iff.mpr hlist.1
    exact hsorted.imp₂ (fun _ _ hle hne => lt_of_le_of_ne hle hne) hnodup
  gone n hn := (hp.2.2 n hn).2
  dead n hn := by
    by_cases hd : n ∈ s.dir
    · exact .inl ((List.mem_insertionSort _).mpr (hlist.2.1 n (hp.2.2 n hn).1 hd))
    · exact .inr (.inr ⟨hd, by simp [Scan.queue]⟩)

end EufyNvr.Gate.Host
