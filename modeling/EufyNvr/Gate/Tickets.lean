import EufyNvr.Gate.Steps

/-!
# Tickets and their processes

A ticket names its process: the PID and, where known, the start time that a
scan reads off the name are those of the process that made it. Names are
never used twice, a PID has one process at a time, and a process that is gone
does not come back.
-/

namespace EufyNvr.Gate

open Decimal

-- ---------------------------------------------------------------------------
-- Names
-- ---------------------------------------------------------------------------

theorem unknown_or_decimal_digits {start : List Char} {n : Nat}
    (h : start = unknown ∨ start = decimal n) : Digits start := by
  rcases h with rfl | rfl
  · intro c hc
    rw [List.mem_singleton.mp hc]
    rfl
  · exact digits_decimal n

theorem int_decimal (n : Nat) : int (decimal n) = some n := by
  rw [int, if_pos ⟨Nat.toDigits_ne_nil, digits_decimal n⟩, value_decimal]

/-- A scan reads off a ticket what its process wrote. -/
theorem parse_ticketName {stamp pid gate n : Nat} {start : List Char}
    (h : start = unknown ∨ start = decimal n) :
    parse (ticketName stamp pid start gate) = some (pid, start) := by
  have hdash : '-'.isDigit = false := rfl
  rw [parse, ticketName, splitMax_append (not_mem_of_digits (digits_padded 20 stamp) hdash),
    splitMax_append (not_mem_of_digits (digits_decimal pid) hdash),
    splitMax_append (not_mem_of_digits (unknown_or_decimal_digits h) hdash)]
  simp [splitMax, int_decimal]

theorem clockLimit_le : clockLimit ≤ 10 ^ 20 := by decide

/-- Tickets are in the order of their stamps. -/
theorem ticketName_lt {stamp stamp' pid pid' gate gate' : Nat} {start start' : List Char}
    (hs : stamp < clockLimit) (hs' : stamp' < clockLimit) (h : stamp < stamp') :
    ticketName stamp pid start gate < ticketName stamp' pid' start' gate' :=
  padded_append_lt (by decide) (hs.trans_le clockLimit_le) (hs'.trans_le clockLimit_le) h _ _

namespace Host

variable {s t : Host} {c d : CallId} {call : Call} {p : Phase} {l : CallLabel} {label : Label}
  {name : Name} {i j : ProcId}

-- ---------------------------------------------------------------------------
-- What is known of a ticket
-- ---------------------------------------------------------------------------

/-- The ticket of a call that has reached the directory. -/
def Entry (s : Host) (n : Name) : Prop :=
  ∃ (c : CallId) (call : Call), s.calls[c]? = some call ∧ call.ticket = n ∧ call.phase ≠ .publishing

/-- A ticket whose process is gone. -/
def Gone (s : Host) (n : Name) : Prop :=
  ∃ (c : CallId) (call : Call), s.calls[c]? = some call ∧ call.ticket = n ∧ s.alive call.proc = false

/-- A ticket whose process is there and whose call waits for the session. -/
def Waits (s : Host) (n : Name) : Prop :=
  ∃ (c : CallId) (call : Call), s.calls[c]? = some call ∧ call.ticket = n ∧ s.alive call.proc = true ∧
    call.phase.inside = true

/-- The ticket is made of the stamp of the call and the data of its process. -/
def Named (s : Host) (call : Call) : Prop :=
  ∃ q gate start, s.procs[call.proc]? = some q ∧ call.stamp < clockLimit ∧
    (start = unknown ∨ start = decimal q.start) ∧
    call.ticket = ticketName call.stamp q.pid start gate

structure Known (s : Host) : Prop where
  now_lt : s.now < clockLimit
  named : ∀ (c : CallId) (call : Call), s.calls[c]? = some call → s.Named call
  distinct : ∀ (c d : CallId) (call call' : Call), s.calls[c]? = some call → s.calls[d]? = some call' →
    call.ticket = call'.ticket → c = d
  alone : ∀ (i j : ProcId) (q r : Proc), s.procs[i]? = some q → s.procs[j]? = some r → q.alive = true →
    r.alive = true → q.pid = r.pid → i = j
  starts : ∀ (i j : ProcId) (q r : Proc), s.procs[i]? = some q → s.procs[j]? = some r → q.pid = r.pid →
    q.start = r.start → i = j

theorem known_init (now : Fin clockLimit) : Known (init now) where
  now_lt := now.isLt
  named c call h := by cases h
  distinct c d call call' h := by cases h
  alone i j q r h := by cases h
  starts i j q r h := by cases h

-- ---------------------------------------------------------------------------
-- Steps
-- ---------------------------------------------------------------------------

/-- A step of a call changes its own phase and no process. -/
theorem CallMove.calls (h : CallMove s c call l t) :
    t.now = s.now ∧ t.procs = s.procs ∧ ∃ p, t.calls = (s.goto c p).calls ∧ p ≠ .publishing ∧
      (p.inside = true → call.phase.inside = true ∨ call.phase = .publishing) := by
  cases h with
  | @published ok hp => cases ok <;> exact ⟨rfl, rfl, _, rfl, by simp, fun _ => .inr hp⟩
  | kept _ hp | condemned _ hp =>
    exact ⟨rfl, rfl, _, rfl, by simp, fun _ => .inl (by rcases hp with hp | hp <;> rw [hp] <;> rfl)⟩
  | refused | took | cancelled | failed | left | stayed | released =>
    exact ⟨rfl, rfl, _, rfl, by simp, fun hin => by cases hin⟩
  | began hp | listed hp | looked hp | unlinked hp | blocked hp | woke hp =>
    exact ⟨rfl, rfl, _, rfl, by simp, fun _ => .inl (by rw [hp]; rfl)⟩

/-- A call of `t` and the same call of `s`, up to its phase. -/
theorem getElem?_of_goto (ht : t.calls = (s.goto c p).calls) (h : t.calls[d]? = some call) :
    ∃ old, s.calls[d]? = some old ∧ old.proc = call.proc ∧ old.stamp = call.stamp ∧
      old.ticket = call.ticket := by
  rw [ht] at h
  rcases getElem?_goto h with ⟨-, hd⟩ | ⟨rfl, old, ho, rfl⟩
  · exact ⟨call, hd, rfl, rfl, rfl⟩
  · exact ⟨old, ho, rfl, rfl, rfl⟩

theorem Known.goto (h : Known s) (hn : t.now = s.now) (hp : t.procs = s.procs)
    (ht : t.calls = (s.goto c p).calls) : Known t where
  now_lt := hn ▸ h.now_lt
  named d call hd := by
    obtain ⟨old, ho, hproc, hstamp, hticket⟩ := getElem?_of_goto ht hd
    simpa only [Named, hp, hproc, hstamp, hticket] using h.named d old ho
  distinct d e call call' hd he hticket := by
    obtain ⟨old, ho, -, -, h₁⟩ := getElem?_of_goto ht hd
    obtain ⟨old', ho', -, -, h₂⟩ := getElem?_of_goto ht he
    exact h.distinct d e old old' ho ho' (h₁.trans (hticket.trans h₂.symm))
  alone := hp ▸ h.alone
  starts := hp ▸ h.starts

/-- A process of `s.kill i`: as it was, or gone. -/
theorem getElem?_kill {q : Proc} (h : (s.kill i).procs[j]? = some q) :
    ∃ r, s.procs[j]? = some r ∧ r.pid = q.pid ∧ r.start = q.start ∧
      (q.alive = true → r.alive = true) := by
  rcases Table.getElem?_modify h with ⟨-, hj⟩ | ⟨rfl, r, hr, rfl⟩
  · exact ⟨q, hj, rfl, rfl, id⟩
  · exact ⟨r, hr, rfl, rfl, fun ha => by cases ha⟩

theorem Named.kill (h : s.Named call) : (s.kill i).Named call := by
  obtain ⟨q, gate, start, hq, hs, hstart, hticket⟩ := h
  by_cases hi : call.proc = i
  · subst hi
    exact ⟨_, gate, start, Table.getElem?_modify_self hq, hs, hstart, hticket⟩
  · exact ⟨q, gate, start, (Table.getElem?_modify_ne hi).trans hq, hs, hstart, hticket⟩

theorem Known.kill (h : Known s) : Known (s.kill i) where
  now_lt := h.now_lt
  named c call hc := (h.named c call hc).kill
  distinct := h.distinct
  alone j k q r hj hk hq hr hpid := by
    obtain ⟨q', hj', hp, -, ha⟩ := getElem?_kill hj
    obtain ⟨r', hk', hp', -, ha'⟩ := getElem?_kill hk
    exact h.alone j k q' r' hj' hk' (ha hq) (ha' hr) (hp.trans (hpid.trans hp'.symm))
  starts j k q r hj hk hpid hstart := by
    obtain ⟨q', hj', hp, hst, -⟩ := getElem?_kill hj
    obtain ⟨r', hk', hp', hst', -⟩ := getElem?_kill hk
    exact h.starts j k q' r' hj' hk' (hp.trans (hpid.trans hp'.symm))
      (hst.trans (hstart.trans hst'.symm))

theorem Known.spawn {pid start : Nat} (h : Known s) (hfree : s.holder pid = none)
    (hstart : ∀ q ∈ s.procs, q.pid = pid → q.start ≠ start) :
    Known { s with procs := s.procs ++ [⟨pid, start, true⟩] } where
  now_lt := h.now_lt
  named c call hc := by
    obtain ⟨q, gate, st, hq, hs, hst, hticket⟩ := h.named c call hc
    exact ⟨q, gate, st, Table.getElem?_append_some hq, hs, hst, hticket⟩
  distinct := h.distinct
  alone i j q r hi hj hq hr hpid := by
    rcases Table.getElem?_snoc hi with hi | ⟨rfl, rfl⟩ <;> rcases Table.getElem?_snoc hj with hj | ⟨rfl, rfl⟩
    · exact h.alone i j q r hi hj hq hr hpid
    · rw [holder_none hfree hi hpid] at hq
      cases hq
    · rw [holder_none hfree hj hpid.symm] at hr
      cases hr
    · rfl
  starts i j q r hi hj hpid hst := by
    rcases Table.getElem?_snoc hi with hi | ⟨rfl, rfl⟩ <;> rcases Table.getElem?_snoc hj with hj | ⟨rfl, rfl⟩
    · exact h.starts i j q r hi hj hpid hst
    · exact absurd hst (hstart q (List.mem_of_getElem? hi) hpid)
    · exact absurd hst.symm (hstart r (List.mem_of_getElem? hj) hpid.symm)
    · rfl

theorem Known.enter {q : Proc} {gate : Nat} {known : Bool} (h : Known s)
    (hq : s.procs[i]? = some q)
    (hnew : ∀ call ∈ s.calls, call.ticket ≠
      ticketName s.now q.pid (if known then decimal q.start else unknown) gate) :
    Known { s with calls := s.calls ++ [⟨i, s.now,
      ticketName s.now q.pid (if known then decimal q.start else unknown) gate, .publishing⟩] } where
  now_lt := h.now_lt
  named c call hc := by
    rcases Table.getElem?_snoc hc with hc | ⟨-, rfl⟩
    · exact h.named c call hc
    · refine ⟨q, gate, _, hq, h.now_lt, ?_, rfl⟩
      cases known with
      | true => exact .inr rfl
      | false => exact .inl rfl
  distinct c d call call' hc hd hticket := by
    rcases Table.getElem?_snoc hc with hc | ⟨rfl, rfl⟩ <;> rcases Table.getElem?_snoc hd with hd | ⟨rfl, rfl⟩
    · exact h.distinct c d call call' hc hd hticket
    · exact absurd hticket (hnew call (List.mem_of_getElem? hc))
    · exact absurd hticket.symm (hnew call' (List.mem_of_getElem? hd))
    · rfl
  alone := h.alone
  starts := h.starts

end Host

end EufyNvr.Gate
