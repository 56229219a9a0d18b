import EufyNvr.Gate.Gate
import EufyNvr.Lib.Table

/-!
# What a step of the gate can do

`CallMove` lists the outcomes of a step of one call, and `Move` those of a
step of the host; `callStep_move` and `step_move` read a successful step as one
of them. The lemmas before them say what the updates of the host do to its
parts.
-/

namespace EufyNvr.Gate

/-- The ticket is in the directory and its call waits for the session. -/
def Phase.inside : Phase → Bool
  | .looping | .listing .. | .probing _ | .reading _ | .dropping _ | .waiting _ => true
  | _ => false

/-- The scan of a phase in which tickets are probed. -/
def Phase.scan : Phase → Option Scan
  | .probing scan | .reading scan | .dropping scan => some scan
  | _ => none

/-- What the call does next may raise. -/
def Phase.mayFail : Phase → Bool
  | .publishing | .listing .. | .probing _ | .reading _ | .dropping _ => true
  | _ => false

namespace Host

variable {s t : Host} {c d : CallId} {call : Call} {p : Phase} {l : CallLabel} {name : Name}
  {scan : Scan} {label : Label}

-- ---------------------------------------------------------------------------
-- Updates
-- ---------------------------------------------------------------------------

@[simp] theorem goto_now : (s.goto c p).now = s.now := rfl
@[simp] theorem goto_procs : (s.goto c p).procs = s.procs := rfl
@[simp] theorem goto_dir : (s.goto c p).dir = s.dir := rfl
@[simp] theorem goto_lock : (s.goto c p).lock = s.lock := rfl
@[simp] theorem create_calls : (s.create name).calls = s.calls := rfl
@[simp] theorem create_procs : (s.create name).procs = s.procs := rfl
@[simp] theorem create_lock : (s.create name).lock = s.lock := rfl
@[simp] theorem remove_calls : (s.remove name).calls = s.calls := rfl
@[simp] theorem remove_procs : (s.remove name).procs = s.procs := rfl
@[simp] theorem remove_lock : (s.remove name).lock = s.lock := rfl
@[simp] theorem remove_dir : (s.remove name).dir = s.dir.erase name := rfl
@[simp] theorem kill_calls {i : ProcId} : (s.kill i).calls = s.calls := rfl
@[simp] theorem kill_dir {i : ProcId} : (s.kill i).dir = s.dir := rfl

/-- A call after a move of `c`: another call as it was, or `c` in its new phase. -/
theorem getElem?_goto (h : (s.goto c p).calls[d]? = some call) :
    (d ≠ c ∧ s.calls[d]? = some call) ∨
      d = c ∧ ∃ old, s.calls[c]? = some old ∧ call = { old with phase := p } :=
  Table.getElem?_modify h

theorem getElem?_goto_self (h : s.calls[c]? = some call) :
    (s.goto c p).calls[c]? = some { call with phase := p } := Table.getElem?_modify_self h

theorem getElem?_goto_ne (hd : d ≠ c) : (s.goto c p).calls[d]? = s.calls[d]? :=
  Table.getElem?_modify_ne hd

theorem alive_congr (h : t.procs = s.procs) (i : ProcId) : t.alive i = s.alive i := by
  rw [alive, alive, h]

@[simp] theorem alive_goto (i : ProcId) : (s.goto c p).alive i = s.alive i := rfl

theorem alive_eq_true {i : ProcId} :
    s.alive i = true ↔ ∃ q, s.procs[i]? = some q ∧ q.alive = true := by
  unfold alive
  cases s.procs[i]? with
  | none => simp
  | some q => simp

theorem mem_create {n : Name} : n ∈ (s.create name).dir ↔ n = name ∨ n ∈ s.dir := by
  rw [create, List.mem_cons]
  by_cases hn : n = name
  · simp [hn]
  · simp [hn, List.mem_erase_of_ne hn]

theorem nodup_create (h : s.dir.Nodup) : (s.create name).dir.Nodup :=
  List.nodup_cons.mpr ⟨h.not_mem_erase, h.erase _⟩

-- ---------------------------------------------------------------------------
-- The process table
-- ---------------------------------------------------------------------------

theorem holder_some {pid : Nat} {q : Proc} (h : s.holder pid = some q) :
    ∃ i : ProcId, s.procs[i]? = some q ∧ q.alive = true ∧ q.pid = pid := by
  obtain ⟨i, hi⟩ := List.getElem?_of_mem (List.mem_of_find?_eq_some h)
  have hq := List.find?_some h
  simp only [Bool.and_eq_true, beq_iff_eq] at hq
  exact ⟨i, hi, hq.1, hq.2⟩

theorem holder_none {pid : Nat} {q : Proc} {i : ProcId} (h : s.holder pid = none)
    (hi : s.procs[i]? = some q) (hp : q.pid = pid) : q.alive = false := by
  have hq := List.find?_eq_none.mp h q (List.mem_of_getElem? hi)
  simpa [hp] using hq

-- ---------------------------------------------------------------------------
-- Moves of a call
-- ---------------------------------------------------------------------------

/-- The probe shows that the process of the ticket is gone. -/
def Condemns (s : Host) (name : Name) : Prop :=
  parse name = none ∨ ∃ pid start, parse name = some (pid, start) ∧
    (s.holder pid = none ∨ ∃ q, s.holder pid = some q ∧ start ≠ unknown ∧
      Decimal.decimal q.start ≠ unknown ∧ Decimal.decimal q.start ≠ start)

/-- The ground on which a probe keeps a ticket. -/
def Keeps (s : Host) (name : Name) : Ground → Prop
  | .same => ∃ pid start q, parse name = some (pid, start) ∧ s.holder pid = some q ∧
      start ≠ unknown ∧ Decimal.decimal q.start = start
  | .denied => ∃ pid start, parse name = some (pid, start) ∧ (s.holder pid).isSome = true
  | .unknown => True

/-- The step looks at the process of a ticket. -/
def looks : CallLabel → Bool
  | .probe _ | .read _ => true
  | _ => false

inductive CallMove (s : Host) (c : CallId) (call : Call) : CallLabel → Host → Prop
  | published {ok : Bool} : call.phase = .publishing →
      CallMove s c call (.publish ok)
        ((s.create call.ticket).goto c (if ok then .looping else .leaving .raised))
  | refused : call.phase = .looping → CallMove s c call (.loop true) (s.goto c (.leaving .refused))
  | began : call.phase = .looping →
      CallMove s c call (.loop false)
        (s.goto c (.listing s.dir (s.dir.filter fun n => !s.owned n)))
  | listed {before gone names : List Name} : call.phase = .listing before gone →
      s.Lists before names →
      CallMove s c call (.listed names)
        (s.goto c (.probing ⟨before, gone, names.insertionSort (· ≤ ·), []⟩))
  | kept {l : CallLabel} {scan : Scan} {name : Name} {g : Ground} : looks l = true →
      call.phase = .probing scan ∨ call.phase = .reading scan → scan.todo.head? = some name →
      s.Keeps name g → (g = .denied → l = .probe true ∧ call.phase = .probing scan) →
      CallMove s c call l (s.goto c (.probing (scan.keep name g)))
  | looked {scan : Scan} {denied : Bool} : call.phase = .probing scan →
      CallMove s c call (.probe denied) (s.goto c (.reading scan))
  | condemned {l : CallLabel} {scan : Scan} {name : Name} : looks l = true →
      call.phase = .probing scan ∨ call.phase = .reading scan → scan.todo.head? = some name →
      s.Condemns name → CallMove s c call l (s.goto c (.dropping scan))
  | unlinked {scan : Scan} {name : Name} : call.phase = .dropping scan →
      scan.todo.head? = some name →
      CallMove s c call .unlink ((s.remove name).goto c (.probing scan.drop))
  | took {scan : Scan} : call.phase = .probing scan → scan.todo = [] →
      scan.queue = [] ∨ scan.queue.head? = some call.ticket → s.lock = none →
      CallMove s c call .decide ({ s with lock := some c }.goto c (.leaving .acquired))
  | blocked {scan : Scan} {due : Nat} : call.phase = .probing scan → scan.todo = [] →
      (scan.queue = [] ∨ scan.queue.head? = some call.ticket → s.lock ≠ none) →
      CallMove s c call .decide (s.goto c (.waiting due))
  | woke {due : Nat} {stopped : Bool} : call.phase = .waiting due →
      CallMove s c call (.wake stopped) (s.goto c .looping)
  | cancelled {due : Nat} : call.phase = .waiting due →
      CallMove s c call .cancel (s.goto c (.leaving .cancelled))
  | failed : call.phase.mayFail = true → CallMove s c call .fail (s.goto c (.leaving .raised))
  | left {outcome : Outcome} : call.phase = .leaving outcome →
      CallMove s c call (.leave true) ((s.remove call.ticket).goto c (.done outcome))
  | stayed {outcome : Outcome} : call.phase = .leaving outcome →
      CallMove s c call (.leave false) (s.goto c (.done .raised))
  | released : call.phase = .done .acquired →
      CallMove s c call .release ({ s with lock := none }.goto c .released)

theorem probe_move {denied : Bool} (hp : call.phase = .probing scan)
    (h : s.probe c scan denied = some t) : CallMove s c call (.probe denied) t := by
  unfold probe at h
  split at h
  · cases h
  · rename_i name rest hn
    have hhead : scan.todo.head? = some name := by rw [hn]; rfl
    split at h
    · cases h
      exact .condemned rfl (.inl hp) hhead (.inl ‹_›)
    · rename_i pid start hparse
      split at h
      · rename_i hnone
        cases h
        exact .condemned rfl (.inl hp) hhead (.inr ⟨pid, start, hparse, .inl (by simpa using hnone)⟩)
      · rename_i hsome
        split at h
        · rename_i hden
          cases h
          exact .kept rfl (.inl hp) hhead
            ⟨pid, start, hparse, Option.isSome_iff_ne_none.mpr (by simpa using hsome)⟩
            fun _ => ⟨by rw [hden], hp⟩
        · cases h
          exact .looked hp

theorem processStart_known {pid : Nat} {ok : Bool} (h : s.processStart pid ok ≠ unknown) :
    ∃ q, s.holder pid = some q ∧ s.processStart pid ok = Decimal.decimal q.start := by
  unfold processStart at h ⊢
  cases hq : s.holder pid with
  | none => simp [hq] at h
  | some q =>
    cases ok with
    | false => simp [hq] at h
    | true => exact ⟨q, rfl, rfl⟩

theorem compare_move {ok : Bool} (hp : call.phase = .reading scan)
    (h : s.compare c scan ok = some t) : CallMove s c call (.read ok) t := by
  unfold compare at h
  split at h
  · cases h
  · rename_i name rest hn
    have hhead : scan.todo.head? = some name := by rw [hn]; rfl
    split at h
    · cases h
    · rename_i pid start hparse
      simp only at h
      split at h
      · cases h
        exact .kept rfl (.inr hp) hhead trivial fun hg => by cases hg
      · rename_i hknown
        rw [not_or] at hknown
        obtain ⟨q, hq, hlive⟩ := processStart_known hknown.2
        split at h
        · rename_i heq
          cases h
          exact .kept rfl (.inr hp) hhead ⟨pid, start, q, hparse, hq, hknown.1, hlive ▸ heq⟩
            fun hg => by cases hg
        · rename_i hne
          cases h
          exact .condemned rfl (.inr hp) hhead (.inr ⟨pid, start, hparse,
            .inr ⟨q, hq, hknown.1, hlive ▸ hknown.2, hlive ▸ hne⟩⟩)

theorem decide_move (hp : call.phase = .probing scan) (htodo : scan.todo = []) :
    CallMove s c call .decide (s.decide c call scan) := by
  unfold decide
  split
  · split
    · exact .took hp htodo ‹_› ‹_›
    · exact .blocked hp htodo fun _ => ‹_›
  · exact .blocked hp htodo fun hhead => absurd hhead ‹_›

theorem callStep_move (h : s.callStep c call l = some t) : CallMove s c call l t := by
  cases l with
  | publish ok =>
    simp only [callStep] at h
    split at h
    · cases h; exact .published ‹_›
    · cases h
  | loop stopped =>
    simp only [callStep] at h
    split at h
    · rename_i hp
      cases stopped with
      | true => cases h; exact .refused hp
      | false => cases h; exact .began hp
    · cases h
  | listed names =>
    simp only [callStep] at h
    split at h
    · split at h
      · cases h; exact .listed ‹_› ‹_›
      · cases h
    · cases h
  | probe denied =>
    simp only [callStep] at h
    split at h
    · exact probe_move ‹_› h
    · cases h
  | read ok =>
    simp only [callStep] at h
    split at h
    · exact compare_move ‹_› h
    · cases h
  | unlink =>
    simp only [callStep] at h
    split at h
    · split at h
      · cases h
      · rename_i hn
        cases h; exact .unlinked ‹_› (by rw [hn]; rfl)
    · cases h
  | decide =>
    simp only [callStep] at h
    split at h
    · split at h
      · cases h; exact decide_move ‹_› ‹_›
      · cases h
    · cases h
  | wake stopped =>
    simp only [callStep] at h
    split at h
    · split at h
      · cases h; exact .woke ‹_›
      · cases h
    · cases h
  | cancel =>
    simp only [callStep] at h
    split at h
    · cases h; exact .cancelled ‹_›
    · cases h
  | fail =>
    simp only [callStep] at h
    split at h
    all_goals first
      | (rename_i hp; cases h; exact .failed (by rw [hp]; rfl))
      | cases h
  | leave ok =>
    simp only [callStep] at h
    split at h
    · cases ok with
      | true => cases h; exact .left ‹_›
      | false => cases h; exact .stayed ‹_›
    · cases h
  | release =>
    simp only [callStep] at h
    split at h
    · cases h; exact .released ‹_›
    · cases h

-- ---------------------------------------------------------------------------
-- Moves of the host
-- ---------------------------------------------------------------------------

inductive Move (s : Host) : Label → Host → Prop
  | ticked {d : Nat} : s.now + d < clockLimit → Move s (.tick d) { s with now := s.now + d }
  | spawned {pid start : Nat} : s.holder pid = none →
      (∀ q ∈ s.procs, q.pid = pid → q.start ≠ start) →
      Move s (.spawn pid start) { s with procs := s.procs ++ [⟨pid, start, true⟩] }
  | exited {i : ProcId} : s.alive i = true → Move s (.exit i) (s.kill i)
  | entered {i : ProcId} {gate : Nat} {known : Bool} {q : Proc} {name : Name} :
      s.procs[i]? = some q → q.alive = true →
      name = ticketName s.now q.pid (if known then Decimal.decimal q.start else unknown) gate →
      (∀ call ∈ s.calls, call.ticket ≠ name) →
      Move s (.enter i gate known) { s with calls := s.calls ++ [⟨i, s.now, name, .publishing⟩] }
  | called {c : CallId} {l : CallLabel} {call : Call} {t : Host} : s.calls[c]? = some call →
      s.alive call.proc = true → CallMove s c call l t → Move s (.call c l) t

theorem step_move (h : s.step label = some t) : Move s label t := by
  cases label with
  | tick d =>
    obtain ⟨hlt, rfl⟩ := Option.ite_some_none_eq_some.mp h
    exact .ticked hlt
  | spawn pid start =>
    obtain ⟨⟨hfree, hstart⟩, rfl⟩ := Option.ite_some_none_eq_some.mp h
    exact .spawned (Option.isNone_iff_eq_none.mp hfree) hstart
  | exit i =>
    obtain ⟨ha, rfl⟩ := Option.ite_some_none_eq_some.mp h
    exact .exited ha
  | enter i gate known =>
    simp only [step] at h
    split at h
    · obtain ⟨⟨ha, hnew⟩, rfl⟩ := Option.ite_some_none_eq_some.mp h
      exact .entered ‹_› ha rfl hnew
    · cases h
  | call c l =>
    simp only [step] at h
    split at h
    · split at h
      · exact .called ‹_› ‹_› (callStep_move h)
      · cases h
    · cases h

/-- What a step of a call is. -/
theorem step_call (h : s.step (.call c l) = some t) :
    ∃ call, s.calls[c]? = some call ∧ s.alive call.proc = true ∧ CallMove s c call l t := by
  cases step_move h with
  | called hc ha hm => exact ⟨_, hc, ha, hm⟩

end Host

end EufyNvr.Gate
