import EufyNvr.Supervisor.AttemptSteps
import EufyNvr.System.System

/-!
# The invariant of the system

A supervisor inside an attempt or in the grace period after it has a call
that holds the lock, every engine whose lock has not been given back belongs
to such a supervisor, and between the check of the stop event and the spawn
the event is not set. A step of one supervisor leaves the others apart.
-/

namespace EufyNvr

open Supervisor

/-- Past the check of the stop event, on the way to the lock. -/
def Gate.Phase.committed : Gate.Phase → Bool
  | .listing .. | .probing _ | .reading _ | .dropping _ => true
  | .leaving .acquired | .done .acquired => true
  | _ => false

/-- Inside an attempt or in the grace period after it. -/
def Supervisor.MainPhase.busy : MainPhase → Bool
  | .attempting _ | .releasing .. => true
  | _ => false

namespace System

variable {cfg : Settings} {s t : System} {i j k : Nat} {sup sup' : SupervisorProcess}
  {e e' : EngineProcess} {c : Gate.CallId}

-- ---------------------------------------------------------------------------
-- The invariant
-- ---------------------------------------------------------------------------

/-- An engine of `i` whose lock has not been given back. -/
def Pending (s : System) (i : Nat) (e : EngineProcess) : Prop :=
  e ∈ s.engines ∧ e.owner = i ∧ e.released = none

def PhaseFits (cfg : Settings) (s : System) (i : Nat) (sup : SupervisorProcess) : Prop :=
  match sup.main.phase with
  | .acquiring => ∀ p, s.callPhase sup = some p → p.committed = true → sup.stop = false
  | .attempting a => s.callPhase sup = some (.done .acquired) ∧ a.phase.isOpen = true ∧
      ∀ e, s.Pending i e → ∀ rc, a.exitCode = some rc → ∃ x rc, e.exited = some (x, rc)
  | .releasing due _ => s.callPhase sup = some (.done .acquired) ∧
      ∀ e, s.Pending i e → ∃ x rc, e.exited = some (x, rc) ∧ x + cfg.releaseDelay ≤ due
  | .retrying _ | .returned _ => sup.call = none
  | .raised => ∀ p, s.callPhase sup = some p → p = .done .raised

structure Fits (cfg : Settings) (s : System) (i : Nat) (sup : SupervisorProcess) : Prop where
  live : MainPhase.over sup.main.phase = false → s.host.alive sup.proc = true
  known : ∃ q, s.host.procs[sup.proc]? = some q
  call : ∀ c, sup.call = some c → ∃ call, s.host.calls[c]? = some call ∧ call.proc = sup.proc
  stale : ∀ (c : Gate.CallId) (call : Gate.Call), s.host.calls[c]? = some call →
    call.proc = sup.proc →
    sup.call = some c ∨ call.phase = .done .refused ∨ call.phase = .released
  phase : s.PhaseFits cfg i sup

structure EngineFits (cfg : Settings) (s : System) (e : EngineProcess) : Prop where
  owner : ∃ sup, s.sups[e.owner]? = some sup ∧ (e.released = none → sup.main.phase.busy = true)
  exited : ∀ x rc, e.exited = some (x, rc) → x ≤ s.now
  released : ∀ r, e.released = some r → r ≤ s.now ∧
    ∃ x rc, e.exited = some (x, rc) ∧ x + cfg.releaseDelay ≤ r

structure Orderly (cfg : Settings) (s : System) : Prop where
  queued : s.host.Queued
  locked : s.host.Locked
  procs : ∀ (i j : Nat) (sup sup' : SupervisorProcess), s.sups[i]? = some sup →
    s.sups[j]? = some sup' → sup.proc = sup'.proc → i = j
  sups : ∀ (i : Nat) (sup : SupervisorProcess), s.sups[i]? = some sup → s.Fits cfg i sup
  engines : ∀ e ∈ s.engines, s.EngineFits cfg e
  alone : ∀ (k l : Nat) (e e' : EngineProcess), s.engines[k]? = some e → s.engines[l]? = some e' →
    e.owner = e'.owner → e.released = none → e'.released = none → k = l

theorem orderly_init (cfg : Settings) (now : Fin Gate.clockLimit) : Orderly cfg (init now) where
  queued := Gate.Host.queued_init now
  locked := Gate.Host.locked_init now
  procs i j sup sup' h := by cases h
  sups i sup h := by cases h
  engines e h := by cases h
  alone k l e e' h := by cases h

-- ---------------------------------------------------------------------------
-- The holder of the lock
-- ---------------------------------------------------------------------------

/-- A call of supervisor `i` holds the lock. -/
def Holds (s : System) (i : Nat) : Prop :=
  ∃ (sup : SupervisorProcess) (c : Gate.CallId) (call : Gate.Call), s.sups[i]? = some sup ∧
    s.host.lock = some c ∧ s.host.calls[c]? = some call ∧ call.proc = sup.proc

theorem callPhase_eq (h : s.callPhase sup = some p) :
    ∃ c call, sup.call = some c ∧ s.host.calls[c]? = some call ∧ call.phase = p := by
  obtain ⟨call, hcall, hp⟩ := Option.map_eq_some_iff.mp h
  obtain ⟨c, hc, hcall⟩ := Option.bind_eq_some_iff.mp hcall
  exact ⟨c, call, hc, hcall, hp⟩

theorem not_over_of_busy {p : MainPhase} (h : p.busy = true) : MainPhase.over p = false := by
  cases p <;> first | rfl | cases h

theorem Fits.busy (h : s.Fits cfg i sup) (hb : sup.main.phase.busy = true) :
    s.callPhase sup = some (.done .acquired) := by
  have hp := h.phase
  unfold PhaseFits at hp
  cases hph : sup.main.phase with
  | attempting a => rw [hph] at hp; exact hp.1
  | releasing due v => rw [hph] at hp; exact hp.1
  | _ => rw [hph] at hb; cases hb

theorem Orderly.holds (h : Orderly cfg s) (hi : s.sups[i]? = some sup)
    (hb : sup.main.phase.busy = true) : s.Holds i := by
  have hf := h.sups i sup hi
  obtain ⟨c, call, hc, hcall, hp⟩ := callPhase_eq (hf.busy hb)
  obtain ⟨call', hcall', hproc⟩ := hf.call c hc
  rw [hcall] at hcall'
  cases hcall'
  have ha : s.host.alive call.proc = true := hproc ▸ hf.live (not_over_of_busy hb)
  exact ⟨sup, c, call, hi, h.locked.held c call hcall ha (by rw [hp]; rfl), hcall, hproc⟩

theorem Orderly.holds_unique (h : Orderly cfg s) (hi : s.Holds i) (hj : s.Holds j) : i = j := by
  obtain ⟨sup, c, call, hsup, hl, hc, hp⟩ := hi
  obtain ⟨sup', c', call', hsup', hl', hc', hp'⟩ := hj
  rw [hl] at hl'
  cases hl'
  rw [hc] at hc'
  cases hc'
  exact h.procs i j sup sup' hsup hsup' (hp.symm.trans hp')

/-- The owner of a pending engine holds the lock. -/
theorem Orderly.pending_holds (h : Orderly cfg s) (he : s.Pending i e) : s.Holds i := by
  obtain ⟨sup, hsup, hb⟩ := (h.engines e he.1).owner
  rw [he.2.1] at hsup
  exact h.holds hsup (hb he.2.2)

-- ---------------------------------------------------------------------------
-- Supervisors apart
-- ---------------------------------------------------------------------------

/-- From `s` to `t` nothing happens to the supervisor `sup` with index `i`. -/
structure Apart (s t : System) (i : Nat) (sup : SupervisorProcess) : Prop where
  alive : MainPhase.over sup.main.phase = false → s.host.alive sup.proc = true →
    t.host.alive sup.proc = true
  known : ∀ q, s.host.procs[sup.proc]? = some q → ∃ q, t.host.procs[sup.proc]? = some q
  calls : ∀ (c : Gate.CallId) (call : Gate.Call), call.proc = sup.proc →
    (t.host.calls[c]? = some call ↔ s.host.calls[c]? = some call)
  engines : ∀ e', t.Pending i e' → ∃ e, s.Pending i e ∧
    ∀ x rc, e.exited = some (x, rc) → e'.exited = some (x, rc)

theorem Apart.callPhase (h : Apart s t i sup)
    (hcall : ∀ c, sup.call = some c → ∃ call, s.host.calls[c]? = some call ∧ call.proc = sup.proc) :
    t.callPhase sup = s.callPhase sup := by
  unfold System.callPhase
  cases hc : sup.call with
  | none => rfl
  | some c =>
    obtain ⟨call, hs, hp⟩ := hcall c hc
    simp only [Option.bind_some, hs, (h.calls c call hp).mpr hs]

theorem Fits.apart (h : s.Fits cfg i sup) (ha : Apart s t i sup) : t.Fits cfg i sup where
  live hn := ha.alive hn (h.live hn)
  known := by
    obtain ⟨q, hq⟩ := h.known
    exact ha.known q hq
  call c hc := by
    obtain ⟨call, hs, hp⟩ := h.call c hc
    exact ⟨call, (ha.calls c call hp).mpr hs, hp⟩
  stale c call hc hp := h.stale c call ((ha.calls c call hp).mp hc) hp
  phase := by
    have hp := h.phase
    have hcp := ha.callPhase h.call
    unfold PhaseFits at hp ⊢
    cases hph : sup.main.phase with
    | acquiring => rw [hph] at hp; simpa only [hcp] using hp
    | attempting a =>
      rw [hph] at hp
      refine ⟨hcp ▸ hp.1, hp.2.1, fun e' he' rc hrc => ?_⟩
      obtain ⟨e, he, hx⟩ := ha.engines e' he'
      obtain ⟨x, rc', hxe⟩ := hp.2.2 e he rc hrc
      exact ⟨x, rc', hx x rc' hxe⟩
    | releasing due v =>
      rw [hph] at hp
      refine ⟨hcp ▸ hp.1, fun e' he' => ?_⟩
      obtain ⟨e, he, hx⟩ := ha.engines e' he'
      obtain ⟨x, rc, hxe, hle⟩ := hp.2 e he
      exact ⟨x, rc, hx x rc hxe, hle⟩
    | retrying due | returned code => rw [hph] at hp; exact hp
    | raised => rw [hph] at hp; simpa only [hcp] using hp

/-- A step of supervisor `i` that leaves the others apart. -/
theorem Orderly.update (h : Orderly cfg s) (hi : s.sups[i]? = some sup)
    (hq : t.host.Queued) (hl : t.host.Locked) (hsups : t.sups = s.sups.set i sup')
    (hproc : sup'.proc = sup.proc)
    (hapart : ∀ j supj, j ≠ i → s.sups[j]? = some supj → Apart s t j supj)
    (hfits : t.Fits cfg i sup') (hengines : ∀ e ∈ t.engines, t.EngineFits cfg e)
    (halone : ∀ (k l : Nat) (e e' : EngineProcess), t.engines[k]? = some e →
      t.engines[l]? = some e' → e.owner = e'.owner → e.released = none →
      e'.released = none → k = l) : Orderly cfg t := by
  have hlt : i < s.sups.length := (List.getElem?_eq_some_iff.mp hi).1
  have get (j : Nat) (x : SupervisorProcess) (hx : t.sups[j]? = some x) :
      (j = i ∧ x = sup') ∨ j ≠ i ∧ s.sups[j]? = some x := by
    rw [hsups] at hx
    by_cases hj : j = i
    · subst hj
      rw [List.getElem?_set_self hlt] at hx
      cases hx
      exact .inl ⟨rfl, rfl⟩
    · rw [List.getElem?_set_ne (Ne.symm hj)] at hx
      exact .inr ⟨hj, hx⟩
  refine ⟨hq, hl, fun j k x y hx hy hxy => ?_, fun j x hx => ?_, hengines, halone⟩
  · rcases get j x hx with ⟨rfl, rfl⟩ | ⟨-, hx⟩ <;> rcases get k y hy with ⟨rfl, rfl⟩ | ⟨-, hy⟩
    · rfl
    · exact h.procs j k sup y hi hy (hproc ▸ hxy)
    · exact h.procs j k x sup hx hi (hxy.trans hproc)
    · exact h.procs j k x y hx hy hxy
  · rcases get j x hx with ⟨rfl, rfl⟩ | ⟨hj, hx⟩
    · exact hfits
    · exact (h.sups j x hx).apart (hapart j x hj hx)

end System

end EufyNvr
