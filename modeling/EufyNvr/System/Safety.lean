import EufyNvr.System.Steps

/-!
# A single session

What holds in every state that a system reaches: at most one engine is
alive, an engine starts only after every earlier one has exited and its
supervisor has held the lock for the grace period, a supervisor that is over
leaves neither an engine nor the lock behind, and none starts an engine once
its stop event is set.
-/

namespace EufyNvr.System

open Supervisor Machine Decimal

variable {cfg : Settings} {now : Fin Gate.clockLimit} {s t : System} {i k : Nat}
  {sup sup' : SupervisorProcess} {e e' : EngineProcess} {l : SystemLabel} {ls : List SystemLabel}

theorem orderly_run (h : exec (step cfg) (init now) ls = some s) : Orderly cfg s :=
  invariant (fun _ _ _ ho hs => ho.step hs) (orderly_init cfg now) h

-- ---------------------------------------------------------------------------
-- Engines and the lock
-- ---------------------------------------------------------------------------

/-- An engine that is alive has not had its lock given back. -/
theorem EngineFits.pending (h : s.EngineFits cfg e) (ha : e.exited = none) : e.released = none := by
  cases hr : e.released with
  | none => rfl
  | some r =>
    obtain ⟨-, x, rc, hx, -⟩ := h.released r hr
    rw [ha] at hx
    cases hx

theorem Orderly.alive_unique {l : Nat} (h : Orderly cfg s) (hk : s.engines[k]? = some e)
    (hl : s.engines[l]? = some e') (ha : e.exited = none) (ha' : e'.exited = none) : k = l := by
  have he := List.mem_of_getElem? hk
  have he' := List.mem_of_getElem? hl
  have hr := (h.engines e he).pending ha
  have hr' := (h.engines e' he').pending ha'
  have ho : e.owner = e'.owner :=
    h.holds_unique (h.pending_holds ⟨he, rfl, hr⟩) (h.pending_holds ⟨he', rfl, hr'⟩)
  exact h.alone k l e e' hk hl ho hr hr'

theorem granted_phase (h : s.step cfg (.main i .granted) = some t) : ∃ sup,
    s.sups[i]? = some sup ∧ sup.main.phase = .acquiring ∧ sup.stop = false ∧
      s.callPhase sup = some (.done .acquired) ∧ t.engines = s.engines ++ [⟨i, none, none⟩] ∧
      ∃ m, t.sups = s.sups.set i { sup with main := m } := by
  obtain ⟨sup, hi, h⟩ := Option.bind_eq_some_iff.mp h
  obtain ⟨hcp, h⟩ := Option.ite_none_right_eq_some.mp h
  obtain ⟨u, hu, rfl⟩ := Option.map_eq_some_iff.mp h
  obtain ⟨m, hm, rfl⟩ := mainStep_move hu
  cases hm with
  | granted hp hstop => exact ⟨sup, hi, hp, hstop, hcp, rfl, _, rfl⟩

/-- The supervisor about to start an engine holds the lock, so the lock of
every engine so far has been given back. -/
theorem Orderly.granted (h : Orderly cfg s) (hs : s.step cfg (.main i .granted) = some t)
    (he : e ∈ s.engines) : ∃ x rc r, e.exited = some (x, rc) ∧ e.released = some r ∧
      x + cfg.releaseDelay ≤ r ∧ r ≤ s.now := by
  obtain ⟨sup, hi, hp, -, hcp, -⟩ := granted_phase hs
  have hf := h.sups i sup hi
  obtain ⟨c, call, hc, hcall, hph⟩ := callPhase_eq hcp
  obtain ⟨call', hcall', hproc⟩ := hf.call c hc
  rw [hcall] at hcall'
  cases hcall'
  have ha : s.host.alive call.proc = true := hproc ▸ hf.live (by rw [hp]; rfl)
  have hold : s.Holds i :=
    ⟨sup, c, call, hi, h.locked.held c call hcall ha (by rw [hph]; rfl), hcall, hproc⟩
  cases hr : e.released with
  | none =>
    have ho : e.owner = i := h.holds_unique (h.pending_holds ⟨he, rfl, hr⟩) hold
    exact absurd ⟨he, ho, hr⟩ (h.not_pending hi (by rw [hp]; rfl) e)
  | some r =>
    obtain ⟨hle, x, rc, hx, hd⟩ := (h.engines e he).released r hr
    exact ⟨x, rc, r, hx, rfl, hd, hle⟩

-- ---------------------------------------------------------------------------
-- The end of `main`
-- ---------------------------------------------------------------------------

theorem Orderly.over_exited (h : Orderly cfg s) (hi : s.sups[i]? = some sup)
    (hover : MainPhase.over sup.main.phase = true) (he : e ∈ s.engines) (ho : e.owner = i) :
    e.exited ≠ none := by
  intro ha
  have hb : sup.main.phase.busy = false := by
    cases hb : sup.main.phase.busy with
    | false => rfl
    | true => rw [not_over_of_busy hb] at hover; cases hover
  exact h.not_pending hi hb e ⟨he, ho, (h.engines e he).pending ha⟩

/-- Where the call of `acquire` has not raised, a `main` that is over has
given the lock back. -/
theorem Orderly.over_released (h : Orderly cfg s) (hi : s.sups[i]? = some sup)
    (hover : MainPhase.over sup.main.phase = true) (hh : s.Holds i) :
    sup.main.phase = .raised ∧ s.callPhase sup = some (.done .raised) := by
  obtain ⟨sup', c, call, hi', hl, hc, hproc⟩ := hh
  rw [hi] at hi'
  cases hi'
  have hf := h.sups i sup hi
  obtain ⟨call', hc', -, hmay⟩ := h.locked.holder c hl
  rw [hc] at hc'
  cases hc'
  -- A call that `main` has dropped was refused or released.
  have hcall : sup.call = some c := by
    rcases hf.stale c call hc hproc with hs | hs | hs
    · exact hs
    · rw [hs] at hmay; cases hmay
    · rw [hs] at hmay; cases hmay
  have hphase := hf.phase
  unfold PhaseFits at hphase
  cases hp : sup.main.phase with
  | returned code =>
    rw [hp, hcall] at hphase
    cases hphase
  | raised =>
    rw [hp] at hphase
    have hcp : s.callPhase sup = some call.phase := by simp [callPhase, hcall, hc]
    exact ⟨rfl, hphase _ hcp ▸ hcp⟩
  | _ => rw [hp] at hover; cases hover

-- ---------------------------------------------------------------------------
-- Stopped supervisors
-- ---------------------------------------------------------------------------

def Stopped (s : System) (i : Nat) : Prop :=
  ∃ sup, s.sups[i]? = some sup ∧ sup.stop = true

/-- A stop event that is set in `s` is set in `t`, and the engines of the
supervisor were there before. -/
structure Quiet (s t : System) (i : Nat) : Prop where
  stop : s.Stopped i → t.Stopped i
  engines : s.Stopped i → ∀ (k : Nat) (e : EngineProcess), t.engines[k]? = some e → e.owner = i →
    ∃ e' : EngineProcess, s.engines[k]? = some e' ∧ e'.owner = i

theorem Quiet.refl (s : System) : Quiet s s i := ⟨id, fun _ _ e he ho => ⟨e, he, ho⟩⟩

theorem Quiet.trans {u : System} (h : Quiet s t i) (h' : Quiet t u i) : Quiet s u i where
  stop hs := h'.stop (h.stop hs)
  engines hs k e he ho := by
    obtain ⟨e', he', ho'⟩ := h'.engines (h.stop hs) k e he ho
    exact h.engines hs k e' he' ho'

/-- The engines of `t` are those of `s`, at most with other times. -/
def SameOwners (s t : System) : Prop :=
  ∀ (k : Nat) (e : EngineProcess), t.engines[k]? = some e →
    ∃ e' : EngineProcess, s.engines[k]? = some e' ∧ e'.owner = e.owner

theorem SameOwners.of_eq (h : t.engines = s.engines) : SameOwners s t :=
  fun _ e he => ⟨e, h ▸ he, rfl⟩

theorem stopped_set {j : Nat} (hj : s.sups[j]? = some sup) (ht : t.sups = s.sups.set j sup')
    (hstop : sup.stop = true → sup'.stop = true) (h : s.Stopped i) : t.Stopped i := by
  obtain ⟨x, hx, hxs⟩ := h
  rw [Stopped, ht]
  by_cases hij : i = j
  · subst hij
    rw [hj] at hx
    cases hx
    exact ⟨sup', List.getElem?_set_self (List.getElem?_eq_some_iff.mp hj).1, hstop hxs⟩
  · exact ⟨x, (List.getElem?_set_ne (Ne.symm hij)).trans hx, hxs⟩

theorem Quiet.of_set {j : Nat} (hj : s.sups[j]? = some sup) (ht : t.sups = s.sups.set j sup')
    (hstop : sup.stop = true → sup'.stop = true) (he : SameOwners s t) : Quiet s t i where
  stop := stopped_set hj ht hstop
  engines _ k e hk ho := by
    obtain ⟨e', hk', ho'⟩ := he k e hk
    exact ⟨e', hk', ho'.trans ho⟩

theorem Quiet.of_same (ht : t.sups = s.sups) (he : SameOwners s t) : Quiet s t i where
  stop h := by rwa [Stopped, ht]
  engines _ k e hk ho := by
    obtain ⟨e', hk', ho'⟩ := he k e hk
    exact ⟨e', hk', ho'.trans ho⟩

theorem Quiet.mainStep {j : Nat} {l : MainLabel} (hj : s.sups[j]? = some sup)
    (h : s.mainStep cfg j sup' l = some t) (hstop : sup.stop = true → sup'.stop = true) :
    Quiet s t i := by
  obtain ⟨m, -, rfl⟩ := mainStep_move h
  exact .of_set hj rfl hstop (.of_eq rfl)

theorem Quiet.granted {j : Nat} (h : s.step cfg (.main j .granted) = some t) : Quiet s t i := by
  obtain ⟨sup, hj, -, hns, -, he, m, ht⟩ := granted_phase h
  refine ⟨stopped_set hj ht id, fun hst k e hk ho => ?_⟩
  rw [he] at hk
  rcases Table.getElem?_snoc hk with hk | ⟨-, rfl⟩
  · exact ⟨e, hk, ho⟩
  · -- The new engine is not of a supervisor that has stopped.
    obtain ⟨x, hx, hxs⟩ := hst
    cases ho
    rw [hj] at hx
    cases hx
    rw [hns] at hxs
    cases hxs

theorem Quiet.release {j : Nat} (hj : s.sups[j]? = some sup)
    (h : s.release cfg j sup = some t) : Quiet s t i := by
  unfold System.release at h
  split at h
  · obtain ⟨host, -, h⟩ := Option.bind_eq_some_iff.mp h
    obtain ⟨m, -, rfl⟩ := mainStep_move h
    refine .of_set hj rfl id fun k e' hk => ?_
    obtain ⟨e, he, rfl⟩ := getElem?_markReleased hk
    exact ⟨e, he, markedBy_owner.symm⟩
  · cases h

theorem Quiet.main {j : Nat} {l : MainLabel} (hj : s.sups[j]? = some sup)
    (h : s.main cfg j sup l = some t) (hl : l ≠ .granted) : Quiet s t i := by
  cases l with
  | granted => exact absurd rfl hl
  | spawnFails | refused | gateRaises =>
    exact .mainStep hj (Option.ite_none_right_eq_some.mp h).2 id
  | attempt al =>
    cases al with
    | exit rc => exact .mainStep hj (Option.ite_none_right_eq_some.mp h).2 id
    | _ => exact .mainStep hj h id
  | stopWake => exact .mainStep hj h id
  | timeout =>
    simp only [System.main] at h
    split at h
    · exact .release hj h
    · exact .mainStep hj h id

theorem Quiet.step (h : s.step cfg l = some t) : Quiet s t i := by
  cases l with
  | tick d =>
    obtain ⟨host, -, rfl⟩ := Option.map_eq_some_iff.mp h
    exact .of_same rfl (.of_eq rfl)
  | other gl =>
    cases gl with
    | spawn pid start =>
      obtain ⟨host, -, rfl⟩ := Option.map_eq_some_iff.mp h
      exact .of_same rfl (.of_eq rfl)
    | exit p =>
      obtain ⟨host, -, rfl⟩ := Option.map_eq_some_iff.mp (Option.ite_none_right_eq_some.mp h).2
      exact .of_same rfl (.of_eq rfl)
    | _ => cases h
  | start pid st discovery =>
    obtain ⟨host, -, rfl⟩ := Option.map_eq_some_iff.mp h
    exact ⟨fun ⟨x, hx, hxs⟩ => ⟨x, Table.getElem?_append_some hx, hxs⟩,
      fun _ _ e hk ho => ⟨e, hk, ho⟩⟩
  | exit j =>
    obtain ⟨sup, -, h⟩ := Option.bind_eq_some_iff.mp h
    obtain ⟨host, -, rfl⟩ := Option.map_eq_some_iff.mp (Option.ite_none_right_eq_some.mp h).2
    exact .of_same rfl (.of_eq rfl)
  | stop j =>
    obtain ⟨sup, hj, h⟩ := Option.bind_eq_some_iff.mp h
    obtain ⟨-, rfl⟩ := Option.ite_some_none_eq_some.mp h
    exact .of_set hj rfl (fun _ => rfl) (.of_eq rfl)
  | enter j gate known =>
    obtain ⟨sup, hj, h⟩ := Option.bind_eq_some_iff.mp h
    obtain ⟨host, -, rfl⟩ := Option.map_eq_some_iff.mp (Option.ite_none_right_eq_some.mp h).2
    exact .of_set hj rfl id (.of_eq rfl)
  | gate j gl =>
    obtain ⟨sup, -, h⟩ := Option.bind_eq_some_iff.mp h
    obtain ⟨c, -, h⟩ := Option.bind_eq_some_iff.mp (Option.ite_none_right_eq_some.mp h).2
    obtain ⟨host, -, rfl⟩ := Option.map_eq_some_iff.mp h
    exact .of_same rfl (.of_eq rfl)
  | main j ml =>
    by_cases hg : ml = .granted
    · subst hg
      exact .granted h
    · obtain ⟨sup, hj, h⟩ := Option.bind_eq_some_iff.mp h
      exact .main hj h hg
  | engineExits k rc =>
    obtain ⟨e, hk, h⟩ := Option.bind_eq_some_iff.mp h
    obtain ⟨-, rfl⟩ := Option.ite_some_none_eq_some.mp h
    refine .of_same rfl fun l x hx => ?_
    by_cases hl : l = k
    · subst hl
      rw [List.getElem?_set_self (List.getElem?_eq_some_iff.mp hk).1] at hx
      cases hx
      exact ⟨e, hk, rfl⟩
    · rw [List.getElem?_set_ne (Ne.symm hl)] at hx
      exact ⟨x, hx, rfl⟩

theorem quiet_run (h : exec (step cfg) s ls = some t) : Quiet s t i :=
  relation (I := fun _ => True) (R := fun s t => Quiet s t i) Quiet.refl (fun _ _ _ => Quiet.trans) (fun _ _ _ _ _ => trivial)
    (fun _ _ _ _ hs => .step hs) trivial h

-- ---------------------------------------------------------------------------
-- One session at a time
-- ---------------------------------------------------------------------------

/-- In every run of any number of supervisors over one host, with engines
that do as they like. -/
theorem single_session (h : exec (step cfg) (init now) ls = some s) :
    (∀ (k l : Nat) (e e' : EngineProcess), s.engines[k]? = some e → s.engines[l]? = some e' →
      e.exited = none → e'.exited = none → k = l) ∧
    (∀ e ∈ s.engines, e.released = none → s.Holds e.owner) ∧
    (∀ i t, s.step cfg (.main i .granted) = some t → ∀ e ∈ s.engines, ∃ x rc r,
      e.exited = some (x, rc) ∧ e.released = some r ∧ x + cfg.releaseDelay ≤ r ∧ r ≤ s.now) ∧
    (∀ (i : Nat) (sup : SupervisorProcess), s.sups[i]? = some sup →
      MainPhase.over sup.main.phase = true →
      (∀ e ∈ s.engines, e.owner = i → e.exited ≠ none) ∧
        (s.Holds i → sup.main.phase = .raised ∧ s.callPhase sup = some (.done .raised))) ∧
    ∀ (i : Nat), s.Stopped i → ∀ ms t, exec (step cfg) s ms = some t →
      ∀ (k : Nat) (e : EngineProcess), t.engines[k]? = some e → e.owner = i →
        k < s.engines.length := by
  have ho := orderly_run h
  refine ⟨fun k l e e' => ho.alive_unique, fun e he hr => ho.pending_holds ⟨he, rfl, hr⟩,
    fun i t ht e he => ho.granted ht he,
    fun i sup hi hover => ⟨fun e he hoe => ho.over_exited hi hover he hoe,
      ho.over_released hi hover⟩,
    fun i hs ms t ht k e hk hoe => ?_⟩
  obtain ⟨e', hk', -⟩ := (quiet_run ht).engines hs k e hk hoe
  exact (List.getElem?_eq_some_iff.mp hk').1

/-- Supervisor 0 has the session, its engine exits with 0, and supervisor 1
starts an engine after the grace period. -/
def handoff : List SystemLabel :=
  [.start 7 5 false, .start 8 6 false, .enter 0 1 true, .gate 0 (.publish true),
    .gate 0 (.loop false), .gate 0 (.listed [Gate.ticketName 0 7 (decimal 5) 1]),
    .gate 0 (.probe false), .gate 0 (.read true), .gate 0 .decide, .gate 0 (.leave true),
    .main 0 .granted, .engineExits 0 0, .main 0 (.attempt (.exit 0)), .main 0 (.attempt .wake),
    .main 0 (.attempt .wake), .main 0 (.attempt (.descendants false)), .tick 100000000,
    .main 0 (.attempt .timeout), .main 0 (.attempt .relayEnds), .main 0 (.attempt .wake),
    .tick 1000000000, .main 0 .timeout, .enter 1 2 true, .gate 1 (.publish true),
    .gate 1 (.loop false), .gate 1 (.listed [Gate.ticketName 1100000000 8 (decimal 6) 2]),
    .gate 1 (.probe false), .gate 1 (.read true), .gate 1 .decide, .gate 1 (.leave true),
    .main 1 .granted]

theorem single_session_handoff :
    ∃ s, exec (step .default) (init ⟨0, by decide⟩) handoff = some s ∧
      s.engines = [⟨0, some (0, 0), some 1100000000⟩, ⟨1, none, none⟩] ∧ s.Holds 1 ∧
      ¬ s.Holds 0 := by
  obtain ⟨s, hs, he, hp⟩ : ∃ s, exec (step .default) (init ⟨0, by decide⟩) handoff = some s ∧
      s.engines = [⟨0, some (0, 0), some 1100000000⟩, ⟨1, none, none⟩] ∧
      (s.sups[0]?.map fun sup => sup.main.phase) = some (.returned 0) := by
    apply exec_of_check
    decide +kernel
  obtain ⟨-, hlock, -, hover, -⟩ := single_session hs
  obtain ⟨sup, hsup, hret⟩ := Option.map_eq_some_iff.mp hp
  refine ⟨s, hs, he, hlock ⟨1, none, none⟩ (by simp [he]) rfl, fun h => ?_⟩
  obtain ⟨hraised, -⟩ := (hover 0 sup hsup (by rw [hret]; rfl)).2 h
  rw [hret] at hraised
  cases hraised

end EufyNvr.System
