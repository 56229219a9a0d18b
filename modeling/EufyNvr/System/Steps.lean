import EufyNvr.System.Invariant

/-!
# Every step keeps the system orderly

One lemma for each kind of step: of `main` alone, of a call of the gate, the
spawn, the release of the lock, the exit of an engine, and the steps of the
host.
-/

namespace EufyNvr.System

open Supervisor

variable {cfg : Settings} {s t : System} {i j k : Nat} {sup sup' : SupervisorProcess}
  {e e' : EngineProcess} {c : Gate.CallId} {host : Gate.Host} {call : Gate.Call}

-- ---------------------------------------------------------------------------
-- Steps of `main` alone
-- ---------------------------------------------------------------------------

theorem EngineFits.set (h : s.EngineFits cfg e) (hi : s.sups[i]? = some sup)
    (hsups : t.sups = s.sups.set i sup') (hnow : s.now ≤ t.now)
    (hbusy : e.owner = i → e.released = none → sup'.main.phase.busy = true) :
    t.EngineFits cfg e where
  owner := by
    obtain ⟨x, hx, hb⟩ := h.owner
    rw [hsups]
    by_cases ho : e.owner = i
    · rw [ho]
      exact ⟨sup', List.getElem?_set_self (List.getElem?_eq_some_iff.mp hi).1, hbusy ho⟩
    · exact ⟨x, by rw [List.getElem?_set_ne (Ne.symm ho), hx], hb⟩
  exited x rc hx := (h.exited x rc hx).trans hnow
  released r hr := ⟨(h.released r hr).1.trans hnow, (h.released r hr).2⟩

theorem Apart.of_same (hhost : t.host = s.host) (hengines : t.engines = s.engines) :
    Apart s t j sup where
  alive _ ha := hhost ▸ ha
  known q hq := ⟨q, hhost ▸ hq⟩
  calls c call _ := by rw [hhost]
  engines e' he' := ⟨e', by simpa only [Pending, hengines] using he', fun _ _ hx => hx⟩

/-- The owner of an engine that runs, or is in its grace period, is busy with it. -/
theorem EngineFits.busy (h : s.EngineFits cfg e) (hi : s.sups[i]? = some sup) (ho : e.owner = i)
    (hr : e.released = none) : sup.main.phase.busy = true := by
  obtain ⟨x, hx, hb⟩ := h.owner
  rw [ho, hi] at hx
  cases hx
  exact hb hr

/-- A change of a supervisor's own record. -/
theorem Orderly.setSup (h : Orderly cfg s) (hi : s.sups[i]? = some sup)
    (hproc : sup'.proc = sup.proc)
    (hover : MainPhase.over sup'.main.phase = false → MainPhase.over sup.main.phase = false)
    (hcall : sup'.call = sup.call ∨
      sup'.call = none ∧ s.callPhase sup = some (.done .refused))
    (hphase : s.PhaseFits cfg i sup')
    (hbusy : sup.main.phase.busy = true → sup'.main.phase.busy = true) :
    Orderly cfg (s.setSup i sup') := by
  have hf := h.sups i sup hi
  refine h.update hi h.queued h.locked rfl hproc (fun j x _ _ => Apart.of_same rfl rfl) ?_
    (fun e he => ?_) h.alone
  · refine ⟨fun hn => hproc ▸ hf.live (hover hn), hproc ▸ hf.known, fun c hc => ?_,
      fun c call hc hp => ?_, hphase⟩
    · rcases hcall with hcall | ⟨hcall, -⟩
      · rw [hproc]
        exact hf.call c (hcall ▸ hc)
      · rw [hcall] at hc
        cases hc
    · rcases hcall with hcall | ⟨hcall, hp'⟩
      · rw [hcall]
        exact hf.stale c call hc (hproc ▸ hp)
      · -- The call that is dropped is one that has been refused.
        rcases hf.stale c call hc (hproc ▸ hp) with hs | hs
        · obtain ⟨d, call', hd, hc', hph⟩ := callPhase_eq hp'
          rw [hs] at hd
          cases hd
          have hc₁ : s.host.calls[c]? = some call := hc
          rw [hc₁] at hc'
          cases hc'
          exact .inr (.inl hph)
        · exact .inr hs
  · exact (h.engines e he).set hi rfl le_rfl fun ho hr =>
      hbusy ((h.engines e he).busy hi ho hr)

/-- The engines of a supervisor that is neither in an attempt nor in the grace
period after one are not pending. -/
theorem Orderly.not_pending (h : Orderly cfg s) (hi : s.sups[i]? = some sup)
    (hb : sup.main.phase.busy = false) (e : EngineProcess) : ¬ s.Pending i e := fun he => by
  rw [(h.engines e he.1).busy hi he.2.1 he.2.2] at hb
  cases hb

theorem Orderly.stop (h : Orderly cfg s) (hi : s.sups[i]? = some sup)
    (ha : s.atAwait sup = true) : Orderly cfg (s.setSup i { sup with stop := true }) := by
  refine h.setSup hi rfl id (.inl rfl) ?_ id
  have hp := (h.sups i sup hi).phase
  unfold PhaseFits at hp ⊢
  cases hph : sup.main.phase with
  | acquiring =>
    intro p hcp hcom
    have hcp : s.callPhase sup = some p := hcp
    -- At an await the call waits, so it has not seen the event unset.
    simp only [atAwait, hph, hcp] at ha
    split at ha <;> simp_all [Gate.Phase.committed]
  | _ => rw [hph] at hp; exact hp

/-- The attempt `a` goes on, or ends after the exit of its engine. -/
theorem PhaseFits.afterAttempt {a b : Attempt} (h : s.PhaseFits cfg i sup)
    (hp : sup.main.phase = .attempting a)
    (hopen : b.phase.isOpen = true ∨ ∃ rc, b.exitCode = some rc)
    (hexit : ∀ e, s.Pending i e → ∀ rc, b.exitCode = some rc → ∃ x rc, e.exited = some (x, rc))
    (hpast : ∀ e, s.Pending i e → ∀ x rc, e.exited = some (x, rc) → x ≤ s.now) :
    s.PhaseFits cfg i { sup with main := sup.main.afterAttempt cfg s.now b } ∧
      (sup.main.afterAttempt cfg s.now b).phase.busy = true := by
  rw [PhaseFits, hp] at h
  have hrel (hn : b.phase.isOpen = false) : ∀ e, s.Pending i e →
      ∃ x rc, e.exited = some (x, rc) ∧ x + cfg.releaseDelay ≤ s.now + cfg.releaseDelay := by
    intro e he
    obtain ⟨rc, hrc⟩ := hopen.resolve_left (by simp [hn])
    obtain ⟨x, rc', hx⟩ := hexit e he rc hrc
    exact ⟨x, rc', hx, by have := hpast e he x rc' hx; omega⟩
  unfold Main.afterAttempt
  split
  · rename_i rc hret
    exact ⟨⟨h.1, hrel (by rw [hret]; rfl)⟩, rfl⟩
  · rename_i hrai
    exact ⟨⟨h.1, hrel (by rw [hrai]; rfl)⟩, rfl⟩
  · rename_i hret hrai
    refine ⟨⟨h.1, ?_, hexit⟩, rfl⟩
    cases hb : b.phase with
    | returned rc => exact absurd hb (hret rc)
    | raised => exact absurd hb hrai
    | _ => rfl

theorem Orderly.attempt {a b : Attempt} {al : AttemptLabel} (h : Orderly cfg s)
    (hi : s.sups[i]? = some sup) (hp : sup.main.phase = .attempting a)
    (hs : a.step cfg sup.discovery s.now sup.stop al = some b)
    (hexit : ∀ rc, al = .exit rc → ∀ e, s.Pending i e → ∃ x rc, e.exited = some (x, rc)) :
    Orderly cfg (s.setSup i { sup with main := sup.main.afterAttempt cfg s.now b }) := by
  have hf := (h.sups i sup hi).phase
  have hf' := hf
  rw [PhaseFits, hp] at hf'
  have hgone : ∀ e, s.Pending i e → ∀ rc, b.exitCode = some rc →
      ∃ x rc, e.exited = some (x, rc) := by
    intro e he rc hrc
    rcases Attempt.step_exitCode hs with hsame | ⟨rc', hal, -, -⟩
    · exact hf'.2.2 e he rc (hsame ▸ hrc)
    · exact hexit rc' hal e he
  obtain ⟨hphase, hbusy⟩ := hf.afterAttempt hp (Attempt.step_open hs hf'.2.1) hgone
    fun e he => (h.engines e he.1).exited
  exact h.setSup hi rfl (fun _ => by rw [hp]; rfl) (.inl rfl) hphase fun _ => hbusy

-- ---------------------------------------------------------------------------
-- The spawn and the release
-- ---------------------------------------------------------------------------

theorem Orderly.spawn (h : Orderly cfg s) (hi : s.sups[i]? = some sup)
    (hp : sup.main.phase = .acquiring) (hcp : s.callPhase sup = some (.done .acquired)) :
    Orderly cfg { s.setSup i { sup with
        main := { sup.main with phase := .attempting (.start s.now) } } with
      engines := s.engines ++ [⟨i, none, none⟩] } := by
  have hf := h.sups i sup hi
  have hnone := h.not_pending hi (by rw [hp]; rfl)
  refine h.update hi h.queued h.locked rfl rfl (fun j x hj _ => ?_) ?_ (fun e he => ?_)
    fun k l e e' hk hl ho hr hr' => ?_
  · refine ⟨fun _ ha => ha, fun q hq => ⟨q, hq⟩, fun _ _ _ => Iff.rfl, fun e' he' => ?_⟩
    obtain ⟨hm, ho, hr⟩ := he'
    rcases List.mem_append.mp hm with hm | hm
    · exact ⟨e', ⟨hm, ho, hr⟩, fun _ _ hx => hx⟩
    · rw [List.mem_singleton.mp hm] at ho
      exact absurd ho.symm hj
  · exact ⟨fun _ => hf.live (by rw [hp]; rfl), hf.known, hf.call, hf.stale,
      ⟨hcp, rfl, fun _ _ _ hrc => by cases hrc⟩⟩
  · rcases List.mem_append.mp he with he | he
    · exact (h.engines e he).set hi rfl le_rfl fun _ _ => rfl
    · rw [List.mem_singleton.mp he]
      exact ⟨⟨_, List.getElem?_set_self (List.getElem?_eq_some_iff.mp hi).1, fun _ => rfl⟩,
        fun _ _ hx => (by cases hx), fun _ hx => (by cases hx)⟩
  · rcases Table.getElem?_snoc hk with hk | ⟨rfl, rfl⟩ <;>
      rcases Table.getElem?_snoc hl with hl | ⟨rfl, rfl⟩
    · exact h.alone k l e e' hk hl ho hr hr'
    · exact absurd ⟨List.mem_of_getElem? hk, ho, hr⟩ (hnone e)
    · exact absurd ⟨List.mem_of_getElem? hl, ho.symm, hr'⟩ (hnone e')
    · rfl

theorem markedBy_owner : (s.markedBy i e).owner = e.owner := by
  unfold markedBy
  split <;> rfl

theorem markedBy_exited : (s.markedBy i e).exited = e.exited := by
  unfold markedBy
  split <;> rfl

theorem markedBy_released (h : (s.markedBy i e).released = none) :
    e.owner ≠ i ∧ e.released = none := by
  unfold markedBy at h
  split at h
  · cases h
  · rename_i hn
    exact ⟨fun ho => hn ⟨ho, h⟩, h⟩

theorem getElem?_markReleased (h : (s.markReleased i).engines[k]? = some e') :
    ∃ e, s.engines[k]? = some e ∧ e' = s.markedBy i e := by
  rw [markReleased, List.getElem?_map] at h
  obtain ⟨e, he, rfl⟩ := Option.map_eq_some_iff.mp h
  exact ⟨e, he, rfl⟩

/-- A step of a call, as the other supervisors see it. -/
theorem Apart.of_move {l : Gate.CallLabel} (hc : s.host.calls[c]? = some call)
    (hm : Gate.Host.CallMove s.host c call l host) (hne : call.proc ≠ sup.proc)
    (hhost : t.host = host)
    (hengines : ∀ e', t.Pending j e' → ∃ e, s.Pending j e ∧
      ∀ x rc, e.exited = some (x, rc) → e'.exited = some (x, rc)) : Apart s t j sup := by
  obtain ⟨-, hprocs, p, hcalls, -⟩ := hm.calls
  refine ⟨fun _ ha => by rwa [hhost, Gate.Host.alive_congr hprocs],
    fun q hq => ⟨q, by rwa [hhost, hprocs]⟩, fun d call' hp => ?_, hengines⟩
  have hdc (hd : s.host.calls[d]? = some call') : d ≠ c := by
    rintro rfl
    rw [hc] at hd
    cases hd
    exact hne hp
  rw [hhost, hcalls]
  constructor
  · intro hd
    rcases Gate.Host.getElem?_goto hd with ⟨-, hd⟩ | ⟨rfl, old, ho, rfl⟩
    · exact hd
    · rw [hc] at ho
      cases ho
      exact absurd hp hne
  · intro hd
    rw [Gate.Host.getElem?_goto_ne (hdc hd), hd]

/-- The lock is given back after the grace period. -/
theorem Orderly.release {due : Int} {v : Option Verdict} {m : Main} (h : Orderly cfg s)
    (hi : s.sups[i]? = some sup) (hp : sup.main.phase = .releasing due v) (hdue : due ≤ s.now)
    (hcall : sup.call = some c) (hs : s.host.step (.call c .release) = some host)
    (hm : m.phase.busy = false) (hacq : m.phase ≠ .acquiring) :
    Orderly cfg (({ s with host } : System).markReleased i |>.setSup i
      { sup with call := none, main := m }) := by
  have hf := h.sups i sup hi
  obtain ⟨call, hc, ha, hmove⟩ := Gate.Host.step_call hs
  obtain ⟨hnow, hprocs, -⟩ := hmove.calls
  have hcalls : host.calls = (s.host.goto c .released).calls := by
    cases hmove with
    | released => rfl
    | kept hl | condemned hl => cases hl
  obtain ⟨call', hc', hproc⟩ := hf.call c hcall
  rw [hc] at hc'
  cases hc'
  have hnow' : (({ s with host } : System).markReleased i |>.setSup i
      { sup with call := none, main := m }).now = s.now := by
    change (host.now : Int) = s.host.now
    rw [hnow]
  have hmark {e' : EngineProcess} (he : e' ∈ (({ s with host } : System).markReleased i |>.setSup i
      { sup with call := none, main := m }).engines) :
      ∃ e ∈ s.engines, ({ s with host } : System).markedBy i e = e' := List.mem_map.mp he
  have hrel := hf.phase
  rw [PhaseFits, hp] at hrel
  refine h.update hi (h.queued.step hs) (h.locked.step h.queued.known hs) rfl rfl
    (fun j x hj hx => ?_) ?_ (fun e' he' => ?_) fun k l e e' hk hl ho hr hr' => ?_
  · refine Apart.of_move hc hmove (fun hpx => hj ?_) rfl fun e' he' => ?_
    · exact h.procs j i x sup hx hi (hpx.symm.trans hproc)
    · obtain ⟨e, he, rfl⟩ := hmark he'.1
      obtain ⟨-, hr⟩ := markedBy_released he'.2.2
      exact ⟨e, ⟨he, markedBy_owner ▸ he'.2.1, hr⟩, fun x rc hx => by rw [markedBy_exited]; exact hx⟩
  · refine ⟨fun _ => ?_, ?_, fun _ hn => (by cases hn), fun d call' hd hpd => ?_, ?_⟩
    · change host.alive sup.proc = true
      rw [Gate.Host.alive_congr hprocs]
      exact hf.live (by rw [hp]; rfl)
    · change ∃ q, host.procs[sup.proc]? = some q
      rw [hprocs]
      exact hf.known
    · have hd : host.calls[d]? = some call' := hd
      rw [hcalls] at hd
      rcases Gate.Host.getElem?_goto hd with ⟨hdc, hd⟩ | ⟨rfl, old, -, rfl⟩
      · rcases hf.stale d call' hd hpd with hs' | hs'
        · rw [hcall] at hs'
          cases hs'
          exact absurd rfl hdc
        · exact .inr hs'
      · exact .inr (.inr rfl)
    · unfold PhaseFits
      cases hph : m.phase with
      | acquiring => exact absurd hph hacq
      | attempting a => rw [hph] at hm; cases hm
      | releasing d w => rw [hph] at hm; cases hm
      | raised => exact fun p hp' => by cases hp'
      | _ => rfl
  · obtain ⟨e, he, rfl⟩ := hmark he'
    have hfe := h.engines e he
    unfold markedBy
    split
    · rename_i hpend
      refine ⟨⟨{ sup with call := none, main := m }, ?_, fun hn => by cases hn⟩, fun x rc hx => ?_,
        fun r hr => ?_⟩
      · rw [hpend.1]
        exact List.getElem?_set_self (List.getElem?_eq_some_iff.mp hi).1
      · rw [hnow']
        exact hfe.exited x rc hx
      · obtain ⟨x, rc, hx, hle⟩ := hrel.2 e ⟨he, hpend.1, hpend.2⟩
        cases hr
        exact ⟨le_rfl, x, rc, hx, (hle.trans hdue).trans hnow'.ge⟩
    · rename_i hpend
      exact hfe.set hi rfl hnow'.ge fun ho hr => absurd ⟨ho, hr⟩ hpend
  · obtain ⟨old, hold, rfl⟩ := getElem?_markReleased hk
    obtain ⟨old', hold', rfl⟩ := getElem?_markReleased hl
    rw [markedBy_owner, markedBy_owner] at ho
    exact h.alone k l old old' hold hold' ho (markedBy_released hr).2 (markedBy_released hr').2

-- ---------------------------------------------------------------------------
-- Steps of a call of the gate
-- ---------------------------------------------------------------------------

/-- A call is committed by a look at the stop event. -/
theorem committed_of_move {l : Gate.CallLabel}
    (hm : Gate.Host.CallMove s.host c call l host) : ∃ p, host.calls = (s.host.goto c p).calls ∧
      (p.committed = true → call.phase.committed = true ∨ l = .loop false) := by
  cases hm with
  | @published ok => cases ok <;> exact ⟨_, rfl, fun hp => by cases hp⟩
  | began => exact ⟨_, rfl, fun _ => .inr rfl⟩
  | listed hp | looked hp | unlinked hp | took hp =>
    exact ⟨_, rfl, fun _ => .inl (by rw [hp]; rfl)⟩
  | kept _ hp | condemned _ hp =>
    exact ⟨_, rfl, fun _ => .inl (by rcases hp with hp | hp <;> rw [hp] <;> rfl)⟩
  | @left o hp => exact ⟨_, rfl, fun hc => .inl (by rw [hp]; cases o <;> first | rfl | cases hc)⟩
  | _ => exact ⟨_, rfl, fun hp => by cases hp⟩

theorem Orderly.gate {l : Gate.CallLabel} (h : Orderly cfg s) (hi : s.sups[i]? = some sup)
    (hp : sup.main.phase = .acquiring) (hl : hears sup l = true) (hcall : sup.call = some c)
    (hs : s.host.step (.call c l) = some host) : Orderly cfg { s with host } := by
  have hf := h.sups i sup hi
  obtain ⟨call, hc, ha, hmove⟩ := Gate.Host.step_call hs
  obtain ⟨hnow, hprocs, -⟩ := hmove.calls
  obtain ⟨p, hcalls, hcom⟩ := committed_of_move hmove
  obtain ⟨call', hc', hproc⟩ := hf.call c hcall
  rw [hc] at hc'
  cases hc'
  have hnew : host.calls[c]? = some { call with phase := p } := by
    rw [hcalls]
    exact Gate.Host.getElem?_goto_self hc
  have hsame : ({ s with host } : System).sups = s.sups.set i sup := (Table.set_self hi).symm
  refine h.update hi (h.queued.step hs) (h.locked.step h.queued.known hs) hsame
    rfl (fun j x hj hx => ?_) ?_ (fun e he => ?_) h.alone
  · exact Apart.of_move hc hmove (fun hpx => hj (h.procs j i x sup hx hi (hpx.symm.trans hproc)))
      rfl fun e' he' => ⟨e', he', fun _ _ hx => hx⟩
  · refine ⟨fun hn => ?_, ?_, fun d hd => ?_, fun d call' hd hpd => ?_, ?_⟩
    · change host.alive sup.proc = true
      rw [Gate.Host.alive_congr hprocs]
      exact hf.live hn
    · change ∃ q, host.procs[sup.proc]? = some q
      rw [hprocs]
      exact hf.known
    · rw [hcall] at hd
      cases hd
      exact ⟨_, hnew, hproc⟩
    · have hd : host.calls[d]? = some call' := hd
      rw [hcalls] at hd
      rcases Gate.Host.getElem?_goto hd with ⟨-, hd⟩ | ⟨rfl, -⟩
      · exact hf.stale d call' hd hpd
      · exact .inl hcall
    · have hphase := hf.phase
      rw [PhaseFits, hp] at hphase ⊢
      intro p' hp' hcom'
      obtain ⟨d, call', hd, hc', rfl⟩ := callPhase_eq hp'
      rw [hcall] at hd
      cases hd
      have hc' : host.calls[c]? = some call' := hc'
      rw [hnew] at hc'
      cases hc'
      rcases hcom hcom' with hold | rfl
      · refine hphase call.phase ?_ hold
        simp [callPhase, hcall, hc]
      · cases hstop : sup.stop with
        | false => rfl
        | true => rw [hears, hstop] at hl; cases hl
  · exact (h.engines e he).set hi (Table.set_self hi).symm
      (by change (s.host.now : Int) ≤ host.now; rw [hnow]) ((h.engines e he).busy hi)

/-- A supervisor calls `acquire`. -/
theorem Orderly.enter {gate : Nat} {known : Bool} (h : Orderly cfg s)
    (hi : s.sups[i]? = some sup) (hp : sup.main.phase = .acquiring) (hcall : sup.call = none)
    (hs : s.host.step (.enter sup.proc gate known) = some host) :
    Orderly cfg (({ s with host } : System).setSup i
      { sup with call := some s.host.calls.length }) := by
  have hf := h.sups i sup hi
  have hq := h.queued.step hs
  have hlock := h.locked.step h.queued.known hs
  cases Gate.Host.step_move hs with
  | entered =>
    refine h.update hi hq hlock rfl rfl (fun j x hj hx => ?_) ?_ (fun e he => ?_) h.alone
    · refine ⟨fun _ ha => ha, fun q hq => ⟨q, hq⟩, fun d call' hpd => ⟨fun hd => ?_, fun hd => ?_⟩,
        fun e' he' => ⟨e', he', fun _ _ hx => hx⟩⟩
      · rcases Table.getElem?_snoc hd with hd | ⟨-, rfl⟩
        · exact hd
        · exact absurd (h.procs j i x sup hx hi hpd.symm) hj
      · exact Table.getElem?_append_some hd
    · refine ⟨fun hn => hf.live hn, hf.known, fun d hd => ?_, fun d call' hd hpd => ?_, ?_⟩
      · cases hd
        exact ⟨_, List.getElem?_concat_length, rfl⟩
      · rcases Table.getElem?_snoc hd with hd | ⟨rfl, -⟩
        · have hst := hf.stale d call' hd hpd
          rw [hcall] at hst
          exact .inr (hst.resolve_left (by simp))
        · exact .inl rfl
      · rw [PhaseFits]
        simp only [hp]
        intro p' hp' hcom
        obtain ⟨d, call', hd, hc', rfl⟩ := callPhase_eq hp'
        cases hd
        rcases Table.getElem?_snoc hc' with hc' | ⟨-, rfl⟩
        · rw [List.getElem?_eq_none le_rfl] at hc'
          cases hc'
        · cases hcom
    · refine (h.engines e he).set hi rfl le_rfl fun ho hr => ?_
      exact absurd ⟨he, ho, hr⟩ (h.not_pending hi (by rw [hp]; rfl) e)

-- ---------------------------------------------------------------------------
-- Steps of the host and of the engines
-- ---------------------------------------------------------------------------

/-- A step of the host that leaves every call, and the processes of the
supervisors that are not over. -/
theorem Orderly.hostStep {l : Gate.Label} (h : Orderly cfg s) (hs : s.host.step l = some host)
    (hcalls : host.calls = s.host.calls) (hnow : s.host.now ≤ host.now)
    (halive : ∀ (i : Nat) (sup : SupervisorProcess), s.sups[i]? = some sup →
      MainPhase.over sup.main.phase = false → s.host.alive sup.proc = true →
        host.alive sup.proc = true)
    (hknown : ∀ (p : Gate.ProcId) (q : Gate.Proc), s.host.procs[p]? = some q →
      ∃ q, host.procs[p]? = some q) :
    Orderly cfg { s with host } where
  queued := h.queued.step hs
  locked := h.locked.step h.queued.known hs
  procs := h.procs
  sups i sup hi := (h.sups i sup hi).apart ⟨halive i sup hi, hknown sup.proc,
    fun c call _ => by rw [hcalls], fun e' he' => ⟨e', he', fun _ _ hx => hx⟩⟩
  engines e he := by
    have hle : s.now ≤ (({ s with host } : System)).now := Int.ofNat_le.mpr hnow
    have hf := h.engines e he
    exact ⟨hf.owner, fun x rc hx => (hf.exited x rc hx).trans hle,
      fun r hr => ⟨(hf.released r hr).1.trans hle, (hf.released r hr).2⟩⟩
  alone := h.alone

theorem Orderly.tick {d : Nat} (h : Orderly cfg s) (hs : s.host.step (.tick d) = some host) :
    Orderly cfg { s with host } := by
  cases Gate.Host.step_move hs with
  | ticked =>
    exact h.hostStep hs rfl (Nat.le_add_right _ _) (fun _ _ _ _ ha => ha) fun p q hq => ⟨q, hq⟩

theorem Orderly.spawnProcess {pid start : Nat} (h : Orderly cfg s)
    (hs : s.host.step (.spawn pid start) = some host) : Orderly cfg { s with host } := by
  cases Gate.Host.step_move hs with
  | spawned =>
    exact h.hostStep hs rfl le_rfl (fun _ _ _ _ ha => Gate.Host.alive_append ha)
      fun p q hq => ⟨q, Table.getElem?_append_some hq⟩

theorem Orderly.exitProcess {p : Gate.ProcId} (h : Orderly cfg s)
    (hs : s.host.step (.exit p) = some host)
    (hover : ∀ (i : Nat) (sup : SupervisorProcess), s.sups[i]? = some sup → sup.proc = p →
      MainPhase.over sup.main.phase = true) : Orderly cfg { s with host } := by
  cases Gate.Host.step_move hs with
  | exited =>
    refine h.hostStep hs rfl le_rfl (fun i sup hi hn ha => ?_) fun j q hq => ?_
    · refine Gate.Host.alive_kill_iff.mpr ⟨ha, fun hp => ?_⟩
      rw [hover i sup hi hp] at hn
      cases hn
    · by_cases hj : j = p
      · subst hj
        exact ⟨_, Table.getElem?_modify_self hq⟩
      · exact ⟨q, (Table.getElem?_modify_ne hj).trans hq⟩

/-- A new supervisor. -/
theorem Orderly.start {pid st : Nat} {discovery : Bool} (h : Orderly cfg s)
    (hs : s.host.step (.spawn pid st) = some host) :
    Orderly cfg { s with
      host, sups := s.sups ++ [⟨s.host.procs.length, discovery, false, .init, none⟩] } := by
  have ho := h.spawnProcess hs
  obtain ⟨-, rfl⟩ := Option.ite_some_none_eq_some.mp hs
  have hfresh (j : Nat) (x : SupervisorProcess) (hx : s.sups[j]? = some x) :
      x.proc ≠ s.host.procs.length := fun hp => by
    obtain ⟨q, hq⟩ := (h.sups j x hx).known
    rw [hp, List.getElem?_eq_none le_rfl] at hq
    cases hq
  refine ⟨ho.queued, ho.locked, fun i j x y hx hy hxy => ?_, fun i x hx => ?_, fun e he => ?_,
    ho.alone⟩
  · rcases Table.getElem?_snoc hx with hx | ⟨rfl, rfl⟩ <;>
      rcases Table.getElem?_snoc hy with hy | ⟨rfl, rfl⟩
    · exact h.procs i j x y hx hy hxy
    · exact absurd hxy (hfresh i x hx)
    · exact absurd hxy.symm (hfresh j y hy)
    · rfl
  · rcases Table.getElem?_snoc hx with hx | ⟨-, rfl⟩
    · have hf := ho.sups i x hx
      exact ⟨hf.live, hf.known, hf.call, hf.stale, hf.phase⟩
    · refine ⟨fun _ => Gate.Host.alive_eq_true.mpr ⟨_, List.getElem?_concat_length, rfl⟩,
        ⟨_, List.getElem?_concat_length⟩, fun _ hc => (by cases hc), fun c call hc hp => ?_,
        fun p hp => (by cases hp)⟩
      -- The calls so far are of processes that were there before.
      obtain ⟨q, gate, st', hq, -⟩ := h.queued.known.named c call hc
      rw [hp, List.getElem?_eq_none le_rfl] at hq
      cases hq
  · have hf := ho.engines e he
    obtain ⟨x, hx, hb⟩ := hf.owner
    exact ⟨⟨x, Table.getElem?_append_some hx, hb⟩, hf.exited, hf.released⟩

theorem Orderly.engineExits {rc : Int} (h : Orderly cfg s) (hk : s.engines[k]? = some e)
    (hn : e.exited = none) : Orderly cfg
      { s with engines := s.engines.set k { e with exited := some (s.now, rc) } } := by
  have hlt := (List.getElem?_eq_some_iff.mp hk).1
  have get (l : Nat) (x : EngineProcess)
      (hx : (s.engines.set k { e with exited := some (s.now, rc) })[l]? = some x) :
      (l = k ∧ x = { e with exited := some (s.now, rc) }) ∨ s.engines[l]? = some x := by
    by_cases hl : l = k
    · subst hl
      rw [List.getElem?_set_self hlt] at hx
      exact .inl ⟨rfl, (Option.some.inj hx).symm⟩
    · rw [List.getElem?_set_ne (Ne.symm hl)] at hx
      exact .inr hx
  have old (l : Nat) (x : EngineProcess)
      (hx : (s.engines.set k { e with exited := some (s.now, rc) })[l]? = some x) :
      ∃ y, s.engines[l]? = some y ∧ x.owner = y.owner ∧ x.released = y.released ∧
        ∀ z rc, y.exited = some (z, rc) → x.exited = some (z, rc) := by
    rcases get l x hx with ⟨rfl, rfl⟩ | hx
    · exact ⟨e, hk, rfl, rfl, fun z rc hz => by rw [hn] at hz; cases hz⟩
    · exact ⟨x, hx, rfl, rfl, fun _ _ hz => hz⟩
  refine ⟨h.queued, h.locked, h.procs, fun i sup hi => ?_, fun x hx => ?_,
    fun l m x y hx hy ho hr hr' => ?_⟩
  · refine (h.sups i sup hi).apart ⟨fun _ ha => ha, fun q hq => ⟨q, hq⟩, fun _ _ _ => Iff.rfl,
      fun x hx => ?_⟩
    obtain ⟨l, hl⟩ := List.getElem?_of_mem hx.1
    obtain ⟨y, hy, ho, hr, hz⟩ := old l x hl
    exact ⟨y, ⟨List.mem_of_getElem? hy, ho ▸ hx.2.1, hr ▸ hx.2.2⟩, hz⟩
  · obtain ⟨l, hl⟩ := List.getElem?_of_mem hx
    rcases get l x hl with ⟨-, rfl⟩ | hx
    · have hf := h.engines e (List.mem_of_getElem? hk)
      refine ⟨hf.owner, fun z rc' hz => ?_, fun r hr => ?_⟩
      · cases hz
        exact le_rfl
      · obtain ⟨-, z, rc', hz, -⟩ := hf.released r hr
        rw [hn] at hz
        cases hz
    · have hf := h.engines x (List.mem_of_getElem? hx)
      exact ⟨hf.owner, hf.exited, hf.released⟩
  · obtain ⟨x', hx', ho₁, hr₁, -⟩ := old l x hx
    obtain ⟨y', hy', ho₂, hr₂, -⟩ := old m y hy
    exact h.alone l m x' y' hx' hy' (ho₁.symm.trans (ho.trans ho₂)) (hr₁ ▸ hr) (hr₂ ▸ hr')

-- ---------------------------------------------------------------------------
-- All steps
-- ---------------------------------------------------------------------------

theorem current_pending (h : s.current i = some e) : s.Pending i e := by
  have hp := List.find?_some h
  simp only [Bool.and_eq_true, beq_iff_eq, Option.isNone_iff_eq_none] at hp
  exact ⟨List.mem_of_find?_eq_some h, hp.1, hp.2⟩

theorem Orderly.pending_unique (h : Orderly cfg s) (he : s.Pending i e) (he' : s.Pending i e') :
    e = e' := by
  obtain ⟨k, hk⟩ := List.getElem?_of_mem he.1
  obtain ⟨l, hl⟩ := List.getElem?_of_mem he'.1
  obtain rfl := h.alone k l e e' hk hl (he.2.1.trans he'.2.1.symm) he.2.2 he'.2.2
  rw [hk] at hl
  exact Option.some.inj hl

theorem mainStep_move {l : MainLabel} (h : s.mainStep cfg i sup l = some t) :
    ∃ m, Main.MainMove cfg sup.discovery s.now sup.stop sup.main l m ∧
      t = s.setSup i { sup with main := m } := by
  obtain ⟨m, hm, rfl⟩ := Option.map_eq_some_iff.mp h
  exact ⟨m, Main.step_move hm, rfl⟩

theorem conclude_idle (discovery : Bool) (now : Int) (n : Nat) (v : Verdict) :
    (Main.conclude cfg discovery now n v).2.busy = false ∧
      (Main.conclude cfg discovery now n v).2 ≠ .acquiring := by
  unfold Main.conclude
  split_ifs <;> exact ⟨rfl, nofun⟩

theorem Orderly.spawnFails (h : Orderly cfg s) (hi : s.sups[i]? = some sup)
    (hcp : s.callPhase sup = some (.done .acquired))
    (hs : s.mainStep cfg i sup .spawnFails = some t) : Orderly cfg t := by
  obtain ⟨m, hm, rfl⟩ := mainStep_move hs
  cases hm with
  | spawnFails hp =>
    exact h.setSup hi rfl (fun _ => by rw [hp]; rfl) (.inl rfl)
      ⟨hcp, fun e he => absurd he (h.not_pending hi (by rw [hp]; rfl) e)⟩ fun _ => rfl

theorem Orderly.refused (h : Orderly cfg s) (hi : s.sups[i]? = some sup)
    (hcp : s.callPhase sup = some (.done .refused))
    (hs : s.mainStep cfg i { sup with call := none } .refused = some t) : Orderly cfg t := by
  obtain ⟨m, hm, rfl⟩ := mainStep_move hs
  cases hm with
  | refused hp =>
    have hp : sup.main.phase = .acquiring := hp
    exact h.setSup hi rfl (fun _ => by rw [hp]; rfl) (.inr ⟨rfl, hcp⟩) rfl
      fun hb => by rw [hp] at hb; cases hb

theorem Orderly.gateRaises (h : Orderly cfg s) (hi : s.sups[i]? = some sup)
    (hcp : s.callPhase sup = some (.done .raised))
    (hs : s.mainStep cfg i sup .gateRaises = some t) : Orderly cfg t := by
  obtain ⟨m, hm, rfl⟩ := mainStep_move hs
  cases hm with
  | gateRaises hp =>
    refine h.setSup hi rfl (fun _ => by rw [hp]; rfl) (.inl rfl) (fun p hp' => ?_)
      fun hb => by rw [hp] at hb; cases hb
    exact Option.some.inj (hp'.symm.trans hcp)

theorem Orderly.attemptStep {al : AttemptLabel} (h : Orderly cfg s) (hi : s.sups[i]? = some sup)
    (hexit : ∀ rc, al = .exit rc → ∀ e, s.Pending i e → ∃ x rc, e.exited = some (x, rc))
    (hs : s.mainStep cfg i sup (.attempt al) = some t) : Orderly cfg t := by
  obtain ⟨m, hm, rfl⟩ := mainStep_move hs
  cases hm with
  | attempt hp hb => exact h.attempt hi hp hb hexit

theorem Orderly.stopWake (h : Orderly cfg s) (hi : s.sups[i]? = some sup)
    (hs : s.mainStep cfg i sup .stopWake = some t) : Orderly cfg t := by
  obtain ⟨m, hm, rfl⟩ := mainStep_move hs
  cases hm with
  | stopWake hp =>
    have hcall := (h.sups i sup hi).phase
    rw [PhaseFits, hp] at hcall
    exact h.setSup hi rfl (fun _ => by rw [hp]; rfl) (.inl rfl) hcall
      fun hb => by rw [hp] at hb; cases hb

/-- The delay before the next attempt is over. -/
theorem Orderly.retried (h : Orderly cfg s) (hi : s.sups[i]? = some sup)
    (hrel : ∀ due v, sup.main.phase ≠ .releasing due v)
    (hs : s.mainStep cfg i sup .timeout = some t) : Orderly cfg t := by
  obtain ⟨m, hm, rfl⟩ := mainStep_move hs
  cases hm with
  | retried hp =>
    have hcall := (h.sups i sup hi).phase
    rw [PhaseFits, hp] at hcall
    refine h.setSup hi rfl (fun _ => by rw [hp]; rfl) (.inl rfl) (fun p hp' => ?_)
      fun hb => by rw [hp] at hb; cases hb
    obtain ⟨c, -, hc, -⟩ := callPhase_eq hp'
    rw [hcall] at hc
    cases hc
  | concluded hp => exact absurd hp (hrel _ _)
  | failed hp => exact absurd hp (hrel _ _)

theorem Orderly.releaseStep {due : Int} {v : Option Verdict} (h : Orderly cfg s)
    (hi : s.sups[i]? = some sup) (hp : sup.main.phase = .releasing due v)
    (hs : s.release cfg i sup = some t) : Orderly cfg t := by
  unfold System.release at hs
  split at hs
  · rename_i c hc
    obtain ⟨host, hstep, hs⟩ := Option.bind_eq_some_iff.mp hs
    obtain ⟨m, hm, rfl⟩ := mainStep_move hs
    -- The clock is the same before and after the release.
    have hnow : (({ s with host } : System).markReleased i).now = s.now := by
      obtain ⟨call, -, -, hmove⟩ := Gate.Host.step_call hstep
      exact congrArg Nat.cast hmove.calls.1
    obtain ⟨hdue, hidle⟩ : due ≤ s.now ∧ m.phase.busy = false ∧ m.phase ≠ .acquiring := by
      cases hm with
      | retried hp' => cases hp.symm.trans hp'
      | concluded hp' hdue =>
        cases hp.symm.trans hp'
        exact ⟨hnow ▸ hdue, conclude_idle _ _ _ _⟩
      | failed hp' hdue =>
        cases hp.symm.trans hp'
        exact ⟨hnow ▸ hdue, rfl, nofun⟩
    exact (h.release hi hp hdue hc hstep hidle.1 hidle.2 :)
  · cases hs

theorem Orderly.main {l : MainLabel} (h : Orderly cfg s) (hi : s.sups[i]? = some sup)
    (hs : s.main cfg i sup l = some t) : Orderly cfg t := by
  cases l with
  | granted =>
    obtain ⟨hcp, hs⟩ := Option.ite_none_right_eq_some.mp hs
    obtain ⟨u, hu, rfl⟩ := Option.map_eq_some_iff.mp hs
    obtain ⟨m, hm, rfl⟩ := mainStep_move hu
    cases hm with
    | granted hp => exact h.spawn hi hp hcp
  | spawnFails =>
    obtain ⟨hcp, hs⟩ := Option.ite_none_right_eq_some.mp hs
    exact h.spawnFails hi hcp hs
  | refused =>
    obtain ⟨hcp, hs⟩ := Option.ite_none_right_eq_some.mp hs
    exact h.refused hi hcp hs
  | gateRaises =>
    obtain ⟨hcp, hs⟩ := Option.ite_none_right_eq_some.mp hs
    exact h.gateRaises hi hcp hs
  | attempt al =>
    cases al with
    | exit rc =>
      obtain ⟨hany, hs⟩ := Option.ite_none_right_eq_some.mp hs
      obtain ⟨e, he, hx⟩ := (Option.any_eq_true _ _).mp hany
      refine h.attemptStep hi (fun _ _ e' he' => ?_) hs
      -- The engine that `wait` reaps is the one of the attempt.
      have hown : e = e' := h.pending_unique (current_pending he) he'
      obtain ⟨⟨x, rc'⟩, hx, -⟩ := Option.map_eq_some_iff.mp (of_decide_eq_true hx)
      exact ⟨x, rc', hown ▸ hx⟩
    | _ => exact h.attemptStep hi (fun _ hal => by cases hal) hs
  | stopWake => exact h.stopWake hi hs
  | timeout =>
    simp only [System.main] at hs
    split at hs
    · exact h.releaseStep hi ‹_› hs
    · exact h.retried hi ‹_› hs

theorem Orderly.step {l : SystemLabel} (h : Orderly cfg s) (hs : s.step cfg l = some t) :
    Orderly cfg t := by
  cases l with
  | tick d =>
    obtain ⟨host, hstep, rfl⟩ := Option.map_eq_some_iff.mp hs
    exact h.tick hstep
  | other gl =>
    cases gl with
    | spawn pid start =>
      obtain ⟨host, hstep, rfl⟩ := Option.map_eq_some_iff.mp hs
      exact h.spawnProcess hstep
    | exit p =>
      obtain ⟨hn, hs⟩ := Option.ite_none_right_eq_some.mp hs
      obtain ⟨host, hstep, rfl⟩ := Option.map_eq_some_iff.mp hs
      exact h.exitProcess hstep fun j x hx hp => absurd hp (hn x (List.mem_of_getElem? hx))
    | _ => cases hs
  | start pid st discovery =>
    obtain ⟨host, hstep, rfl⟩ := Option.map_eq_some_iff.mp hs
    exact h.start hstep
  | exit i =>
    obtain ⟨sup, hi, hs⟩ := Option.bind_eq_some_iff.mp hs
    obtain ⟨hover, hs⟩ := Option.ite_none_right_eq_some.mp hs
    obtain ⟨host, hstep, rfl⟩ := Option.map_eq_some_iff.mp hs
    refine h.exitProcess hstep fun j x hx hp => ?_
    obtain rfl := h.procs j i x sup hx hi hp
    rw [hi] at hx
    cases hx
    exact hover
  | stop i =>
    obtain ⟨sup, hi, hs⟩ := Option.bind_eq_some_iff.mp hs
    obtain ⟨ha, rfl⟩ := Option.ite_some_none_eq_some.mp hs
    exact h.stop hi ha
  | enter i gate known =>
    obtain ⟨sup, hi, hs⟩ := Option.bind_eq_some_iff.mp hs
    obtain ⟨⟨hp, hc⟩, hs⟩ := Option.ite_none_right_eq_some.mp hs
    obtain ⟨host, hstep, rfl⟩ := Option.map_eq_some_iff.mp hs
    exact h.enter hi hp hc hstep
  | gate i gl =>
    obtain ⟨sup, hi, hs⟩ := Option.bind_eq_some_iff.mp hs
    obtain ⟨⟨hp, hl⟩, hs⟩ := Option.ite_none_right_eq_some.mp hs
    obtain ⟨c, hc, hs⟩ := Option.bind_eq_some_iff.mp hs
    obtain ⟨host, hstep, rfl⟩ := Option.map_eq_some_iff.mp hs
    exact h.gate hi hp hl hc hstep
  | main i ml =>
    obtain ⟨sup, hi, hs⟩ := Option.bind_eq_some_iff.mp hs
    exact h.main hi hs
  | engineExits k rc =>
    obtain ⟨e, hk, hs⟩ := Option.bind_eq_some_iff.mp hs
    obtain ⟨hn, rfl⟩ := Option.ite_some_none_eq_some.mp hs
    exact h.engineExits hk hn

end EufyNvr.System
