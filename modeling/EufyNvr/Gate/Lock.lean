import EufyNvr.Gate.QueueSteps

/-!
# Who holds the lock

A call whose `acquire` has succeeded holds the lock until it is released or
its process is gone, and nobody else does.
-/

namespace EufyNvr.Gate

/-- The call has the lock. -/
def Phase.holds : Phase → Bool
  | .leaving .acquired | .done .acquired => true
  | _ => false

/-- The call may have the lock: also where the ticket could not be removed. -/
def Phase.mayHold : Phase → Bool
  | .leaving .acquired | .done .acquired | .done .raised => true
  | _ => false

theorem Phase.mayHold_of_mayFail {p : Phase} (h : p.mayFail = true) : p.mayHold = false := by
  cases p <;> first | rfl | cases h

namespace Host

variable {s t : Host} {c d : CallId} {call : Call} {l : CallLabel} {label : Label} {i : ProcId}

structure Locked (s : Host) : Prop where
  holder : ∀ c, s.lock = some c → ∃ call, s.calls[c]? = some call ∧ s.alive call.proc = true ∧
    call.phase.mayHold = true
  held : ∀ (c : CallId) (call : Call), s.calls[c]? = some call → s.alive call.proc = true →
    call.phase.holds = true → s.lock = some c

theorem locked_init (now : Fin clockLimit) : Locked (init now) where
  holder c h := by cases h
  held c call h := by cases h

/-- A step that leaves the lock and the processes of the calls. -/
theorem Locked.idle (h : s.Locked) (hi : Idle s t) (hlock : t.lock = s.lock)
    (ha : ∀ (c : CallId) (call : Call), s.calls[c]? = some call → s.alive call.proc = true →
      t.alive call.proc = true) : t.Locked where
  holder c hc := by
    obtain ⟨call, hcall, hal, hp⟩ := h.holder c (hlock ▸ hc)
    exact ⟨call, hi.calls c call hcall, ha c call hcall hal, hp⟩
  held c call hc hal hp := by
    rcases hi.new c call hc with hs | hpub
    · rw [hlock]
      exact h.held c call hs (hi.alive c call hs hal) hp
    · rw [hpub] at hp
      cases hp

theorem alive_kill_iff {j : ProcId} : (s.kill i).alive j = true ↔ s.alive j = true ∧ j ≠ i := by
  constructor
  · intro h
    refine ⟨alive_kill h, ?_⟩
    rintro rfl
    obtain ⟨q, hq, ha⟩ := alive_eq_true.mp h
    rcases Table.getElem?_modify hq with ⟨hne, -⟩ | ⟨-, r, -, rfl⟩
    · exact hne rfl
    · cases ha
  · rintro ⟨h, hne⟩
    obtain ⟨q, hq, ha⟩ := alive_eq_true.mp h
    exact alive_eq_true.mpr ⟨q, (Table.getElem?_modify_ne hne).trans hq, ha⟩

theorem Locked.kill (h : s.Locked) : (s.kill i).Locked where
  holder c hc := by
    obtain ⟨hl, hne⟩ := Option.filter_eq_some_iff.mp hc
    obtain ⟨call, hcall, ha, hp⟩ := h.holder c hl
    rw [hcall] at hne
    exact ⟨call, hcall, alive_kill_iff.mpr ⟨ha, by simpa using hne⟩, hp⟩
  held c call hc ha hp := by
    obtain ⟨ha, hne⟩ := alive_kill_iff.mp ha
    have hc' : s.calls[c]? = some call := hc
    exact Option.filter_eq_some_iff.mpr ⟨h.held c call hc' ha hp, by simp [hc', hne]⟩

/-- A step of `c` that leaves the lock as it is. -/
theorem Locked.goto {p : Phase} (h : s.Locked) (hc : s.calls[c]? = some call)
    (ha : s.alive call.proc = true) (hcalls : t.calls = (s.goto c p).calls)
    (hprocs : t.procs = s.procs) (hlock : t.lock = s.lock)
    (hmay : call.phase.mayHold = true → p.mayHold = true)
    (hholds : p.holds = true → call.phase.holds = true) : t.Locked where
  holder d hd := by
    obtain ⟨call', hcall', ha', hp⟩ := h.holder d (hlock ▸ hd)
    by_cases hdc : d = c
    · subst hdc
      rw [hc] at hcall'
      cases hcall'
      exact ⟨{ call with phase := p }, by rw [hcalls]; exact getElem?_goto_self hc,
        by rwa [alive_congr hprocs], hmay hp⟩
    · exact ⟨call', by rw [hcalls, getElem?_goto_ne hdc, hcall'], by rwa [alive_congr hprocs], hp⟩
  held d call' hd ha' hp := by
    rw [alive_congr hprocs] at ha'
    rw [hcalls] at hd
    rw [hlock]
    rcases getElem?_goto hd with ⟨-, hd⟩ | ⟨rfl, old, ho, rfl⟩
    · exact h.held d call' hd ha' hp
    · rw [hc] at ho
      cases ho
      exact h.held d call hc ha (hholds hp)

theorem Locked.took {p : Phase} (h : s.Locked) (hc : s.calls[c]? = some call)
    (ha : s.alive call.proc = true) (hfree : s.lock = none) (hp : p.mayHold = true) :
    ({ s with lock := some c }.goto c p).Locked where
  holder d hd := by
    cases hd
    exact ⟨_, getElem?_goto_self hc, ha, hp⟩
  held d call' hd ha' hp' := by
    rcases getElem?_goto hd with ⟨-, hd⟩ | ⟨rfl, -⟩
    · have hl := h.held d call' hd ha' hp'
      rw [hfree] at hl
      cases hl
    · rfl

theorem Locked.released {p : Phase} (h : s.Locked) (hc : s.calls[c]? = some call)
    (ha : s.alive call.proc = true) (hold : call.phase.holds = true) (hp : p.holds = false) :
    ({ s with lock := none }.goto c p).Locked where
  holder d hd := by cases hd
  held d call' hd ha' hp' := by
    rcases getElem?_goto hd with ⟨hne, hd⟩ | ⟨rfl, old, -, rfl⟩
    · have hl := h.held d call' hd ha' hp'
      rw [h.held c call hc ha hold] at hl
      cases hl
      exact absurd rfl hne
    · rw [hp] at hp'
      cases hp'

theorem Locked.move (h : s.Locked) (hc : s.calls[c]? = some call)
    (ha : s.alive call.proc = true) (hm : CallMove s c call l t) : t.Locked := by
  cases hm with
  | @published ok hp =>
    exact h.goto hc ha rfl rfl rfl (by simp [hp, Phase.mayHold]) (by cases ok <;> simp [Phase.holds])
  | refused hp | began hp | listed hp | looked hp | unlinked hp | blocked hp | woke hp
  | cancelled hp =>
    exact h.goto hc ha rfl rfl rfl (by simp [hp, Phase.mayHold]) (by simp [Phase.holds])
  | kept _ hp | condemned _ hp =>
    refine h.goto hc ha rfl rfl rfl ?_ (by simp [Phase.holds])
    rcases hp with hp | hp <;> simp [hp, Phase.mayHold]
  | took _ _ _ hfree => exact h.took hc ha hfree rfl
  | failed hfail =>
    have hnot := Phase.mayHold_of_mayFail hfail
    exact h.goto hc ha rfl rfl rfl (fun hm => absurd hm (by simp [hnot])) (by simp [Phase.holds])
  | @left o hp =>
    refine @Locked.goto _ _ c _ (.done o) h hc ha rfl rfl rfl ?_ ?_ <;>
      cases o <;> simp [hp, Phase.mayHold, Phase.holds]
  | stayed hp => exact h.goto hc ha rfl rfl rfl (fun _ => rfl) (by simp [Phase.holds])
  | released hp => exact h.released hc ha (by rw [hp]; rfl) rfl

theorem alive_append {q : Proc} (h : s.alive i = true) :
    ({ s with procs := s.procs ++ [q] } : Host).alive i = true := by
  obtain ⟨r, hr, ha⟩ := alive_eq_true.mp h
  exact alive_eq_true.mpr ⟨r, Table.getElem?_append_some hr, ha⟩

theorem Locked.step (h : s.Locked) (hk : s.Known) (hs : s.step label = some t) : t.Locked := by
  cases step_move hs with
  | ticked => exact ⟨h.holder, h.held⟩
  | spawned => exact h.idle (idle_spawn hk) rfl fun _ _ _ ha => alive_append ha
  | exited => exact h.kill
  | entered => exact h.idle (idle_enter rfl) rfl fun _ _ _ ha => ha
  | called hc ha hm => exact h.move hc ha hm

end Host

end EufyNvr.Gate
