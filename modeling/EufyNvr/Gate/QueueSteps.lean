import EufyNvr.Gate.Queue

/-!
# Every step keeps the queue

The steps of the host, one by one: those that touch no phase and no entry,
and those of a call.
-/

namespace EufyNvr.Gate.Host

open Decimal Machine

variable {s t : Host} {c d : CallId} {call : Call} {l : CallLabel} {label : Label}
  {name ticket n : Name} {scan : Scan} {i : ProcId} {ls : List Label}

-- ---------------------------------------------------------------------------
-- Steps of the host
-- ---------------------------------------------------------------------------

/-- A step that touches no phase and no entry, and brings no process back. -/
structure Idle (s t : Host) : Prop where
  calls : ∀ (c : CallId) (call : Call), s.calls[c]? = some call → t.calls[c]? = some call
  new : ∀ (c : CallId) (call : Call), t.calls[c]? = some call →
    s.calls[c]? = some call ∨ call.phase = .publishing
  alive : ∀ (c : CallId) (call : Call), s.calls[c]? = some call → t.alive call.proc = true →
    s.alive call.proc = true
  dir : t.dir = s.dir

theorem Idle.waits (h : Idle s t) (hw : t.Waits n) : s.Waits n := by
  obtain ⟨c, call, hc, ht, ha, hin⟩ := hw
  rcases h.new c call hc with hs | hp
  · exact ⟨c, call, hs, ht, h.alive c call hs ha, hin⟩
  · rw [hp] at hin
    cases hin

theorem Idle.later (h : Idle s t) : Later s t where
  entry := by
    rintro n ⟨c, call, hc, ht, hp⟩
    exact ⟨c, call, h.calls c call hc, ht, hp⟩
  gone := by
    rintro n ⟨c, call, hc, ht, ha⟩
    refine ⟨c, call, h.calls c call hc, ht, ?_⟩
    rw [← Bool.not_eq_true] at ha ⊢
    exact fun ha' => ha (h.alive c call hc ha')
  waits _ _ := h.waits
  dir n _ hm := h.dir ▸ hm

theorem Queued.idle (h : s.Queued) (hi : Idle s t) (hk : t.Known) : t.Queued where
  known := hk
  dir n hn := hi.later.entry n (h.dir n (hi.dir ▸ hn))
  nodup := hi.dir ▸ h.nodup
  inside n hw := by
    rw [hi.dir]
    exact h.inside n (hi.waits hw)
  phases c call hc := by
    rcases hi.new c call hc with hs | hp
    · exact (h.phases c call hs).later hi.later
    · rw [hp]
      trivial

theorem alive_kill (h : (s.kill i).alive d = true) : s.alive d = true := by
  obtain ⟨q, hq, ha⟩ := alive_eq_true.mp h
  obtain ⟨r, hr, -, -, hra⟩ := getElem?_kill hq
  exact alive_eq_true.mpr ⟨r, hr, hra ha⟩

theorem idle_kill : Idle s (s.kill i) where
  calls _ _ hc := hc
  new _ _ hc := .inl hc
  alive _ _ _ ha := alive_kill ha
  dir := rfl

theorem idle_spawn {q : Proc} (hk : s.Known) : Idle s { s with procs := s.procs ++ [q] } where
  calls _ _ hc := hc
  new _ _ hc := .inl hc
  alive c call hc ha := by
    obtain ⟨r, gate, start, hr, -⟩ := hk.named c call hc
    have hr' : (s.procs ++ [q])[call.proc]? = some r := Table.getElem?_append_some hr
    rw [alive_of_getElem? hr'] at ha
    rwa [alive_of_getElem? hr]
  dir := rfl

theorem idle_enter (hp : call.phase = .publishing) :
    Idle s { s with calls := s.calls ++ [call] } where
  calls _ _ hc := Table.getElem?_append_some hc
  new d call' hc := by
    rcases Table.getElem?_snoc hc with hc | ⟨-, rfl⟩
    · exact .inl hc
    · exact .inr hp
  alive _ _ _ ha := ha
  dir := rfl

-- ---------------------------------------------------------------------------
-- Steps of a call
-- ---------------------------------------------------------------------------

/-- The ticket of a call whose process is there. -/
theorem Known.own_not_gone (h : s.Known) (hc : s.calls[c]? = some call)
    (ha : s.alive call.proc = true) : ¬ s.Gone call.ticket := by
  rintro ⟨d, call', hd, ht, hgone⟩
  obtain rfl := h.distinct c d call call' hc hd ht.symm
  rw [hc] at hd
  cases hd
  rw [ha] at hgone
  cases hgone

theorem CallMove.dir (h : CallMove s c call l t) (hn : n ∈ t.dir) :
    n ∈ s.dir ∨ n = call.ticket := by
  cases h with
  | published => exact (mem_create.mp hn).symm
  | unlinked | left => exact .inl (List.mem_of_mem_erase hn)
  | _ => exact .inl hn

/-- A call that waits after the step waited before it, or has just published. -/
theorem CallMove.waits (h : CallMove s c call l t) (hc : s.calls[c]? = some call)
    (hw : t.Waits n) : s.Waits n ∨ n = call.ticket ∧ call.phase = .publishing := by
  obtain ⟨-, hprocs, p, hcalls, -, hin⟩ := h.calls
  obtain ⟨d, call', hd, ht, ha, hin'⟩ := hw
  rw [alive_congr hprocs] at ha
  rw [hcalls] at hd
  rcases getElem?_goto hd with ⟨-, hd⟩ | ⟨rfl, old, ho, rfl⟩
  · exact .inl ⟨d, call', hd, ht, ha, hin'⟩
  · rw [hc] at ho
    cases ho
    rcases hin hin' with hin | hp
    · exact .inl ⟨d, call, hc, ht, ha, hin⟩
    · exact .inr ⟨ht.symm, hp⟩

theorem CallMove.later (h : CallMove s c call l t) (hk : s.Known)
    (hc : s.calls[c]? = some call) (ha : s.alive call.proc = true) : Later s t where
  entry := by
    rintro n ⟨d, call', hd, ht, hp⟩
    obtain ⟨-, -, p, hcalls, hnp, -⟩ := h.calls
    by_cases hdc : d = c
    · subst hdc
      exact ⟨d, { call' with phase := p }, by rw [hcalls]; exact getElem?_goto_self hd, ht, hnp⟩
    · exact ⟨d, call', by rw [hcalls, getElem?_goto_ne hdc, hd], ht, hp⟩
  gone := by
    rintro n ⟨d, call', hd, ht, hgone⟩
    obtain ⟨-, hprocs, p, hcalls, -⟩ := h.calls
    have hdc : d ≠ c := by
      rintro rfl
      rw [hc] at hd
      cases hd
      rw [ha] at hgone
      cases hgone
    exact ⟨d, call', by rw [hcalls, getElem?_goto_ne hdc, hd], ht, by rwa [alive_congr hprocs]⟩
  waits n he hw := by
    rcases h.waits hc hw with hw | ⟨rfl, hp⟩
    · exact hw
    · -- A ticket that is about to be published is no entry yet.
      obtain ⟨d, call', hd, ht, hnp⟩ := he
      obtain rfl := hk.distinct d c call' call hd hc ht
      rw [hc] at hd
      cases hd
      exact absurd hp hnp
  dir n hgone hn := by
    rcases h.dir hn with hn | rfl
    · exact hn
    · exact absurd hgone (hk.own_not_gone hc ha)

/-- What the step leaves in the directory. -/
theorem CallMove.kept_in_dir (h : CallMove s c call l t) (hq : s.Queued)
    (hc : s.calls[c]? = some call) (ha : s.alive call.proc = true) (hw : t.Waits n) :
    n ∈ t.dir := by
  have hmem : n ∈ s.dir ∨ n = call.ticket ∧ call.phase = .publishing :=
    (h.waits hc hw).imp_left (hq.inside n)
  have stays (hdir : t.dir = s.dir) (hp : call.phase ≠ .publishing) : n ∈ t.dir := by
    rw [hdir]
    exact hmem.resolve_right fun hn => hp hn.2
  cases h with
  | published hp => exact mem_create.mpr (hmem.symm.imp_left And.left)
  | unlinked hp hn =>
    have hws := (CallMove.later (.unlinked hp hn) hq.known hc ha).waits
    have hw : s.Waits n := ((CallMove.unlinked hp hn).waits hc hw).resolve_right
      fun h => by rw [hp] at h; cases h.2
    have hok := hq.phases c call hc
    rw [hp] at hok
    have hne : n ≠ _ := fun he => hq.known.not_gone hw (he ▸ hok.2 _ hn)
    exact (List.mem_erase_of_ne hne).mpr (hq.inside n hw)
  | @left outcome hp =>
    -- The call itself does not wait any more.
    obtain ⟨d, call', hd, ht, -, hin⟩ := hw
    rcases getElem?_goto hd with ⟨hdc, hd⟩ | ⟨rfl, old, ho, rfl⟩
    · have hne : n ≠ call.ticket := fun he =>
        hdc (hq.known.distinct d c call' call hd hc (ht.trans he))
      exact (List.mem_erase_of_ne hne).mpr (hmem.resolve_right fun hn => hne hn.1)
    · cases hin
  | failed hfail =>
    rcases hmem with hn | ⟨rfl, hp⟩
    · exact hn
    · obtain ⟨d, call', hd, ht, -, hin⟩ := hw
      rcases getElem?_goto hd with ⟨hdc, hd⟩ | ⟨rfl, old, ho, rfl⟩
      · exact absurd (hq.known.distinct d c call' call hd hc ht) hdc
      · cases hin
  | kept _ hp | condemned _ hp => exact stays rfl (by rcases hp with hp | hp <;> simp [hp])
  | refused hp | began hp | listed hp | looked hp | took hp | blocked hp | woke hp
  | cancelled hp | stayed hp | released hp => exact stays rfl (by simp [hp])

/-- The new phase of the call. -/
theorem CallMove.phaseOk (h : CallMove s c call l t) (hq : s.Queued)
    (hc : s.calls[c]? = some call) (ha : s.alive call.proc = true) {call' : Call}
    (hc' : t.calls[c]? = some call') : t.PhaseOk call'.ticket call'.phase := by
  have hl := h.later hq.known hc ha
  have hok := hq.phases c call hc
  -- In every case the phase of `call'` is the one that the move names.
  have moved {p : Phase} (hcalls : t.calls = (s.goto c p).calls)
      (hp : t.PhaseOk call.ticket p) : t.PhaseOk call'.ticket call'.phase := by
    rw [hcalls, getElem?_goto_self hc] at hc'
    cases hc'
    exact hp
  cases h with
  | @published ok => cases ok <;> exact moved rfl trivial
  | refused | took | cancelled | failed | stayed | released => exact moved rfl trivial
  | blocked | woke => exact moved rfl trivial
  | left => exact moved rfl trivial
  | began hp =>
    have hw : s.Waits call.ticket := ⟨c, call, hc, rfl, ha, by rw [hp]; rfl⟩
    have hlist : s.PhaseOk call.ticket (.listing s.dir (s.dir.filter fun n => !s.owned n)) := by
      refine ⟨hq.inside _ hw, hq.dir, fun n hn => ?_⟩
      obtain ⟨hd, ho⟩ := List.mem_filter.mp hn
      exact ⟨hd, gone_of_not_owned (hq.dir n hd) (by simpa using ho)⟩
    exact moved rfl (hlist.later hl)
  | listed hp hlist =>
    rw [hp] at hok
    exact moved rfl (Scanned.later (hq.listed hok hlist) hl)
  | @kept _ scan _ _ _ hp hn hk =>
    have hs : s.Scanned call.ticket scan := by rcases hp with hp | hp <;> rw [hp] at hok <;> exact hok
    exact moved rfl (Scanned.later (hs.keep hq.known hn hk) hl)
  | looked hp =>
    rw [hp] at hok
    exact moved rfl (Scanned.later hok hl)
  | @condemned _ scan _ _ hp hn hcond =>
    have hs : s.Scanned call.ticket scan := by rcases hp with hp | hp <;> rw [hp] at hok <;> exact hok
    refine moved rfl ⟨hs.later hl, fun m hm => hl.gone m ?_⟩
    rw [hn] at hm
    cases hm
    exact hcond.gone hq.known (hs.todo _ (List.mem_of_mem_head? hn))
  | @unlinked _ name hp hn =>
    rw [hp] at hok
    have hnw : ¬ s.Waits name := fun hw => hq.known.not_gone hw (hok.2 _ hn)
    exact moved rfl (hok.1.drop hn hnw hq.nodup hl rfl)

theorem Queued.move (h : s.Queued) (hc : s.calls[c]? = some call)
    (ha : s.alive call.proc = true) (hm : CallMove s c call l t) : t.Queued := by
  have hl := hm.later h.known hc ha
  obtain ⟨hnow, hprocs, p, hcalls, hnp, -⟩ := hm.calls
  refine ⟨h.known.goto hnow hprocs hcalls, fun n hn => ?_, ?_, fun n hw => ?_,
    fun d call' hd => ?_⟩
  · rcases hm.dir hn with hn | rfl
    · exact hl.entry n (h.dir n hn)
    · exact ⟨c, { call with phase := p }, by rw [hcalls]; exact getElem?_goto_self hc, rfl, hnp⟩
  · cases hm with
    | published => exact nodup_create h.nodup
    | unlinked | left => exact h.nodup.erase _
    | _ => exact h.nodup
  · exact hm.kept_in_dir h hc ha hw
  · by_cases hdc : d = c
    · subst hdc
      exact hm.phaseOk h hc ha hd
    · rw [hcalls, getElem?_goto_ne hdc] at hd
      exact (h.phases d call' hd).later hl

theorem Queued.step (h : s.Queued) (hs : s.step label = some t) : t.Queued := by
  have hk := h.known
  cases step_move hs with
  | ticked hlt =>
    exact h.idle ⟨fun _ _ hc => hc, fun _ _ hc => .inl hc, fun _ _ _ ha => ha, rfl⟩
      ⟨hlt, hk.named, hk.distinct, hk.alone, hk.starts⟩
  | spawned hfree hstart => exact h.idle (idle_spawn hk) (hk.spawn hfree hstart)
  | exited => exact h.idle idle_kill hk.kill
  | entered hproc _ hname hnew =>
    subst hname
    exact h.idle (idle_enter rfl) (hk.enter hproc hnew)
  | called hc ha hm => exact h.move hc ha hm

end EufyNvr.Gate.Host
