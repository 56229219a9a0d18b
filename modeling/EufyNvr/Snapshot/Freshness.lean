import EufyNvr.Snapshot.Entries
import EufyNvr.Snapshot.Staleness

/-!
# Freshness

An image that was stored keeps its camera from being captured again for one
`ttl`. While a capture runs, the entry of its camera is the one the task
took aside, which was no longer fresh; so what the task writes at its end
is fresh for at least as long. The one step that can shorten the freshness of an
entry is the clean-up of a refresh that timed out, which rewrites whatever
it finds.
-/

namespace EufyNvr.Snapshot.World

open Machine (exec Along)

variable {κ : Type} [DecidableEq κ] {cfg : Limits} {w v : World κ} {l : Label κ} {key : κ}
  {e e' : Entry}

/-- The entry of a capture in progress is the one the task took aside, and
had run out of freshness when the capture began. -/
def AsideOk (w : World κ) : Prop :=
  ∀ (t : TaskId) (kind : Kind) (key : κ) (due now : Int) (stale : Option Entry),
    w.tasks[t]? = some ⟨kind, key, .capturing due now stale⟩ →
      now ≤ w.now ∧ ∀ e, w.cache.get? key = some e → stale = some e ∧ e.freshUntil ≤ now

theorem Move.freed {t : TaskId} {o : Outcome} (hm : Move cfg w (.capture t o) v) :
    v.holder = none := by
  cases hm <;> rfl

theorem AsideOk.move (h : AsideOk w) (hw : LockOk w) (hm : Move cfg w l v) : AsideOk v := by
  intro t kind key due now stale ht
  rcases hm.capturing ht with hold | hb
  · obtain ⟨hnow, haside⟩ := h t kind key due now stale hold
    refine ⟨le_trans hnow hm.now_le, fun e he => ?_⟩
    have hholder : w.holder = some t := (hw t).mpr (holding_of hold)
    have hfreed {u : TaskId} {o : Outcome} (hl : l = .capture u o) : False := by
      subst hl
      have hheld : v.holder = some t := (hw.move hm t).mpr (holding_of ht)
      rw [hm.freed] at hheld
      cases hheld
    cases hm.written he with
    | kept hk => exact haside _ hk
    | cooled hfree => rw [hfree] at hholder; cases hholder
    | retained => exact (hfreed rfl).elim
    | remembered => exact (hfreed rfl).elim
  · refine ⟨hb.read.1.trans hb.read.2.symm |>.le, fun e he => ⟨hb.aside.trans he, ?_⟩⟩
    rw [hb.read.1]
    exact hb.due e he

theorem asideOk_run {now : Int} {ls : List (Label κ)} (h : exec (step cfg) (init now) ls = some w) :
    AsideOk w ∧ LockOk w :=
  Machine.invariant (I := fun w => AsideOk w ∧ LockOk w)
    (fun _ _ _ hi hs => ⟨hi.1.move hi.2 (step_move hs), hi.2.move (step_move hs)⟩)
    ⟨fun t kind key due now stale ht => by simp [init] at ht, lockOk_init now⟩ h

-- ---------------------------------------------------------------------------
-- Steps
-- ---------------------------------------------------------------------------

/-- The clean-up of a timed-out refresh finds an entry of its key that stays
fresh for longer than the cool-down it is about to write. -/
def cutsShort (cfg : Limits) (w : World κ) : Label κ → Bool
  | .acquire t =>
    match w.tasks[t]? with
    | some ⟨.refresh, key, .cooling⟩ =>
      (w.cache.get? key).any fun e => w.now < e.staleUntil ∧ w.now + cfg.failureTtl < e.freshUntil
    | _ => false
  | _ => false

/-- A step never moves the end of an entry's freshness forward. -/
theorem Move.fresh_le (hm : Move cfg w l v) (ha : AsideOk w) (hc : cutsShort cfg w l = false)
    (he : w.cache.get? key = some e) (he' : v.cache.get? key = some e') :
    e.freshUntil ≤ e'.freshUntil := by
  have hfail := cfg.failureTtl_nonneg
  cases hm.written he' with
  | kept hk =>
    obtain rfl := Option.some.inj (he.symm.trans hk)
    exact le_rfl
  | cooled hfree ht hk hs =>
    obtain rfl := Option.some.inj (he.symm.trans hk)
    simpa [cutsShort, ht, he, hs] using hc
  | retained ht =>
    obtain ⟨-, haside⟩ := ha _ _ _ _ _ _ ht
    exact le_trans (haside e he).2 (Int.le_add_of_nonneg_right hfail)
  | @remembered _ _ _ _ _ _ image ht =>
    obtain ⟨hnow, haside⟩ := ha _ _ _ _ _ _ ht
    have httl : 0 ≤ if truthy image then cfg.ttl else cfg.failureTtl := by
      split
      · exact cfg.ttl_pos.le
      · exact hfail
    exact le_trans (le_trans (haside e he).2 hnow) (Int.le_add_of_nonneg_right httl)

/-- The camera need not be captured before `until`. -/
def Fresh (bound : Int) (key : κ) (w : World κ) : Prop :=
  bound ≤ w.now ∨ ∃ e, w.cache.get? key = some e ∧ bound ≤ e.freshUntil ∧ bound ≤ e.staleUntil

theorem Fresh.move {bound : Int} (h : Fresh bound key w) (ha : AsideOk w) (hm : Move cfg w l v)
    (hs : step cfg w l = some v) (hc : cutsShort cfg w l = false) (hr : ¬ Removes cfg key w l) :
    Fresh bound key v := by
  rcases h with hnow | ⟨e, he, hfresh, hstale⟩
  · exact .inl (le_trans hnow hm.now_le)
  · cases he' : v.cache.get? key with
    | none =>
      rcases hm.lost hs he he' with hl | hl
      · exact .inl (le_trans (le_trans hstale hl) hm.now_le)
      · exact absurd hl hr
    | some e' =>
      have hle := hm.fresh_le ha hc he he'
      cases hm.written he' with
      | kept hk =>
        obtain rfl := Option.some.inj (he.symm.trans hk)
        exact .inr ⟨e, he', hfresh, hstale⟩
      | cooled hfree ht hk =>
        obtain rfl := Option.some.inj (he.symm.trans hk)
        exact .inr ⟨_, he', le_trans hfresh hle, hstale⟩
      | retained ht =>
        obtain ⟨-, haside⟩ := ha _ _ _ _ _ _ ht
        obtain rfl := Option.some.inj (haside e he).1
        exact .inr ⟨_, he', le_trans hfresh hle, hstale⟩
      | remembered ht =>
        -- The capture began after the old entry had run out of freshness.
        obtain ⟨hnow, haside⟩ := ha _ _ _ _ _ _ ht
        exact .inl (le_trans (le_trans hfresh (haside e he).2) (le_trans hnow hm.now_le))

-- ---------------------------------------------------------------------------
-- Stores and captures
-- ---------------------------------------------------------------------------

/-- The step from `w` to `v` stores a non-empty image for `key`. -/
def Stores (w v : World κ) (key : κ) (time : Int) : Prop :=
  ∃ t b, .stored t key b time ∈ v.log ∧ .stored t key b time ∉ w.log

/-- The step from `w` to `v` starts a capture for `key`. -/
def Starts (w v : World κ) (key : κ) (time : Int) : Prop :=
  ∃ t, .captureStarted t key time ∈ v.log ∧ .captureStarted t key time ∉ w.log

theorem Move.fresh_of_stores {time : Int} (hm : Move cfg w l v) (h : Stores w v key time) :
    Fresh (time + cfg.ttl) key v := by
  obtain ⟨t, b, hs, hn⟩ := h
  obtain ⟨hl, rfl, -⟩ := hm.captured_of_stored hn hs
  have kept {x : World κ} {t' : TaskId} {k : κ} {image : Option Bytes} (hnow : x.now = w.now)
      (hlog : x.log = w.log)
      (h : .stored t key b w.now ∈ (remember cfg x t' k image).log) :
      ∃ e, (remember cfg x t' k image).cache.get? key = some e ∧ w.now + cfg.ttl ≤ e.freshUntil ∧
        w.now + cfg.ttl ≤ e.staleUntil := by
    rcases List.mem_append.mp h with h | h
    · exact absurd (hlog ▸ h) hn
    · unfold storedEvents at h
      split at h
      · simp only [List.mem_singleton, Event.stored.injEq] at h
        obtain ⟨-, rfl, -⟩ := h
        refine ⟨_, get?_remember_self cfg x t' _, ?_, ?_⟩
        · simp [remembered, truthy, hnow]
        · simpa [remembered, truthy, hnow] using cfg.ttl_le_staleTtl
      · cases h
  cases hm with
  | @captured u k _ _ _ image ht =>
    have hs' : .stored t key b w.now ∈ (remember cfg w.release u k image).log := by
      simpa [giveBack] using hs
    obtain ⟨e, he, hbound⟩ := kept rfl rfl hs'
    exact .inr ⟨e, by rw [giveBack_cache]; exact he, hbound⟩
  | captureRaised => cases hl
  | refreshed ht =>
    obtain ⟨e, he, hbound⟩ := kept (x := w.release) rfl rfl hs
    exact .inr ⟨e, by rw [setPhase_cache]; exact he, hbound⟩
  | fallback ht => exact absurd (by simpa [giveBack] using hs) hn
  | refreshFailed ht => exact absurd hs hn
  | _ => cases hl

theorem Move.due_of_starts {time : Int} (hm : Move cfg w l v) (h : Starts w v key time) :
    time = w.now ∧ ∀ e, w.cache.get? key = some e → e.freshUntil ≤ w.now ∨ e.staleUntil ≤ w.now := by
  obtain ⟨t, hs, hn⟩ := h
  obtain ⟨es, hlog, hes⟩ := hm.log
  rw [hlog] at hs
  have hs := (List.mem_append.mp hs).resolve_left hn
  cases hes with
  | started ht hdue =>
    cases List.mem_singleton.mp hs
    exact ⟨rfl, hdue⟩
  | stored ht hr => rcases hr with rfl | rfl <;> simp at hs
  | silent | returned | discarded | cleared => simp at hs

theorem Fresh.le_of_starts {bound time : Int} (h : Fresh bound key w) (hm : Move cfg w l v)
    (hs : Starts w v key time) : bound ≤ time := by
  obtain ⟨rfl, hdue⟩ := hm.due_of_starts hs
  rcases h with hnow | ⟨e, he, hfresh, hstale⟩
  · exact hnow
  · rcases hdue e he with hle | hle
    · exact le_trans hfresh hle
    · exact le_trans hstale hle

/-- A stored image keeps its camera from being captured again for one `ttl`,
and no step shortens the freshness of an entry, in every run in which no
clean-up of a timed-out refresh meets an image with more freshness left than
the cool-down. -/
theorem not_recaptured {now : Int} {ls : List (Label κ)}
    (hC : Along (step cfg) (fun w l => cutsShort cfg w l = false) (init now) ls) :
    (∀ pre l mid m post u v x y (key : κ) stored started, ls = pre ++ l :: (mid ++ m :: post) →
      exec (step cfg) (init now) pre = some u → step cfg u l = some v → Stores u v key stored →
      exec (step cfg) v mid = some x → Along (step cfg) (fun w l => ¬ Removes cfg key w l) v mid →
      step cfg x m = some y → Starts x y key started → stored + cfg.ttl ≤ started) ∧
    (∀ pre l post u v (key : κ) e e', ls = pre ++ l :: post →
      exec (step cfg) (init now) pre = some u → step cfg u l = some v →
      u.cache.get? key = some e → v.cache.get? key = some e' → e.freshUntil ≤ e'.freshUntil) := by
  constructor
  · rintro pre l mid m post u v x y key stored started rfl hu hv hstores hx hkept hy hstarts
    have hmid := ((hC.suffix hu).tail hv).left
    have hv' := step_move hv
    obtain ⟨hu1, hu2⟩ := asideOk_run hu
    have hfresh : Fresh (stored + cfg.ttl) key x ∧ AsideOk x ∧ LockOk x := by
      refine Machine.invariant_along
        (I := fun w => Fresh (stored + cfg.ttl) key w ∧ AsideOk w ∧ LockOk w) ?_
        (hmid.and hkept) ⟨hv'.fresh_of_stores hstores, hu1.move hu2 hv', hu2.move hv'⟩ hx
      rintro w l w' ⟨hc, hr⟩ ⟨hf, ha, hl⟩ hs
      have hm := step_move hs
      exact ⟨hf.move ha hm hs hc hr, ha.move hl hm, hl.move hm⟩
    exact hfresh.1.le_of_starts (step_move hy) hstarts
  · rintro pre l post u v key e e' rfl hu hv he he'
    exact (step_move hv).fresh_le (asideOk_run hu).1 (hC.suffix hu).head he he'

/-- The refresh of an image that was stored four seconds earlier. -/
theorem not_recaptured_refreshed :
    ∃ u v x y : World Nat, exec (step .default) (init 0) [.call 1, .acquire 0] = some u ∧
      step .default u (.capture 0 (.image (some [7]))) = some v ∧ Stores u v 1 0 ∧
      exec (step .default) v [.tick (seconds 4), .call 1, .start 1] = some x ∧
      step .default x (.acquire 1) = some y ∧ Starts x y 1 (seconds 4) ∧
      (0 : Int) + Limits.default.ttl ≤ seconds 4 := by
  have hu : exec (step .default) (init (κ := Nat) 0) [.call 1, .acquire 0] = some _ := rfl
  refine ⟨_, _, _, _, hu, rfl, ⟨0, [7], by decide, by decide⟩, rfl, rfl, ⟨1, by decide, by decide⟩, ?_⟩
  have hC : Along (step .default) (fun w l => cutsShort .default w l = false) (init (κ := Nat) 0)
      ([.call 1, .acquire 0] ++ .capture 0 (.image (some [7])) ::
        ([.tick (seconds 4), .call 1, .start 1] ++ .acquire 1 :: [])) :=
    Machine.along_of_check (by decide)
  exact (not_recaptured hC).1 _ _ _ _ _ _ _ _ _ 1 0 (seconds 4) rfl hu rfl
    ⟨0, [7], by decide, by decide⟩ rfl (Machine.along_of_check (by decide)) rfl
    ⟨1, by decide, by decide⟩

/-- A refresh captures until its deadline while the old image runs out. A
call that queued behind it stores a new image at 305 s; the clean-up of the
refresh cuts its freshness to the cool-down, and the next look-up has the
camera captured again 0.6 s after the store. -/
theorem recaptured_after_cleanup :
    ∃ u v x y : World Nat, exec (step .default) (init 0)
        [.call 1, .acquire 0, .capture 0 (.image (some [7])), .tick (seconds 295), .call 1,
          .start 1, .acquire 1, .tick (seconds 6), .call 1, .tick (seconds 3), .deadline 1,
          .unwound 1, .acquire 3, .tick (seconds 1)] = some u ∧
      step .default u (.capture 3 (.image (some [8]))) = some v ∧ Stores u v 1 (seconds 305) ∧
      exec (step .default) v
        [.acquire 1, .doneCallback 1, .tick (milliseconds 600), .call 1, .start 4] = some x ∧
      Along (step .default) (fun w l => ¬ Removes .default 1 w l) v
        [.acquire 1, .doneCallback 1, .tick (milliseconds 600), .call 1, .start 4] ∧
      step .default x (.acquire 4) = some y ∧ Starts x y 1 (milliseconds 305600) ∧
      ¬ seconds 305 + Limits.default.ttl ≤ milliseconds 305600 := by
  refine ⟨_, _, _, _, rfl, rfl, ⟨3, [8], by decide, by decide⟩, rfl,
    Machine.along_of_check (by decide), rfl, ⟨4, by decide, by decide⟩, by decide⟩

end EufyNvr.Snapshot.World
