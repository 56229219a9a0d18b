import EufyNvr.Coordinator.Coordinator

/-!
# Runs of the coordinator

A step of the coordinator is a run of its cache, so that what holds in every
run of a cache holds of the cache of a coordinator. The captures of these
runs end with a valid frame or an exception, so no entry holds an empty
image.
-/

namespace EufyNvr.Coordinator

open Machine (exec exec_append exec_cons Reaches)
open Snapshot (World TaskId Entry Kind Phase truthy)
open Snapshot.World (Move Cached LockOk StaleOk AsideOk step_move cached_cases)

variable {κ : Type} [LinearOrder κ] {c c' : Coordinator κ} {l : Label κ} {w v : World κ}

-- ---------------------------------------------------------------------------
-- The outcomes of a step
-- ---------------------------------------------------------------------------

/-- What a step can do, with what allows it. -/
inductive Stepped (c : Coordinator κ) : Label κ → Coordinator κ → Prop
  | cache {m : Snapshot.Label κ} {w : World κ} : allowed m = true →
      c.world.step frameLimits m = some w →
        Stepped c (.cache m) ({ c with world := w } : Coordinator κ).resume
  | crash {job : Job} {stream : κ} {todo : List κ} {get : TaskId} {w : World κ} :
      c.primer = .awaiting job stream todo get →
        c.world.step frameLimits (.capture get .raised) = some w →
          Stepped c .crash { c with world := w, primer := .off }
  | poll {data : Streams κ} : Stepped c (.poll data) { c with data }
  | discardFrame {stream : κ} {w : World κ} :
      c.world.step frameLimits (.discard stream) = some w →
        Stepped c (.discardFrame stream) { c with world := w, primed := c.primed.erase stream }
  | setup : c.primer = .off → Stepped c .setup (c.primeFrames .setup)
  | forever : c.primer = .off →
      Stepped c .forever (c.primeFrames (.forever framePrimeRetryInitial))
  | retry {wake retryDelay : Int} : c.primer = .retrying wake retryDelay → wake ≤ c.world.now →
      Stepped c .wake (c.primeFrames (.forever retryDelay))
  | renew {wake : Int} : c.primer = .idle wake → wake ≤ c.world.now →
      Stepped c .wake ({ c with primed := ∅ }.primeFrames (.forever framePrimeRetryInitial))
  | stop : (∃ wake retryDelay, c.primer = .retrying wake retryDelay) ∨
      (∃ wake, c.primer = .idle wake) → Stepped c .stop { c with primer := .off }

theorem step_stepped (hs : c.step l = some c') : Stepped c l c' := by
  cases l with
  | cache m =>
    simp only [step] at hs
    split at hs
    · rename_i ha
      obtain ⟨w, hw, rfl⟩ := Option.map_eq_some_iff.mp hs
      exact .cache ha hw
    · cases hs
  | crash =>
    simp only [step] at hs
    split at hs
    · rename_i hp
      obtain ⟨w, hw, rfl⟩ := Option.map_eq_some_iff.mp hs
      exact .crash hp hw
    · cases hs
  | poll data =>
    cases hs
    exact .poll
  | discardFrame stream =>
    simp only [step] at hs
    obtain ⟨w, hw, rfl⟩ := Option.map_eq_some_iff.mp hs
    exact .discardFrame hw
  | setup =>
    simp only [step] at hs
    split at hs
    · cases hs
      exact .setup ‹_›
    · cases hs
  | forever =>
    simp only [step] at hs
    split at hs
    · cases hs
      exact .forever ‹_›
    · cases hs
  | wake =>
    simp only [step] at hs
    split at hs
    · rename_i hp
      obtain ⟨hnow, hs⟩ := Option.ite_none_right_eq_some.mp hs
      cases hs
      exact .retry hp hnow
    · rename_i hp
      obtain ⟨hnow, hs⟩ := Option.ite_none_right_eq_some.mp hs
      cases hs
      exact .renew hp hnow
    · cases hs
  | stop =>
    simp only [step] at hs
    split at hs
    · cases hs
      exact .stop (.inl ⟨_, _, ‹_›⟩)
    · cases hs
      exact .stop (.inr ⟨_, ‹_›⟩)
    · cases hs

-- ---------------------------------------------------------------------------
-- The cache of a coordinator
-- ---------------------------------------------------------------------------

/-- The steps of the cache that the integration makes. -/
def feasible : Snapshot.Label κ → Bool
  | .clear => false
  | .capture _ outcome => possible outcome
  | _ => true

omit [LinearOrder κ] in
theorem feasible_of_allowed {m : Snapshot.Label κ} (h : allowed m = true) : feasible m = true := by
  cases m with
  | discard | clear => cases h
  | capture => exact h
  | _ => rfl

/-- No entry, nor one that a capture took aside, holds an empty image. -/
structure FramesOk (w : World κ) : Prop where
  entry : ∀ {k e b}, w.cache.get? k = some e → e.image = some b → b ≠ []
  aside : ∀ {t : TaskId} {kind k due now e b},
    w.tasks[t]? = some ⟨kind, k, .capturing due now (some e)⟩ → e.image = some b → b ≠ []

/-- What holds of the cache in every run of a coordinator. -/
structure CacheOk (w : World κ) : Prop where
  lock : LockOk w
  stale : StaleOk frameLimits w
  aside : AsideOk w
  frames : FramesOk w

theorem FramesOk.move {m : Snapshot.Label κ} (h : FramesOk w) (hm : Move frameLimits w m v)
    (hf : feasible m = true) : FramesOk v := by
  have entry {k : κ} {e : Entry} {b : Bytes} (he : v.cache.get? k = some e)
      (hb : e.image = some b) : b ≠ [] := by
    cases hm.written he with
    | kept hk => exact h.entry hk hb
    | cooled _ _ hk => exact h.entry hk hb
    | retained ht => exact h.aside ht hb
    | remembered ht ho =>
      obtain rfl : _ = some b := hb
      rcases ho with ⟨-, hnone⟩ | rfl
      · cases hnone
      · rintro rfl
        cases hf
  refine ⟨entry, fun ht hb => ?_⟩
  rcases hm.capturing ht with hold | hbegan
  · exact h.aside hold hb
  · exact entry hbegan.aside.symm hb

theorem CacheOk.step {m : Snapshot.Label κ} (h : CacheOk w) (hf : feasible m = true)
    (hs : w.step frameLimits m = some v) : CacheOk v where
  lock := h.lock.move (step_move hs)
  stale := h.stale.move h.lock (step_move hs)
  aside := h.aside.move h.lock (step_move hs)
  frames := h.frames.move (step_move hs) hf

theorem cacheOk_init (now : Int) : CacheOk (World.init (κ := κ) now) where
  lock := Snapshot.World.lockOk_init now
  stale := Snapshot.World.staleOk_init now
  aside := fun t kind key due now stale ht => by simp [World.init] at ht
  frames := ⟨fun h => by simp [World.init] at h, fun h => by simp [World.init] at h⟩

-- ---------------------------------------------------------------------------
-- Steps as runs
-- ---------------------------------------------------------------------------

/-- A run of the cache by steps that satisfy `P`. -/
def Runs (P : Snapshot.Label κ → Prop) (w v : World κ) : Prop :=
  ∃ ms, exec (World.step frameLimits) w ms = some v ∧ ∀ m ∈ ms, P m

theorem Runs.refl {P : Snapshot.Label κ → Prop} (w : World κ) : Runs P w w := ⟨[], rfl, by simp⟩

theorem Runs.cons {P : Snapshot.Label κ → Prop} {u : World κ} {m : Snapshot.Label κ}
    (hs : w.step frameLimits m = some v) (hm : P m) (h : Runs P v u) : Runs P w u := by
  obtain ⟨ms, hms, hP⟩ := h
  exact ⟨m :: ms, exec_cons.mpr ⟨v, hs, hms⟩, List.forall_mem_cons.mpr ⟨hm, hP⟩⟩

theorem Runs.mono {P Q : Snapshot.Label κ → Prop} (h : Runs P w v) (hPQ : ∀ m, P m → Q m) :
    Runs Q w v := by
  obtain ⟨ms, hms, hP⟩ := h
  exact ⟨ms, hms, fun m hm => hPQ m (hP m hm)⟩

theorem Runs.invariant {P : Snapshot.Label κ → Prop} {I : World κ → Prop} (h : Runs P w v)
    (hstep : ∀ w m v, P m → I w → w.step frameLimits m = some v → I v) (hw : I w) : I v := by
  obtain ⟨ms, hms, hP⟩ := h
  exact Machine.invariant_of hstep hP hw hms

def isCall : Snapshot.Label κ → Prop
  | .call _ => True
  | _ => False

omit [LinearOrder κ] in
theorem endPass_world (c : Coordinator κ) (job : Job) : (c.endPass job).world = c.world := by
  cases job with
  | setup => rfl
  | forever =>
    simp only [endPass]
    split <;> rfl

theorem advance_runs (job : Job) (todo : List κ) (c : Coordinator κ) :
    Runs isCall c.world (advance job todo c).world := by
  induction todo generalizing c with
  | nil =>
    rw [advance, endPass_world]
    exact .refl _
  | cons stream todo ih =>
    have hs : c.world.step frameLimits (.call stream) = some (c.world.asyncGet frameLimits stream) :=
      rfl
    simp only [advance]
    split
    · exact .cons hs trivial (ih { c with
        world := c.world.asyncGet frameLimits stream, primed := insert stream c.primed })
    · exact .cons hs trivial (ih { c with world := c.world.asyncGet frameLimits stream })
    · exact .cons hs trivial (.refl _)
    · exact .cons hs trivial (.refl _)

theorem primeFrames_runs (c : Coordinator κ) (job : Job) :
    Runs isCall c.world (c.primeFrames job).world :=
  advance_runs job _ { c with primed := c.primed ∩ c.data.names.toFinset }

theorem resume_runs (c : Coordinator κ) : Runs isCall c.world c.resume.world := by
  unfold resume
  split
  · rename_i job stream todo get _
    split
    · exact advance_runs job todo { c with primed := insert stream c.primed }
    · exact advance_runs job todo c
    · exact .refl _
    · exact .refl _
  · exact .refl _

omit [LinearOrder κ] in
theorem feasible_of_isCall {m : Snapshot.Label κ} (h : isCall m) : feasible m = true := by
  cases m with
  | call => rfl
  | _ => cases h

/-- A step of the coordinator is a run of its cache. -/
theorem step_runs (hs : c.step l = some c') : Runs (fun m => feasible m = true) c.world c'.world := by
  have calls {w v : World κ} (h : Runs isCall w v) : Runs (fun m => feasible m = true) w v :=
    h.mono fun _ => feasible_of_isCall
  cases step_stepped hs with
  | cache ha hw => exact .cons hw (feasible_of_allowed ha) (calls (resume_runs { c with world := _ }))
  | crash _ hw => exact .cons hw rfl (.refl _)
  | poll => exact .refl _
  | discardFrame hw => exact .cons hw rfl (.refl _)
  | setup | forever | retry => exact calls (primeFrames_runs ..)
  | renew => exact calls (primeFrames_runs { c with primed := ∅ } _)
  | stop => exact .refl _

theorem cacheOk_run {now : Int} {ls : List (Label κ)} (h : exec step (init now) ls = some c) :
    CacheOk c.world :=
  Machine.invariant (I := fun c : Coordinator κ => CacheOk c.world)
    (fun _ _ _ hi hs => (step_runs hs).invariant (fun _ _ _ hm hw => hw.step hm) hi)
    (cacheOk_init now) h

end EufyNvr.Coordinator
