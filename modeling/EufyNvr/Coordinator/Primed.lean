import EufyNvr.Coordinator.Idle

/-!
# Primed streams in the cache

A pass marks every stream it got a frame for as primed, while the cache
keeps the images of at most `maxEntries` streams. As long as the streams
cached at the start of a pass and those captured during it are not more than
that, nothing is evicted and every primed stream keeps its image until that
runs out. A pass that primes more streams than the limit ends with one that has no
image.
-/

namespace EufyNvr.Coordinator

open Machine (exec Along)
open Snapshot (World TaskId Task Entry Kind Phase Outcome truthy)
open Snapshot.World (Move Removes evicts step_move cached_cases)

variable {κ : Type} [LinearOrder κ] {c c' : Coordinator κ} {l : Label κ} {w v : World κ}
  {m : Snapshot.Label κ} {known : Finset κ} {bound : Int} {stream : κ}

/-- The cache holds an image of the stream. -/
def Imaged (w : World κ) (stream : κ) : Prop :=
  ∃ e, w.cache.get? stream = some e ∧ truthy e.image = true

-- ---------------------------------------------------------------------------
-- A cache with room
-- ---------------------------------------------------------------------------

/-- Only the streams of `known` are cached, and no image runs out before
`bound`. -/
structure Roomy (known : Finset κ) (bound : Int) (w : World κ) : Prop where
  within : ∀ {k e}, w.cache.get? k = some e → k ∈ known
  lasting : ∀ {k e}, w.cache.get? k = some e → truthy e.image = true → bound ≤ e.staleUntil
  aside : ∀ {t : TaskId} {kind k due now e},
    w.tasks[t]? = some ⟨kind, k, .capturing due now (some e)⟩ → truthy e.image = true →
      bound ≤ e.staleUntil
  horizon : bound ≤ w.now + frameStaleTtl

/-- The step discards nothing, and a capture that ends is of a stream of `known`. -/
def fits (known : Finset κ) (w : World κ) : Snapshot.Label κ → Bool
  | .capture t _ => w.tasks[t]?.all fun task => task.key ∈ known
  | .discard _ | .clear => false
  | _ => true

theorem mem_of_fits {t : TaskId} {o : Outcome} {kind : Kind} {p : Phase}
    (hf : fits known w (.capture t o) = true) (ht : w.tasks[t]? = some ⟨kind, stream, p⟩) :
    stream ∈ known := by
  simpa [fits, ht] using hf

theorem Roomy.move (h : Roomy known bound w) (hf : fits known w m = true)
    (hm : Move frameLimits w m v) : Roomy known bound v := by
  have entry {k : κ} {e : Entry} (he : v.cache.get? k = some e) :
      k ∈ known ∧ (truthy e.image = true → bound ≤ e.staleUntil) := by
    cases hm.written he with
    | kept hk => exact ⟨h.within hk, h.lasting hk⟩
    | @cooled _ e _ _ hk =>
      have hlast : truthy e.image = true → bound ≤ e.staleUntil := h.lasting hk
      exact ⟨h.within hk, hlast⟩
    | @retained _ _ _ _ e _ ht =>
      have hlast : truthy e.image = true → bound ≤ e.staleUntil := h.aside ht
      exact ⟨mem_of_fits hf ht, hlast⟩
    | @remembered _ _ _ _ _ _ image ht =>
      refine ⟨mem_of_fits hf ht, fun htr => ?_⟩
      have hi : truthy image = true := htr
      simp only [Snapshot.World.remembered, hi, if_true]
      exact h.horizon
  refine ⟨fun he => (entry he).1, fun he => (entry he).2, fun ht htr => ?_, ?_⟩
  · rcases hm.capturing ht with hold | hbegan
    · exact h.aside hold htr
    · exact (entry hbegan.aside.symm).2 htr
  · exact le_trans h.horizon (Int.add_le_add_right hm.now_le _)

theorem remember_of_room {t : TaskId} {image : Option Bytes} (h : Roomy known bound w)
    (hcard : known.card ≤ frameLimits.maxEntries) (hk : stream ∈ known) {k : κ} {e : Entry}
    (he : w.cache.get? k = some e) :
    ((World.remember frameLimits w t stream image).cache.get? k).isSome := by
  have hkeys : ∀ j ∈ (w.put stream (World.remembered frameLimits w.now image)).cache.keys,
      j ∈ known := by
    intro j hj
    obtain ⟨e', he'⟩ := Dict.mem_keys.mp hj
    rw [Snapshot.World.get?_put] at he'
    split at he'
    · rename_i hjs
      rw [hjs]
      exact hk
    · exact h.within he'
  have hsize := le_trans (Dict.size_le_card hkeys) hcard
  rw [World.remember, Dict.popDownTo_of_le hsize, Snapshot.World.get?_put]
  split
  · rfl
  · rw [he]
    rfl

/-- Nothing is evicted from a cache with room. -/
theorem Roomy.not_evicts (h : Roomy known bound w) (hcard : known.card ≤ frameLimits.maxEntries)
    (hf : fits known w m = true) {e : Entry} (he : w.cache.get? stream = some e)
    (hm : Move frameLimits w m v) (hn : v.cache.get? stream = none) : ∀ t o, m ≠ .capture t o := by
  have hnone : ¬ (v.cache.get? stream).isSome = true := by rw [hn]; simp
  have h' : Roomy known bound w.release := ⟨h.within, h.lasting, h.aside, h.horizon⟩
  rintro t o rfl
  apply hnone
  cases hm with
  | fallback ht =>
    rw [Snapshot.World.giveBack_cache, Snapshot.World.get?_coolDown]
    split
    · rfl
    · rw [Snapshot.World.release_cache, he]; rfl
  | refreshFailed ht =>
    rw [Snapshot.World.setPhase_cache, Snapshot.World.get?_coolDown]
    split
    · rfl
    · rw [Snapshot.World.release_cache, he]; rfl
  | captureRaised ht => exact remember_of_room (t := t) h' hcard (mem_of_fits hf ht) he
  | captured ht =>
    rw [Snapshot.World.giveBack_cache]
    exact remember_of_room h' hcard (mem_of_fits hf ht) he
  | refreshed ht => exact remember_of_room (t := t) h' hcard (mem_of_fits hf ht) he

theorem Roomy.imaged (h : Roomy known bound w) (hok : CacheOk w)
    (hcard : known.card ≤ frameLimits.maxEntries) (hf : fits known w m = true)
    (hp : feasible m = true) (hs : w.step frameLimits m = some v) (hnow : w.now < bound)
    (hi : Imaged w stream) : Imaged v stream := by
  have hm := step_move hs
  obtain ⟨e, he, htr⟩ := hi
  cases he' : v.cache.get? stream with
  | none =>
    rcases hm.lost hs he he' with hl | hl | hl | hl
    · exact absurd (lt_of_lt_of_le hnow (h.lasting he htr)) (not_lt.mpr hl)
    · rw [hl] at hf; cases hf
    · rw [hl] at hf; cases hf
    · obtain ⟨t, o, hto⟩ : ∃ t o, m = .capture t o := by
        cases m with
        | capture t o => exact ⟨t, o, rfl⟩
        | _ => cases hl
      exact absurd hto (h.not_evicts hcard hf he hm he' t o)
  | some e' =>
    refine ⟨e', he', ?_⟩
    cases hm.written he' with
    | kept hk => rwa [Option.some.inj (he.symm.trans hk)] at htr
    | cooled _ _ hk => rwa [Option.some.inj (he.symm.trans hk)] at htr
    | retained ht =>
      obtain ⟨-, haside⟩ := hok.aside _ _ _ _ _ _ ht
      rwa [Option.some.inj (haside e he).1]
    | @remembered t kind _ _ _ o image ht ho =>
      -- A call captures only for want of an image, and a refresh stores a frame.
      obtain ⟨-, haside⟩ := hok.aside _ _ _ _ _ _ ht
      obtain rfl := (haside e he).1
      cases kind with
      | get =>
        have hf := (hok.stale.stale ht rfl).2 rfl
        rw [htr] at hf
        cases hf
      | refresh =>
        rcases ho with ⟨hk, -⟩ | rfl
        · cases hk
        · match image, hp with
          | some (b :: bs), _ => rfl
          | some [], hp => cases hp
          | none, hp => cases hp

-- ---------------------------------------------------------------------------
-- The call behind the primer
-- ---------------------------------------------------------------------------

/-- The primer awaits a call for its stream that has not ended. -/
def AwaitOk (c : Coordinator κ) : Prop :=
  ∀ job stream todo get, c.primer = .awaiting job stream todo get →
    ∃ p, c.world.tasks[get]? = some ⟨.get, stream, p⟩ ∧ result p = none

/-- The newest task after a call, and the entry behind an immediate answer. -/
theorem asyncGet_newest (w : World κ) (stream : κ) :
    ∃ p, (w.asyncGet frameLimits stream).tasks[
        (w.asyncGet frameLimits stream).tasks.length - 1]? = some ⟨.get, stream, p⟩ ∧
      ∀ b, p = .returned (some b) →
        ∃ e, (w.asyncGet frameLimits stream).cache.get? stream = some e ∧ e.image = some b := by
  unfold World.asyncGet
  split
  · rename_i v image hc
    obtain ⟨e, -, he, hi⟩ := (cached_cases hc).hit_entry
    refine ⟨.returned image, by simp [World.spawn], fun b hb => ⟨e, he, ?_⟩⟩
    cases hb
    exact hi
  · exact ⟨.waiting (w.now + frameLimits.timeout), by simp [World.spawn, World.enqueue],
      fun b hb => by cases hb⟩

theorem advance_await (job : Job) (todo : List κ) (c : Coordinator κ) :
    AwaitOk (advance job todo c) := by
  induction todo generalizing c with
  | nil =>
    intro job' stream todo get hp
    cases job with
    | setup => cases hp
    | forever =>
      simp only [advance, endPass] at hp
      split at hp <;> cases hp
  | cons stream todo ih =>
    obtain ⟨p, hp, -⟩ := asyncGet_newest c.world stream
    simp only [advance]
    split
    · exact ih _
    · exact ih _
    · exact fun _ _ _ _ hp => by cases hp
    · rename_i hnone
      rintro _ _ _ _ ⟨⟩
      exact ⟨p, hp, by simpa [resultOf, hp] using hnone⟩

theorem imaged_of_entry {e : Entry} {b : Bytes} (hok : CacheOk w)
    (he : w.cache.get? stream = some e) (hb : e.image = some b) : Imaged w stream := by
  have hne := hok.frames.entry he hb
  refine ⟨e, he, ?_⟩
  rw [hb]
  cases b with
  | nil => exact absurd rfl hne
  | cons => rfl

omit [LinearOrder κ] in
theorem returned_of_frame {p : Phase} (h : result p = some .frame) :
    ∃ b, p = .returned (some b) := by
  cases p with
  | returned image =>
    cases image with
    | none => cases h
    | some b => exact ⟨b, rfl⟩
  | ended ending => cases ending <;> cases h
  | _ => cases h

/-- The step that gives the awaited call its frame leaves an image. -/
theorem imaged_of_answer {get : TaskId} {p : Phase} (hok : CacheOk v)
    (hs : w.step frameLimits m = some v) (ht : w.tasks[get]? = some ⟨.get, stream, p⟩)
    (hp : result p = none)
    (hr : (v.tasks[get]?.bind fun task => result task.phase) = some .frame) :
    Imaged v stream := by
  obtain ⟨⟨kind, key, p'⟩, ht', hkind, hkey, -⟩ := (step_move hs).carries get _ ht
  obtain rfl : kind = .get := hkind
  obtain rfl : key = stream := hkey
  rw [ht'] at hr
  obtain ⟨b, rfl⟩ := returned_of_frame hr
  generalize hi : some b = image at ht'
  cases (step_move hs).returned ht' with
  | before hold =>
    obtain rfl : p = .returned image := congrArg Task.phase (Option.some.inj (ht.symm.trans hold))
    rw [← hi] at hp
    cases hp
  | hit _ he => exact imaged_of_entry hok he hi.symm
  | fallback _ he => exact imaged_of_entry hok he hi.symm
  | captured _ he => exact imaged_of_entry hok he hi.symm

-- ---------------------------------------------------------------------------
-- A pass
-- ---------------------------------------------------------------------------

/-- Every primed stream has its image in a cache with room. -/
structure Held (known : Finset κ) (bound : Int) (c : Coordinator κ) : Prop where
  roomy : Roomy known bound c.world
  imaged : ∀ s ∈ c.primed, Imaged c.world s

theorem Held.prime (h : Held known bound c) (hi : Imaged c.world stream) :
    Held known bound { c with primed := insert stream c.primed } where
  roomy := h.roomy
  imaged := by
    intro s hs
    rcases Finset.mem_insert.mp hs with rfl | hs
    · exact hi
    · exact h.imaged s hs

theorem Held.step (h : Held known bound c) (hok : CacheOk c.world)
    (hcard : known.card ≤ frameLimits.maxEntries) (hf : fits known c.world m = true)
    (hp : feasible m = true) (hs : c.world.step frameLimits m = some v)
    (hnow : c.world.now < bound) : Held known bound { c with world := v } where
  roomy := h.roomy.move hf (step_move hs)
  imaged s hm := h.roomy.imaged hok hcard hf hp hs hnow (h.imaged s hm)

theorem advance_held {job : Job} {todo : List κ} (hcard : known.card ≤ frameLimits.maxEntries)
    (hok : CacheOk c.world) (h : c.world.now < bound → Held known bound c) :
    (advance job todo c).world.now < bound → Held known bound (advance job todo c) := by
  induction todo generalizing c with
  | nil =>
    rw [advance, endPass_world]
    intro hnow
    obtain ⟨-, hp⟩ := endPass_frame c job
    exact ⟨by rw [endPass_world]; exact (h hnow).roomy, by
      rw [endPass_world, hp]; exact (h hnow).imaged⟩
  | cons stream todo ih =>
    have hs : c.world.step frameLimits (.call stream) =
      some (c.world.asyncGet frameLimits stream) := rfl
    have hok' := hok.step rfl hs
    have hcall (hnow : (c.world.asyncGet frameLimits stream).now < bound) :
        Held known bound { c with world := c.world.asyncGet frameLimits stream } := by
      have hlt := lt_of_le_of_lt (step_move hs).now_le hnow
      exact (h hlt).step hok hcard rfl rfl hs hlt
    obtain ⟨p, hp, hentry⟩ := asyncGet_newest c.world stream
    simp only [advance]
    split
    · rename_i hframe
      obtain ⟨b, rfl⟩ := returned_of_frame (by simpa [resultOf, hp] using hframe)
      obtain ⟨e, he, hb⟩ := hentry b rfl
      exact ih (by exact hok') fun hnow => (hcall hnow).prime (imaged_of_entry hok' he hb)
    · exact ih (by exact hok') hcall
    · exact fun hnow => ⟨(hcall hnow).roomy, (hcall hnow).imaged⟩
    · exact fun hnow => ⟨(hcall hnow).roomy, (hcall hnow).imaged⟩

-- ---------------------------------------------------------------------------
-- Runs
-- ---------------------------------------------------------------------------

/-- Nothing is discarded, the pass is not cut off by an exception, and the
captures that end are of streams of `known`. -/
def calm (known : Finset κ) (c : Coordinator κ) : Label κ → Bool
  | .cache m => fits known c.world m
  | .crash | .discardFrame _ => false
  | _ => true

def begins : Label κ → Bool
  | .setup | .forever | .wake => true
  | _ => false

/-- The streams that a pass beginning now counts as primed already. -/
def carried (c : Coordinator κ) : Finset κ :=
  match c.primer with
  | .idle _ => ∅
  | _ => c.primed ∩ c.data.names.toFinset

/-- The invariant of a pass. -/
structure PassOk (known : Finset κ) (bound : Int) (c : Coordinator κ) : Prop where
  cache : CacheOk c.world
  await : AwaitOk c
  held : c.world.now < bound → Held known bound c

theorem CacheOk.calls (h : CacheOk w) (hr : Runs isCall w v) : CacheOk v :=
  hr.invariant (fun _ _ _ hm hw hs => hw.step (feasible_of_isCall hm) hs) h

theorem primeFrames_ok {job : Job} (hcard : known.card ≤ frameLimits.maxEntries)
    (hok : CacheOk c.world) (hr : c.world.now < bound → Roomy known bound c.world)
    (hi : c.world.now < bound → ∀ s ∈ c.primed ∩ c.data.names.toFinset, Imaged c.world s) :
    PassOk known bound (c.primeFrames job) where
  cache := hok.calls (primeFrames_runs c job)
  await := advance_await _ _ _
  held := advance_held (c := { c with primed := c.primed ∩ c.data.names.toFinset }) hcard hok
    fun hnow => ⟨hr hnow, hi hnow⟩

theorem resume_ok (hcard : known.card ≤ frameLimits.maxEntries) (hok : CacheOk c.world)
    (h : c.world.now < bound → Held known bound c)
    (hawait : ∀ job stream todo get, c.primer = .awaiting job stream todo get →
      ∃ p, c.world.tasks[get]? = some ⟨.get, stream, p⟩)
    (hframe : ∀ job stream todo get, c.primer = .awaiting job stream todo get →
      c.resultOf get = some .frame → Imaged c.world stream) : PassOk known bound c.resume := by
  unfold resume
  split
  · rename_i job stream todo get hp
    split
    · rename_i hres
      refine ⟨hok.calls (advance_runs job todo { c with primed := insert stream c.primed }),
        advance_await _ _ _, advance_held hcard (by exact hok) fun hnow => ?_⟩
      exact (h hnow).prime (hframe job stream todo get hp hres)
    · exact ⟨hok.calls (advance_runs ..), advance_await _ _ _, advance_held hcard hok h⟩
    · exact ⟨hok, fun _ _ _ _ hp => (by cases hp), fun hnow => ⟨(h hnow).roomy, (h hnow).imaged⟩⟩
    · rename_i hres
      refine ⟨hok, fun job' stream' todo' get' hp' => ?_, h⟩
      obtain ⟨p, ht⟩ := hawait job' stream' todo' get' hp'
      obtain ⟨rfl, rfl, rfl, rfl⟩ : job = job' ∧ stream = stream' ∧ todo = todo' ∧ get = get' := by
        simpa using hp.symm.trans hp'
      exact ⟨p, ht, by simpa [resultOf, ht] using hres⟩
  · rename_i hp
    exact ⟨hok, fun job stream todo get hp' => absurd hp' (hp job stream todo get), h⟩

theorem PassOk.step (h : PassOk known bound c) (hcard : known.card ≤ frameLimits.maxEntries)
    (hcalm : calm known c l = true) (hs : c.step l = some c') : PassOk known bound c' := by
  have primes {x : Coordinator κ} {job : Job} (hw : x.world = c.world) (hp : x.primed ⊆ c.primed) :
      PassOk known bound (x.primeFrames job) := by
    refine primeFrames_ok hcard (hw ▸ h.cache) (fun hnow => ?_) fun hnow s hm => ?_
    · rw [hw] at hnow ⊢
      exact (h.held hnow).roomy
    · rw [hw] at hnow ⊢
      exact (h.held hnow).imaged s (hp (Finset.mem_inter.mp hm).1)
  cases step_stepped hs with
  | cache ha hw =>
    have hfeas := feasible_of_allowed ha
    have hok := h.cache.step hfeas hw
    refine resume_ok hcard (by exact hok) (fun hnow => ?_) (fun job stream todo get hp => ?_)
      fun job stream todo get hp hres => ?_
    · have hlt := lt_of_le_of_lt (step_move hw).now_le hnow
      exact (h.held hlt).step h.cache hcard hcalm hfeas hw hlt
    · obtain ⟨p, ht, -⟩ := h.await job stream todo get hp
      obtain ⟨⟨kind, key, p'⟩, ht', hkind, hkey, -⟩ := (step_move hw).carries get _ ht
      obtain rfl : kind = .get := hkind
      obtain rfl : key = stream := hkey
      exact ⟨p', ht'⟩
    · obtain ⟨p, ht, hnone⟩ := h.await job stream todo get hp
      exact imaged_of_answer hok hw ht hnone hres
  | crash => cases hcalm
  | discardFrame => cases hcalm
  | poll => exact ⟨h.cache, h.await, fun hnow => ⟨(h.held hnow).roomy, (h.held hnow).imaged⟩⟩
  | setup | forever | retry => exact primes rfl le_rfl
  | renew => exact primes rfl (Finset.empty_subset _)
  | stop =>
    exact ⟨h.cache, fun _ _ _ _ hp => (by cases hp),
      fun hnow => ⟨(h.held hnow).roomy, (h.held hnow).imaged⟩⟩

/-- The first step of a pass. -/
theorem passOk_of_begins (hok : CacheOk c.world) (hcard : known.card ≤ frameLimits.maxEntries)
    (hr : Roomy known bound c.world) (hi : ∀ s ∈ c.carried, Imaged c.world s)
    (hb : begins l = true) (hs : c.step l = some c') : PassOk known bound c' := by
  have primes {job : Job} (hp : c.carried = c.primed ∩ c.data.names.toFinset) :
      PassOk known bound (c.primeFrames job) :=
    primeFrames_ok hcard hok (fun _ => hr) fun _ s hm => hi s (hp ▸ hm)
  cases step_stepped hs with
  | setup hp | forever hp | retry hp => exact primes (by rw [carried, hp])
  | renew =>
    exact primeFrames_ok (c := { c with primed := ∅ }) hcard hok (fun _ => hr)
      fun _ s hm => by simp at hm
  | cache | crash | poll | discardFrame | stop => cases hb

-- ---------------------------------------------------------------------------
-- The pass as a whole
-- ---------------------------------------------------------------------------

/-- A call for the stream is answered with an image at once, now and until
the image runs out. -/
def Servable (w : World κ) (stream : κ) : Prop :=
  ∃ e, w.cache.get? stream = some e ∧ truthy e.image = true ∧ w.now < e.staleUntil ∧
    ∀ d, w.now + d < e.staleUntil →
      (({ w with now := w.now + d } : World κ).asyncGet frameLimits stream).tasks.getLast? =
        some ⟨.get, stream, .returned e.image⟩

theorem servable_of_entry {e : Entry} (he : w.cache.get? stream = some e)
    (htr : truthy e.image = true) (hnow : w.now < e.staleUntil) : Servable w stream := by
  refine ⟨e, he, htr, hnow, fun d hd => ?_⟩
  have hsweep : ({ w with now := w.now + d } : World κ).sweep.cache.get? stream = some e :=
    Snapshot.World.get?_sweep.mpr ⟨he, hd⟩
  by_cases hf : w.now + d < e.freshUntil
  · simp [World.asyncGet, World.cached, hsweep, hf, World.spawn, World.record]
  · simp [World.asyncGet, World.cached, hsweep, hf, htr, hd, World.spawn, World.record]

/-- After a pass of any run, up to its end and beyond. Every primed stream
is servable if the streams cached at the beginning of the pass and those
captured since are at most `maxEntries`, the streams primed before have
their images and none of these runs out before. A pass that has primed all
streams of `data` leaves them servable only if they are at most `maxEntries`. -/
theorem primed_servable {now : Int} {pre ls : List (Label κ)}
    (h : exec step (init now) pre = some c) (hb : begins l = true)
    (hrun : exec step c (l :: ls) = some c') :
    (∀ (known : Finset κ) (bound : Int), known.card ≤ frameLimits.maxEntries →
      Along step (fun c l => calm known c l = true) c (l :: ls) →
      Roomy known bound c.world → (∀ s ∈ c.carried, Imaged c.world s) → c'.world.now < bound →
      ∀ s ∈ c'.primed, Servable c'.world s) ∧
    ((∀ s ∈ c.data.names, s ∈ c'.primed) → (∀ s ∈ c'.primed, Servable c'.world s) →
      c.data.names.length ≤ frameLimits.maxEntries) := by
  constructor
  · intro known bound hcard hcalm hroomy hcarried hnow s hs
    obtain ⟨c₁, h₁, hrest⟩ := Machine.exec_cons.mp hrun
    have hpass : PassOk known bound c' :=
      Machine.invariant_along (fun _ _ _ hl hi hs => hi.step hcard hl hs) (hcalm.tail h₁)
        (passOk_of_begins (cacheOk_run h) hcard hroomy hcarried hb h₁) hrest
    obtain ⟨e, he, htr⟩ := (hpass.held hnow).imaged s hs
    exact servable_of_entry he htr (lt_of_lt_of_le hnow ((hpass.held hnow).roomy.lasting he htr))
  · intro hall hserv
    have hok := cacheOk_run (Machine.exec_append.mpr ⟨c, h, hrun⟩)
    have hkeys : ∀ s ∈ c.data.names, s ∈ c'.world.cache.keys := fun s hs => by
      obtain ⟨e, he, -⟩ := hserv s (hall s hs)
      exact Dict.mem_keys.mpr ⟨e, he⟩
    calc c.data.names.length ≤ c'.world.cache.keys.length :=
          (List.subperm_of_subset c.data.nodup hkeys).length_le
      _ = c'.world.cache.size := Dict.length_keys _
      _ ≤ frameLimits.maxEntries := hok.stale.size

/-- The steps of a pass over the streams `1` to `n` of a new coordinator. -/
def captureAll (n : Nat) : List (Label Nat) :=
  (List.range n).flatMap fun t => [.cache (.acquire t), .cache (.capture t (.image (some jpeg)))]

/-- Four streams. -/
theorem primed_servable_four :
    ∃ c c' : Coordinator Nat, exec step (init 0) [.poll ⟨[1, 2, 3, 4], by decide⟩] = some c ∧
      exec step c (.forever :: captureAll 4) = some c' ∧ c'.primer = .idle (seconds 1800) ∧
      c'.primed = {1, 2, 3, 4} ∧ ∀ s ∈ c'.primed, Servable c'.world s := by
  have hc : exec step (init 0) [.poll ⟨[1, 2, 3, 4], by decide⟩] =
      some ⟨World.init 0, ⟨[1, 2, 3, 4], by decide⟩, ∅, .off⟩ := rfl
  have hroomy : Roomy {1, 2, 3, 4} (seconds 3600) (World.init (κ := Nat) 0) :=
    ⟨fun h => (by cases h), fun h => (by cases h), fun h => (by cases h), by decide⟩
  obtain ⟨c', hc', hprimer, hprimed, hnow⟩ : ∃ c', exec step
      ⟨World.init 0, ⟨[1, 2, 3, 4], by decide⟩, ∅, .off⟩ (.forever :: captureAll 4) = some c' ∧
      c'.primer = .idle (seconds 1800) ∧ c'.primed = {1, 2, 3, 4} ∧
      c'.world.now < seconds 3600 := by
    apply Machine.exec_of_check
    decide +kernel
  refine ⟨_, c', hc, hc', hprimer, hprimed, ?_⟩
  exact (primed_servable hc rfl hc').1 {1, 2, 3, 4} (seconds 3600) (by decide)
    (Machine.along_of_check (by decide +kernel)) hroomy (fun s hs => by cases hs) hnow

/-- Five streams: the first is primed, but its image is gone when the pass
ends, and a call for it has to wait for a capture. -/
theorem primed_unservable :
    ∃ c c' : Coordinator Nat, exec step (init 0) [.poll ⟨[1, 2, 3, 4, 5], by decide⟩] = some c ∧
      exec step c (.forever :: captureAll 5) = some c' ∧ c'.primer = .idle (seconds 1800) ∧
      c'.primed = {1, 2, 3, 4, 5} ∧ ¬ Servable c'.world 1 ∧
      (c'.world.asyncGet frameLimits 1).tasks.getLast? =
        some ⟨.get, 1, .waiting frameInitialTimeout⟩ := by
  refine ⟨_, _, rfl, rfl, by decide +kernel, by decide +kernel, ?_, by decide +kernel⟩
  rintro ⟨e, he, -⟩
  cases he

end EufyNvr.Coordinator
