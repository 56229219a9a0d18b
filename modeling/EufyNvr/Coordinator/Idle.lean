import EufyNvr.Coordinator.Steps

/-!
# When the primer goes idle

At the end of a pass the primer compares the number of primed streams with
the number of streams in `data`. The numbers say that all streams are primed
as long as the primed ones are among them, which a poll during the pass can
change.
-/

namespace EufyNvr.Coordinator

open Machine (exec Along)
open Snapshot (World TaskId)

variable {κ : Type} [LinearOrder κ] {c c' : Coordinator κ} {l : Label κ} {job : Job}
  {todo : List κ}

/-- The streams a pass still works on. -/
def Primer.streams : Primer κ → Finset κ
  | .awaiting _ stream todo _ => insert stream todo.toFinset
  | _ => ∅

def Primer.passing : Primer κ → Bool
  | .awaiting .. => true
  | _ => false

def Primer.isIdle : Primer κ → Bool
  | .idle _ => true
  | _ => false

-- ---------------------------------------------------------------------------
-- A pass
-- ---------------------------------------------------------------------------

omit [LinearOrder κ] in
theorem endPass_frame (c : Coordinator κ) (job : Job) :
    (c.endPass job).data = c.data ∧ (c.endPass job).primed = c.primed := by
  cases job with
  | setup => exact ⟨rfl, rfl⟩
  | forever =>
    simp only [endPass]
    split <;> exact ⟨rfl, rfl⟩

omit [LinearOrder κ] in
theorem endPass_idle {wake : Int} (h : (c.endPass job).primer = .idle wake) :
    c.data.names.length ≤ c.primed.card := by
  cases job with
  | setup => cases h
  | forever delay =>
    simp only [endPass] at h
    split at h
    · cases h
    · exact not_lt.mp ‹_›

/-- What a pass from `c` over `todo` has done when it waits or is over. -/
structure Passed (c : Coordinator κ) (todo : List κ) (c' : Coordinator κ) : Prop where
  data : c'.data = c.data
  primed : c'.primed ⊆ c.primed ∪ todo.toFinset
  idle : ∀ {wake}, c'.primer = .idle wake → c'.data.names.length ≤ c'.primed.card

theorem Passed.cons {stream : κ} {x : Coordinator κ} (h : Passed x todo c') (hd : x.data = c.data)
    (hp : x.primed ⊆ insert stream c.primed) : Passed c (stream :: todo) c' where
  data := h.data.trans hd
  primed := by
    intro s hs
    have hsub := h.primed hs
    simp only [Finset.mem_union, List.mem_toFinset, List.mem_cons] at hsub ⊢
    rcases hsub with hx | ht
    · rcases Finset.mem_insert.mp (hp hx) with rfl | hc
      · exact .inr (.inl rfl)
      · exact .inl hc
    · exact .inr (.inr ht)
  idle := h.idle

theorem advance_passed (job : Job) (todo : List κ) (c : Coordinator κ) :
    Passed c todo (advance job todo c) := by
  induction todo generalizing c with
  | nil =>
    obtain ⟨hd, hp⟩ := endPass_frame c job
    refine ⟨hd, by simp [advance, hp], fun h => ?_⟩
    simp only [advance] at h ⊢
    rw [hd, hp]
    exact endPass_idle h
  | cons stream todo ih =>
    simp only [advance]
    split
    · exact (ih _).cons rfl le_rfl
    · exact (ih _).cons rfl (Finset.subset_insert ..)
    · exact ⟨rfl, Finset.subset_union_left, fun h => by cases h⟩
    · exact ⟨rfl, Finset.subset_union_left, fun h => by cases h⟩

theorem primeFrames_passed (c : Coordinator κ) (job : Job) :
    (c.primeFrames job).data = c.data ∧
      (c.primeFrames job).primed ⊆ c.data.names.toFinset ∧
      ∀ {wake}, (c.primeFrames job).primer = .idle wake →
        c.data.names.length ≤ (c.primeFrames job).primed.card := by
  have h := advance_passed job ((c.data.names.filter
    (· ∉ c.primed ∩ c.data.names.toFinset)).insertionSort (· ≤ ·))
    { c with primed := c.primed ∩ c.data.names.toFinset }
  refine ⟨h.data, fun s hs => ?_, fun hw => ?_⟩
  · have hsub := h.primed hs
    simp only [Finset.mem_union, List.mem_toFinset, List.mem_insertionSort, List.mem_filter] at hsub
    rcases hsub with hp | ht
    · exact (Finset.mem_inter.mp hp).2
    · exact List.mem_toFinset.mpr ht.1
  · have hi := h.idle hw
    rw [h.data] at hi
    exact hi

/-- A task that goes on is passing, and goes on with the streams it has. -/
theorem resume_passed {w : World κ} (h : ({ c with world := w } : Coordinator κ).resume = c')
    (hne : c'.primer ≠ c.primer) :
    c.primer.passing = true ∧ c'.data = c.data ∧ c'.primed ⊆ c.primed ∪ c.primer.streams ∧
      ∀ {wake}, c'.primer = .idle wake → c'.data.names.length ≤ c'.primed.card := by
  have went {job : Job} {stream : κ} {todo : List κ} {get : TaskId} {x : Coordinator κ}
      (hc : advance job todo x = c') (hp : c.primer = .awaiting job stream todo get)
      (hx : x.data = c.data) (hprimed : x.primed ⊆ insert stream c.primed) :
      c.primer.passing = true ∧ c'.data = c.data ∧ c'.primed ⊆ c.primed ∪ c.primer.streams ∧
        ∀ {wake}, c'.primer = .idle wake → c'.data.names.length ≤ c'.primed.card := by
    have hpass := (advance_passed job todo x).cons hx hprimed
    rw [hc] at hpass
    rw [hp]
    exact ⟨rfl, hpass.data, by simpa [Primer.streams] using hpass.primed, hpass.idle⟩
  unfold resume at h
  split at h
  · rename_i job stream todo get hp
    split at h
    · exact went h hp rfl le_rfl
    · exact went h hp rfl (Finset.subset_insert ..)
    · subst h
      refine ⟨by rw [show c.primer = _ from hp]; rfl, rfl, Finset.subset_union_left, ?_⟩
      intro wake hw
      cases hw
    · subst h
      exact absurd rfl hne
  · subst h
    exact absurd rfl hne

-- ---------------------------------------------------------------------------
-- Going idle
-- ---------------------------------------------------------------------------

/-- The step takes the primer from a pass to its long sleep. -/
def goesIdle (c : Coordinator κ) (l : Label κ) : Bool :=
  c.primer.passing && (c.step l).any fun c' => c'.primer.isIdle

/-- When a pass ends in the long sleep, the streams that are primed, and those
it was still working on, are all in `data`. -/
def Kept (c : Coordinator κ) (l : Label κ) : Prop :=
  goesIdle c l = true → c.primed ∪ c.primer.streams ⊆ c.data.names.toFinset

instance (c : Coordinator κ) (l : Label κ) : Decidable (Kept c l) :=
  inferInstanceAs (Decidable (_ → _))

theorem step_idle {wake : Int} (hs : c.step l = some c') (hw : c'.primer = .idle wake)
    (hne : c.primer ≠ .idle wake) (hk : Kept c l) :
    c'.primed ⊆ c'.data.names.toFinset ∧ c'.data.names.length ≤ c'.primed.card := by
  have hne' : c'.primer ≠ c.primer := fun h => hne (h ▸ hw)
  have started {x : Coordinator κ} {job : Job} (hw : (x.primeFrames job).primer = .idle wake) :
      (x.primeFrames job).primed ⊆ (x.primeFrames job).data.names.toFinset ∧
        (x.primeFrames job).data.names.length ≤ (x.primeFrames job).primed.card := by
    obtain ⟨hd, hp, hi⟩ := primeFrames_passed x job
    rw [hd]
    exact ⟨hp, hi hw⟩
  cases step_stepped hs with
  | @cache m w =>
    have hends : c.primer.passing = true → goesIdle c (.cache m) = true := fun hp => by
      rw [goesIdle, hp, hs]
      simp [hw, Primer.isIdle]
    obtain ⟨hp, hd, hsub, hi⟩ := resume_passed rfl hne'
    refine ⟨?_, hi hw⟩
    rw [hd]
    exact hsub.trans (hk (hends hp))
  | crash => cases hw
  | poll => exact absurd rfl hne'
  | discardFrame => exact absurd rfl hne'
  | setup | forever | retry | renew => exact started hw
  | stop => cases hw

/-- The primer goes idle only with every stream of `data` primed, in every
run in which the streams of a pass that ends so are in `data` then. -/
theorem idle_primed {now : Int} {ls : List (Label κ)} (hC : Along step Kept (init now) ls)
    {pre post : List (Label κ)} {wake : Int} (hls : ls = pre ++ l :: post)
    (hc : exec step (init now) pre = some c) (hs : c.step l = some c')
    (hw : c'.primer = .idle wake) (hne : c.primer ≠ .idle wake) :
    ∀ stream ∈ c'.data.names, stream ∈ c'.primed := by
  obtain ⟨hsub, hcard⟩ := step_idle hs hw hne (hC pre l post c hls hc)
  rw [← List.toFinset_card_of_nodup c'.data.nodup] at hcard
  intro stream hm
  rw [Finset.eq_of_subset_of_card_le hsub hcard]
  exact List.mem_toFinset.mpr hm

def jpeg : Bytes := [0xff, 0xd8, 0xff, 0xd9]

/-- Two streams, the capture of the second of which fails first. -/
def retriedRun : List (Label Nat) :=
  [.poll ⟨[1, 2], by decide⟩, .forever, .cache (.acquire 0),
    .cache (.capture 0 (.image (some jpeg))), .cache (.acquire 1), .cache (.capture 1 .raised),
    .cache (.tick (seconds 10)), .wake, .cache (.acquire 2)]

theorem idle_primed_retried :
    ∃ c c', exec step (init 0) retriedRun = some c ∧
      c.step (.cache (.capture 2 (.image (some jpeg)))) = some c' ∧
      c'.primer = .idle (seconds 1810) ∧ ∀ stream ∈ c'.data.names, stream ∈ c'.primed := by
  have hC : Along step Kept (init 0)
      (retriedRun ++ [.cache (.capture 2 (.image (some jpeg)))]) :=
    Machine.along_of_check (by decide +kernel)
  obtain ⟨c, hc, c', hs, hw, hne⟩ : ∃ c, exec step (init 0) retriedRun = some c ∧
      ∃ c', c.step (.cache (.capture 2 (.image (some jpeg)))) = some c' ∧
        c'.primer = .idle (seconds 1810) ∧ c.primer ≠ .idle (seconds 1810) :=
    ⟨_, rfl, _, rfl, by decide, by decide⟩
  exact ⟨c, c', hc, hs, hw, idle_primed hC rfl hc hs hw hne⟩

/-- A poll replaces the only stream while its snapshot is captured: one
primed stream and one stream in `data`, but not the same. -/
theorem idle_unprimed :
    ∃ c c' : Coordinator Nat, exec step (init 0)
        [.poll ⟨[1], by decide⟩, .forever, .cache (.acquire 0), .poll ⟨[2], by decide⟩] = some c ∧
      c.step (.cache (.capture 0 (.image (some jpeg)))) = some c' ∧
      c'.primer = .idle (seconds 1800) ∧ c.primer ≠ .idle (seconds 1800) ∧ 2 ∈ c'.data.names ∧
      2 ∉ c'.primed := by
  refine ⟨_, _, rfl, rfl, by decide, by decide, by decide, by decide⟩

end EufyNvr.Coordinator
