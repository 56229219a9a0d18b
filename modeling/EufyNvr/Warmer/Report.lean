import EufyNvr.Warmer.Expiry

/-!
# The report of go2rtc

The controller next to the consumers that go2rtc has: the viewers of each
stream, and the controller's own ones, which go2rtc registers some time after their
task was created and removes some time after it ended. A report lists both.
The counts of a poll are the viewers exactly where the own consumer
it subtracts is the one that is listed.
-/

namespace EufyNvr.Warmer

open Json
open Machine (exec)
open AdaptiveWarmer (ShowsNobody Changed LeaseOk)

structure Site where
  warmer : AdaptiveWarmer
  viewers : Str → List Json
  registered : List TaskId
  removed : List TaskId

inductive SiteLabel
  | warmer (l : Label)
  | view (name : Str) (consumers : List Json)
  | register (t : TaskId)
  | remove (t : TaskId)

/-- The entry of an MPEG-TS consumer. -/
def isMpegTs : Json → Bool
  | .obj ms => decide (get? ms (lit "format_name") = some (.str (lit "mpegts")))
  | _ => false

namespace Site

def init (now : Int) : Site := ⟨.init now, fun _ => [], [], []⟩

/-- The number of own consumers of a stream that go2rtc has. -/
def own (s : Site) (name : Str) : Nat :=
  s.registered.countP fun t => s.warmer.tasks[t]?.any fun c => c.stream = name

/-- The consumers listed for a stream are its viewers and the own ones. -/
def lists (s : Site) (name : Str) (consumers : List Json) : Bool :=
  let rest := consumers.diff (s.viewers name)
  (s.viewers name ++ rest).isPerm consumers && rest.length == s.own name && rest.all isMpegTs

def truthful (s : Site) (streams : Dict Str Json) : Bool :=
  streams.items.all fun e => !isEufy e.1 || s.lists e.1 (consumersOf e.2)

def step (leaseSeconds : Int) (s : Site) : SiteLabel → Option Site
  | .warmer (.fetched payload) =>
    if (payload.bind streamsOf).all s.truthful then
      (s.warmer.step leaseSeconds (.fetched payload)).map fun w => { s with warmer := w }
    else none
  | .warmer l => (s.warmer.step leaseSeconds l).map fun w => { s with warmer := w }
  | .view name consumers => some { s with viewers := Function.update s.viewers name consumers }
  | .register t =>
    if t < s.warmer.tasks.length ∧ t ∉ s.registered ∧ t ∉ s.removed then
      some { s with registered := s.registered ++ [t] }
    else none
  | .remove t =>
    if t ∈ s.registered then
      some { s with registered := s.registered.erase t, removed := s.removed ++ [t] }
    else none

variable {lease : Int} {s s' : Site} {l : SiteLabel} {streams : Dict Str Json}
  {payload : Option Json} {name : Str} {info : Json} {consumers : List Json}

-- ---------------------------------------------------------------------------
-- Truthful reports
-- ---------------------------------------------------------------------------

theorem append_diff {xs ys : List Json} : (xs ++ ys).diff xs = ys := by
  induction xs with
  | nil => rfl
  | cons x xs ih => rw [List.cons_append, List.diff_cons, List.erase_cons_head, ih]

theorem lists_iff : s.lists name consumers = true ↔ ∃ rest, consumers.Perm (s.viewers name ++ rest) ∧
    rest.length = s.own name ∧ ∀ c ∈ rest, isMpegTs c = true := by
  simp only [lists, Bool.and_eq_true, List.isPerm_iff, beq_iff_eq, List.all_eq_true, and_assoc]
  constructor
  · rintro ⟨hperm, hlen, hall⟩
    exact ⟨_, hperm.symm, hlen, hall⟩
  · rintro ⟨rest, hperm, hlen, hall⟩
    have hrest : (consumers.diff (s.viewers name)).Perm rest := by
      have hdiff := hperm.diff_right (s.viewers name)
      rwa [append_diff] at hdiff
    refine ⟨(hrest.append_left _).trans hperm.symm, hrest.length_eq.trans hlen, fun c hc => ?_⟩
    exact hall c (hrest.mem_iff.mp hc)

theorem isLive_of_mpegTs {c : Json} (h : isMpegTs c = true) : isLive c = true := by
  unfold isMpegTs at h
  split at h
  · rw [decide_eq_true_eq] at h
    simp only [isLive, h]
    decide
  · cases h

/-- The viewers of a stream, snapshots apart. -/
def live (s : Site) (name : Str) : Nat := (s.viewers name).countP isLive

theorem countP_listed (h : s.lists name consumers = true) :
    consumers.countP isLive = s.live name + s.own name := by
  obtain ⟨rest, hperm, hlen, hall⟩ := lists_iff.mp h
  rw [hperm.countP_eq, List.countP_append,
    List.countP_eq_length.mpr fun c hc => isLive_of_mpegTs (hall c hc), hlen, live]

theorem truthful_lists (h : s.truthful streams = true) (hi : isEufy name = true)
    (hget : streams.get? name = some info) : s.lists name (consumersOf info) = true := by
  have hmem := List.all_eq_true.mp h (name, info) (Dict.get?_eq_some.mp hget)
  simpa [hi] using hmem

-- ---------------------------------------------------------------------------
-- The counts of a poll
-- ---------------------------------------------------------------------------

/-- The counts of a poll are the viewers. -/
def Exact (s : Site) (streams : Dict Str Json) : Prop :=
  ∀ name info, isEufy name = true → streams.get? name = some info →
    (s.warmer.counts streams).get? name = some (s.live name)

/-- Of the own consumers go2rtc has just the one that is held, where its task
runs. With nobody at all on the stream it may be missing. -/
def OwnAsHeld (s : Site) (name : Str) : Prop :=
  s.own name = if s.warmer.warmerRunning = true ∧ s.warmer.warmStream = some name ∧
    0 < s.live name + s.own name then 1 else 0

theorem count_iff (h : s.truthful streams = true) (hi : isEufy name = true)
    (hget : streams.get? name = some info) :
    (s.warmer.counts streams).get? name = some (s.live name) ↔ s.OwnAsHeld name := by
  have hcount := countP_listed (truthful_lists h hi hget)
  simp only [AdaptiveWarmer.counts, get?_counts, hget, Option.some.injEq, exists_eq_left', hi,
    hcount, true_and, OwnAsHeld, Nat.pos_iff_ne_zero]
  split <;> omega

/-- The step of a poll, with the report it got. -/
theorem step_fetched (hs : s.step lease (.warmer (.fetched payload)) = some s')
    (hpay : payload.bind streamsOf = some streams) : s.truthful streams = true := by
  obtain ⟨htrue, -⟩ := Option.ite_none_right_eq_some.mp hs
  rwa [hpay] at htrue

theorem exact_iff (h : s.truthful streams = true) : s.Exact streams ↔
    ∀ name info, isEufy name = true → streams.get? name = some info → s.OwnAsHeld name :=
  forall_congr' fun _ => forall_congr' fun _ => forall_congr' fun hi =>
    forall_congr' fun hget => count_iff h hi hget

-- ---------------------------------------------------------------------------
-- Streams without viewers
-- ---------------------------------------------------------------------------

theorem step_warmer {l : Label} (hs : s.step lease (.warmer l) = some s') :
    s.warmer.step lease l = some s'.warmer := by
  cases l with
  | fetched payload =>
    obtain ⟨-, hs⟩ := Option.ite_none_right_eq_some.mp hs
    obtain ⟨w, hw, rfl⟩ := Option.map_eq_some_iff.mp hs
    exact hw
  | requestStop => cases hs; rfl
  | tick | taskEnds | top | stopped | woken =>
    obtain ⟨w, hw, rfl⟩ := Option.map_eq_some_iff.mp hs
    exact hw

/-- A step of the site is one of the controller, or leaves it as it is. -/
theorem step_cases (hs : s.step lease l = some s') :
    (∃ l', l = .warmer l' ∧ s.warmer.step lease l' = some s'.warmer) ∨ s'.warmer = s.warmer := by
  cases l with
  | warmer l' => exact .inl ⟨l', rfl, step_warmer hs⟩
  | view => cases hs; exact .inr rfl
  | register =>
    obtain ⟨-, rfl⟩ := Option.ite_some_none_eq_some.mp hs
    exact .inr rfl
  | remove =>
    obtain ⟨-, rfl⟩ := Option.ite_some_none_eq_some.mp hs
    exact .inr rfl

theorem leaseOk_step (h : LeaseOk s.warmer) (hs : s.step lease l = some s') :
    LeaseOk s'.warmer := by
  rcases step_cases hs with ⟨l', -, hw⟩ | hw
  · exact h.step hw
  · rwa [hw]

/-- At every poll the stream has no viewer, and the own consumers are as held. -/
def Unviewed (name : Str) (s : Site) : SiteLabel → Prop
  | .warmer (.fetched _) => s.live name = 0 ∧ s.OwnAsHeld name
  | _ => True

instance : Decidable (s.OwnAsHeld name) := inferInstanceAs (Decidable (_ = _))

instance : ∀ l, Decidable (Unviewed name s l)
  | .warmer (.fetched _) => inferInstanceAs (Decidable (_ ∧ _))
  | .warmer (.tick _) | .warmer .requestStop | .warmer (.taskEnds _) | .warmer (.top _)
  | .warmer .stopped | .warmer .woken | .view .. | .register _ | .remove _ => isTrue trivial

theorem not_viewed (h : s.truthful streams = true) (hlive : s.live name = 0)
    (hown : s.OwnAsHeld name) : ¬ Viewed (s.warmer.counts streams) name := by
  rintro ⟨n, hn, hpos⟩
  obtain ⟨info, hget, hi, -⟩ := get?_counts.mp hn
  rw [AdaptiveWarmer.counts] at hn
  have hzero := (count_iff h hi hget).mpr hown
  rw [AdaptiveWarmer.counts, hn, hlive] at hzero
  cases hzero
  cases hpos

theorem target_unviewed (h : LeaseOk s.warmer) (hl : Unviewed name s l)
    (ht : s.warmer.target ≠ some name) (hs : s.step lease l = some s') :
    s'.warmer.target ≠ some name := by
  rcases step_cases hs with ⟨l', rfl, hw⟩ | hw
  · intro heq
    have hchanged := AdaptiveWarmer.target_changed h hw fun hsame => ht (hsame.symm.trans heq)
    rw [heq] at hchanged
    cases hchanged with
    | switch hpay _ hmost =>
      obtain ⟨hlive, hown⟩ := hl
      obtain ⟨n, hn, hpos, -⟩ := hmost
      exact not_viewed (step_fetched hs hpay) hlive hown ⟨n, hn, hpos⟩
  · rwa [hw]

theorem leaseOk_init (now : Int) : LeaseOk (init now).warmer := by
  have h : exec (AdaptiveWarmer.step 0) (.init now) [] = some (init now).warmer := rfl
  exact AdaptiveWarmer.leaseOk_run h

theorem own_consumer {now : Int} {ls : List SiteLabel}
    (h : exec (step lease) (init now) ls = some s) :
    (∀ payload streams s', s.step lease (.warmer (.fetched payload)) = some s' →
      payload.bind streamsOf = some streams →
        (s.Exact streams ↔ ∀ name info, isEufy name = true → streams.get? name = some info →
          s.OwnAsHeld name)) ∧
      ∀ name ms s', s.warmer.target ≠ some name →
        Machine.Along (step lease) (Unviewed name) s ms → exec (step lease) s ms = some s' →
          s'.warmer.target ≠ some name := by
  have hok := Machine.invariant (I := fun s => LeaseOk s.warmer)
    (fun _ _ _ hi hs => leaseOk_step hi hs) (leaseOk_init now) h
  refine ⟨fun payload streams s' hs hpay => exact_iff (step_fetched hs hpay),
    fun name ms s' ht halong hms => ?_⟩
  have hinv := Machine.invariant_along
    (I := fun u => LeaseOk u.warmer ∧ u.warmer.target ≠ some name)
    (fun u l u' hl hi hs => ⟨leaseOk_step hi.1 hs, target_unviewed hi.1 hl hi.2 hs⟩) halong
    ⟨hok, ht⟩ hms
  exact hinv.2

-- ---------------------------------------------------------------------------
-- Reports that lag behind
-- ---------------------------------------------------------------------------

open AdaptiveWarmer (shed nextPoll)

def report (formats : List Str) : SiteLabel := .warmer (.fetched (some (listing shed formats)))

def viewer : Json := .obj [(lit "format_name", .str (lit "rtsp"))]

/-- A viewer of the shed comes and goes, go2rtc registers the own consumer in
time, and the lease of a second ends. -/
def releasedShed : List SiteLabel :=
  [.view shed [viewer], .warmer (.top false), report [lit "rtsp"], .register 0, .view shed []] ++
    ((List.replicate 5 (nextPoll.map .warmer ++ [report [lit "mpegts"]])).flatten ++
      [.warmer (.taskEnds 0), .warmer .stopped])

/-- With the own consumer gone from the report, nothing is warmed again. -/
theorem own_consumer_removed : ∃ s,
    exec (step 1) (init (seconds 10)) releasedShed = some s ∧ s.warmer.target = none ∧
      ∀ s', exec (step 1) s (.remove 0 :: (nextPoll.map .warmer ++ [report []])) = some s' →
        s'.warmer.target ≠ some shed := by
  obtain ⟨s, hs, ht, hc⟩ : ∃ s, exec (step 1) (init (seconds 10)) releasedShed = some s ∧
      s.warmer.target = none ∧
        Machine.checkAlong (step 1) (Unviewed shed) s
          (.remove 0 :: (nextPoll.map .warmer ++ [report []])) = true := by
    apply Machine.exec_of_check
    decide +kernel
  exact ⟨s, hs, ht, fun s' hs' =>
    (own_consumer hs).2 shed _ s' (by rw [ht]; exact nofun) (Machine.along_of_check hc) hs'⟩

/-- The own consumer is listed for a while after it was stopped, and counts as
a viewer, for which the stream is warmed again. Before it is registered, a
viewer is taken for it. -/
theorem own_consumer_lagging :
    (∃ s, exec (step 1) (init (seconds 10)) (releasedShed ++ nextPoll.map .warmer) = some s ∧
      (s.live shed = 0 ∧ s.warmer.target = none ∧
        ((streamsOf (listing shed [lit "mpegts"])).any fun streams =>
          (s.warmer.counts streams).get? shed = some 1) = true) ∧
      ((s.step 1 (report [lit "mpegts"])).any fun s' => s'.warmer.warmStream = some shed) = true) ∧
    ∃ s, exec (step 1) (init (seconds 10)) ([.view shed [viewer], .warmer (.top false),
        report [lit "rtsp"]] ++ nextPoll.map .warmer) = some s ∧
      (s.live shed = 1 ∧ ((streamsOf (listing shed [lit "rtsp"])).any fun streams =>
        (s.warmer.counts streams).get? shed = some 0) = true) ∧
      (s.step 1 (report [lit "rtsp"])).isSome = true := by
  constructor
  · apply Machine.exec_of_check
    decide +kernel
  · apply Machine.exec_of_check
    decide +kernel

end Site

end EufyNvr.Warmer
