import EufyNvr.Addon.Protected
import EufyNvr.Supervisor.Rejection

/-!
# What go2rtc waits for

Within one start of the add-on, go2rtc is started only after the account has
been accepted, with all of the image in place, and if no discovery has been
rejected. A rejection that the supervisor misses is still in its log.
-/

namespace EufyNvr.Addon

open Machine
open EufyNvr.Stream (noDigits)
open Supervisor (Attempt Settings Solo SoloLabel)

variable {D : Digits} {a a' b : Addon} {r : Run} {l : Label} {ls : List Label} {o : Options}
  {image : Image} {p : Process} {phase : Phase} {now : Int} {serving : Bool}

def Process.isGo2rtc : Process → Bool
  | .go2rtc _ => true
  | _ => false

/-- How often go2rtc has been started. -/
def launches (a : Addon) : Nat := a.spawned.countP fun s => s.process.isGo2rtc

def Label.isBoot : Label → Bool
  | .boot _ _ => true
  | _ => false

/-- What a start has been told. -/
structure Cleared (image : Image) (ls : List Label) : Prop where
  account : .cacheChecked true ∈ ls ∨ .loggedIn true ∈ ls
  assets : image.hasWorker = true ∧ image.hasGo2rtc = true
  authorized : ∀ rc log cameras, .discovered rc log cameras ∈ ls → rejected log = false

theorem Cleared.snoc (h : Cleared image ls)
    (hl : ∀ rc log cameras, l = .discovered rc log cameras → rejected log = false) :
    Cleared image (ls ++ [l]) where
  account := h.account.imp (List.mem_append_left _) (List.mem_append_left _)
  assets := h.assets
  authorized rc log cameras hmem := by
    rcases List.mem_append.mp hmem with hmem | hmem
    · exact h.authorized rc log cameras hmem
    · exact hl rc log cameras (List.mem_singleton.mp hmem).symm

-- ---------------------------------------------------------------------------
-- Steps
-- ---------------------------------------------------------------------------

theorem launches_spawn (hp : p.isGo2rtc = false) : launches (a.spawn r p) = launches a := by
  simp [launches, spawn, hp]

/-- The script has gone on, past the login, with or without go2rtc. -/
structure Went (a : Addon) (r : Run) (serving : Bool) (a' : Addon) : Prop where
  quiet : serving = false → launches a' = launches a
  run : ∀ r', a'.run = some r' →
    r'.image = r.image ∧ r'.phase.isPast = true ∧ r'.phase.isServing = serving

theorem went_exit (a : Addon) (r : Run) (serving : Bool) : Went a r serving a.exit where
  quiet _ := rfl
  run _ h := by cases h

theorem went_goto (hc : phase.isPast = true) (hs : phase.isServing = serving) :
    Went a r serving (a.goto r phase) where
  quiet _ := rfl
  run r' h := by
    cases h
    exact ⟨rfl, hc, hs⟩

theorem went_await (hp : p.isGo2rtc = false) (hc : phase.isPast = true)
    (hs : phase.isServing = serving) : Went a r serving (a.await r p phase) where
  quiet _ := launches_spawn hp
  run r' h := by
    cases h
    exact ⟨rfl, hc, hs⟩

theorem went_launch (a : Addon) (r : Run) (now : Int) : Went a r true (a.launch r now) where
  quiet h := by cases h
  run r' h := by
    cases h
    exact ⟨rfl, rfl, rfl⟩

theorem went_restart (a : Addon) (r : Run) (now : Int) : Went a r true (a.restart r now) :=
  ⟨nofun, (went_launch a { r with backoff := min (r.backoff * 2) 60 } now).run⟩

/-- The files do not matter. -/
theorem Went.files {f : Files} (h : Went { a with files := f } r serving a') : Went a r serving a' :=
  ⟨h.quiet, h.run⟩

theorem went_authenticated (a : Addon) (r : Run) : Went a r false (a.authenticated r) := by
  unfold authenticated
  simp only
  split
  · refine ⟨fun _ => launches_spawn rfl, fun r' h => ?_⟩
    cases h
    exact ⟨rfl, rfl, rfl⟩
  · exact went_exit a r false

theorem assets_of_authenticated {r' : Run} (h : (a.authenticated r).run = some r') :
    r.image.hasWorker = true ∧ r.image.hasGo2rtc = true := by
  unfold authenticated at h
  simp only at h
  split at h
  · assumption
  · cases h

theorem went_resort (a : Addon) (r : Run) : Went a r false (a.resort r) := by
  unfold resort
  split
  · exact went_goto rfl rfl
  · exact went_exit a r false

theorem went_retry (a : Addon) (r : Run) (attempt : Nat) : Went a r false (a.retry r attempt) := by
  unfold retry fallBack
  split
  · exact went_await rfl rfl rfl
  · split
    · exact went_await rfl rfl rfl
    · exact went_resort a r

theorem went_discovered (a : Addon) (r : Run) (attempt : Nat) (rc : Int) (log : List String)
    (cameras : Option Str) : Went a r false (a.discovered r attempt rc log cameras) := by
  unfold discovered
  simp only
  split
  · exact .files (went_exit _ r false)
  · split
    · exact .files (went_await rfl rfl rfl)
    · exact .files (went_goto rfl rfl)

theorem went_generated (a : Addon) (r : Run) (attempt : Option Nat)
    (fault : Option Generator.Fault) (returns : Bool) :
    Went a r false (a.generated D r attempt fault returns) := by
  unfold generated
  simp only
  split
  · exact .files (went_goto rfl rfl)
  · split
    · exact .files (went_goto rfl rfl)
    · exact .files (went_resort _ r)

theorem went_installed (a : Addon) (r : Run) (attempt : Option Nat) (ok : Bool)
    (left : Option Str) : Went a r false (a.installed r attempt ok left) := by
  unfold installed
  simp only
  split
  · exact .files (went_goto rfl rfl)
  · exact .files (went_exit _ r false)

theorem publishing_image (r : Run) : r.publishing.image = r.image := by
  unfold Run.publishing
  split <;> rfl

theorem run_background (a : Addon) (r : Run) : (a.background r).run = a.run := by
  unfold background
  split <;> rfl

theorem went_leveled (a : Addon) (r : Run) (ok : Bool) (now : Int) :
    Went a r true (a.leveled r ok now) where
  quiet h := by cases h
  run r' h := by
    rw [leveled, run_background] at h
    cases h
    exact ⟨publishing_image r, rfl, rfl⟩

theorem went_ended (a : Addon) (r : Run) (started rc now : Int) :
    Went a r true (a.ended r started rc now) := by
  unfold ended
  split
  · exact went_exit a r true
  · refine ⟨nofun, fun r' h => ?_⟩
    cases h
    exact ⟨rfl, rfl, rfl⟩

theorem run_renewal (a : Addon) (r : Run) (live : Bool) : (a.renewal r live).run = a.run := by
  unfold renewal
  simp only
  split <;> rfl

-- ---------------------------------------------------------------------------
-- One start
-- ---------------------------------------------------------------------------

/-- Where a start has come to that began at `b`. -/
structure Course (b : Addon) (image : Image) (ls : List Label) (a : Addon) : Prop where
  launched : launches a = launches b ∨ Cleared image ls
  given : ∀ r, a.run = some r → r.image = image
  cleared : ∀ r, a.run = some r → r.phase.isPast = true → Cleared image ls
  quiet : ∀ r, a.run = some r → r.phase.isServing = false → launches a = launches b
  before : ∀ r, a.run = some r → r.phase.isPast = false →
    ∀ rc log cameras, .discovered rc log cameras ∉ ls

theorem Course.over (h : launches a = launches b ∨ Cleared image ls) (ha : a.run = none) :
    Course b image ls a where
  launched := h
  given r hr := by rw [ha] at hr; cases hr
  cleared r hr := by rw [ha] at hr; cases hr
  quiet r hr := by rw [ha] at hr; cases hr
  before r hr := by rw [ha] at hr; cases hr

/-- A step past the login that is not a rejection. -/
theorem Course.went (h : Course b image ls a) (hr : a.run = some r) (hw : Went a r serving a')
    (hserving : r.phase.isServing = true → serving = true) (hc : Cleared image (ls ++ [l])) :
    Course b image (ls ++ [l]) a' where
  launched := .inr hc
  given r' hr' := (hw.run r' hr').1.trans (h.given r hr)
  cleared _ _ _ := hc
  quiet r' hr' hs := by
    rw [(hw.run r' hr').2.2] at hs
    have hphase : r.phase.isServing = false := by
      cases hp : r.phase.isServing with
      | false => rfl
      | true => rw [hserving hp] at hs; cases hs
    rw [hw.quiet hs, h.quiet r hr hphase]
  before r' hr' hp := by
    rw [(hw.run r' hr').2.1] at hp
    cases hp

/-- The account has just been accepted. -/
theorem Course.accepted (h : Course b image ls a) (hr : a.run = some r)
    (hp : r.phase.isPast = false) (hl : l = .cacheChecked true ∨ l = .loggedIn true) :
    Course b image (ls ++ [l]) (a.authenticated r) := by
  have hw := went_authenticated a r
  have hserving : r.phase.isServing = false := by
    revert hp
    cases r.phase <;> simp [Phase.isPast, Phase.isServing]
  cases hrun : (a.authenticated r).run with
  | none => exact .over (.inl (by rw [hw.quiet rfl, h.quiet r hr hserving])) hrun
  | some r' =>
    refine h.went hr hw (by simp [hserving]) ?_
    have hassets := assets_of_authenticated hrun
    rw [h.given r hr] at hassets
    refine ⟨?_, hassets, fun rc log cameras hmem => ?_⟩
    · rcases hl with rfl | rfl
      · exact .inl (by simp)
      · exact .inr (by simp)
    · rcases List.mem_append.mp hmem with hmem | hmem
      · exact absurd hmem (h.before r hr hp rc log cameras)
      · rcases hl with rfl | rfl <;> simp at hmem

/-- The labels that are no discovery. -/
theorem Course.on (h : Course b image ls a) (hr : a.run = some r) (hw : Went a r serving a')
    (hp : r.phase.isPast = true) (hserving : r.phase.isServing = true → serving = true)
    (hl : ∀ rc log cameras, l ≠ .discovered rc log cameras) : Course b image (ls ++ [l]) a' :=
  h.went hr hw hserving ((h.cleared r hr hp).snoc fun rc log cameras he =>
    absurd he (hl rc log cameras))

theorem Course.login (h : Course b image ls a) (hr : a.run = some r)
    (hphase : r.phase = .checkingCache) :
    Course b image (ls ++ [.cacheChecked false]) (a.await r .login .loggingIn) where
  launched := .inl ((launches_spawn rfl).trans (h.quiet r hr (by rw [hphase]; rfl)))
  given r' hr' := by
    cases hr'
    exact h.given r hr
  cleared r' hr' hp := by
    cases hr'
    cases hp
  quiet _ _ _ := (launches_spawn rfl).trans (h.quiet r hr (by rw [hphase]; rfl))
  before _ _ _ rc log cameras hmem := by
    rcases List.mem_append.mp hmem with hmem | hmem
    · exact h.before r hr (by rw [hphase]; rfl) rc log cameras hmem
    · simp at hmem

/-- A timer that checks the account again. -/
theorem Course.renewal {live : Bool} (h : Course b image ls a) (hr : a.run = some r)
    (hserving : r.phase.isServing = true) :
    Course b image (ls ++ [.renewal live]) (a.renewal r live) := by
  have hp : r.phase.isPast = true := by
    revert hserving
    cases r.phase <;> simp [Phase.isPast, Phase.isServing]
  have hwent : Went a r true (a.renewal r live) := by
    refine ⟨(by cases ·), fun r' hr' => ?_⟩
    rw [run_renewal, hr] at hr'
    cases hr'
    exact ⟨rfl, hp, hserving⟩
  exact h.on hr hwent hp (fun _ => rfl) (by simp)

theorem Course.discovered {attempt : Nat} {rc : Int} {log : List String} {cameras : Option Str}
    (h : Course b image ls a) (hr : a.run = some r) (hphase : r.phase = .discovering attempt) :
    Course b image (ls ++ [.discovered rc log cameras])
      (a.discovered r attempt rc log cameras) := by
  have hw := went_discovered a r attempt rc log cameras
  have hp : r.phase.isPast = true := by rw [hphase]; rfl
  have hserving : r.phase.isServing = false := by rw [hphase]; rfl
  cases hrejected : rejected log with
  | true =>
    refine .over (.inl ((hw.quiet rfl).trans (h.quiet r hr hserving))) ?_
    rw [Addon.discovered, if_pos hrejected]
    rfl
  | false =>
    refine h.went hr hw (by simp [hserving]) ((h.cleared r hr hp).snoc fun _ _ _ he => ?_)
    cases he
    exact hrejected

theorem step_run (hr : a.run = some r) : step D a l = a.advance D r l := by
  simp [Addon.step, hr]

theorem step_idle (hr : a.run = none) (hs : step D a l = some a') :
    ∃ o image, l = .boot o image ∧ a' = a.boot o image := by
  unfold Addon.step at hs
  rw [hr] at hs
  cases l with
  | boot o image =>
    cases hs
    exact ⟨o, image, rfl, rfl⟩
  | _ => cases hs

theorem Course.advance (h : Course b image ls a) (hr : a.run = some r)
    (hs : a.advance D r l = some a') : Course b image (ls ++ [l]) a' := by
  cases l with
  | boot o image => cases hs
  | cacheChecked live =>
    obtain ⟨hphase, rfl⟩ := Option.ite_some_none_eq_some.mp hs
    cases live with
    | true => exact h.accepted hr (by rw [hphase]; rfl) (.inl rfl)
    | false => exact h.login hr hphase
  | loggedIn ok =>
    obtain ⟨hphase, rfl⟩ := Option.ite_some_none_eq_some.mp hs
    cases ok with
    | true => exact h.accepted hr (by rw [hphase]; rfl) (.inr rfl)
    | false => exact .over (.inl (h.quiet r hr (by rw [hphase]; rfl))) rfl
  | discovered rc log cameras =>
    simp only [Addon.advance] at hs
    split at hs
    · rename_i attempt hphase
      cases hs
      exact h.discovered hr hphase
    · cases hs
  | generated fault returns =>
    simp only [Addon.advance] at hs
    split at hs
    · rename_i attempt hphase
      cases hs
      exact h.on hr (went_generated a r attempt fault returns) (by rw [hphase]; rfl)
        (by simp [hphase, Phase.isServing]) (by simp)
    · cases hs
  | installed ok left =>
    simp only [Addon.advance] at hs
    split at hs
    · rename_i attempt hphase
      cases hs
      exact h.on hr (went_installed a r attempt ok left) (by rw [hphase]; rfl)
        (by simp [hphase, Phase.isServing]) (by simp)
    · cases hs
  | slept now =>
    simp only [Addon.advance] at hs
    split at hs
    · rename_i attempt hphase
      cases hs
      exact h.on hr (went_retry a r attempt) (by rw [hphase]; rfl)
        (by simp [hphase, Phase.isServing]) (by simp)
    · rename_i hphase
      cases hs
      exact h.on hr (went_restart a r now) (by rw [hphase]; rfl) (fun _ => rfl) (by simp)
    · cases hs
  | leveled ok now =>
    obtain ⟨hphase, rfl⟩ := Option.ite_some_none_eq_some.mp hs
    exact h.on hr (went_leveled a r ok now) (by rw [hphase]; rfl) (fun _ => rfl) (by simp)
  | ended rc now =>
    simp only [Addon.advance] at hs
    split at hs
    · rename_i started hphase
      cases hs
      exact h.on hr (went_ended a r started rc now) (by rw [hphase]; rfl) (fun _ => rfl) (by simp)
    · cases hs
  | renewal live =>
    obtain ⟨⟨hserving, -⟩, rfl⟩ := Option.ite_some_none_eq_some.mp hs
    exact h.renewal hr hserving
  | stop =>
    cases hs
    refine .over ?_ rfl
    refine h.launched.imp id fun hc => hc.snoc (by simp)

theorem Course.step (h : Course b image ls a) (hl : l.isBoot = false)
    (hs : step D a l = some a') : Course b image (ls ++ [l]) a' := by
  cases hr : a.run with
  | none =>
    obtain ⟨o, image, rfl, -⟩ := step_idle hr hs
    cases hl
  | some r =>
    rw [step_run hr] at hs
    exact h.advance hr hs

theorem course_boot (b : Addon) (o : Options) (image : Image) :
    Course b image [] (b.boot o image) := by
  unfold boot
  split
  · exact .over (.inl rfl) rfl
  · exact {
      launched := .inl (launches_spawn rfl)
      given := fun r hr => by
        cases hr
        rfl
      cleared := fun r hr hp => by
        cases hr
        cases hp
      quiet := fun _ _ _ => launches_spawn rfl
      before := by simp }

/-- Nothing happens between two starts. -/
theorem course (h : exec (step D) b (.boot o image :: ls) = some a)
    (hl : ∀ l ∈ ls, l.isBoot = false) : Course b image ls a := by
  obtain ⟨c, hc, h⟩ := exec_cons.mp h
  have hboot : Course b image [] c := by
    cases hb : b.run with
    | none =>
      obtain ⟨o', image', heq, rfl⟩ := step_idle hb hc
      cases heq
      exact course_boot b o image
    | some r =>
      rw [step_run hb] at hc
      cases hc
  refine invariant_history (I := fun pre u => (∀ m ∈ pre, m.isBoot = false) →
    Course b image pre u) (fun pre l u v _ ih hs hpre => ?_) (fun _ => hboot) h hl
  exact (ih fun m hm => hpre m (by simp [hm])).step (hpre l (by simp)) hs

-- ---------------------------------------------------------------------------
-- The log of the supervisor
-- ---------------------------------------------------------------------------

/-- The supervisor of a discovery, at its end, and the log that the script
reads then. -/
structure Logged (rc : Int) (log : List String) (s : Solo) : Prop where
  run : ∃ (cfg : Settings) (start : Int) (labels : List SoloLabel),
    exec (Solo.step cfg true) (.init start) labels = some s
  -- An exception that nothing catches is exit code 1.
  result : s.main.phase = .returned rc ∨ rc = 1 ∧ s.main.phase = .raised
  /-- The script does not wait for the `tee` that writes the log. -/
  written : ∀ attempt ∈ s.main.ended, ∀ line ∈ attempt.relayed, line ∈ log

/-- The supervisor has found the account not to be authorized, or one of its
attempts has relayed it. -/
def Tells (rc : Int) (s : Solo) : Prop :=
  rc = 78 ∨ ∃ attempt ∈ s.main.ended, attempt.Authorized

theorem Logged.rejected {rc : Int} {log : List String} {s : Solo} (h : Logged rc log s)
    (htells : Tells rc s) : rejected log = true := by
  obtain ⟨cfg, start, labels, hrun⟩ := h.run
  obtain ⟨attempt, hended, line, hline, hmarker⟩ : ∃ attempt ∈ s.main.ended, attempt.Authorized := by
    rcases htells with rfl | htold
    · exact (Solo.told_run hrun).returned (h.result.resolve_right (by simp))
    · exact htold
  exact List.any_eq_true.mpr ⟨line, h.written attempt hended line hline, hmarker⟩

/-- In one start go2rtc is not started unless all it waits for has happened.
A discovery whose supervisor has relayed the rejection ends the start without
it once the log has the line, even where the polls have missed it. -/
theorem start_cleared (h : exec (step D) b (.boot o image :: ls) = some a)
    (hl : ∀ l ∈ ls, l.isBoot = false) :
    (launches a = launches b ∨ Cleared image ls) ∧
    ∀ rc log cameras s, .discovered rc log cameras ∈ ls → Logged rc log s → Tells rc s →
      launches a = launches b ∧ a.run = none := by
  have hcourse := course h hl
  refine ⟨hcourse.launched, fun rc log cameras s hmem hlogged htells => ?_⟩
  have hnot : ¬ Cleared image ls := fun hc => by
    have := hc.authorized rc log cameras hmem
    rw [hlogged.rejected htells] at this
    cases this
  refine ⟨hcourse.launched.resolve_right hnot, ?_⟩
  cases hr : a.run with
  | none => rfl
  | some r =>
    cases hp : r.phase.isPast with
    | false => exact absurd hmem (hcourse.before r hr hp rc log cameras)
    | true => exact absurd (hcourse.cleared r hr hp) hnot

def rejectionText : String :=
  "[12:00:00] oracle[stderr]: EUFY_AUTHORIZATION_ERROR_-104: use the account of the owner"

/-- The engine ends before the supervisor has looked at what it relayed, and
the next one cannot be started. -/
def missedRun : List SoloLabel :=
  [.main .granted, .tick (milliseconds 100), .main (.attempt (.line rejectionText)),
    .tick (milliseconds 10), .main (.attempt (.exit (-15))), .main (.attempt .wake),
    .main (.attempt .wake), .main (.attempt (.descendants false)), .tick (milliseconds 100),
    .main (.attempt .timeout), .main (.attempt .relayEnds), .main (.attempt .wake),
    .tick (seconds 1), .main .timeout, .tick (seconds 1), .main .timeout, .main .spawnFails,
    .tick (seconds 1), .main .timeout]

theorem start_cleared_missed : ∃ a s, exec (step noDigits) fresh
      [.boot (doorOptions (lit "info") (by decide)) doorImage, .cacheChecked true,
        .discovered 1 [rejectionText] (some doorCameras)] = some a ∧
    exec (Solo.step .default true) (.init 0) missedRun = some s ∧ s.main.phase = .raised ∧
    launches a = 0 ∧ a.run = none := by
  obtain ⟨a, ha, -⟩ : ∃ a, exec (step noDigits) fresh
      [.boot (doorOptions (lit "info") (by decide)) doorImage, .cacheChecked true,
        .discovered 1 [rejectionText] (some doorCameras)] = some a ∧ a.spawned.length = 2 := by
    apply exec_of_check
    decide +kernel
  obtain ⟨s, hs, hraised, hwritten, htells⟩ : ∃ s,
      exec (Solo.step .default true) (.init 0) missedRun = some s ∧ s.main.phase = .raised ∧
        (∀ attempt ∈ s.main.ended, ∀ line ∈ attempt.relayed, line ∈ [rejectionText]) ∧
        ∃ attempt ∈ s.main.ended, attempt.Authorized := by
    apply exec_of_check
    decide +kernel
  have hover := (start_cleared ha (by simp [Label.isBoot])).2 1 [rejectionText] (some doorCameras) s
    (by simp) ⟨⟨_, _, _, hs⟩, .inr ⟨rfl, hraised⟩, hwritten⟩ (.inr htells)
  exact ⟨a, s, ha, hs, hraised, hover⟩

end EufyNvr.Addon
