import EufyNvr.Supervisor.Finish

/-!
# Rejections by the NVR

An authorization rejection in the relayed log makes `main` return 78, a busy
report in live mode 75, in every run in which the marker is relayed while
the watch loop runs, the loop is not ended by the exit of the engine after
that, and the relay does not fail after that. The oracle kills the engine
10 ms after it has printed the authorization marker, and polls are half a
second apart, so the condition fails in an ordinary run.
-/

namespace EufyNvr.Supervisor

namespace Attempt

variable {cfg : Settings} {discovery : Bool} {now : Int} {a b : Attempt} {l : AttemptLabel}

/-- The relayed log contains the authorization marker. -/
def Authorized (a : Attempt) : Prop :=
  ∃ line ∈ a.relayed, mentions line authorizationMarker = true

/-- The relayed log contains the busy marker. -/
def Busy (a : Attempt) : Prop := ∃ line ∈ a.relayed, mentions line busyMarker = true

/-- The relayed log contains no marker that decides the outcome. -/
def Clear (discovery : Bool) (a : Attempt) : Prop :=
  ¬ a.Authorized ∧ (discovery = false → ¬ a.Busy)

/-- The step does not make a rejection miss the polls: a marker is relayed
in the watch loop first, the loop is not left by the engine's exit with a
marker relayed, and the relay does not fail with a marker relayed. -/
def Heeded (discovery : Bool) (a : Attempt) : AttemptLabel → Prop
  | .line text =>
    (mentions text authorizationMarker = true → a.phase.isWatching = true ∨ a.Authorized) ∧
      (discovery = false → mentions text busyMarker = true →
        reportsBusy text = true ∧ (a.phase.isWatching = true ∨ a.Busy ∨ a.Authorized))
  | .wake => a.phase.isWatching = true → a.Clear discovery
  | .relayRaises => a.Clear discovery
  | _ => True

instance (a : Attempt) : Decidable a.Authorized :=
  inferInstanceAs (Decidable (∃ line ∈ a.relayed, _))

instance (a : Attempt) : Decidable a.Busy := inferInstanceAs (Decidable (∃ line ∈ a.relayed, _))

instance (a : Attempt) : Decidable (a.Clear discovery) := inferInstanceAs (Decidable (_ ∧ _))

instance (a : Attempt) (l : AttemptLabel) : Decidable (a.Heeded discovery l) := by
  cases l <;> unfold Heeded <;> infer_instance

structure Sound (discovery : Bool) (a : Attempt) : Prop where
  authorized : a.session.authorizationRejection = true ↔ a.Authorized
  busy : discovery = false → (a.session.busyRejection = true ↔ a.Busy)
  watching : a.phase.isWatching = true → a.reason = .exit
  authorization : a.phase.isWatching = false → (a.reason = .authorization ↔ a.Authorized)
  busyReason : a.phase.isWatching = false → discovery = false → ¬ a.Authorized →
    (a.reason = .busy ↔ a.Busy)
  relay : a.relay = .failed → a.Clear discovery
  raised : a.phase = .raised → a.relay = .failed
  running : a.reason ≠ .shutdown

theorem sound_start (now : Int) : Sound discovery (start now) where
  authorized := by simp [start, SessionState.start, Authorized]
  busy _ := by simp [start, SessionState.start, Busy]
  watching _ := rfl
  authorization h := by cases h
  busyReason h := by cases h
  relay h := by cases h
  raised h := by cases h
  running := by simp [start]

theorem Kept.sound (h : Kept a b) (ha : Sound discovery a)
    (hp : a.phase.isWatching = false) (hb : b.phase.isWatching = false)
    (hr : b.phase = .raised → b.relay = .failed) : Sound discovery b where
  authorized := by rw [Authorized, h.session, h.relayed]; exact ha.authorized
  busy := by rw [Busy, h.session, h.relayed]; exact ha.busy
  watching hw := by rw [hb] at hw; cases hw
  authorization _ := by rw [Authorized, h.reason, h.relayed]; exact ha.authorization hp
  busyReason _ := by rw [Authorized, Busy, h.reason, h.relayed]; exact ha.busyReason hp
  relay := by rw [Clear, Authorized, Busy, h.relay, h.relayed]; exact ha.relay
  raised := hr
  running := by rw [h.reason]; exact ha.running

-- ---------------------------------------------------------------------------
-- Polls
-- ---------------------------------------------------------------------------

theorem poll_authorization {s : SessionState} {reason : Reason}
    (h : poll cfg discovery now false s = some reason) :
    reason ≠ .exit ∧ reason ≠ .shutdown ∧
      (reason = .authorization ↔ s.authorizationRejection = true) ∧
      (s.authorizationRejection = false → (reason = .busy ↔ s.busyRejection = true)) := by
  unfold poll at h
  rw [if_neg (by simp)] at h
  split at h
  · rename_i ha
    cases h
    refine ⟨by simp, by simp, ⟨fun _ => ha, fun _ => rfl⟩, fun hn => ?_⟩
    rw [hn] at ha
    cases ha
  · split at h
    · cases h
      exact ⟨by simp, by simp, ⟨fun hr => (by cases hr), fun hs => absurd hs ‹_›⟩,
        fun _ => ⟨fun _ => ‹_›, fun _ => rfl⟩⟩
    · rename_i ha hb
      -- Any later watchdog is neither of the two rejections.
      have late : reason ≠ .exit ∧ reason ≠ .shutdown ∧ reason ≠ .authorization ∧
          reason ≠ .busy := by
        repeat' split at h
        all_goals first
          | (cases h; exact ⟨by simp, by simp, by simp, by simp⟩)
          | cases h
      exact ⟨late.1, late.2.1, ⟨fun hr => absurd hr late.2.2.1, fun hs => absurd hs ha⟩,
        fun _ => ⟨fun hr => absurd hr late.2.2.2, fun hs => absurd hs hb⟩⟩

theorem poll_none {s : SessionState} (h : poll cfg discovery now false s = none) :
    s.authorizationRejection = false ∧ s.busyRejection = false := by
  unfold poll at h
  rw [if_neg (by simp)] at h
  split at h
  · cases h
  · split at h
    · cases h
    · exact ⟨by simpa using ‹¬s.authorizationRejection = true›,
        by simpa using ‹¬s.busyRejection = true›⟩

-- ---------------------------------------------------------------------------
-- Steps of an attempt
-- ---------------------------------------------------------------------------

theorem authorized_append {line : String} :
    (∃ x ∈ a.relayed ++ [line], mentions x authorizationMarker = true) ↔
      a.Authorized ∨ mentions line authorizationMarker = true := by
  simp [Authorized, List.mem_append, or_and_right, exists_or]

theorem busy_append {line : String} :
    (∃ x ∈ a.relayed ++ [line], mentions x busyMarker = true) ↔
      a.Busy ∨ mentions line busyMarker = true := by
  simp [Busy, List.mem_append, or_and_right, exists_or]

theorem Sound.line {text : String} (h : Sound discovery a) (hh : Heeded discovery a (.line text))
    (hr : a.relay = .running) : Sound discovery { a with
      session := inspectLogLine now text a.session, relayed := a.relayed ++ [text] } where
  authorized := by
    rw [Authorized, authorized_append, inspectLogLine_authorization, Bool.or_eq_true, h.authorized]
  busy hd := by
    rw [Busy, busy_append, inspectLogLine_busy, Bool.or_eq_true, h.busy hd]
    -- In the live mode a line with the marker is read as a busy report.
    refine or_congr_right ⟨fun hm => ?_, fun hm => (hh.2 hd hm).1⟩
    unfold reportsBusy at hm
    simp only [Bool.and_eq_true] at hm
    exact hm.1.1
  watching := h.watching
  authorization hw := by
    rw [Authorized, authorized_append, h.authorization hw]
    refine ⟨.inl, fun hm => hm.elim id fun hm => ?_⟩
    exact (hh.1 hm).resolve_left (by simpa using hw)
  busyReason hw hd hn := by
    rw [Authorized, authorized_append, not_or] at hn
    rw [Busy, busy_append, h.busyReason hw hd hn.1]
    refine ⟨.inl, fun hm => hm.elim id fun hm => ?_⟩
    exact ((hh.2 hd hm).2.resolve_left (by simpa using hw)).resolve_right hn.1
  relay hf := by rw [hr] at hf; cases hf
  raised hp := h.raised hp
  running := h.running

theorem Sound.polled {reason : Reason} (h : Sound discovery a)
    (hpoll : poll cfg discovery now false a.session = some reason) :
    Sound discovery ({ a with reason }.terminateTree now false) := by
  obtain ⟨hk, hw⟩ := terminateTree_kept { a with reason } now false
  have hnw := not_watching_of_winding hw
  obtain ⟨-, hs, hauth, hbusy⟩ := poll_authorization hpoll
  exact {
    authorized := by rw [Authorized, hk.session, hk.relayed]; exact h.authorized
    busy := by rw [Busy, hk.session, hk.relayed]; exact h.busy
    watching := fun hww => by rw [hnw] at hww; cases hww
    authorization := fun _ => by
      rw [Authorized, hk.reason, hk.relayed]
      exact hauth.trans h.authorized
    busyReason := fun _ hd hn => by
      rw [Authorized, hk.relayed] at hn
      rw [Busy, hk.reason, hk.relayed]
      refine (hbusy ?_).trans (h.busy hd)
      rw [← Bool.not_eq_true, h.authorized]
      exact hn
    relay := by rw [Clear, Authorized, Busy, hk.relay, hk.relayed]; exact h.relay
    raised := fun hr => absurd hr (not_raised_of_winding hw)
    running := by rw [hk.reason]; exact hs }

/-- The loop is left with nothing relayed that decides the outcome. -/
theorem Sound.left {due : Int} (h : Sound discovery a) (hp : a.phase = .watching due)
    (hc : a.Clear discovery) : Sound discovery (a.goto .reaping) := by
  have hr : a.reason = .exit := h.watching (by rw [hp]; rfl)
  exact {
    authorized := h.authorized
    busy := h.busy
    watching := fun hw => by cases hw
    authorization := fun _ =>
      ⟨fun he => (by rw [goto, hr] at he; cases he), fun ha => absurd ha hc.1⟩
    busyReason := fun _ hd _ =>
      ⟨fun he => (by rw [goto, hr] at he; cases he), fun hb => absurd hb (hc.2 hd)⟩
    relay := h.relay
    raised := fun hw => by cases hw
    running := h.running }

theorem clear_of_poll (h : Sound discovery a)
    (hp : poll cfg discovery now false a.session = none) : a.Clear discovery := by
  obtain ⟨ha, hb⟩ := poll_none hp
  constructor
  · rw [← h.authorized, ha]
    simp
  · intro hd
    rw [← h.busy hd, hb]
    simp

theorem Sound.step (h : Sound discovery a) (hh : Heeded discovery a l)
    (hs : a.step cfg discovery now false l = some b) : Sound discovery b := by
  cases step_move hs with
  | line hr => exact h.line hh hr
  | relayEnds hr =>
    exact { h with
      relay := fun hf => by cases hf
      raised := fun hp => by have hf := h.raised hp; rw [hr] at hf; cases hf }
  | relayRaises => exact { h with relay := fun _ => hh, raised := fun _ => rfl }
  | exit => exact { h with }
  | descendants => exact { h with }
  | noticed hp => exact h.left hp (hh (by rw [hp]; rfl))
  | polled _ _ hpoll => exact h.polled hpoll
  | watched hp =>
    exact { h with
      watching := fun _ => h.watching (by rw [hp]; rfl)
      authorization := fun hw => by cases hw
      busyReason := fun hw => by cases hw
      raised := fun hr => by cases hr }
  | left hp _ hpoll => exact h.left hp (clear_of_poll h hpoll)
  | winding _ hw hk hw' _ =>
    exact hk.sound h (not_watching_of_winding hw) (not_watching_of_winding hw')
      fun hr => absurd hr (not_raised_of_winding hw')
  | returned _ hp =>
    exact ((Kept.refl a).goto _).sound h (by rw [hp]; rfl) rfl fun hr => by cases hr
  | raised hp hf =>
    exact ((Kept.refl a).goto _).sound h (by rw [hp]; rfl) rfl fun _ => hf

end Attempt

-- ---------------------------------------------------------------------------
-- Steps of `main`
-- ---------------------------------------------------------------------------

namespace Main

variable {cfg : Settings} {discovery : Bool} {now : Int} {m m' : Main} {l : MainLabel}

/-- `a` is the last attempt, and `main` can only return `code`. -/
def Settled (m : Main) (a : Attempt) (reason : Reason) (code : Int) : Prop :=
  m.ended.getLast? = some a ∧
    ((∃ due v, m.phase = .releasing due (some v) ∧ v.reason = reason) ∨ m.phase = .returned code)

structure OnCourse (discovery : Bool) (m : Main) : Prop where
  current : ∀ a, m.phase = .attempting a → a.Sound discovery ∧ a.phase.isOpen = true
  authorized : ∀ a ∈ m.ended, a.Authorized → m.Settled a .authorization 78
  busy : discovery = false → ∀ a ∈ m.ended, ¬ a.Authorized → a.Busy → m.Settled a .busy 75

/-- Between attempts and within one, the attempts before it decided nothing. -/
theorem OnCourse.clear {a : Attempt} (h : OnCourse discovery m) (ha : a ∈ m.ended)
    (hr : ∀ due v, m.phase ≠ .releasing due (some v)) (hc : ∀ code, m.phase ≠ .returned code) :
    a.Clear discovery := by
  have hn : ¬ a.Authorized := fun hauth => by
    obtain ⟨-, ⟨due, v, hp, -⟩ | hp⟩ := h.authorized a ha hauth
    · exact hr due v hp
    · exact hc _ hp
  refine ⟨hn, fun hd hb => ?_⟩
  obtain ⟨-, ⟨due, v, hp, -⟩ | hp⟩ := h.busy hd a ha hn hb
  · exact hr due v hp
  · exact hc _ hp

theorem OnCourse.of_clear
    (hs : ∀ a, m.phase = .attempting a → a.Sound discovery ∧ a.phase.isOpen = true)
    (hc : ∀ a ∈ m.ended, a.Clear discovery) : OnCourse discovery m where
  current := hs
  authorized a ha hauth := absurd hauth (hc a ha).1
  busy hd a ha _ hb := absurd hb ((hc a ha).2 hd)

theorem conclude_authorization {attempt : Nat} {v : Verdict} (h : v.reason = .authorization) :
    conclude cfg discovery now attempt v = (attempt, .returned 78) := by
  simp [conclude, h]

theorem conclude_busy {attempt : Nat} {v : Verdict} (h : v.reason = .busy)
    (hd : discovery = false) : conclude cfg discovery now attempt v = (attempt, .returned 75) := by
  simp [conclude, h, hd]

theorem conclude_ne_attempting {attempt : Nat} {v : Verdict} {a : Attempt} :
    (conclude cfg discovery now attempt v).2 ≠ .attempting a := by
  unfold conclude
  repeat' split
  all_goals simp

theorem OnCourse.conclude {due : Int} {v : Verdict} (h : OnCourse discovery m)
    (hp : m.phase = .releasing due (some v)) :
    OnCourse discovery { m with
      attempt := (conclude cfg discovery now m.attempt v).1
      phase := (conclude cfg discovery now m.attempt v).2 } where
  current a ha := absurd ha conclude_ne_attempting
  authorized a ha hauth := by
    obtain ⟨hl, ⟨due', v', hp', hv⟩ | hr⟩ := h.authorized a ha hauth
    · rw [hp] at hp'
      cases hp'
      exact ⟨hl, .inr (by rw [conclude_authorization hv])⟩
    · rw [hp] at hr
      cases hr
  busy hd a ha hn hb := by
    obtain ⟨hl, ⟨due', v', hp', hv⟩ | hr⟩ := h.busy hd a ha hn hb
    · rw [hp] at hp'
      cases hp'
      exact ⟨hl, .inr (by rw [conclude_busy hv hd])⟩
    · rw [hp] at hr
      cases hr

theorem OnCourse.afterAttempt {a : Attempt} (hc : ∀ x ∈ m.ended, x.Clear discovery)
    (ha : a.Sound discovery) : OnCourse discovery (m.afterAttempt cfg now a) := by
  have hend {x : Attempt} (hx : x ∈ m.ended ++ [a]) : x ∈ m.ended ∨ x = a := by
    simpa using hx
  unfold Main.afterAttempt
  split
  · rename_i rc hp
    have hw : a.phase.isWatching = false := by rw [hp]; rfl
    refine ⟨fun x hx => (by cases hx), fun x hx hauth => ?_, fun hd x hx hn hb => ?_⟩
    · rcases hend hx with hx | rfl
      · exact absurd hauth (hc x hx).1
      · exact ⟨by simp, .inl ⟨_, _, rfl, (ha.authorization hw).mpr hauth⟩⟩
    · rcases hend hx with hx | rfl
      · exact absurd hb ((hc x hx).2 hd)
      · exact ⟨by simp, .inl ⟨_, _, rfl, (ha.busyReason hw hd hn).mpr hb⟩⟩
  · rename_i hp
    refine .of_clear (fun x hx => by cases hx) fun x hx => ?_
    rcases hend hx with hx | rfl
    · exact hc x hx
    · exact ha.relay (ha.raised hp)
  · rename_i hret hrai
    refine .of_clear (fun x hx => ?_) hc
    cases hx
    refine ⟨ha, ?_⟩
    cases hp : a.phase with
    | returned rc => exact absurd hp (hret rc)
    | raised => exact absurd hp hrai
    | _ => rfl

/-- A step keeps `main` on course where the attempt's step is heeded. -/
theorem OnCourse.step (h : OnCourse discovery m)
    (hh : ∀ a al, m.phase = .attempting a → l = .attempt al → a.Heeded discovery al)
    (hs : m.step cfg discovery now false l = some m') : OnCourse discovery m' := by
  have hclear (hr : ∀ due v, m.phase ≠ .releasing due (some v))
      (hc : ∀ code, m.phase ≠ .returned code) : ∀ a ∈ m.ended, a.Clear discovery :=
    fun a ha => h.clear ha hr hc
  cases step_move hs with
  | granted hp =>
    refine .of_clear (fun a ha => ?_) (hclear (by simp [hp]) (by simp [hp]))
    cases ha
    exact ⟨Attempt.sound_start now, rfl⟩
  | spawnFails hp | gateRaises hp | retried hp | failed hp =>
    exact .of_clear (fun a ha => by cases ha) (hclear (by simp [hp]) (by simp [hp]))
  | refused _ hstop | stopWake _ hstop => cases hstop
  | @attempt a b al hp hb =>
    exact .afterAttempt (hclear (by simp [hp]) (by simp [hp]))
      ((h.current a hp).1.step (hh a al hp rfl) hb)
  | concluded hp => exact h.conclude hp

end Main

-- ---------------------------------------------------------------------------
-- Runs
-- ---------------------------------------------------------------------------

namespace Solo

open Machine

variable {cfg : Settings} {discovery : Bool} {s t : Solo} {l : SoloLabel}

/-- A step of an attempt is heeded. -/
def Heeded (discovery : Bool) (s : Solo) (l : SoloLabel) : Prop :=
  match s.main.phase, l with
  | .attempting a, .main (.attempt al) => a.Heeded discovery al
  | _, _ => True

instance (discovery : Bool) (s : Solo) (l : SoloLabel) : Decidable (Heeded discovery s l) := by
  unfold Heeded
  split <;> infer_instance

end Solo

-- ---------------------------------------------------------------------------
-- The verdict of a rejection
-- ---------------------------------------------------------------------------

namespace Attempt

variable {cfg : Settings} {discovery stop : Bool} {now : Int} {a b : Attempt} {l : AttemptLabel}

/-- What the attempt takes for a rejection has been relayed. -/
structure Told (a : Attempt) : Prop where
  flag : a.session.authorizationRejection = true → a.Authorized
  reason : a.reason = .authorization → a.Authorized

theorem told_start (now : Int) : Told (start now) where
  flag h := by cases h
  reason h := by cases h

theorem Told.kept (h : a.Told) (hk : Kept a b) : b.Told where
  flag hf := by
    rw [hk.session] at hf
    rw [Authorized, hk.relayed]
    exact h.flag hf
  reason hr := by
    rw [hk.reason] at hr
    rw [Authorized, hk.relayed]
    exact h.reason hr

theorem flag_of_poll {s : SessionState} (h : poll cfg discovery now stop s = some .authorization) :
    s.authorizationRejection = true := by
  unfold poll at h
  repeat' split at h
  all_goals first
    | assumption
    | cases h

theorem Told.step (h : a.Told) (hs : a.step cfg discovery now stop l = some b) : b.Told := by
  cases step_move hs with
  | line =>
    refine ⟨fun hf => ?_, fun hr => authorized_append.mpr (.inl (h.reason hr))⟩
    rw [inspectLogLine_authorization, Bool.or_eq_true] at hf
    exact authorized_append.mpr (hf.imp_left h.flag)
  | relayEnds | relayRaises | exit | descendants => exact ⟨h.flag, h.reason⟩
  | noticed | watched | left | returned | raised => exact h.kept ((Kept.refl a).goto _)
  | @polled _ reason _ _ hpoll =>
    have htold : Told { a with reason } := ⟨h.flag, fun hr => by
      obtain rfl : reason = .authorization := hr
      exact h.flag (flag_of_poll hpoll)⟩
    exact htold.kept (terminateTree_kept { a with reason } now false).1
  | winding _ _ hk => exact h.kept hk

end Attempt

namespace Main

variable {cfg : Settings} {discovery stop : Bool} {now : Int} {m m' : Main} {l : MainLabel}

/-- Where the verdict is a rejection, an attempt has relayed it. -/
structure Told (m : Main) : Prop where
  current : ∀ a, m.phase = .attempting a → a.Told
  verdict : ∀ due v, m.phase = .releasing due (some v) → v.reason = .authorization →
    ∃ a ∈ m.ended, a.Authorized
  returned : m.phase = .returned 78 → ∃ a ∈ m.ended, a.Authorized

theorem told_init : Told init where
  current a h := by cases h
  verdict due v h := by cases h
  returned h := by cases h

theorem reason_of_conclude {attempt : Nat} {v : Verdict}
    (h : (conclude cfg discovery now attempt v).2 = .returned 78) : v.reason = .authorization := by
  unfold conclude at h
  repeat' split at h
  all_goals first
    | assumption
    | cases h

theorem conclude_ne_releasing {attempt : Nat} {v v' : Verdict} {due : Int} :
    (conclude cfg discovery now attempt v).2 ≠ .releasing due (some v') := by
  unfold conclude
  repeat' split
  all_goals simp

theorem told_afterAttempt {a : Attempt} (ha : a.Told) : Told (m.afterAttempt cfg now a) := by
  unfold afterAttempt
  split
  · refine ⟨fun x hx => (by cases hx), fun due v hv hr => ?_, fun hx => by cases hx⟩
    cases hv
    exact ⟨a, by simp, ha.reason hr⟩
  · exact ⟨fun x hx => (by cases hx), fun due v hv => (by cases hv), fun hx => by cases hx⟩
  · refine ⟨fun x hx => ?_, fun due v hv => (by cases hv), fun hx => by cases hx⟩
    cases hx
    exact ha

theorem Told.step (h : Told m) (hs : m.step cfg discovery now stop l = some m') : Told m' := by
  cases step_move hs with
  | granted =>
    refine ⟨fun a ha => ?_, fun due v hv => (by cases hv), fun hx => by cases hx⟩
    cases ha
    exact Attempt.told_start now
  | spawnFails | refused | gateRaises | stopWake | retried | failed =>
    exact ⟨fun a ha => (by cases ha), fun due v hv => (by cases hv), fun hx => by cases hx⟩
  | attempt hp hb => exact told_afterAttempt ((h.current _ hp).step hb)
  | @concluded due v hp =>
    exact ⟨fun a ha => absurd ha conclude_ne_attempting,
      fun due v hv => absurd hv conclude_ne_releasing,
      fun hx => h.verdict due v hp (reason_of_conclude hx)⟩

end Main

/-- Whatever is requested and missed: a supervisor that returns 78 has relayed
the rejection. -/
theorem Solo.told_run {cfg : Settings} {discovery : Bool} {s : Solo} {now : Int}
    {ls : List SoloLabel} (h : Machine.exec (Solo.step cfg discovery) (.init now) ls = some s) :
    s.main.Told := by
  refine Machine.invariant (I := fun s => s.main.Told) (fun s l t hs hstep => ?_) Main.told_init h
  cases l with
  | tick d =>
    obtain ⟨-, rfl⟩ := Option.ite_some_none_eq_some.mp hstep
    exact hs
  | stop =>
    cases hstep
    exact hs
  | main l =>
    obtain ⟨m, hm, rfl⟩ := Option.map_eq_some_iff.mp hstep
    exact hs.step hm

end EufyNvr.Supervisor
