import EufyNvr.Addon.Written

/-!
# What a start hands out

Over all starts of the add-on: of the bridge's programs and go2rtc, none but
the login is given the password and the verification code of the account, and
go2rtc is given only what the generator wrote for the options of a start. The
tools of the shell that run before the two are forgotten are left out.
-/

namespace EufyNvr.Addon

open Json Machine
open EufyNvr.Generator
open EufyNvr.Stream (noDigits)

variable {D : Digits} {a a' : Addon} {r : Run} {l : Label} {ls : List Label} {o : Options}
  {env : Env} {booted : Options → Prop} {intact : Prop} {p : Process} {phase : Phase} {now : Int}

-- ---------------------------------------------------------------------------
-- The environment
-- ---------------------------------------------------------------------------

/-- The programs that log in. -/
def Process.isAccount : Process → Bool
  | .checkCache | .login => true
  | _ => false

/-- Neither the password nor the code is exported. -/
def Forgotten (env : Env) : Prop := env.get? passwordKey = none ∧ env.get? codeKey = none

/-- The generator is told what the options say. -/
structure Told (env : Env) (o : Options) : Prop where
  username : env.get? (lit "GO2RTC_USERNAME") = some o.go2rtcUsername
  password : env.get? (lit "GO2RTC_PASSWORD") = some o.go2rtcPassword
  disabled : env.get? (lit "EUFY_DISABLED_CHANNELS") = some o.disabledChannels

theorem exports_nodup (o : Options) : (o.exports.map Prod.fst).Nodup := by
  have hall : ([lit "GO2RTC_API_PORT", lit "GO2RTC_RTSP_PORT", lit "GO2RTC_WEBRTC_PORT",
      lit "EUFY_LOG_LEVEL", lit "EUFY_EMAIL", passwordKey, lit "EUFY_REGION",
      lit "EUFY_CALL_TYPE", lit "EUFY_AUTH", lit "EUFY_CAMERAS", lit "EUFY_STREAM_NAMES",
      lit "EUFY_DISABLED_CHANNELS", lit "EUFY_SESSION_LOCK", lit "GO2RTC_USERNAME",
      lit "GO2RTC_PASSWORD"] ++ [lit "EUFY_COUNTRY", lit "EUFY_STATION_SN",
      lit "EUFY_CAPTCHA_ID", lit "EUFY_CAPTCHA_ANSWER", codeKey]).Nodup := by decide
  refine hall.sublist ?_
  rw [Options.exports, List.map_append]
  exact (List.Sublist.refl _).append (List.filter_sublist.map _)

theorem told_exported (o : Options) (base : Env) : Told (exported o base) o where
  username := Dict.get?_foldl_set_of_mem (exports_nodup o) (by simp [Options.exports])
  password := Dict.get?_foldl_set_of_mem (exports_nodup o) (by simp [Options.exports])
  disabled := Dict.get?_foldl_set_of_mem (exports_nodup o) (by simp [Options.exports])

theorem Told.erase (h : Told env o) {key : Str} (hkey : key = passwordKey ∨ key = codeKey) :
    Told (env.erase key) o := by
  have hne : ∀ k ∈ [lit "GO2RTC_USERNAME", lit "GO2RTC_PASSWORD", lit "EUFY_DISABLED_CHANNELS"],
      k ≠ key := by
    rcases hkey with rfl | rfl <;> decide
  simp only [List.forall_mem_cons, List.not_mem_nil, false_imp_iff, implies_true, and_true] at hne
  constructor
  · rw [Dict.get?_erase, if_neg hne.1, h.username]
  · rw [Dict.get?_erase, if_neg hne.2.1, h.password]
  · rw [Dict.get?_erase, if_neg hne.2.2, h.disabled]

theorem forgotten_forget (r : Run) : Forgotten r.forget.env := by
  constructor
  · rw [Run.forget, Dict.get?_erase, Dict.get?_erase]
    simp
  · rw [Run.forget, Dict.get?_erase, if_pos rfl]

theorem videoCopy_ne {key : Str} (h : key ∈ [passwordKey, codeKey, lit "GO2RTC_USERNAME",
    lit "GO2RTC_PASSWORD", lit "EUFY_DISABLED_CHANNELS"]) : key ≠ lit "EUFY_VIDEO_COPY" := by
  revert key
  decide

theorem Forgotten.videoCopy (h : Forgotten env) :
    Forgotten (env.set (lit "EUFY_VIDEO_COPY") (lit "1")) := by
  constructor
  · rw [Dict.get?_set, if_neg (videoCopy_ne (by simp)), h.1]
  · rw [Dict.get?_set, if_neg (videoCopy_ne (by simp)), h.2]

theorem Told.videoCopy (h : Told env o) :
    Told (env.set (lit "EUFY_VIDEO_COPY") (lit "1")) o := by
  constructor
  · rw [Dict.get?_set, if_neg (videoCopy_ne (by simp)), h.username]
  · rw [Dict.get?_set, if_neg (videoCopy_ne (by simp)), h.password]
  · rw [Dict.get?_set, if_neg (videoCopy_ne (by simp)), h.disabled]

-- ---------------------------------------------------------------------------
-- The invariant
-- ---------------------------------------------------------------------------

/-- Somebody who started the add-on had it written. -/
def Ours (booted : Options → Prop) (text : Str) : Prop := ∃ o, booted o ∧ Written o text

/-- go2rtc may start. -/
def Phase.isReady : Phase → Bool
  | .leveling | .serving _ | .restarting => true
  | _ => false

structure RunOk (booted : Options → Prop) (intact : Prop) (f : Files) (r : Run) : Prop where
  options : booted r.options
  told : Told r.env r.options
  past : r.phase.isPast = true → Forgotten r.env
  installing : ∀ attempt, r.phase = .installing attempt →
    ∃ text, f.bridgeConfig = some text ∧ Written r.options text
  ready : intact → r.phase.isReady = true → f.config ≠ none

structure SpawnOk (booted : Options → Prop) (intact : Prop) (s : Spawn) : Prop where
  forgotten : s.process.isAccount = false → Forgotten s.env
  config : intact → ∀ config, s.process = .go2rtc config →
    ∃ text, config = some text ∧ Ours booted text

/-- What does not depend on where the script is. -/
structure Kept (booted : Options → Prop) (intact : Prop) (a : Addon) : Prop where
  config : intact → ∀ text, a.files.config = some text → Ours booted text
  spawned : ∀ s ∈ a.spawned, SpawnOk booted intact s

structure Inv (booted : Options → Prop) (intact : Prop) (a : Addon) : Prop extends
    Kept booted intact a where
  run : ∀ r, a.run = some r → RunOk booted intact a.files r

theorem inv_fresh : Inv booted intact fresh where
  config _ _ h := by cases h
  spawned _ h := by cases h
  run _ h := by cases h

theorem Kept.exit (h : Kept booted intact a) : Inv booted intact a.exit where
  config := h.config
  spawned := h.spawned
  run _ hr := by cases hr

theorem Kept.goto (h : Kept booted intact a)
    (hr : RunOk booted intact a.files { r with phase }) : Inv booted intact (a.goto r phase) where
  config := h.config
  spawned := h.spawned
  run _ he := by
    cases he
    exact hr

theorem Kept.spawn (h : Kept booted intact a) (hs : SpawnOk booted intact ⟨p, r.env⟩) :
    Kept booted intact (a.spawn r p) where
  config := h.config
  spawned s hmem := by
    rcases List.mem_append.mp hmem with hmem | hmem
    · exact h.spawned s hmem
    · rw [List.mem_singleton.mp hmem]
      exact hs

theorem Kept.await (h : Kept booted intact a) (hs : SpawnOk booted intact ⟨p, r.env⟩)
    (hr : RunOk booted intact a.files { r with phase }) :
    Inv booted intact (a.await r p phase) := (h.spawn hs).goto hr

/-- Every phase but that of a copy, past the login. -/
theorem RunOk.past_goto {f : Files} (h : RunOk booted intact f r) (hp : r.phase.isPast = true)
    (hi : ∀ attempt, phase ≠ .installing attempt)
    (hc : intact → phase.isReady = true → f.config ≠ none) :
    RunOk booted intact f { r with phase } where
  options := h.options
  told := h.told
  past _ := h.past hp
  installing attempt he := absurd he (hi attempt)
  ready := hc

theorem spawnOk_of_forgotten (hp : ∀ config, p ≠ .go2rtc config) (h : Forgotten env) :
    SpawnOk booted intact ⟨p, env⟩ where
  forgotten _ := h
  config _ config he := absurd he (hp config)

theorem spawnOk_account (hp : p.isAccount = true) : SpawnOk booted intact ⟨p, env⟩ where
  forgotten hf := by rw [hp] at hf; cases hf
  config _ config he := by
    obtain rfl : p = .go2rtc config := he
    cases hp

-- ---------------------------------------------------------------------------
-- What is done next keeps it
-- ---------------------------------------------------------------------------

theorem Kept.authenticated (h : Kept booted intact a) (hr : RunOk booted intact a.files r) :
    Inv booted intact (a.authenticated r) := by
  unfold Addon.authenticated
  simp only
  split
  · refine h.await (spawnOk_of_forgotten (by simp) (forgotten_forget r)) ?_
    exact {
      options := hr.options
      told := (hr.told.erase (.inl rfl)).erase (.inr rfl)
      past := fun _ => forgotten_forget r
      installing := by simp
      ready := by simp [Phase.isReady] }
  · exact h.exit

theorem Kept.resort (h : Kept booted intact a) (hr : RunOk booted intact a.files r)
    (hp : r.phase.isPast = true) : Inv booted intact (a.resort r) := by
  unfold Addon.resort
  split
  · rename_i hsome
    exact h.goto (hr.past_goto hp (by simp) fun _ _ hnone => by simp [hnone] at hsome)
  · exact h.exit

theorem Kept.fallBack (h : Kept booted intact a) (hr : RunOk booted intact a.files r)
    (hp : r.phase.isPast = true) : Inv booted intact (a.fallBack r) := by
  unfold Addon.fallBack
  split
  · exact h.await (spawnOk_of_forgotten (by simp) (hr.past hp))
      (hr.past_goto hp (by simp) (by simp [Phase.isReady]))
  · exact h.resort hr hp

theorem Kept.retry {attempt : Nat} (h : Kept booted intact a) (hr : RunOk booted intact a.files r)
    (hp : r.phase.isPast = true) : Inv booted intact (a.retry r attempt) := by
  unfold Addon.retry
  split
  · exact h.await (spawnOk_of_forgotten (by simp) (hr.past hp))
      (hr.past_goto hp (by simp) (by simp [Phase.isReady]))
  · exact h.fallBack hr hp

theorem Kept.launch (h : Kept booted intact a) (hr : RunOk booted intact a.files r)
    (hp : r.phase.isPast = true) (hc : intact → a.files.config ≠ none) :
    Inv booted intact (a.launch r now) := by
  refine h.await ⟨fun _ => hr.past hp, fun hi config he => ?_⟩
    (hr.past_goto hp (by simp) fun hi _ => hc hi)
  cases he
  obtain ⟨text, htext⟩ := Option.ne_none_iff_exists'.mp (hc hi)
  exact ⟨text, htext, h.config hi text htext⟩

theorem Inv.background (h : Inv booted intact a) (hr : Forgotten r.env) :
    Inv booted intact (a.background r) := by
  unfold Addon.background
  split
  · exact { h.toKept.spawn (spawnOk_of_forgotten (by simp) hr) with run := h.run }
  · exact h

/-- What the generator has written is for the options of the start. -/
theorem written_of_generate {f : Files} {fault : Option Generator.Fault} (ht : Told env o)
    (h : (f.generate D env fault).result.isOk = true) :
    ∃ text, (f.generate D env fault).disk.config = some text ∧ Written o text := by
  cases hresult : (f.generate D env fault).result with
  | error e =>
    rw [hresult] at h
    cases h
  | ok named =>
    obtain ⟨call, p, hcall, hprepare, hdisk⟩ := main_ok hresult
    obtain ⟨husername, hpassword, hdisabled⟩ := callOf_ok hcall
    rw [environ, ht.username] at husername
    rw [environ, ht.password] at hpassword
    rw [environ, ht.disabled] at hdisabled
    refine ⟨p.config, by rw [Files.generate, hdisk], written_config ?_⟩
    exact ⟨call, _, husername, hpassword, hdisabled, hprepare⟩

theorem Kept.generated {attempt : Option Nat} {fault : Option Generator.Fault} {returns : Bool}
    (h : Kept booted intact a) (hr : RunOk booted intact a.files r) (hp : r.phase.isPast = true)
    (hphase : r.phase = .generating attempt) :
    Inv booted intact (a.generated D r attempt fault returns) := by
  unfold Addon.generated
  simp only
  have hkept : Kept booted intact { a with files := { a.files with
      registry := (a.files.generate D r.env fault).disk.registry
      bridgeConfig := (a.files.generate D r.env fault).disk.config } } := ⟨h.config, h.spawned⟩
  have hrun : RunOk booted intact { a.files with
      registry := (a.files.generate D r.env fault).disk.registry
      bridgeConfig := (a.files.generate D r.env fault).disk.config } r := {
    options := hr.options
    told := hr.told
    past := hr.past
    installing := by simp [hphase]
    ready := hr.ready }
  split
  · rename_i hok
    refine hkept.goto {
      options := hr.options
      told := hr.told
      past := fun _ => hr.past hp
      installing := fun _ _ => written_of_generate hr.told (Bool.and_eq_true_iff.mp hok).1
      ready := by simp [Phase.isReady] }
  · split
    · exact hkept.goto (hrun.past_goto hp (by simp) (by simp [Phase.isReady]))
    · exact hkept.resort hrun hp

theorem publishing_phase (r : Run) : r.publishing.phase = r.phase := by
  unfold Run.publishing
  split <;> rfl

theorem RunOk.publishing {f : Files} (h : RunOk booted intact f r) (hp : r.phase.isPast = true) :
    RunOk booted intact f r.publishing := by
  unfold Run.publishing
  split
  · exact {
      options := h.options
      told := h.told.videoCopy
      past := fun _ => (h.past hp).videoCopy
      installing := h.installing
      ready := h.ready }
  · exact h

/-- `sed` only changes the log level. -/
theorem Kept.relevel {level : Str} (h : Kept booted intact a) (hlevel : level ∈ levels) :
    Kept booted intact { a with files := { a.files with
      config := a.files.config.map (relevel level) } } where
  config hi text htext := by
    obtain ⟨text, ht, rfl⟩ := Option.map_eq_some_iff.mp htext
    obtain ⟨o, ho, hw⟩ := h.config hi text ht
    exact ⟨o, ho, written_relevel hw hlevel⟩
  spawned := h.spawned

theorem Kept.started (h : Kept booted intact a) (hr : RunOk booted intact a.files r)
    (hp : r.phase.isPast = true) (hc : intact → a.files.config ≠ none) :
    Inv booted intact ((a.launch r now).background r) :=
  (h.launch hr hp hc).background (hr.past hp)

theorem Kept.leveled {ok : Bool} (h : Kept booted intact a) (hr : RunOk booted intact a.files r)
    (hphase : r.phase = .leveling) : Inv booted intact (a.leveled r ok now) := by
  have hp : r.phase.isPast = true := by rw [hphase]; rfl
  have hp' : r.publishing.phase.isPast = true := by rw [publishing_phase, hp]
  have hready : r.phase.isReady = true := by rw [hphase]; rfl
  cases ok with
  | true =>
    have hrun : RunOk booted intact { a.files with
        config := a.files.config.map (Addon.relevel r.options.logLevel) } r := {
      options := hr.options
      told := hr.told
      past := hr.past
      installing := hr.installing
      ready := fun hi hready => by simpa using hr.ready hi hready }
    exact (h.relevel r.options.logLevel_mem).started (hrun.publishing hp) hp'
      fun hi => hrun.ready hi hready
  | false => exact h.started (hr.publishing hp) hp' fun hi => hr.ready hi hready

theorem Kept.ended {started rc : Int} (h : Kept booted intact a)
    (hr : RunOk booted intact a.files r) (hphase : r.phase = .serving started) :
    Inv booted intact (a.ended r started rc now) := by
  unfold Addon.ended
  split
  · exact h.exit
  · refine h.goto {
      options := hr.options
      told := hr.told
      past := fun _ => hr.past (by rw [hphase]; rfl)
      installing := by simp
      ready := fun hi _ => hr.ready hi (by rw [hphase]; rfl) }

theorem Inv.renewal {live : Bool} (h : Inv booted intact a) : Inv booted intact (a.renewal r live) := by
  have hcheck : Kept booted intact (a.spawn r .checkCache) := h.toKept.spawn (spawnOk_account rfl)
  unfold Addon.renewal
  simp only
  split
  · exact { hcheck with run := h.run }
  · exact { hcheck.spawn (spawnOk_account rfl) with run := h.run }

theorem Kept.discovered {attempt : Nat} {rc : Int} {log : List String} {cameras : Option Str}
    (h : Kept booted intact a) (hr : RunOk booted intact a.files r)
    (hphase : r.phase = .discovering attempt) :
    Inv booted intact (a.discovered r attempt rc log cameras) := by
  have hp : r.phase.isPast = true := by rw [hphase]; rfl
  have hkept : Kept booted intact { a with files := { a.files with cameras } } :=
    ⟨h.config, h.spawned⟩
  have hrun : RunOk booted intact { a.files with cameras } r :=
    ⟨hr.options, hr.told, hr.past, hr.installing, hr.ready⟩
  unfold Addon.discovered
  simp only
  split
  · exact hkept.exit
  · split
    · exact hkept.await (spawnOk_of_forgotten (by simp) (hr.past hp))
        (hrun.past_goto hp (by simp) (by simp [Phase.isReady]))
    · exact hkept.goto (hrun.past_goto hp (by simp) (by simp [Phase.isReady]))

theorem Kept.installed {attempt : Option Nat} {ok : Bool} {left : Option Str}
    (h : Kept booted intact a) (hr : RunOk booted intact a.files r) (hok : intact → ok = true)
    (hphase : r.phase = .installing attempt) :
    Inv booted intact (a.installed r attempt ok left) := by
  obtain ⟨text, hbridge, hw⟩ := hr.installing attempt hphase
  have hkept : Kept booted intact { a with files := { a.files with
      config := if ok then a.files.bridgeConfig else left } } := {
    config := fun hi t ht => by
      rw [hok hi, if_pos rfl, hbridge] at ht
      cases ht
      exact ⟨r.options, hr.options, hw⟩
    spawned := h.spawned }
  unfold Addon.installed
  simp only
  split
  · exact hkept.goto {
      options := hr.options
      told := hr.told
      past := fun _ => hr.past (by rw [hphase]; rfl)
      installing := by simp
      ready := fun hi _ => by simp [hok hi, hbridge] }
  · exact hkept.exit

theorem Kept.restart (h : Kept booted intact a) (hr : RunOk booted intact a.files r)
    (hphase : r.phase = .restarting) : Inv booted intact (a.restart r now) :=
  h.launch (r := { r with backoff := min (r.backoff * 2) 60 })
    ⟨hr.options, hr.told, hr.past, hr.installing, hr.ready⟩ (by rw [hphase]; rfl)
    fun hi => hr.ready hi (by rw [hphase]; rfl)

theorem Kept.login (h : Kept booted intact a) (hr : RunOk booted intact a.files r) :
    Inv booted intact (a.await r .login .loggingIn) :=
  h.await (spawnOk_account rfl) {
    options := hr.options
    told := hr.told
    past := by simp [Phase.isPast]
    installing := by simp
    ready := by simp [Phase.isReady] }

-- ---------------------------------------------------------------------------
-- Runs
-- ---------------------------------------------------------------------------

/-- A start is one of those that count, and a copy does not fail. -/
def Admits (booted : Options → Prop) (intact : Prop) : Label → Prop
  | .boot o _ => booted o
  | .installed ok _ => intact → ok = true
  | _ => True

theorem runOk_checking {f : Files} {image : Image} (ho : booted o) (ht : Told env o) :
    RunOk booted intact f ⟨o, image, env, .checkingCache, 2⟩ where
  options := ho
  told := ht
  past h := by cases h
  installing _ h := by cases h
  ready _ h := by cases h

theorem Kept.boot {image : Image} (h : Kept booted intact a) (ho : booted o) :
    Inv booted intact (a.boot o image) := by
  unfold Addon.boot
  split
  · exact h.exit
  · have ht := told_exported o image.environ
    generalize exported o image.environ = env at ht
    exact h.await (spawnOk_account rfl) (runOk_checking ho ht)

theorem Inv.advance (h : Inv booted intact a) (hr : a.run = some r) (hl : Admits booted intact l)
    (hs : a.advance D r l = some a') : Inv booted intact a' := by
  have hrun := h.run r hr
  cases l with
  | boot o image => cases hs
  | cacheChecked live =>
    obtain ⟨hphase, rfl⟩ := Option.ite_some_none_eq_some.mp hs
    split
    · exact h.toKept.authenticated hrun
    · exact h.toKept.login hrun
  | loggedIn ok =>
    obtain ⟨hphase, rfl⟩ := Option.ite_some_none_eq_some.mp hs
    split
    · exact h.toKept.authenticated hrun
    · exact h.toKept.exit
  | discovered rc log cameras =>
    simp only [Addon.advance] at hs
    split at hs
    · rename_i attempt hphase
      cases hs
      exact h.toKept.discovered hrun hphase
    · cases hs
  | generated fault returns =>
    simp only [Addon.advance] at hs
    split at hs
    · rename_i attempt hphase
      cases hs
      exact h.toKept.generated hrun (by rw [hphase]; rfl) hphase
    · cases hs
  | installed ok left =>
    simp only [Addon.advance] at hs
    split at hs
    · rename_i attempt hphase
      cases hs
      exact h.toKept.installed hrun hl hphase
    · cases hs
  | slept now =>
    simp only [Addon.advance] at hs
    split at hs
    · rename_i attempt hphase
      cases hs
      exact h.toKept.retry hrun (by rw [hphase]; rfl)
    · rename_i hphase
      cases hs
      exact h.toKept.restart hrun hphase
    · cases hs
  | leveled ok now =>
    obtain ⟨hphase, rfl⟩ := Option.ite_some_none_eq_some.mp hs
    exact h.toKept.leveled hrun hphase
  | ended rc now =>
    simp only [Addon.advance] at hs
    split at hs
    · rename_i started hphase
      cases hs
      exact h.toKept.ended hrun hphase
    · cases hs
  | renewal live =>
    obtain ⟨-, rfl⟩ := Option.ite_some_none_eq_some.mp hs
    exact h.renewal
  | stop =>
    cases hs
    exact h.toKept.exit

theorem Inv.step (h : Inv booted intact a) (hl : Admits booted intact l)
    (hs : step D a l = some a') : Inv booted intact a' := by
  unfold Addon.step at hs
  split at hs
  · cases hs
    exact h.toKept.boot hl
  · cases hs
  · rename_i r l hr
    exact h.advance hr hl hs

/-- Whatever happens over any number of starts, none of the programs started
but the login sees the password or the code, and go2rtc starts with a
configuration that asks for the credentials of one of these starts, unless a
copy has failed. -/
theorem starts_protected (h : exec (step D) fresh ls = some a) {s : Spawn} (hs : s ∈ a.spawned) :
    (s.process.isAccount = false → Forgotten s.env) ∧
    ∀ config, s.process = .go2rtc config → (∃ left, .installed false left ∈ ls) ∨
      ∃ text o image, config = some text ∧ .boot o image ∈ ls ∧ Protected o text := by
  have hinv (intact : Prop) (hi : ∀ ok left, intact → .installed ok left ∈ ls → ok = true) :
      Inv (fun o => ∃ image, .boot o image ∈ ls) intact a := by
    refine invariant_of (P := fun l => l ∈ ls) (fun b l b' hl hb hstep => ?_) (fun _ hl => hl)
      inv_fresh h
    refine hb.step ?_ hstep
    cases l with
    | boot o image => exact ⟨image, hl⟩
    | installed ok left => exact fun hi' => hi ok left hi' hl
    | _ => trivial
  constructor
  · exact ((hinv False (by simp)).spawned s hs).forgotten
  · intro config hconfig
    by_cases hfail : ∃ left, .installed false left ∈ ls
    · exact .inl hfail
    · right
      have hok : ∀ ok left, True → .installed ok left ∈ ls → ok = true := fun ok left _ hmem => by
        cases ok with
        | true => rfl
        | false => exact absurd ⟨left, hmem⟩ hfail
      obtain ⟨text, htext, o, ⟨image, ho⟩, hw⟩ :=
        ((hinv True hok).spawned s hs).config trivial config hconfig
      exact ⟨text, o, image, htext, ho, hw.protected⟩

def doorOptions (logLevel : Str) (h : logLevel ∈ levels) : Options where
  email := lit "owner@example.com"
  password := lit "secret"
  region := lit "US"
  country := []
  signalingMode := lit "call"
  stationSn := []
  captchaId := []
  captchaAnswer := []
  verificationCode := lit "123456"
  disabledChannels := lit "0, 3"
  go2rtcUsername := lit "eufy"
  go2rtcPassword := lit "0123456789abcdef"
  logLevel
  videoCopy := true
  keepWarm := false
  adaptiveWarmSeconds := some 30
  tokenRefreshHours := some 6
  logLevel_mem := h

def doorImage : Image := ⟨.empty, List.length, true, true⟩

def doorCameras : Str :=
  lit "\x7b\"nvr_sn\":\"T8\",\"cameras\":[\x7b\"channel\":2,\"sn\":\"A\"\x7d," ++
    lit "\x7b\"channel\":3,\"sn\":\"B\"\x7d]\x7d"

/-- A start that discovers two cameras, and one that discovers none. -/
def doorStarts : List Label :=
  [.boot (doorOptions (lit "info") (by decide)) doorImage, .cacheChecked true,
    .discovered 0 [] (some doorCameras), .generated none true, .installed true none,
    .leveled true 0, .ended 1 10, .slept 12, .renewal false, .stop,
    .boot (doorOptions (lit "debug") (by decide)) doorImage, .cacheChecked false, .loggedIn true,
    .discovered 1 [] none, .slept 100, .discovered 1 [] none, .slept 110, .leveled true 110]

/-- A process that is given a configuration. -/
def Process.isConfigured : Process → Bool
  | .go2rtc config => config.isSome
  | _ => false

/-- The second start keeps to the configuration of the first. -/
theorem starts_protected_door : ∃ a s, exec (step noDigits) fresh doorStarts = some a ∧
    a.spawned[12]? = some s ∧ Forgotten s.env ∧
    ∃ text o image, s.process = .go2rtc (some text) ∧ .boot o image ∈ doorStarts ∧
      Protected o text := by
  obtain ⟨a, ha, hany⟩ : ∃ a, exec (step noDigits) fresh doorStarts = some a ∧
      (a.spawned[12]?.any fun s => s.process.isConfigured) = true := by
    apply exec_of_check
    decide +kernel
  obtain ⟨s, hs, hconfigured⟩ := (Option.any_eq_true _ _).mp hany
  obtain ⟨hforgotten, hprotected⟩ := starts_protected ha (List.mem_of_getElem? hs)
  cases hprocess : s.process with
  | go2rtc config =>
    refine ⟨a, s, ha, hs, hforgotten (by rw [hprocess]; rfl), ?_⟩
    rcases hprotected config hprocess with ⟨left, hleft⟩ | ⟨text, o, image, rfl, ho, hp⟩
    · simp [doorStarts] at hleft
    · exact ⟨text, o, image, hprocess, ho, hp⟩
  | _ => simp [hprocess, Process.isConfigured] at hconfigured

end EufyNvr.Addon
