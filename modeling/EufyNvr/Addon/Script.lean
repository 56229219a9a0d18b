import EufyNvr.Generator.Main
import EufyNvr.Supervisor.Session

/-!
# The add-on

`run.sh`: it logs in, discovers the cameras, generates a configuration and
keeps go2rtc running with it. A start is the script from its beginning, with
the options of the add-on at that time; the files under `/data` outlast it.
A label says how what the script waits for has ended.

The programs that only read an option, print, sleep, or copy or change a file
are not among those whose environment is recorded.
-/

namespace EufyNvr.Addon

open Json

/-- `int`, beyond ASCII. -/
abbrev Digits := EufyNvr.Stream.Digits

-- ---------------------------------------------------------------------------
-- Options
-- ---------------------------------------------------------------------------

/-- The log levels that the schema admits. -/
def levels : List Str :=
  [lit "trace", lit "debug", lit "info", lit "notice", lit "warning", lit "error", lit "fatal"]

/-- What `bashio::config` reads: empty where there is no value, and the
default where the script gives one. -/
structure Options where
  email : Str
  password : Str
  region : Str
  country : Str
  signalingMode : Str
  stationSn : Str
  captchaId : Str
  captchaAnswer : Str
  verificationCode : Str
  disabledChannels : Str
  go2rtcUsername : Str
  go2rtcPassword : Str
  logLevel : Str
  videoCopy : Bool
  keepWarm : Bool
  /-- None where `[` cannot compare it. -/
  adaptiveWarmSeconds : Option Int
  tokenRefreshHours : Option Int
  logLevel_mem : logLevel ∈ levels

/-- What a start finds in its container. -/
structure Image where
  environ : Env
  /-- `${#_}`, which counts characters or bytes. -/
  lengthOf : Str → Nat
  hasWorker : Bool
  hasGo2rtc : Bool

def passwordKey : Str := lit "EUFY_PASSWORD"

def codeKey : Str := lit "EUFY_VERIFICATION_CODE"

/-- What is exported before the first program starts. -/
def Options.exports (o : Options) : List (Str × Str) :=
  [(lit "GO2RTC_API_PORT", lit "1985"), (lit "GO2RTC_RTSP_PORT", lit "8556"),
    (lit "GO2RTC_WEBRTC_PORT", lit "8557"), (lit "EUFY_LOG_LEVEL", o.logLevel),
    (lit "EUFY_EMAIL", o.email), (passwordKey, o.password), (lit "EUFY_REGION", o.region),
    (lit "EUFY_CALL_TYPE", o.signalingMode), (lit "EUFY_AUTH", lit "/data/auth.json"),
    (lit "EUFY_CAMERAS", lit "/data/cameras.json"),
    (lit "EUFY_STREAM_NAMES", lit "/data/stream_names.json"),
    (lit "EUFY_DISABLED_CHANNELS", o.disabledChannels),
    (lit "EUFY_SESSION_LOCK", lit "/data/eufy-session.lock"),
    (lit "GO2RTC_USERNAME", o.go2rtcUsername), (lit "GO2RTC_PASSWORD", o.go2rtcPassword)] ++
  [(lit "EUFY_COUNTRY", o.country), (lit "EUFY_STATION_SN", o.stationSn),
    (lit "EUFY_CAPTCHA_ID", o.captchaId), (lit "EUFY_CAPTCHA_ANSWER", o.captchaAnswer),
    (codeKey, o.verificationCode)].filter fun e => e.2 ≠ []

def exported (o : Options) (base : Env) : Env :=
  o.exports.foldl (fun env e => env.set e.1 e.2) base

/-- `start_adaptive_warmer` -/
def Options.warmSeconds (o : Options) : Option Int :=
  (if o.keepWarm then some 300 else o.adaptiveWarmSeconds).bind fun seconds =>
    if 0 < seconds then some (min seconds 600) else none

/-- `start_relogin_timer` -/
def Options.refreshes (o : Options) : Bool :=
  o.tokenRefreshHours.any fun hours => decide (0 < hours)

-- ---------------------------------------------------------------------------
-- State
-- ---------------------------------------------------------------------------

inductive Process
  | checkCache
  | login
  | discover
  | generate
  /-- With the content of the file it is given. -/
  | go2rtc (config : Option Str)
  | warm (seconds : Int)
  deriving DecidableEq

structure Spawn where
  process : Process
  env : Env

/-- What the script waits for. The number is the attempt of
`discover_and_generate`, and none for what is tried after it. -/
inductive Phase
  | checkingCache
  | loggingIn
  | discovering (attempt : Nat)
  | generating (attempt : Option Nat)
  | installing (attempt : Option Nat)
  | pausing (attempt : Nat)
  | leveling
  | serving (started : Int)
  | restarting
  deriving DecidableEq

structure Run where
  options : Options
  image : Image
  env : Env
  phase : Phase
  backoff : Nat

/-- `bridgeConfig` is where the generator writes, `config` what go2rtc is
given. -/
structure Files where
  cameras : Option Str
  registry : Option Str
  bridgeConfig : Option Str
  config : Option Str

end Addon

/-- Between two starts there is no run. -/
structure Addon where
  files : Addon.Files
  run : Option Addon.Run
  /-- What was started, for the record. -/
  spawned : List Addon.Spawn

namespace Addon

inductive Label
  | boot (o : Options) (image : Image)
  | cacheChecked (live : Bool)
  | loggedIn (ok : Bool)
  /-- With what `grep` finds in the log, and what is in `cameras.json` then. -/
  | discovered (rc : Int) (log : List String) (cameras : Option Str)
  /-- `returns` is whether a call that was made in full also prints. -/
  | generated (fault : Option Generator.Fault) (returns : Bool)
  /-- A copy that fails may leave anything. -/
  | installed (ok : Bool) (left : Option Str)
  | slept (now : Int)
  | leveled (ok : Bool) (now : Int)
  | ended (rc : Int) (now : Int)
  /-- The timer of the login, which runs beside go2rtc. -/
  | renewal (live : Bool)
  | stop

/-- A fresh installation. -/
def fresh : Addon := ⟨⟨none, none, none, none⟩, none, []⟩

-- ---------------------------------------------------------------------------
-- Steps
-- ---------------------------------------------------------------------------

def bridgeDir : Str := lit "/opt/eufy/bridge"

def levelKey : Str := lit "  level: "

/-- `s/^  level: .*/  level: .../` on one line. -/
def levelLine (level line : Str) : Str :=
  if levelKey.isPrefixOf line then levelKey ++ level else line

/-- `sed -i` -/
def relevel (level text : Str) : Str :=
  [10].intercalate ((text.splitOn 10).map (levelLine level))

/-- `grep -q 'EUFY_AUTHORIZATION_ERROR_-104'` -/
def rejected (log : List String) : Bool :=
  log.any fun line => Supervisor.mentions line Supervisor.authorizationMarker

/-- `[ -s ... ]` -/
def hasContent (file : Option Str) : Bool := file.any (· ≠ [])

def exit (a : Addon) : Addon := { a with run := none }

def goto (a : Addon) (r : Run) (phase : Phase) : Addon := { a with run := some { r with phase } }

def spawn (a : Addon) (r : Run) (p : Process) : Addon :=
  { a with spawned := a.spawned ++ [⟨p, r.env⟩] }

/-- A program that the script then waits for. -/
def await (a : Addon) (r : Run) (p : Process) (phase : Phase) : Addon := (a.spawn r p).goto r phase

def boot (a : Addon) (o : Options) (image : Image) : Addon :=
  if o.email = [] ∨ o.password = [] ∨ o.go2rtcUsername = [] ∨ o.go2rtcPassword = [] ∨
      image.lengthOf o.go2rtcPassword < 16 then
    a.exit
  else a.await ⟨o, image, exported o image.environ, .checkingCache, 2⟩ .checkCache .checkingCache

def Run.forget (r : Run) : Run := { r with env := (r.env.erase passwordKey).erase codeKey }

def authenticated (a : Addon) (r : Run) : Addon :=
  let r := r.forget
  if r.image.hasWorker ∧ r.image.hasGo2rtc then a.await r .discover (.discovering 1) else a.exit

/-- The `elif` after the discovery has failed. -/
def resort (a : Addon) (r : Run) : Addon :=
  if a.files.config.isSome then a.goto r .leveling else a.exit

/-- After the last attempt. -/
def fallBack (a : Addon) (r : Run) : Addon :=
  if hasContent a.files.cameras then a.await r .generate (.generating none) else a.resort r

def retry (a : Addon) (r : Run) (attempt : Nat) : Addon :=
  if attempt < 2 then a.await r .discover (.discovering (attempt + 1)) else a.fallBack r

def launch (a : Addon) (r : Run) (now : Int) : Addon :=
  a.await r (.go2rtc a.files.config) (.serving now)

/-- After the pause, which gets longer. -/
def restart (a : Addon) (r : Run) (now : Int) : Addon :=
  a.launch { r with backoff := min (r.backoff * 2) 60 } now

/-- The two loops beside go2rtc. -/
def background (a : Addon) (r : Run) : Addon :=
  match r.options.warmSeconds with
  | some seconds => a.spawn r (.warm seconds)
  | none => a

/-- An attempt to discover the cameras has ended. -/
def discovered (a : Addon) (r : Run) (attempt : Nat) (rc : Int) (log : List String)
    (cameras : Option Str) : Addon :=
  let a := { a with files := { a.files with cameras } }
  if rejected log then a.exit
  else if rc = 0 ∧ hasContent cameras then a.await r .generate (.generating (some attempt))
  else a.goto r (.pausing attempt)

/-- `main` of the generator on the files of the add-on. -/
def Files.generate (D : Digits) (f : Files) (env : Env) (fault : Option Generator.Fault) :
    Generator.Outcome :=
  Generator.main D bridgeDir env f.cameras fault ⟨f.registry, f.bridgeConfig⟩

/-- The generator has ended. -/
def generated (D : Digits) (a : Addon) (r : Run) (attempt : Option Nat)
    (fault : Option Generator.Fault) (returns : Bool) : Addon :=
  let o := a.files.generate D r.env fault
  let a := { a with files := { a.files with
    registry := o.disk.registry, bridgeConfig := o.disk.config } }
  if o.result.isOk && returns then a.goto r (.installing attempt)
  else
    match attempt with
    | some attempt => a.goto r (.pausing attempt)
    | none => a.resort r

/-- `install`. Inside `discover_and_generate`, which is called as a condition,
a failure does not end the script. -/
def installed (a : Addon) (r : Run) (attempt : Option Nat) (ok : Bool) (left : Option Str) :
    Addon :=
  let a := { a with files := { a.files with
    config := if ok then a.files.bridgeConfig else left } }
  if ok ∨ attempt.isSome then a.goto r .leveling else a.exit

/-- What the engines are told about the video. -/
def Run.publishing (r : Run) : Run :=
  if r.options.videoCopy then { r with env := r.env.set (lit "EUFY_VIDEO_COPY") (lit "1") } else r

/-- `sed`, and then go2rtc. -/
def leveled (a : Addon) (r : Run) (ok : Bool) (now : Int) : Addon :=
  let a := if ok then { a with files := { a.files with
    config := a.files.config.map (relevel r.options.logLevel) } } else a
  (a.launch r.publishing now).background r.publishing

/-- go2rtc has ended with `rc`. -/
def ended (a : Addon) (r : Run) (started rc now : Int) : Addon :=
  if rc = 0 ∨ rc = 143 then a.exit
  else a.goto { r with backoff := if 60 ≤ now - started then 2 else r.backoff } .restarting

def renewal (a : Addon) (r : Run) (live : Bool) : Addon :=
  let a := a.spawn r .checkCache
  if live then a
  else a.spawn { r with env := r.env.set passwordKey r.options.password } .login

/-- The script is past the login. -/
def Phase.isPast : Phase → Bool
  | .checkingCache | .loggingIn => false
  | _ => true

def Phase.isServing : Phase → Bool
  | .serving _ | .restarting => true
  | _ => false

/-- What happens within a start. -/
def advance (D : Digits) (a : Addon) (r : Run) : Label → Option Addon
  | .boot _ _ => none
  | .cacheChecked live =>
    if r.phase = .checkingCache then
      some (if live then a.authenticated r else a.await r .login .loggingIn)
    else none
  | .loggedIn ok =>
    if r.phase = .loggingIn then some (if ok then a.authenticated r else a.exit) else none
  | .discovered rc log cameras =>
    match r.phase with
    | .discovering attempt => some (a.discovered r attempt rc log cameras)
    | _ => none
  | .generated fault returns =>
    match r.phase with
    | .generating attempt => some (a.generated D r attempt fault returns)
    | _ => none
  | .installed ok left =>
    match r.phase with
    | .installing attempt => some (a.installed r attempt ok left)
    | _ => none
  | .slept now =>
    match r.phase with
    | .pausing attempt => some (a.retry r attempt)
    | .restarting => some (a.restart r now)
    | _ => none
  | .leveled ok now => if r.phase = .leveling then some (a.leveled r ok now) else none
  | .ended rc now =>
    match r.phase with
    | .serving started => some (a.ended r started rc now)
    | _ => none
  | .renewal live =>
    if r.phase.isServing ∧ r.options.refreshes then some (a.renewal r live) else none
  | .stop => some a.exit

def step (D : Digits) (a : Addon) (l : Label) : Option Addon :=
  match a.run, l with
  | none, .boot o image => some (a.boot o image)
  | none, _ => none
  | some r, l => a.advance D r l

end EufyNvr.Addon
