import EufyNvr.Generator.Credentials
import EufyNvr.Generator.Publication
import EufyNvr.Lib.Partition
import EufyNvr.Stream.Arguments

/-!
# The generator from its environment

`main` of `gen_go2rtc.py`: what it takes from the environment, and the call
of `generate` that it makes with it. The paths are compared as they are
written. What it prints at the end is left out.
-/

namespace EufyNvr

/-- The exported variables of a process. -/
abbrev Env := Dict Str Str

namespace Generator

open Json
open EufyNvr.Stream (Digits toInt)

variable {D : Digits} {env : Env} {root : Str} {manifest : Option Str} {call : Call}
  {fault : Option Fault} {disk : Disk} {cs : List Nat} {value : Str}

/-- `os.environ.get(_, _)` -/
def environ (env : Env) (name default : String) : Str := (env.get? (lit name)).getD (lit default)

def integer (D : Digits) (env : Env) (name default : String) : Checked Int :=
  match toInt D (environ env name default) with
  | some n => .ok n
  | none => reject "invalid literal for int() with base 10"

/-- One part of a list of channels. -/
def disabledChannel (part : Str) : Option Nat :=
  let token := EufyNvr.strip part
  -- `int` takes no more than 4300 digits.
  if Ascii token ∧ token ≠ [] ∧ token.all isDigit = true ∧ token.length ≤ 4300 ∧
      digitsValue token ≤ 255 then
    some (digitsValue token)
  else none

/-- `parse_disabled_channels` -/
def parseDisabledChannels (value : Str) : Checked (List Nat) :=
  if (EufyNvr.strip value).isEmpty then .ok []
  else
    match (value.splitOn comma).mapM disabledChannel with
    | some channels => .ok channels
    | none =>
      reject "disabled_channels must be comma-separated channel numbers from 0 to 255"

/-- `with_name` -/
def sibling (path name : Str) : Str :=
  (rpartition 47 path).before ++ (rpartition 47 path).separator ++ name

/-- The files of the manifest, the registry and the configuration. -/
def paths (root : Str) (env : Env) : List Str :=
  let manifestPath := (env.get? (lit "EUFY_CAMERAS")).getD (root ++ lit "/cameras.json")
  [manifestPath,
    (env.get? (lit "EUFY_STREAM_NAMES")).getD (sibling manifestPath (lit "stream_names.json")),
    root ++ lit "/go2rtc.yaml"]

/-- The call that `main` makes. The first number is read when the module is
loaded. -/
def callOf (D : Digits) (root : Str) (env : Env) (manifest : Option Str) : Checked Call := do
  let startTimeout ← integer D env "EUFY_STREAM_START_TIMEOUT" "90"
  let apiPort ← integer D env "GO2RTC_API_PORT" "1984"
  let rtspPort ← integer D env "GO2RTC_RTSP_PORT" "8554"
  let webrtcPort ← integer D env "GO2RTC_WEBRTC_PORT" "8555"
  let username := environ env "GO2RTC_USERNAME" ""
  let password := environ env "GO2RTC_PASSWORD" ""
  let disabledChannels ← parseDisabledChannels (environ env "EUFY_DISABLED_CHANNELS" "")
  return { differentPaths := (paths root env).Nodup, manifest, username, password, apiPort,
           rtspPort, webrtcPort, startTimeout, disabledChannels }

/-- `main`, which returns 0 where the result is one. -/
def main (D : Digits) (root : Str) (env : Env) (manifest : Option Str) (fault : Option Fault)
    (disk : Disk) : Outcome :=
  match callOf D root env manifest with
  | .ok call => generate call fault disk
  | .error e => ⟨disk, [], .error e⟩

-- ---------------------------------------------------------------------------
-- What the environment decides
-- ---------------------------------------------------------------------------

theorem callOf_ok (h : callOf D root env manifest = .ok call) :
    call.username = environ env "GO2RTC_USERNAME" "" ∧
      call.password = environ env "GO2RTC_PASSWORD" "" ∧
      parseDisabledChannels (environ env "EUFY_DISABLED_CHANNELS" "") =
        .ok call.disabledChannels := by
  obtain ⟨timeout, -, h⟩ := bind_ok.mp h
  obtain ⟨api, -, h⟩ := bind_ok.mp h
  obtain ⟨rtsp, -, h⟩ := bind_ok.mp h
  obtain ⟨webrtc, -, h⟩ := bind_ok.mp h
  obtain ⟨disabled, hdisabled, h⟩ := bind_ok.mp h
  cases h
  exact ⟨rfl, rfl, hdisabled⟩

/-- A configuration comes from a call with what the environment says. -/
theorem main_ok {named : List (Str × Camera)}
    (h : (main D root env manifest fault disk).result = .ok named) :
    ∃ call p, callOf D root env manifest = .ok call ∧ prepare call disk = .ok p ∧
      (main D root env manifest fault disk).disk = ⟨some p.registry, some p.config⟩ := by
  unfold main at h ⊢
  split at h
  · rename_i call hcall
    obtain ⟨p, hp, -, hdisk⟩ := generate_ok h
    exact ⟨call, p, hcall, hp, hdisk⟩
  · cases h

theorem validateCredentials_length {username password : Str} {credentials : Str × Str}
    (h : validateCredentials username password = .ok credentials) : 16 ≤ password.length := by
  unfold validateCredentials at h
  split at h
  · cases h
  · split at h
    · cases h
    · rename_i hlen
      exact (not_not.mp hlen).1

theorem renderConfig_length {named : List (Str × Camera)} {username password config : Str}
    {api rtsp webrtc timeout : Int}
    (h : renderConfig named username password api rtsp webrtc timeout = .ok config) :
    16 ≤ password.length := by
  obtain ⟨api', -, h⟩ := bind_ok.mp h
  obtain ⟨rtsp', -, h⟩ := bind_ok.mp h
  obtain ⟨webrtc', -, h⟩ := bind_ok.mp h
  split at h
  · cases h
  · split at h
    · cases h
    · obtain ⟨credentials, hcredentials, -⟩ := bind_ok.mp h
      exact validateCredentials_length hcredentials

/-- What is prepared has been rendered. -/
theorem prepare_renders {p : Prepared} (h : prepare call disk = .ok p) :
    renderConfig p.enabled call.username call.password call.apiPort call.rtspPort call.webrtcPort
      call.startTimeout = .ok p.config := by
  unfold prepare at h
  split at h
  · cases h
  · obtain ⟨text, -, h⟩ := bind_ok.mp h
    obtain ⟨value, -, h⟩ := bind_ok.mp h
    obtain ⟨m, -, h⟩ := bind_ok.mp h
    obtain ⟨previous, -, h⟩ := bind_ok.mp h
    obtain ⟨config, hconfig, h⟩ := bind_ok.mp h
    cases h
    exact hconfig

end Generator

end EufyNvr
