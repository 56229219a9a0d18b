import EufyNvr.Basic

/-!
# What the supervisor reads off the engine's log

The limits of `eufy_run.py` with the bounds the module clamps them to, the
`SessionState` of one attempt, and `inspect_log_line`, which updates it from
the markers in a relayed line.
-/

namespace EufyNvr.Supervisor

/-- `max(low, min(value, high))`. -/
def clamp (low high value : Int) : Int := max low (min value high)

/-- The limits after clamping. The time-outs are whole seconds. -/
structure Settings where
  maxAttempts : Nat
  signalTimeout : Int
  firstFrameTimeout : Int
  connectionTimeout : Int
  stallTimeout : Int
  releaseDelay : Int
  maxAttempts_pos : 1 ≤ maxAttempts
  maxAttempts_le : maxAttempts ≤ 6
  signalTimeout_ge : seconds 10 ≤ signalTimeout
  signalTimeout_le : signalTimeout ≤ seconds 120
  firstFrameTimeout_ge : seconds 15 ≤ firstFrameTimeout
  firstFrameTimeout_le : firstFrameTimeout ≤ seconds 180
  connectionTimeout_ge : seconds 10 ≤ connectionTimeout
  connectionTimeout_le : connectionTimeout ≤ seconds 180
  stallTimeout_ge : seconds 10 ≤ stallTimeout
  stallTimeout_le : stallTimeout ≤ seconds 180
  releaseDelay_nonneg : 0 ≤ releaseDelay
  releaseDelay_le : releaseDelay ≤ seconds 5

/-- The module constants, from the numbers in the environment. -/
def Settings.ofEnv (attempts signal firstFrame connection stall : Int) (release : Int) :
    Settings where
  maxAttempts := (clamp 1 6 attempts).toNat
  signalTimeout := seconds (clamp 10 120 signal)
  firstFrameTimeout := seconds (clamp 15 180 firstFrame)
  connectionTimeout := seconds (clamp 10 180 connection)
  stallTimeout := seconds (clamp 10 180 stall)
  releaseDelay := clamp 0 (seconds 5) release
  maxAttempts_pos := by simp only [clamp]; omega
  maxAttempts_le := by simp only [clamp]; omega
  signalTimeout_ge := by simp only [clamp, seconds]; omega
  signalTimeout_le := by simp only [clamp, seconds]; omega
  firstFrameTimeout_ge := by simp only [clamp, seconds]; omega
  firstFrameTimeout_le := by simp only [clamp, seconds]; omega
  connectionTimeout_ge := by simp only [clamp, seconds]; omega
  connectionTimeout_le := by simp only [clamp, seconds]; omega
  stallTimeout_ge := by simp only [clamp, seconds]; omega
  stallTimeout_le := by simp only [clamp, seconds]; omega
  releaseDelay_nonneg := by simp only [clamp, seconds]; omega
  releaseDelay_le := by simp only [clamp, seconds]; omega

/-- The limits of an empty environment. -/
def Settings.default : Settings := .ofEnv 3 25 50 35 25 (seconds 1)

structure SessionState where
  startedAt : Int
  lastProgress : Int
  sdpSeen : Bool
  datachannelSeen : Bool
  firstVideoAt : Option Int
  lastVideoAt : Option Int
  turnPending : Bool
  authorizationRejection : Bool
  busyRejection : Bool
  deriving DecidableEq

def SessionState.start (now : Int) : SessionState :=
  ⟨now, now, false, false, none, none, false, false, false⟩

/-- `marker in line`. -/
def mentions (line marker : String) : Bool := marker.toList <:+: line.toList

def turnMarker : String := "scall/turn status 100"
def acceptedMarker : String := "scall/turn status 200"
def busyMarker : String := "scall/turn status 486"
def offerMarker : String := "NVR SDP offer received"
def channelMarker : String := "DC open: WebrtcDataChannel"
def firstVideoMarker : String := "VIDEO #"
def videoProgressMarker : String := "VIDEO_PROGRESS"
def authorizationMarker : String := "EUFY_AUTHORIZATION_ERROR_-104"

/-- The signaling part of `inspect_log_line`. -/
def inspectStatus (now : Int) (line : String) (s : SessionState) : SessionState :=
  if mentions line turnMarker then { s with turnPending := true, lastProgress := now }
  else if mentions line acceptedMarker then { s with turnPending := false, lastProgress := now }
  else if mentions line busyMarker then
    { s with turnPending := false, busyRejection := true, lastProgress := now }
  else s

def inspectOffer (now : Int) (line : String) (s : SessionState) : SessionState :=
  if mentions line offerMarker then { s with sdpSeen := true, lastProgress := now } else s

def inspectChannel (now : Int) (line : String) (s : SessionState) : SessionState :=
  if mentions line channelMarker then { s with datachannelSeen := true, lastProgress := now }
  else s

def inspectVideo (now : Int) (line : String) (s : SessionState) : SessionState :=
  if mentions line firstVideoMarker || mentions line videoProgressMarker then
    { s with
      firstVideoAt := s.firstVideoAt.or (some now), lastVideoAt := some now, lastProgress := now }
  else s

def inspectAuthorization (line : String) (s : SessionState) : SessionState :=
  if mentions line authorizationMarker then { s with authorizationRejection := true } else s

/-- `inspect_log_line`; the mode does not matter to it. -/
def inspectLogLine (now : Int) (line : String) (s : SessionState) : SessionState :=
  inspectAuthorization line <| inspectVideo now line <| inspectChannel now line <|
    inspectOffer now line <| inspectStatus now line s

-- ---------------------------------------------------------------------------
-- What a line changes
-- ---------------------------------------------------------------------------

section
variable (now : Int) (line : String) (s : SessionState)

/-- A line is a busy report if it is not read as a pending or an accepted
call. -/
def reportsBusy : Bool :=
  mentions line busyMarker && !mentions line turnMarker && !mentions line acceptedMarker

def reportsStatus : Bool :=
  mentions line turnMarker || mentions line acceptedMarker || mentions line busyMarker

def bearsVideo : Bool := mentions line firstVideoMarker || mentions line videoProgressMarker

/-- A line for which `last_progress` is set. -/
def bearsProgress : Bool :=
  reportsStatus line || mentions line offerMarker || mentions line channelMarker ||
    bearsVideo line

theorem inspectStatus_eq : inspectStatus now line s = { s with
    turnPending := (inspectStatus now line s).turnPending
    busyRejection := s.busyRejection || reportsBusy line
    lastProgress := if reportsStatus line then now else s.lastProgress } := by
  unfold inspectStatus reportsBusy reportsStatus
  cases mentions line turnMarker <;> cases mentions line acceptedMarker <;>
    cases mentions line busyMarker <;> simp

theorem inspectOffer_eq : inspectOffer now line s = { s with
    sdpSeen := s.sdpSeen || mentions line offerMarker
    lastProgress := if mentions line offerMarker then now else s.lastProgress } := by
  unfold inspectOffer
  cases mentions line offerMarker <;> simp

theorem inspectChannel_eq : inspectChannel now line s = { s with
    datachannelSeen := s.datachannelSeen || mentions line channelMarker
    lastProgress := if mentions line channelMarker then now else s.lastProgress } := by
  unfold inspectChannel
  cases mentions line channelMarker <;> simp

theorem inspectVideo_eq : inspectVideo now line s = { s with
    firstVideoAt := if bearsVideo line then s.firstVideoAt.or (some now) else s.firstVideoAt
    lastVideoAt := if bearsVideo line then some now else s.lastVideoAt
    lastProgress := if bearsVideo line then now else s.lastProgress } := by
  unfold inspectVideo bearsVideo
  cases mentions line firstVideoMarker || mentions line videoProgressMarker <;> simp

theorem inspectAuthorization_eq : inspectAuthorization line s = { s with
    authorizationRejection := s.authorizationRejection || mentions line authorizationMarker } := by
  unfold inspectAuthorization
  cases mentions line authorizationMarker <;> simp

/-- What a line does to the session. -/
theorem inspectLogLine_eq : inspectLogLine now line s = {
    startedAt := s.startedAt
    lastProgress := if bearsProgress line then now else s.lastProgress
    sdpSeen := s.sdpSeen || mentions line offerMarker
    datachannelSeen := s.datachannelSeen || mentions line channelMarker
    firstVideoAt := if bearsVideo line then s.firstVideoAt.or (some now) else s.firstVideoAt
    lastVideoAt := if bearsVideo line then some now else s.lastVideoAt
    turnPending := (inspectStatus now line s).turnPending
    authorizationRejection := s.authorizationRejection || mentions line authorizationMarker
    busyRejection := s.busyRejection || reportsBusy line } := by
  have hprogress : ∀ a b c d : Bool, (if d then now else if c then now else if b then now
      else if a then now else s.lastProgress) =
      if a || b || c || d then now else s.lastProgress := by
    intro a b c d
    cases a <;> cases b <;> cases c <;> cases d <;> rfl
  simp only [inspectLogLine, inspectAuthorization_eq, inspectVideo_eq, inspectChannel_eq,
    inspectOffer_eq, bearsProgress]
  rw [inspectStatus_eq]
  simp only [hprogress]
  rfl

theorem inspectLogLine_authorization : (inspectLogLine now line s).authorizationRejection =
    (s.authorizationRejection || mentions line authorizationMarker) := by
  rw [inspectLogLine_eq]

theorem inspectLogLine_busy :
    (inspectLogLine now line s).busyRejection = (s.busyRejection || reportsBusy line) := by
  rw [inspectLogLine_eq]

end

end EufyNvr.Supervisor
