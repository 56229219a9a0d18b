import EufyNvr.Lib.Except
import EufyNvr.Stream.Message
import EufyNvr.Lib.Machine

/-!
# The signaling handler

`handle` and `add_cand` of `eufy_stream.py`, and the loop that hands them one
message after the other. What they await is recorded, once it has returned.
The peer says which of it raises instead, at any point of a run. An
exception leaves the loop.
-/

namespace EufyNvr.Stream

namespace Signaling

/-- What has returned: the requests and the texts that were sent, the steps on the
peer connection, and the calls of `add_cand`. -/
inductive Event
  | call
  | ack
  | remoteDescription (offer : Offer)
  | channels
  | localDescription
  | sdp
  | candidate (cand : Str)
  | addCand (cand : Json)
  | closed
  deriving DecidableEq

structure Peer where
  /-- Whether an await raises, given all that has returned before. -/
  raises : List Event → Event → Bool
  /-- The candidates of the local description. -/
  candidates : List Str

structure Session where
  answered : Bool
  remoteDescription : Option Offer
  pending : List Json
  nvrIp : Option Str
  fatalReason : Option String
  trace : List Event
  /-- The loop has been left. -/
  ended : Bool
  deriving DecidableEq

def init : Session := ⟨false, none, [], none, none, [], false⟩

def perform (peer : Peer) (s : Session) (e : Event) : Except Session Session :=
  if peer.raises s.trace e then .error s else .ok { s with trace := s.trace ++ [e] }

/-- `add_cand`. It catches what the peer connection makes of the candidate. -/
def addCand (s : Session) (cand : Json) : Session :=
  { s with nvrIp := s.nvrIp.or (lanHost cand), trace := s.trace ++ [.addCand cand] }

/-- The first offer. -/
def answer (peer : Peer) (s : Session) (offer : Offer) : Except Session Session := do
  let s := { s with answered := true }
  let s ← perform peer s (.remoteDescription offer)
  let s := { s with remoteDescription := some offer }
  let s ← perform peer s .channels
  let s ← perform peer s .localDescription
  let s ← perform peer s .sdp
  let s ← peer.candidates.foldlM (fun s cand => perform peer s (.candidate cand)) s
  let s := s.pending.foldl addCand s
  return { s with pending := [] }

def handleSdp (peer : Peer) (s : Session) : Option Json → Except Session Session
  | none => .error s
  | some val =>
    match offerOf val with
    | .raises => .error s
    | .invalid => perform peer { s with fatalReason := some "invalid SDP offer" } .closed
    | .valid offer => if s.answered then .ok s else answer peer s offer

def handleCandidate (s : Session) : Option Json → Except Session Session
  | none => .error s
  | some cand =>
    if !s.answered || s.remoteDescription.isNone then .ok { s with pending := s.pending ++ [cand] }
    else .ok (addCand s cand)

def handle (peer : Peer) (s : Session) (raw : Str) : Except Session Session :=
  match parseMsg raw with
  | none => .error s
  | some (inner, d) =>
    match messageOf inner d with
    | .joinAck => perform peer s .call
    | .status code => if Json.equals 200 code then perform peer s .ack else .ok s
    | .sdp value => handleSdp peer s value
    | .candidate value => handleCandidate s value
    | .other => .ok s

/-- The session once a message has been handled, or an exception has left the loop. -/
def settle : Except Session Session → Session
  | .ok s => s
  | .error s => { s with ended := true }

/-- The loop takes one message. -/
def step (peer : Peer) (s : Session) (raw : Str) : Option Session :=
  if s.ended then none else some (settle (handle peer s raw))

end Signaling

end EufyNvr.Stream
