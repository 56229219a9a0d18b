import EufyNvr.Lib.Ipv6
import EufyNvr.Lib.Values
import EufyNvr.Lib.Words

/-!
# Signaling messages

What `parse_msg` and the branches of `handle` read of a message from the
signaling socket, the offers in it, and the address of a candidate. The SDP text
of a compact offer is not built: an offer is the values that go into it.
-/

namespace EufyNvr.Stream

open Json

-- ---------------------------------------------------------------------------
-- Messages
-- ---------------------------------------------------------------------------

/-- `value.get("data")`, decoded where it is a text that can be. -/
def decoded (ms : List (Str × Json)) : Json :=
  match get? ms (lit "data") with
  | some (.str text) => (loads text).getD (.str text)
  | some v => v
  | none => .null

/-- `parse_msg`, which raises for `none`. -/
def parseMsg (raw : Str) : Option (Json × Json) :=
  match loads raw with
  | some (.obj outer) =>
    let inner := decoded outer
    match inner with
    | .obj ms => some (inner, decoded ms)
    | _ => some (inner, .null)
  | _ => none

/-- The branches of `handle`. The `value` of an offer or a candidate may be
missing. -/
inductive Message
  | joinAck
  | status (code : Json)
  | sdp (value : Option Json)
  | candidate (value : Option Json)
  | other

def hasText (ms : List (Str × Json)) (key text : Str) : Bool :=
  decide (get? ms key = some (.str text))

def messageOf (inner d : Json) : Message :=
  match inner with
  | .obj ms =>
    if (get? ms (lit "action")).any (equals 1) then .joinAck
    else if (get? ms (lit "action")).any (equals 3) then
      match d with
      | .obj ds =>
        match (if hasText ms (lit "dataType") (lit "call") ∨ hasText ms (lit "dataType") (lit "scall")
          then get? ds (lit "status") else none) with
        | some code => .status code
        | none =>
          if hasText ds (lit "format") (lit "SDP") then .sdp (get? ds (lit "value"))
          else if hasText ds (lit "format") (lit "CANDIDATE") then
            .candidate (get? ds (lit "value"))
          else .other
      | _ => .other
    else .other
  | _ => .other

-- ---------------------------------------------------------------------------
-- Offers
-- ---------------------------------------------------------------------------

/-- A remote description: what `build_offer_sdp` puts into its text, or the
text that was received. -/
inductive Offer
  | compact (ufrag pwd fingerprint setup : Json)
  | native (sdp : Str)
  deriving DecidableEq

/-- Whether `colonize` returns. -/
def colonizes : Json → Bool
  | .str _ | .arr [] | .obj [] => true
  | _ => false

/-- `build_offer_sdp`, which raises for `none`. -/
def buildOfferSdp (ice : List (Str × Json)) (setup : Json) : Option Offer := do
  let ufrag ← get? ice (lit "ufrag")
  let pwd ← get? ice (lit "pwd")
  let fingerprint ← get? ice (lit "fingerprint")
  if colonizes fingerprint then some (.compact ufrag pwd fingerprint setup) else none

/-- What `handle` makes of the value of an SDP message. -/
inductive OfferResult
  | raises
  | invalid
  | valid (offer : Offer)
  deriving DecidableEq

def offerOf (val : Json) : OfferResult :=
  let compact := match val with
    | .str text => loads text
    | v => some v
  match compact with
  | some (.obj ms) =>
    match get? ms (lit "ice") with
    | some (.obj ice) =>
      match buildOfferSdp ice ((get? ms (lit "setup")).getD (.str (lit "actpass"))) with
      | some offer => .valid offer
      | none => .raises
    | _ => native val
  | _ => native val
where
  native : Json → OfferResult
    | .str text =>
      if (lit "v=0").isPrefixOf (text.dropWhile isSpace) then .valid (.native text) else .invalid
    | _ => .invalid

-- ---------------------------------------------------------------------------
-- Candidates
-- ---------------------------------------------------------------------------

/-- `is_private` -/
def isPrivate (a b c d : Nat) : Bool :=
  a = 0 || a = 10 || a = 127 || (a = 169 && b = 254) || (a = 172 && 16 ≤ b && b ≤ 31) ||
    (a = 192 && b = 0 && c = 0 && d ≠ 9 && d ≠ 10) || (a = 192 && b = 0 && c = 2) ||
    (a = 192 && b = 168) || (a = 198 && 18 ≤ b && b ≤ 19) || (a = 198 && b = 51 && c = 100) ||
    (a = 203 && b = 0 && c = 113) || 240 ≤ a

/-- `_lan_ipv4`: private, and neither `is_loopback` nor `is_link_local`. -/
def lanIpv4 (ip : Str) : Bool :=
  match Ipv4.parse ip with
  | some [a, b, c, d] => isPrivate a b c d && !(a = 127) && !(a = 169 && b = 254)
  | _ => false

/-- The private address of a host candidate. -/
def lanHost : Json → Option Str
  | .str cand =>
    match words cand with
    | _ :: _ :: _ :: _ :: address :: _ :: typ :: kind :: _ =>
      if typ = lit "typ" ∧ kind = lit "host" ∧ lanIpv4 address then some address else none
    | _ => none
  | _ => none

example : lanHost (.str (lit "candidate:1 1 udp 2130706431 192.168.1.152 50000 typ host")) =
    some (lit "192.168.1.152") := by decide +kernel

end EufyNvr.Stream
