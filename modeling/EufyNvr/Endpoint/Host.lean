import EufyNvr.Lib.Idna
import EufyNvr.Lib.Percent
import EufyNvr.Lib.Url

/-!
# Endpoints

The checks and the URLs of `go2rtc_api.py`. Whether an IPv4 address within an
IPv6 one is written as such depends on the release of the language (`mixed`).
-/

namespace EufyNvr.Endpoint

open Json Url

variable {U : Unicode} {mixed : Bool} {value raw host username password : Str} {port : Int}

/-- Why a check fails. -/
inductive Failure
  | invalid (message : String)
  /-- The `ValueError` of a library function. -/
  | library
  /-- A surrogate has no bytes. -/
  | encoding
  deriving DecidableEq

abbrev Checked (α : Type) := Except Failure α

def reject {α : Type} (message : String) : Checked α := .error (.invalid message)

def validatePort (port : Int) : Checked Int :=
  if 1 ≤ port ∧ port ≤ 65535 then .ok port
  else reject "port must be an integer between 1 and 65535"

def isControl (c : Nat) : Bool := decide (c < 32) || c == 127

def validateCredentials (username password : Str) : Checked (Str × Str) :=
  if ¬ (1 ≤ username.length ∧ username.length ≤ 64) then
    reject "username must be 1 to 64 characters"
  else if ¬ (16 ≤ password.length ∧ password.length ≤ 256) then
    reject "password must be 16 to 256 characters"
  else if (username ++ password).any isControl then
    reject "credentials cannot contain control characters"
  else .ok (username, password)

-- ---------------------------------------------------------------------------
-- `normalize_host`
-- ---------------------------------------------------------------------------

/-- The host of a URL that has nothing else. -/
def urlHostname (U : Unicode) (raw : Str) : Checked Str :=
  let bare := reject "enter a host or a bare http://host URL without a port or path"
  match urlsplit U raw with
  | none => .error .library
  | some parsed =>
    match parsed.hostname U with
    | none => bare
    | some hostname =>
      if parsed.scheme ≠ lit "http" ∨ parsed.username.getD [] ≠ [] ∨ parsed.password.getD [] ≠ []
      then bare
      else
        match parsed.port with
        | none => .error .library
        | some port =>
          if port ≠ none ∨ parsed.path ∉ [[], lit "/"] ∨ parsed.query ≠ [] ∨ parsed.fragment ≠ []
          then bare
          else .ok (replaceFirst (lit "%25") (lit "%") hostname)

def rawHost (U : Unicode) (raw : Str) : Checked Str :=
  if lit "://" <:+: raw then urlHostname U raw
  else if raw.head? = some lbracket ∧ raw.getLast? = some rbracket then .ok raw.tail.dropLast
  else if raw.any (lit "/?#@").contains then
    reject "host cannot contain a path, query, or credentials"
  else if raw.count colon = 1 then reject "enter the API port in the separate port field"
  else .ok raw

/-- `[A-Za-z0-9_.-]` -/
def isScopeChar (c : Nat) : Bool := isAlpha c || isDigit c || c == 95 || c == point || c == 45

def isLabelEnd (c : Nat) : Bool := isDigit c || decide (97 ≤ c ∧ c ≤ 122)

/-- `[a-z0-9](?:[a-z0-9-]{0,61}[a-z0-9])?` -/
def isLabel (s : Str) : Bool :=
  s.head?.any isLabelEnd && s.getLast?.any isLabelEnd && decide (s.length ≤ 63) &&
    s.all fun c => isLabelEnd c || c == 45

def canonicalAddress (mixed : Bool) (raw : Str) : Checked Str :=
  let p := partition percent raw
  -- The error about the scope is caught and raised as this one.
  if p.separator ≠ [] ∧ (p.after = [] ∨ ¬ p.after.all isScopeChar) then
    reject "invalid IPv6 address"
  else
    match Ipv6.compressed mixed p.before with
    | none => reject "invalid IPv6 address"
    | some address => .ok (address ++ (p.separator ++ p.after))

def canonicalName (U : Unicode) (raw : Str) : Checked Str :=
  match (Idna.encode U (raw.rdropWhile (· == point))).bind Idna.decodeAscii with
  | none => reject "invalid host"
  | some encoded =>
    let name := U.lowered encoded
    if name = [] ∨ 253 < name.length ∨ ¬ (name.splitOn point).all isLabel then
      reject "invalid host"
    else .ok name

def canonical (mixed : Bool) (U : Unicode) (raw : Str) : Checked Str :=
  if colon ∈ raw then canonicalAddress mixed raw else canonicalName U raw

def normalizeHost (mixed : Bool) (U : Unicode) (value : Str) : Checked Str :=
  if value.any isControl then reject "host cannot contain control characters"
  else if strip value = [] then reject "host is required"
  else rawHost U (strip value) >>= canonical mixed U

-- ---------------------------------------------------------------------------
-- The other URLs
-- ---------------------------------------------------------------------------

def hostFromInternalUrl (mixed : Bool) (U : Unicode) (value : Option Str) : Option Str :=
  match value with
  | none | some [] => none
  | some value =>
    match urlsplit U value with
    | none => none
    | some parsed =>
      match parsed.hostname U with
      | none => none
      | some hostname =>
        if parsed.scheme ∉ [lit "http", lit "https"] ∨ parsed.username.getD [] ≠ [] ∨
            parsed.password.getD [] ≠ [] then none
        else (normalizeHost mixed U hostname).toOption

/-- `_url_host` -/
def urlHost (mixed : Bool) (U : Unicode) (host : Str) : Checked Str := do
  let normalized ← normalizeHost mixed U host
  if colon ∈ normalized then
    return lbracket :: (replaceFirst (lit "%") (lit "%25") normalized ++ [rbracket])
  else return normalized

def apiBaseUrl (mixed : Bool) (U : Unicode) (host : Str) (port : Int) : Checked Str := do
  let host ← urlHost mixed U host
  let port ← validatePort port
  return lit "http://" ++ (host ++ colon :: intText port)

/-- `quote` -/
def quote (s safe : Str) : Checked Str := (Percent.quote safe s).elim (.error .encoding) .ok

def rtspUrl (mixed : Bool) (U : Unicode) (host : Str) (port : Int)
    (stream username password : Str) : Checked Str := do
  let (username, password) ← validateCredentials username password
  let username ← quote username []
  let password ← quote password []
  let host ← urlHost mixed U host
  let port ← validatePort port
  let stream ← quote stream (lit "_-")
  return lit "rtsp://" ++ (username ++ colon :: (password ++ atSign :: (host ++ colon ::
    (intText port ++ slash :: stream))))

end EufyNvr.Endpoint
