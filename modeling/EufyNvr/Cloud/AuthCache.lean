import EufyNvr.Cloud.Provisional
import EufyNvr.Cloud.Region
import EufyNvr.Lib.JsonRoundTrip
import EufyNvr.Lib.Words

/-!
# The auth cache

`auth_login.py`: what `main` reads from the environment, the file that it
writes after a login, and `cache_matches`. The hash is a parameter.
-/

namespace EufyNvr.Cloud

open Json Hex

/-- The variables that name an account. -/
structure Account where
  eufyEmail : Option Str
  eufyRegion : Option Str
  eufyCountry : Option Str

/-- `os.environ.get(_) or other` -/
def envOr (value : Option Str) (other : Str) : Str :=
  match value with
  | none | some [] => other
  | some s => s

/-- `REGION_MAP` -/
def regionMap : List (Str × Str) := [(lit "US", usPr), (lit "EU", euPr), (lit "IE", iePr)]

section

variable (T : Casing) (sha256 : Bytes → Bytes)

namespace Account

variable (a : Account)

def email : Str := strip (a.eufyEmail.getD [])

def regionOpt : Str := T.uppered (strip (envOr a.eufyRegion (lit "US")))

def region : Str := (regionMap.lookup (a.regionOpt T)).getD usPr

def country : Str := T.uppered (strip (envOr a.eufyCountry (a.regionOpt T)))

end Account

/-- The text of which the hash is taken. -/
def identity (email region country : Str) : Str :=
  [0].intercalate [T.folded (strip email), region, T.uppered country]

/-- It raises for `none`. -/
def accountFingerprint (email region country : Str) : Option Str :=
  (Utf8.encode (identity T email region country)).map fun b => hex (sha256 b)

/-- `hmac.compare_digest` of two texts. -/
def compareDigest (a b : Str) : Option Bool := if Ascii a ∧ Ascii b then some (a == b) else none

def cacheVersion : Nat := 1

/-- `cache_matches`, where a file that cannot be opened has no content. It
raises for `none`. -/
def cacheMatches (content : Option Bytes) (email region country : Str) : Option Bool :=
  match (content.bind Utf8.decode).bind fun text => loads (newlines text) with
  | some (.obj cached) =>
    let actual := (get? cached (lit "accountFingerprint")).getD (.str [])
    if equals cacheVersion (getD cached "cacheVersion") && truthy (getD cached "authToken") &&
        truthy (getD cached "stationSn") then
      match actual with
      | .str actual =>
        (accountFingerprint T sha256 email region country).bind fun expected =>
          compareDigest actual expected
      | _ => some false
    else some false
  | _ => some false

/-- How `main` ends without an argument. -/
inductive Ending
  | missingCredentials
  /-- With `.raised` it may also be another exception. -/
  | loginFailed (e : LoginError)
  | noStation
  /-- The account has no fingerprint. -/
  | unencodable
  | refreshed (content : Bytes)

/-- What is written to `auth.json`. -/
def authFile (session : Session) (stationSn : Json) (region country fingerprint : Str) : Json :=
  .obj [(lit "authToken", session.authToken), (lit "gtoken", session.gtoken),
    (lit "userId", session.userId), (lit "stationSn", stationSn), (lit "region", .str region),
    (lit "webCountry", .str country), (lit "appName", .str appName),
    (lit "cacheVersion", .int cacheVersion), (lit "accountFingerprint", .str fingerprint)]

/-- `main` without an argument. `found` is what it finds in the list of the
stations: the empty text where the lookup raises. -/
def main (a : Account) (password : Str) (eufyStationSn : Option Str) (login : Result)
    (found : Json) : Ending :=
  if a.email.isEmpty || password.isEmpty then .missingCredentials
  else
    match login with
    | .error e => .loginFailed e
    | .ok session =>
      let explicit := strip (eufyStationSn.getD [])
      let stationSn := if explicit.isEmpty then found else .str explicit
      if !truthy stationSn then .noStation
      else
        match accountFingerprint T sha256 a.email (a.region T) (a.country T) with
        | none => .unencodable
        | some fingerprint =>
          match Utf8.encode (dumps spaced
            (authFile session stationSn (a.region T) (a.country T) fingerprint)) with
          | none => .unencodable
          | some content => .refreshed content

end

end EufyNvr.Cloud
