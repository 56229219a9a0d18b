import EufyNvr.Lib.Casing
import EufyNvr.Lib.Partition

/-!
# Regions

The table of hosts of `eufy_cloud.py`, and what it resolves a region to.
-/

namespace EufyNvr.Cloud

variable {T : Casing} {s : Str}

def usPr : Str := lit "us-pr"

def euPr : Str := lit "eu-pr"

def iePr : Str := lit "ie-pr"

/-- The hosts of a service in the three regions. -/
def hosts (us eu ie : String) : List (Str × Str) := [(usPr, lit us), (euPr, lit eu), (iePr, lit ie)]

/-- `DOMAINS` -/
def domains : List (Str × List (Str × Str)) :=
  [(lit "mega", hosts "https://mega-us-pr.eufy.com" "https://mega-eu-pr.eufy.com"
      "https://mega-ie-pr.eufy.com"),
    (lit "passport", hosts "https://app-passport-us-pr.eufy.com"
      "https://app-passport-eu-pr.eufy.com" "https://app-passport-ie-pr.eufy.com"),
    (lit "openapi", hosts "https://app-openapi-us-pr.eufy.com"
      "https://app-openapi-eu-pr.eufy.com" "https://app-openapi-ie-pr.eufy.com"),
    (lit "push", hosts "https://app-push-us-pr.eufy.com" "https://app-push-eu-pr.eufy.com"
      "https://app-push-ie-pr.eufy.com"),
    (lit "security", hosts "https://security-app.eufylife.com"
      "https://security-app-eu.eufylife.com" "https://security-app-ie.eufylife.com"),
    (lit "smart", hosts "https://security-smart.eufylife.com"
      "https://security-smart-eu.eufylife.com" "https://security-smart-ie.eufylife.com")]

/-- `DOMAINS.get(service, {})` -/
def table (service : Str) : List (Str × Str) := (domains.lookup service).getD []

def passport : Str := lit "passport"

def smart : Str := lit "smart"

section

variable (T)

def normalizeRegion (region : Str) : Str :=
  let normalized := T.lowered (strip (if region.isEmpty then usPr else region))
  if lit "-pr" <:+ normalized then normalized else normalized ++ lit "-pr"

def resolveRegion (service region : Str) : Str :=
  let normalized := normalizeRegion T region
  if normalized ∈ (table service).map Prod.fst then normalized
  else if usPr ∈ (table service).map Prod.fst then usPr
  else normalized

def signalingRegion (region : Str) : Str :=
  T.uppered (partition Json.minus (resolveRegion T smart region)).before

def baseUrl (service region : Str) : Str :=
  ((table service).lookup (resolveRegion T service region)).getD []

/-- The addresses of the socket and of the signature. -/
def smartUrls (stationSn region : Str) : Str × Str :=
  let smartBase := (baseUrl T smart region).rdropWhile (· == 47)
  let websocketBase := replaceFirst (lit "https://") (lit "wss://") smartBase
  (websocketBase ++ lit "/v1/rtc/ws/join?reqtype=nvr",
    smartBase ++ lit "/v1/smart/nvr/ws/sign?station_sn=" ++ stationSn)

end

end EufyNvr.Cloud
