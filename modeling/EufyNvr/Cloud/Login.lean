import EufyNvr.Lib.Dialogue
import EufyNvr.Lib.Hex
import EufyNvr.Lib.Utf8
import EufyNvr.Lib.Values

/-!
# Logging in

`login` of `eufy_cloud.py` with `_send_login_verification_code`, as a
dialogue with the server. An answer is an envelope, or there is none and the
request raises. What is computed outside this file (the digests, the
encrypted password, the public key that goes with it) is a parameter.
-/

namespace EufyNvr.Cloud

open Json Hex Dialogue

-- ---------------------------------------------------------------------------
-- Values
-- ---------------------------------------------------------------------------

/-- `value or other` -/
def orElse (v w : Json) : Json := if truthy v then v else w

/-- `ms.get(key)` -/
def getD (ms : List (Str × Json)) (key : String) : Json := (get? ms (lit key)).getD .null

-- ---------------------------------------------------------------------------
-- Messages
-- ---------------------------------------------------------------------------

/-- The arguments of `encrypted_post`. -/
structure Post where
  path : Str
  body : Json
  authToken : Json
  service : Str
  region : Str
  webCountry : Str
  headers : List (Str × Json)

inductive Request
  | keyExchange
  | post (p : Post)

/-- What `encrypted_post` returns; without a code or data they are null. -/
structure Envelope where
  code : Json
  data : Json

/-- The data of an envelope, where it is an object. -/
def Envelope.members (env : Envelope) : List (Str × Json) :=
  match env.data with
  | .obj ms => ms
  | _ => []

/-- `(data.get("fa_info") or {}).get("step")`, which raises for `none`. -/
def Envelope.step (env : Envelope) : Option Json :=
  match getD env.members "fa_info" with
  | .obj ms => some (getD ms "step")
  | v => if truthy v then none else some .null

/-- `data.get("auth_token") or data.get("token")` -/
def Envelope.token (env : Envelope) : Json :=
  orElse (getD env.members "auth_token") (getD env.members "token")

def Envelope.serverPublicKey (env : Envelope) : Json :=
  match getD env.members "server_secret_info" with
  | .obj ms => (get? ms (lit "public_key")).getD (.str [])
  | _ => .str []

inductive LoginError
  | captchaRequired
  | noProvisionalToken
  | verificationRequired (sent : Bool)
  | malformedCode
  | codeRejected
  | limitReached
  | failed
  /-- What else a request or the reading of an answer raises. -/
  | raised

structure Session where
  authToken : Json
  gtoken : Json
  userId : Json
  regionDomain : Json

abbrev Result := Except LoginError Session

abbrev Client := Dialogue Request (Option Envelope) Result

/-- The arguments of `login`, and what it computes of them. -/
structure Arguments where
  email : Str
  region : Str
  country : Str
  language : Str
  userAgent : Str
  captchaId : Str
  answer : Str
  verificationCode : Str
  keyObj : Bool
  encPassword : Str
  clientPublicKey : Str

section

variable (U : Unicode) (md5 : Bytes → Bytes) (openudid : Str → Str → Str) (a : Arguments)

def appName : Str := lit "eufy_mega"

def passportHeaders (email country language userAgent : Str) (authToken : Json) :
    List (Str × Json) :=
  [(lit "Content-Type", .str (lit "application/json")), (lit "User-Agent", .str userAgent),
    (lit "App-Name", .str appName), (lit "Os_type", .str (lit "web")),
    (lit "Os-type", .str (lit "web")), (lit "Os_version", .str userAgent),
    (lit "Os-version", .str userAgent), (lit "Phone_model", .str (lit "Win32")),
    (lit "Model-type", .str (lit "WEB")), (lit "Model_type", .str (lit "WEB")),
    (lit "Model-Type", .str (lit "WEB")), (lit "Country", .str country),
    (lit "Language", .str language), (lit "Timezone", .str []), (lit "X-Auth-Token", authToken),
    (lit "Openudid", .str (openudid email userAgent))]

def loginBody : List (Str × Json) :=
  [(lit "email", .str a.email), (lit "password", .str a.encPassword), (lit "enc", .int 0),
    (lit "ab", .str a.country), (lit "login_id", .str []),
    (lit "client_secret_info", .obj [(lit "public_key", .str a.clientPublicKey)]),
    (lit "captcha_id", .str a.captchaId), (lit "answer", .str a.answer)]

def loginPath : Str := lit "/passport/login"

def codePath : Str := lit "/app/sendmsg/verify_code"

/-- A post with the headers of `_passport_headers`, signed with a token. -/
def passportPost (path : Str) (body token : Json) (service : Str) : Post where
  path
  body
  authToken := token
  service
  region := a.region
  webCountry := a.country
  headers := passportHeaders openudid a.email a.country a.language a.userAgent token

def loginPost : Post :=
  passportPost openudid a loginPath (.obj (loginBody a)) (.str []) (lit "passport")

def verifyPost (token : Json) : Post :=
  passportPost openudid a loginPath
    (.obj (loginBody a ++ [(lit "verify_code", .str a.verificationCode)])) token (lit "passport")

def codePost (token serverPublicKey : Json) : Post :=
  passportPost openudid a codePath (.obj [(lit "biz_type", .int 1004), (lit "message_type", .int 2),
    (lit "client_secret_info", .obj [(lit "public_key", serverPublicKey)])]) token (lit "push")

/-- `get_captcha` -/
def captchaPost : Post where
  path := lit "/passport/generate/captcha"
  body := .str []
  authToken := .str []
  service := lit "passport"
  region := a.region
  webCountry := []
  headers := passportHeaders openudid [] [] a.language a.userAgent (.str [])

/-- `gtoken`, which the client computes where the server gives none. -/
def gtokenOf (gtoken userId : Json) : Option Json :=
  if !truthy gtoken && truthy userId then
    match userId with
    | .str s => (Utf8.encode s).map fun b => .str (hex (md5 b))
    | _ => none
  else some gtoken

/-- What is left to do with the last answer. -/
def finish (env : Envelope) : Result :=
  if equals 100028 env.code || equals 100041 env.code then .error .limitReached
  else if !(equals 0 env.code || env.code = .null) || !truthy env.token then .error .failed
  else
    let ms := env.members
    let userId := orElse (orElse (getD ms "user_id") (getD ms "userId")) (.str [])
    let gtoken := orElse (orElse (getD ms "gtoken") (getD ms "g_token")) (.str [])
    match gtokenOf md5 gtoken userId with
    | none => .error .raised
    | some gtoken =>
      .ok ⟨env.token, gtoken, userId,
        orElse (orElse (getD ms "domain") (getD ms "region_domain")) (.str [])⟩

/-- `re.fullmatch(r"\d{6}", code)` -/
def isCode (code : Str) : Bool := code.length == 6 && code.all U.isDigit

/-- The second post, with the code and the token of the challenge. -/
def verify (token : Json) : Client :=
  .ask (.post (verifyPost openudid a token)) fun
    | none => .done (.error .raised)
    | some env =>
      match env.step with
      | none => .done (.error .raised)
      | some step => .done (if equals 26052 step then .error .codeRejected else finish md5 env)

/-- `_send_login_verification_code`, and the exception after it. -/
def sendCode (token serverPublicKey : Json) : Client :=
  if !truthy serverPublicKey then .done (.error (.verificationRequired false))
  else
    .ask (.post (codePost openudid a token serverPublicKey)) fun
      | none => .done (.error .raised)
      | some env => .done (.error (.verificationRequired (equals 0 env.code)))

/-- A challenge, by its envelope. -/
def challenge (env : Envelope) : Client :=
  if !truthy env.token then .done (.error .noProvisionalToken)
  else if a.verificationCode.isEmpty then sendCode openudid a env.token env.serverPublicKey
  else if !isCode U a.verificationCode then .done (.error .malformedCode)
  else verify md5 openudid a env.token

/-- What is done with the first answer. -/
def respond (env : Envelope) : Client :=
  if (equals 10019 env.code || equals 100056 env.code || truthy (getD env.members "captcha_id")) &&
      a.answer.isEmpty then
    .ask (.post (captchaPost openudid a)) fun _ => .done (.error .captchaRequired)
  else
    match env.step with
    | none => .done (.error .raised)
    | some step =>
      if equals 26052 step then challenge U md5 openudid a env else .done (finish md5 env)

def firstPost : Client :=
  .ask (.post (loginPost openudid a)) fun
    | none => .done (.error .raised)
    | some env => respond U md5 openudid a env

def login : Client :=
  if a.keyObj then firstPost U md5 openudid a
  else
    .ask .keyExchange fun
      | none => .done (.error .raised)
      | some _ => firstPost U md5 openudid a

end

end EufyNvr.Cloud
