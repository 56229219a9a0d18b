import EufyNvr.Cloud.Login
import EufyNvr.Cloud.Region
import EufyNvr.Cloud.ShareKey
import EufyNvr.Lib.Base64Lax
import EufyNvr.Lib.BlockMode

/-!
# Encrypted requests

`sign`, `aes_encrypt`, `aes_decrypt`, `ecdh_handshake` and `encrypted_post`
of `eufy_cloud.py`, as the request that each of them sends and what it makes
of the response. The cipher, the hash and the curve are parameters.
-/

namespace EufyNvr.Cloud

open Json Hex

/-- What the module takes from other packages, and the texts of its keys. -/
structure Crypto where
  aes : Bytes → Block.Cipher 16
  hmacSha256 : Bytes → Bytes → Bytes
  /-- The uncompressed point of a private key. -/
  point : Str → Bytes
  exchange : Str → Str → Option Bytes

/-- `RandomField` -/
structure RandomField where
  unisign : Str
  keyindent : Str
  once : Str
  ts : Int

/-- What a request draws: an initial block, a private key, and the field. -/
structure Nonce where
  iv : Bytes
  clientPriv : Str
  rf : RandomField
  length_iv : iv.length = 16
  /-- They are hexadecimal. -/
  ascii_keyindent : Printable rf.keyindent
  ascii_once : Printable rf.once

inductive CloudError
  | eufy (message : Str)
  /-- What else is raised. -/
  | raised
  deriving DecidableEq

structure KeyExchange where
  keyIndent : Str
  clientPrivHex : Str
  serverPubHex : Str
  shareKey : Str

-- ---------------------------------------------------------------------------
-- Primitives
-- ---------------------------------------------------------------------------

section

variable (C : Crypto)

/-- The text that is signed, where no body is an empty one. -/
def signedText (ts once body : Str) : Str :=
  ts ++ lit "+" ++ once ++ (if body.isEmpty then [] else lit "+" ++ body)

def signWith (keyHex ts once body : Str) : Option Str := do
  let key ← Utf8.encode keyHex
  let msg ← Utf8.encode (signedText ts once body)
  return hex (C.hmacSha256 key msg)

/-- `sign`, which raises for `none`. -/
def sign (keyHex : Str) (ts : Int) (once body : Str) : Option Str :=
  signWith C keyHex (intText ts) once body

/-- `aes_encrypt` with the initial block that it draws. -/
def aesEncrypt (iv : Bytes) (plaintext keyHex : Str) : Option Str := do
  let key ← aesKey keyHex
  let b ← Utf8.encode plaintext
  let ct ← (C.aes key).encryptPadded iv b
  return Base64.encode (iv ++ ct)

def aesDecrypt (b64Data keyHex : Str) : Option Str := do
  let key ← aesKey keyHex
  let raw ← Base64.b64decode b64Data
  if raw.length < 16 then none
  else
    let b ← (C.aes key).decryptPadded (raw.take 16) (raw.drop 16)
    Utf8.decode b

/-- What is encrypted under a key is decrypted under it, whatever the initial
block. -/
theorem aesDecrypt_aesEncrypt {iv : Bytes} {plaintext keyHex : Str} (hiv : iv.length = 16)
    (hkey : (aesKey keyHex).isSome) (htext : Characters plaintext) :
    ∃ c, aesEncrypt C iv plaintext keyHex = some c ∧ c ≠ [] ∧ Ascii c ∧
      aesDecrypt C c keyHex = some plaintext := by
  obtain ⟨key, hkey⟩ := Option.isSome_iff_exists.mp hkey
  obtain ⟨b, hb⟩ := Utf8.encode_of_characters htext
  obtain ⟨ct, hct, hback⟩ := (C.aes key).decryptPadded_encryptPadded (by decide) (by decide) hiv b
  have hlen : ¬ (iv ++ ct).length < 16 := by rw [List.length_append]; omega
  have htake : (iv ++ ct).take 16 = iv := by rw [← hiv, List.take_left]
  have hdrop : (iv ++ ct).drop 16 = ct := by rw [← hiv, List.drop_left]
  refine ⟨Base64.encode (iv ++ ct), ?_, ?_, Base64.ascii_encode _, ?_⟩
  · rw [aesEncrypt, hkey, Option.bind_eq_bind, Option.bind_some, hb, Option.bind_some, hct]
    rfl
  · intro hnil
    have hdecode := Base64.b64decode_encode (iv ++ ct)
    rw [hnil] at hdecode
    have hempty : iv ++ ct = [] := (Option.some.inj hdecode).symm
    rw [(List.append_eq_nil_iff.mp hempty).1] at hiv
    cases hiv
  · rw [aesDecrypt, hkey, Option.bind_eq_bind, Option.bind_some, Base64.b64decode_encode,
      Option.bind_some, if_neg hlen, htake, hdrop, hback, Option.bind_some, Utf8.decode_encode hb]

end

-- ---------------------------------------------------------------------------
-- Requests
-- ---------------------------------------------------------------------------

/-- The body of a post. -/
inductive Content
  | empty
  | json (v : Json)
  | text (s : Str)

structure Http where
  url : Str
  headers : Dict Str Json
  body : Content

structure Response where
  status : Int
  text : Str

/-- `_base_headers` -/
def baseHeaders (rf : RandomField) (webCountry : Str) : Dict Str Json :=
  .ofList [(lit "Content-Type", .str (lit "application/json")),
    (lit "X-Replay-Info", .str (lit "replay")), (lit "Model_type", .str (lit "WEB")),
    (lit "Model-type", .str (lit "WEB")), (lit "X-Request-Ts", .str (intText rf.ts)),
    (lit "X-Request-Once", .str rf.once), (lit "Web-Country", .str webCountry)]

def update (headers : Dict Str Json) (extra : List (Str × Json)) : Dict Str Json :=
  extra.foldl (fun d e => d.set e.1 e.2) headers

/-- One of the two exchanges, with the key that is built into the client. -/
structure Exchange where
  bootstrap : Str
  service : Str
  path : Str

/-- `exchange` and `qa` of `ecdh_handshake`. -/
def exchangeOf (openapi qa : Bool) : Exchange :=
  if openapi then
    ⟨if qa then lit "208c02b71e211049304bd70a0c971d44" else lit "2500a7d5617812f9d52515b2c8f20a3d",
      lit "openapi", lit "/openapi/oauth/key/exchange"⟩
  else
    ⟨if qa then lit "118c02b71e211049304bd70a0c971d44" else lit "118c12c81e211149304bd70a0c071d01",
      lit "security", lit "/v3/openapi/oauth/key/exchange"⟩

/-- The arguments of `ecdh_handshake` but for `qa`. -/
structure Handshake where
  token : Json
  region : Str
  webCountry : Str
  openapi : Bool

/-- The headers of the channel itself. -/
def reservedHeaders : List Str :=
  [lit "X-Key-Ident", lit "X-Signature", lit "X-Request-Ts", lit "X-Request-Once"]

/-- The arguments of `encrypted_post` but for the key. No caller gives
headers of its own for the channel. -/
structure Sent extends Post where
  gtoken : Str
  verifySignature : Bool
  reserved : ∀ h ∈ headers, h.1 ∉ reservedHeaders

section

variable (T : Casing) (C : Crypto)

def publicHex (n : Nonce) : Str := hex (C.point n.clientPriv)

/-- The request of `ecdh_handshake`, unless it raises. -/
def handshakeRequest (qa : Bool) (n : Nonce) (h : Handshake) : Option Http := do
  let x := exchangeOf h.openapi qa
  let encClientPub ← aesEncrypt C n.iv (publicHex C n) x.bootstrap
  let signature ← sign C x.bootstrap n.rf.ts n.rf.once encClientPub
  let headers := ((baseHeaders n.rf h.webCountry).set (lit "X-Signature") (.str signature)).set
    (lit "X-Key-Ident") (.str n.rf.keyindent) |>.set (lit "App-Name") (.str appName)
  return {
    url := baseUrl T x.service h.region ++ x.path
    headers := if truthy h.token then headers.set (lit "X-Auth-Token") h.token else headers
    body := .json (.obj [(lit "client_public_key", .str encClientPub)]) }

/-- `KeyExchange.create` -/
def KeyExchange.create (keyIndent clientPrivHex serverPubHex : Str) : Option KeyExchange :=
  (deriveShareKey C.exchange clientPrivHex serverPubHex).map fun shareKey =>
    { keyIndent, clientPrivHex, serverPubHex, shareKey }

/-- What `ecdh_handshake` makes of the response. -/
def handshakeResult (qa : Bool) (n : Nonce) (h : Handshake) (resp : Response) :
    Except CloudError KeyExchange :=
  let failed : CloudError := .eufy (lit "key/exchange failed: status=" ++ intText resp.status ++
    lit " body=" ++ resp.text.take 300)
  let body := orElse ((loads resp.text).getD .null) (.obj [])
  match body with
  | .obj ms =>
    let serverPubEnc := match getD ms "data" with
      | .obj data => getD data "server_public_key"
      | _ => .null
    if !truthy serverPubEnc then .error failed
    else
      match serverPubEnc with
      | .str enc =>
        match aesDecrypt C enc (exchangeOf h.openapi qa).bootstrap with
        | none => .error .raised
        | some serverPubHex =>
          (KeyExchange.create C n.rf.keyindent n.clientPriv serverPubHex).elim
            (.error .raised) .ok
      | _ => .error .raised
  | _ => .error .raised

/-- The text of a body before it is encrypted. -/
def bodyText : Json → Str
  | .str s => s
  | v => dumps compact v

/-- What goes out encrypted: nothing for an empty body. -/
def encryptBody (key : KeyExchange) (n : Nonce) (body : Str) : Option Str :=
  if body.isEmpty then some [] else aesEncrypt C n.iv body key.shareKey

/-- The request of `encrypted_post`, unless it raises. -/
def postRequest (key : KeyExchange) (n : Nonce) (p : Sent) : Option Http := do
  let body := bodyText p.body
  let encBody ← encryptBody C key n body
  let signature ← sign C key.shareKey n.rf.ts n.rf.once encBody
  let headers := (baseHeaders n.rf p.webCountry).set (lit "X-Encryption-Info") (.str (lit "algo_ecdh"))
    |>.set (lit "X-Signature") (.str signature) |>.set (lit "X-Key-Ident") (.str key.keyIndent)
    |>.set (lit "App-Name") (.str appName)
    |>.set (lit "X-Auth-Token") (orElse p.authToken (.str []))
  let headers := (update headers p.headers).set (lit "GToken") (.str p.gtoken)
    |>.set (lit "Content-Type") (.str (lit "text/plain")) |>.set (lit "Model-Type") (.str (lit "WEB"))
  return {
    url := baseUrl T p.service p.region ++ p.path
    headers
    body := if body.isEmpty then .empty else .text encBody }

/-- The signature of a response is computed, and not minded. -/
def checkSignature (key : KeyExchange) (n : Nonce) (p : Sent) (outer : List (Str × Json)) :
    Option Unit :=
  if p.verifySignature && truthy (getD outer "signature") then
    match getD outer "data" with
    | .str data => (sign C key.shareKey n.rf.ts n.rf.once data).map fun _ => ()
    | _ => some ()
  else some ()

/-- The JSON value of a response, where it is an object and the status is 200. -/
def outerOf (p : Sent) (resp : Response) : Except CloudError (List (Str × Json)) :=
  if resp.status ≠ 200 then
    .error (.eufy (lit "POST " ++ p.path ++ lit " -> HTTP " ++ intText resp.status ++ lit ": " ++
      resp.text.take 300))
  else
    match loads resp.text with
    | some (.obj outer) => .ok outer
    | _ => .error (.eufy (lit "POST " ++ p.path ++ lit ": unparseable envelope: " ++
        resp.text.take 200))

/-- What the payload of an envelope decrypts to, as JSON where it is. -/
def decryptPayload (key : KeyExchange) (payload : Json) : Except CloudError Json :=
  match payload with
  | .str enc =>
    match aesDecrypt C enc key.shareKey with
    | none => .error .raised
    | some text => .ok ((loads text).getD (.str text))
  | _ => .error .raised

/-- What `encrypted_post` returns with `return_envelope`. -/
def postEnvelope (key : KeyExchange) (n : Nonce) (p : Sent) (resp : Response) :
    Except CloudError Envelope := do
  let outer ← outerOf p resp
  let _ ← (checkSignature C key n p outer).elim (.error .raised) .ok
  let payload := getD outer "data"
  let data ← if truthy payload then decryptPayload C key payload else .ok .null
  return ⟨getD outer "code", data⟩

end

end EufyNvr.Cloud
