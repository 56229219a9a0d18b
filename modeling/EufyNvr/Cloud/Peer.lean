import EufyNvr.Cloud.Channel

/-!
# The other end of the channel

A server that answers as the documentation of `eufy_cloud.py` says it does.
It keeps a share key for every key ident, refuses what is not signed with it,
and hands what it has decrypted to an application. Nothing here is translated
from the source; one exchange with it is what the client's code is held
against.
-/

namespace EufyNvr.Cloud

open Json Hex

/-- A request that has been decrypted. -/
structure Delivered where
  url : Str
  authToken : Json
  gtoken : Json
  text : Str

structure Reply where
  code : Json
  data : Json
  sound : Sound code ∧ Sound data

/-- The application behind the server, and what the server draws. -/
structure Service (η : Type) where
  qa : Bool
  priv : Str → Str
  iv : Str → Bytes
  length_iv : ∀ s, (iv s).length = 16
  handle : η → Delivered → η × Reply

structure Peer (η : Type) where
  sessions : Dict Str Str
  app : η

def Http.header (req : Http) (name : String) : Option Json := req.headers.get? (lit name)

def Http.text (req : Http) (name : String) : Option Str :=
  match req.header name with
  | some (.str s) => some s
  | _ => none

namespace Service

variable {η : Type} (S : Service η) (C : Crypto)

/-- The exchange that a URL belongs to. -/
def exchangeAt (url : Str) : Exchange :=
  exchangeOf (!decide ((exchangeOf false S.qa).path <:+ url)) S.qa

/-- The signature that a request has to carry. -/
def signed (req : Http) (key encBody : Str) : Option Bool := do
  let ts ← req.text "X-Request-Ts"
  let once ← req.text "X-Request-Once"
  let signature ← req.text "X-Signature"
  let expected ← signWith C key ts once encBody
  return signature == expected

/-- A key exchange. The key is the documented one. -/
def exchange (P : Peer η) (req : Http) (v : Json) : Option (Peer η × Response) := do
  let bootstrap := (S.exchangeAt req.url).bootstrap
  let ident ← req.text "X-Key-Ident"
  let enc ← match v with
    | .obj [(_, .str enc)] => some enc
    | _ => none
  if (← signed C req bootstrap enc) = false then none
  else
    let clientPub ← aesDecrypt C enc bootstrap
    let secret ← C.exchange (S.priv ident) clientPub
    let serverPubEnc ← aesEncrypt C (S.iv ident) (hex (C.point (S.priv ident))) bootstrap
    return ({ P with sessions := P.sessions.set ident ((hex secret).take 32) },
      ⟨200, dumps compact (.obj [(lit "code", .int 0), (lit "msg", .str []),
        (lit "data", .obj [(lit "server_public_key", .str serverPubEnc)])])⟩)

def decryptBody (key encBody : Str) : Option Str :=
  if encBody.isEmpty then some [] else aesDecrypt C encBody key

/-- An encrypted request. -/
def deliver (P : Peer η) (req : Http) (encBody : Str) : Option (Peer η × Response) := do
  let ident ← req.text "X-Key-Ident"
  let once ← req.text "X-Request-Once"
  let ts ← req.text "X-Request-Ts"
  let key ← P.sessions.get? ident
  if (← signed C req key encBody) = false then none
  else
    let text ← decryptBody C key encBody
    let authToken ← req.header "X-Auth-Token"
    let gtoken ← req.header "GToken"
    let r := S.handle P.app { url := req.url, authToken, gtoken, text }
    let data ← aesEncrypt C (S.iv once) (dumps compact r.2.data) key
    let signature ← signWith C key ts once data
    return ({ P with app := r.1 }, ⟨200, dumps compact (.obj [(lit "code", r.2.code),
      (lit "msg", .str []), (lit "data", .str data), (lit "signature", .str signature)])⟩)

/-- What is refused changes nothing. -/
def answer (P : Peer η) (req : Http) : Peer η × Response :=
  let r := match req.body with
    | .json v => S.exchange C P req v
    | .text encBody => S.deliver C P req encBody
    | .empty => S.deliver C P req []
  r.getD (P, ⟨403, []⟩)

end Service

-- ---------------------------------------------------------------------------
-- Headers
-- ---------------------------------------------------------------------------

variable {T : Casing} {C : Crypto} {η : Type} {S : Service η} {P : Peer η} {n : Nonce}

theorem get?_update {headers : Dict Str Json} {extra : List (Str × Json)} {k : Str} :
    (update headers extra).get? k = (extra.reverse.lookup k).or (headers.get? k) := by
  induction extra generalizing headers with
  | nil => rfl
  | cons e extra ih =>
    have hstep : update headers (e :: extra) = update (headers.set e.1 e.2) extra := rfl
    rw [hstep, ih, List.reverse_cons, List.lookup_append, Dict.get?_set, Option.or_assoc]
    congr 1
    by_cases hk : k = e.1
    · have hself : (k == e.1) = true := by simpa using hk
      rw [if_pos hk, List.lookup_cons, hself]
      rfl
    · have hne : (k == e.1) = false := by simpa using hk
      rw [if_neg hk, List.lookup_cons, hne]
      rfl

theorem get?_update_of_not_mem {headers : Dict Str Json} {extra : List (Str × Json)} {k : Str}
    (h : ∀ e ∈ extra, e.1 ≠ k) : (update headers extra).get? k = headers.get? k := by
  have hnone : extra.reverse.lookup k = none := by
    rw [List.lookup_eq_none_iff]
    intro e he
    simpa using (h e (List.mem_reverse.mp he)).symm
  rw [get?_update, hnone, Option.none_or]

/-- The token that goes out with a post. -/
def Sent.tokenHeader (p : Sent) : Json :=
  (p.headers.reverse.lookup (lit "X-Auth-Token")).getD (orElse p.authToken (.str []))

/-- What the application is to see of a post. -/
def Sent.delivered (T : Casing) (p : Sent) : Delivered where
  url := baseUrl T p.service p.region ++ p.path
  authToken := p.tokenHeader
  gtoken := .str p.gtoken
  text := bodyText p.body

/-- What the channel has written into a request. -/
structure Marked (req : Http) (n : Nonce) (ident signature : Str) : Prop where
  ident : req.text "X-Key-Ident" = some ident
  signature : req.text "X-Signature" = some signature
  ts : req.text "X-Request-Ts" = some (intText n.rf.ts)
  once : req.text "X-Request-Once" = some n.rf.once

theorem Marked.signed {req : Http} {ident signature key body : Str}
    (h : Marked req n ident signature) (hs : sign C key n.rf.ts n.rf.once body = some signature) :
    Service.signed C req key body = some true := by
  rw [sign] at hs
  rw [Service.signed, h.ts, Option.bind_eq_bind, Option.bind_some, h.once, Option.bind_some,
    h.signature, Option.bind_some, hs, Option.bind_some]
  simp

theorem sign_isSome {key body : Str} (ts : Int) {once : Str} (hkey : Characters key)
    (honce : Printable once) (hbody : Ascii body) :
    ∃ signature, sign C key ts once body = some signature ∧ Ascii signature := by
  obtain ⟨b, hb⟩ := Utf8.encode_of_characters hkey
  have hplus : Ascii (lit "+") := by decide
  have htext : Ascii (signedText (intText ts) once body) := by
    unfold signedText
    intro c hc
    simp only [List.mem_append] at hc
    rcases hc with ((hc | hc) | hc) | hc
    · exact (printable_intText ts).ascii c hc
    · exact hplus c hc
    · exact honce.ascii c hc
    · split at hc
      · cases hc
      · rcases List.mem_append.mp hc with hc | hc
        · exact hplus c hc
        · exact hbody c hc
  obtain ⟨m, hm⟩ := Utf8.encode_of_characters (.of_ascii htext)
  refine ⟨hex (C.hmacSha256 b m), ?_, fun c hc => ?_⟩
  · rw [sign, signWith, hb, Option.bind_eq_bind, Option.bind_some, hm]
    rfl
  · have := isHexDigit_hex hc
    simp only [isAscii, decide_eq_true_eq]
    omega

-- ---------------------------------------------------------------------------
-- A key exchange
-- ---------------------------------------------------------------------------

/-- What is documented of the curve: the two ends agree, on 32 bytes. The
first of them is not zero; where it is, the client derives another key. -/
structure Crypto.Agrees (C : Crypto) (clientPriv serverPriv : Str) : Prop where
  comm : C.exchange serverPriv (hex (C.point clientPriv)) =
    C.exchange clientPriv (hex (C.point serverPriv))
  secret : ∃ secret, C.exchange clientPriv (hex (C.point serverPriv)) = some secret ∧
    secret.length = 32 ∧ secret.head? ≠ some 0

theorem bootstrap_isSome (openapi qa : Bool) :
    (aesKey (exchangeOf openapi qa).bootstrap).isSome ∧
      Characters (exchangeOf openapi qa).bootstrap := by
  cases openapi <;> cases qa <;> decide +kernel

/-- The hosts of a service end in no part of a path. -/
theorem exchangeAt_url (S : Service η) (h : Handshake) :
    S.exchangeAt (baseUrl T (exchangeOf h.openapi S.qa).service h.region ++
      (exchangeOf h.openapi S.qa).path) = exchangeOf h.openapi S.qa := by
  have hhosts : ∀ base ∈ ((table (lit "openapi")).map Prod.snd ++ [[]]), ¬ lit "/v3" <:+ base := by
    decide +kernel
  rw [Service.exchangeAt]
  cases hopen : h.openapi with
  | false =>
    have hsuffix : (exchangeOf false S.qa).path <:+
        baseUrl T (exchangeOf false S.qa).service h.region ++ (exchangeOf false S.qa).path :=
      List.suffix_append _ _
    rw [decide_eq_true hsuffix]
    rfl
  | true =>
    have hbase : baseUrl T (lit "openapi") h.region ∈
        (table (lit "openapi")).map Prod.snd ++ [[]] := by
      unfold baseUrl
      cases hl : (table (lit "openapi")).lookup (resolveRegion T (lit "openapi") h.region) with
      | none => simp
      | some host =>
        exact List.mem_append_left _ (List.mem_map.mpr ⟨_, mem_of_lookup hl, rfl⟩)
    have hpath : (exchangeOf false S.qa).path = lit "/v3" ++ (exchangeOf true S.qa).path := rfl
    have hsuffix : ¬ (exchangeOf false S.qa).path <:+
        baseUrl T (exchangeOf true S.qa).service h.region ++ (exchangeOf true S.qa).path := by
      rw [hpath]
      rintro ⟨front, hfront⟩
      rw [← List.append_assoc] at hfront
      exact hhosts _ hbase ⟨front, List.append_cancel_right hfront⟩
    rw [decide_eq_false hsuffix]
    rfl

@[simp] theorem baseHeaders_ts (rf : RandomField) (webCountry : Str) :
    (baseHeaders rf webCountry).get? (lit "X-Request-Ts") = some (.str (intText rf.ts)) := by
  simp +decide only [baseHeaders, Dict.ofList, List.foldl, Dict.get?_set, if_true, if_false]

@[simp] theorem baseHeaders_once (rf : RandomField) (webCountry : Str) :
    (baseHeaders rf webCountry).get? (lit "X-Request-Once") = some (.str rf.once) := by
  simp +decide only [baseHeaders, Dict.ofList, List.foldl, Dict.get?_set, if_true, if_false]

theorem handshake_marked {qa : Bool} {h : Handshake} {enc signature : Str}
    (henc : aesEncrypt C n.iv (publicHex C n) (exchangeOf h.openapi qa).bootstrap = some enc)
    (hs : sign C (exchangeOf h.openapi qa).bootstrap n.rf.ts n.rf.once enc = some signature) :
    ∃ req, handshakeRequest T C qa n h = some req ∧ Marked req n n.rf.keyindent signature ∧
      req.url = baseUrl T (exchangeOf h.openapi qa).service h.region ++
        (exchangeOf h.openapi qa).path ∧
      req.body = .json (.obj [(lit "client_public_key", .str enc)]) := by
  refine ⟨_, by rw [handshakeRequest, henc, Option.bind_eq_bind, Option.bind_some, hs]; rfl, ?_,
    rfl, rfl⟩
  cases htoken : truthy h.token <;>
    constructor <;>
    simp +decide only [Http.text, Http.header, Dict.get?_set, baseHeaders_ts, baseHeaders_once,
      if_true, if_false]

theorem Sound.of_ascii {s : Str} (h : Ascii s) : Sound (.str s) := Unpaired.of_no_high fun c hc => by
  have hlt := h c hc
  simp only [isAscii, decide_eq_true_eq] at hlt
  simp only [isHigh, decide_eq_false_iff_not]
  omega

/-- The envelope with the key of the server. -/
def exchangeEnvelope (serverPubEnc : Str) : Json :=
  .obj [(lit "code", .int 0), (lit "msg", .str []),
    (lit "data", .obj [(lit "server_public_key", .str serverPubEnc)])]

theorem handshakeResult_ok {qa : Bool} {h : Handshake} {enc serverPubHex key : Str}
    (hascii : Ascii enc) (hne : enc ≠ [])
    (hdec : aesDecrypt C enc (exchangeOf h.openapi qa).bootstrap = some serverPubHex)
    (hkey : deriveShareKey C.exchange n.clientPriv serverPubHex = some key) :
    handshakeResult C qa n h ⟨200, dumps compact (exchangeEnvelope enc)⟩ =
      .ok ⟨n.rf.keyindent, n.clientPriv, serverPubHex, key⟩ := by
  have hsound : Sound (exchangeEnvelope enc) := by
    have hnames : [lit "code", lit "msg", lit "data"].Nodup := by decide
    have hzero : (numeral 0).length ≤ 4300 := by decide
    exact ⟨hnames, by decide, hzero, by decide, Sound.of_ascii nofun, by decide,
      ⟨List.nodup_singleton _, by decide, Sound.of_ascii hascii, trivial⟩, trivial⟩
  have htrue : truthy (.str enc) = true := by simpa [truthy] using hne
  rw [handshakeResult, loads_dumps_self hsound]
  have hor : orElse ((some (exchangeEnvelope enc)).getD .null) (.obj []) = exchangeEnvelope enc := rfl
  simp only [hor]
  have hget : getD [(lit "code", .int 0), (lit "msg", .str []),
      (lit "data", .obj [(lit "server_public_key", .str enc)])] "data" =
        .obj [(lit "server_public_key", .str enc)] := rfl
  have hget' : getD [(lit "server_public_key", .str enc)] "server_public_key" = .str enc := rfl
  simp only [exchangeEnvelope, hget, hget', htrue, Bool.not_true, Bool.false_eq_true, if_false, hdec,
    KeyExchange.create, hkey, Option.map_some]
  rfl

/-- The client and the server come out of an exchange with one key. -/
theorem exchange_agrees (P : Peer η) (h : Handshake)
    (hagrees : C.Agrees n.clientPriv (S.priv n.rf.keyindent)) :
    ∃ req resp key, handshakeRequest T C S.qa n h = some req ∧
      S.answer C P req =
        ({ P with sessions := P.sessions.set n.rf.keyindent key.shareKey }, resp) ∧
      handshakeResult C S.qa n h resp = .ok key ∧ key.keyIndent = n.rf.keyindent ∧
      (aesKey key.shareKey).isSome ∧ Ascii key.shareKey := by
  obtain ⟨hkey, hbootstrap⟩ := bootstrap_isSome h.openapi S.qa
  obtain ⟨secret, hsecret, hlen, hzero⟩ := hagrees.secret
  obtain ⟨enc, henc, -, hascii, hdec⟩ := aesDecrypt_aesEncrypt C n.length_iv hkey
    (.of_ascii (ascii_hex (C.point n.clientPriv)))
  obtain ⟨encs, hencs, hnes, hasciis, hdecs⟩ := aesDecrypt_aesEncrypt C
    (S.length_iv n.rf.keyindent) hkey (.of_ascii (ascii_hex (C.point (S.priv n.rf.keyindent))))
  obtain ⟨signature, hs, -⟩ := sign_isSome (C := C) n.rf.ts hbootstrap n.ascii_once hascii
  obtain ⟨req, hreq, hmarked, hurl, hbody⟩ := handshake_marked (T := T) henc hs
  obtain ⟨key, hderive, hdoc⟩ := (shareKey_documented hsecret hlen).mpr hzero
  refine ⟨req, ⟨200, dumps compact (exchangeEnvelope encs)⟩, ⟨n.rf.keyindent, n.clientPriv,
    hex (C.point (S.priv n.rf.keyindent)), key⟩, hreq, ?_,
    handshakeResult_ok hasciis hnes hdecs hderive, rfl, ?_, ?_⟩
  · have hsigned := hmarked.signed hs
    rw [Service.answer, hbody]
    simp only [Service.exchange, hurl, exchangeAt_url S h, hmarked.ident, hsigned, hdec,
      hagrees.comm, hsecret, hencs, Option.bind_eq_bind, Option.bind_some, Bool.true_eq_false,
      if_false, Option.pure_def, Option.getD_some, hdoc.digits, exchangeEnvelope]
  · rw [hdoc.cipher]
    rfl
  · rw [hdoc.bytes]
    exact ascii_hex _

-- ---------------------------------------------------------------------------
-- An encrypted request
-- ---------------------------------------------------------------------------

theorem post_marked {key : KeyExchange} {p : Sent} {enc signature : Str}
    (henc : encryptBody C key n (bodyText p.body) = some enc)
    (hs : sign C key.shareKey n.rf.ts n.rf.once enc = some signature) :
    ∃ req, postRequest T C key n p = some req ∧ Marked req n key.keyIndent signature ∧
      req.url = (p.delivered T).url ∧ req.header "X-Auth-Token" = some p.tokenHeader ∧
      req.header "GToken" = some (.str p.gtoken) ∧
      req.body = if (bodyText p.body).isEmpty then .empty else .text enc := by
  have hkeep (name : Str) (hname : name ∈ reservedHeaders) (headers : Dict Str Json) :
      (update headers p.headers).get? name = headers.get? name :=
    get?_update_of_not_mem fun e he heq => p.reserved e he (heq ▸ hname)
  refine ⟨_, by rw [postRequest, henc, Option.bind_eq_bind, Option.bind_some, hs]; rfl, ?_, rfl, ?_,
    ?_, rfl⟩
  · have hident := hkeep (lit "X-Key-Ident") (by decide)
    have hsignature := hkeep (lit "X-Signature") (by decide)
    have hts := hkeep (lit "X-Request-Ts") (by decide)
    have honce := hkeep (lit "X-Request-Once") (by decide)
    constructor <;>
      simp +decide only [Http.text, Http.header, Dict.get?_set, hident, hsignature, hts, honce,
        baseHeaders_ts, baseHeaders_once, if_true, if_false]
  · simp +decide only [Http.header, Dict.get?_set, get?_update, if_true, if_false, Sent.tokenHeader]
    cases p.headers.reverse.lookup (lit "X-Auth-Token") <;> rfl
  · simp +decide only [Http.header, Dict.get?_set, if_true, if_false]

/-- The envelope of an answer. -/
def replyEnvelope (code : Json) (data signature : Str) : Json :=
  .obj [(lit "code", code), (lit "msg", .str []), (lit "data", .str data),
    (lit "signature", .str signature)]

theorem postEnvelope_ok {key : KeyExchange} {p : Sent} {code v : Json} {data signature : Str}
    (hcode : Sound code) (hv : Sound v) (hdata : Ascii data) (hsig : Ascii signature)
    (hkey : Ascii key.shareKey) (hne : data ≠ [])
    (hdec : aesDecrypt C data key.shareKey = some (dumps compact v)) :
    postEnvelope C key n p ⟨200, dumps compact (replyEnvelope code data signature)⟩ =
      .ok ⟨code, v⟩ := by
  have hsound : Sound (replyEnvelope code data signature) := by
    have hnames : [lit "code", lit "msg", lit "data", lit "signature"].Nodup := by decide
    exact ⟨hnames, by decide, hcode, by decide, Sound.of_ascii nofun, by decide,
      Sound.of_ascii hdata, by decide, Sound.of_ascii hsig, trivial⟩
  let outer : List (Str × Json) := [(lit "code", code), (lit "msg", .str []),
    (lit "data", .str data), (lit "signature", .str signature)]
  have houter : outerOf p ⟨200, dumps compact (replyEnvelope code data signature)⟩ = .ok outer := by
    rw [outerOf, loads_dumps_self hsound]
    rfl
  have hcheck : checkSignature C key n p outer = some () := by
    obtain ⟨s, hs, -⟩ := sign_isSome (C := C) n.rf.ts (.of_ascii hkey) n.ascii_once hdata
    have hget : getD outer "data" = .str data := rfl
    unfold checkSignature
    rw [hget]
    simp only [hs, Option.map_some, ite_self]
  have htrue : truthy (.str data) = true := by simpa [truthy] using hne
  have hpayload : decryptPayload C key (.str data) = .ok v := by
    rw [decryptPayload, hdec]
    simp only [loads_dumps_self hv, Option.getD_some]
  have hget : getD outer "data" = .str data := rfl
  rw [postEnvelope, houter]
  simp only [bind, Except.bind, hcheck, Option.elim, hget, htrue, if_true, hpayload]
  rfl

/-- A server with the key hands the post to its application, once, and the
client gets what the application answers. -/
theorem post_agrees {key : KeyExchange} {p : Sent}
    (hsession : P.sessions.get? key.keyIndent = some key.shareKey)
    (hkey : (aesKey key.shareKey).isSome) (hascii : Ascii key.shareKey)
    (htext : Characters (bodyText p.body)) :
    ∃ req resp, postRequest T C key n p = some req ∧
      S.answer C P req = ({ P with app := (S.handle P.app (p.delivered T)).1 }, resp) ∧
      postEnvelope C key n p resp = .ok ⟨(S.handle P.app (p.delivered T)).2.code,
        (S.handle P.app (p.delivered T)).2.data⟩ := by
  -- The body is encrypted and decrypted again, or there is none.
  obtain ⟨enc, henc, hencAscii, hdec, hempty⟩ : ∃ enc, encryptBody C key n (bodyText p.body) =
      some enc ∧ Ascii enc ∧ Service.decryptBody C key.shareKey enc = some (bodyText p.body) ∧
      ((bodyText p.body).isEmpty = true → enc = []) := by
    unfold encryptBody Service.decryptBody
    cases hbody : (bodyText p.body).isEmpty with
    | true => exact ⟨[], rfl, nofun, by rw [List.isEmpty_iff.mp hbody]; rfl, fun _ => rfl⟩
    | false =>
      obtain ⟨enc, henc, hne, hencAscii, hdec⟩ := aesDecrypt_aesEncrypt C n.length_iv hkey htext
      have hfull : enc.isEmpty = false := by simpa using hne
      refine ⟨enc, by simpa using henc, hencAscii, ?_, nofun⟩
      rw [hfull]
      simpa using hdec
  obtain ⟨signature, hs, -⟩ := sign_isSome (C := C) n.rf.ts (.of_ascii hascii) n.ascii_once
    hencAscii
  obtain ⟨req, hreq, hmarked, hurl, htoken, hgtoken, hbody⟩ := post_marked (T := T) henc hs
  let r := S.handle P.app (p.delivered T)
  have hprint := (@printable_dump compact ⟨fun _ => nofun, nofun, nofun⟩ r.2.data 0 r.2.sound.2).ascii
  obtain ⟨data, hdata, hne, hdataAscii, hback⟩ := aesDecrypt_aesEncrypt C (S.length_iv n.rf.once)
    hkey (.of_ascii hprint)
  obtain ⟨answered, hanswered, hanswerAscii⟩ := sign_isSome (C := C) n.rf.ts
    (.of_ascii hascii) n.ascii_once hdataAscii
  refine ⟨req, ⟨200, dumps compact (replyEnvelope r.2.code data answered)⟩, hreq, ?_,
    postEnvelope_ok r.2.sound.1 r.2.sound.2 hdataAscii hanswerAscii hascii hne hback⟩
  have hdeliver : S.deliver C P req enc = some ({ P with app := r.1 },
      ⟨200, dumps compact (replyEnvelope r.2.code data answered)⟩) := by
    have hsigned := hmarked.signed hs
    have hdelivered : (⟨req.url, p.tokenHeader, .str p.gtoken, bodyText p.body⟩ : Delivered) =
        p.delivered T := by
      rw [hurl]
      rfl
    rw [sign] at hanswered
    simp only [Service.deliver, hmarked.ident, hmarked.once, hmarked.ts, hsession, hsigned, hdec,
      htoken, hgtoken, hdelivered, Option.bind_eq_bind, Option.bind_some, Bool.true_eq_false,
      if_false]
    have hdata' : aesEncrypt C (S.iv n.rf.once)
        (dumps compact (S.handle P.app (p.delivered T)).2.data) key.shareKey = some data := hdata
    rw [hdata', Option.bind_some, hanswered]
    rfl
  rw [Service.answer, hbody]
  cases hnone : (bodyText p.body).isEmpty with
  | true =>
    rw [hempty hnone] at hdeliver
    simp only [if_true, hdeliver, Option.getD_some]
    rfl
  | false =>
    simp only [Bool.false_eq_true, if_false, hdeliver, Option.getD_some]
    rfl

end EufyNvr.Cloud
