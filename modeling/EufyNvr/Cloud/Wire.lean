import EufyNvr.Cloud.Peer
import EufyNvr.Cloud.Provisional
import EufyNvr.Lib.Lockstep

/-!
# Clients on the wire

A client of the cloud is a dialogue of key exchanges and posts. On the wire
it sends what `ecdh_handshake` and `encrypted_post` make of them, and any
number of clients share one server. In every order in which the server
serves them, each client goes on as if it had called the application itself.
-/

namespace EufyNvr.Cloud

open Json Dialogue Machine

/-- What a client asks for. A key exchange sets the key of the posts that
follow it. -/
inductive Ask
  | handshake (h : Handshake)
  | post (p : Sent)

/-- Answers are envelopes, or there is none and the call has raised. After a
key exchange the envelope has nothing in it. -/
abbrev Program (β : Type) := Dialogue Ask (Option Envelope) β

def nothing : Envelope := ⟨.null, .null⟩

variable {ι β η : Type}

-- ---------------------------------------------------------------------------
-- The wire
-- ---------------------------------------------------------------------------

section

variable (T : Casing) (C : Crypto) (qa : Bool) (nonce : Nat → Nonce)

/-- The requests of a client that holds a key and has drawn `m` nonces. What
raises before it has sent anything sends nothing. -/
def onWire : Option KeyExchange → Nat → Program β → Dialogue Http Response β
  | _, _, .done b => .done b
  | key, m, .ask (.handshake h) k =>
    match handshakeRequest T C qa (nonce m) h with
    | none => onWire key m (k none)
    | some req => .ask req fun resp =>
      match handshakeResult C qa (nonce m) h resp with
      | .ok key' => onWire (some key') (m + 1) (k (some nothing))
      | .error _ => onWire key (m + 1) (k none)
  | key, m, .ask (.post p) k =>
    match key.bind fun key => (postRequest T C key (nonce m) p).map (key, ·) with
    | none => onWire key m (k none)
    | some (key', req) => .ask req fun resp =>
      match postEnvelope C key' (nonce m) p resp with
      | .ok env => onWire key (m + 1) (k (some env))
      | .error _ => onWire key (m + 1) (k none)

end

structure World (ι η β : Type) where
  clients : ι → Dialogue Http Response β
  peer : Peer η

/-- The server serves a client that waits for it. -/
def serveStep [DecidableEq ι] (S : Service η) (C : Crypto) (W : World ι η β) (i : ι) :
    Option (World ι η β) :=
  match W.clients i with
  | .done _ => none
  | .ask req k =>
    let r := S.answer C W.peer req
    some ⟨Function.update W.clients i (k r.2), r.1⟩

-- ---------------------------------------------------------------------------
-- Calls
-- ---------------------------------------------------------------------------

/-- The call leaves the client: it has a key, and the body can be encoded. -/
def Ask.sendable (keyed : Bool) : Ask → Bool
  | .handshake _ => true
  | .post p => keyed && decide (Characters (bodyText p.body))

/-- What a client does before it waits again. -/
def settle (keyed : Bool) : Program β → Program β
  | .done b => .done b
  | .ask r k => if r.sendable keyed then .ask r k else settle keyed (k none)

/-- Clients, each with whether it holds a key, that call the application. -/
structure Calls (ι η β : Type) where
  clients : ι → Bool × Program β
  app : η

def callStep [DecidableEq ι] (T : Casing) (S : Service η) (V : Calls ι η β) (i : ι) :
    Option (Calls ι η β) :=
  match settle (V.clients i).1 (V.clients i).2 with
  | .done _ => none
  | .ask (.handshake _) k =>
    some { V with clients := Function.update V.clients i (true, k (some nothing)) }
  | .ask (.post p) k =>
    let r := S.handle V.app (p.delivered T)
    some ⟨Function.update V.clients i ((V.clients i).1, k (some ⟨r.2.code, r.2.data⟩)), r.1⟩

theorem settle_sendable {keyed : Bool} {d : Program β} {r : Ask} {k : Option Envelope → Program β}
    (h : settle keyed d = .ask r k) : r.sendable keyed = true := by
  induction d with
  | done b => cases h
  | ask r' k' ih =>
    rw [settle] at h
    split at h
    · cases h
      assumption
    · exact ih none h

-- ---------------------------------------------------------------------------
-- A client and its calls
-- ---------------------------------------------------------------------------

variable {T : Casing} {C : Crypto} {S : Service η} {nonce : Nat → Nonce}

/-- The server knows a key that the client holds. -/
structure Held (P : Peer η) (nonce : Nat → Nonce) (key : KeyExchange) : Prop where
  session : P.sessions.get? key.keyIndent = some key.shareKey
  usable : (aesKey key.shareKey).isSome
  ascii : Ascii key.shareKey
  drawn : ∃ m, key.keyIndent = (nonce m).rf.keyindent

/-- What has no body to send raises before a request is made. -/
theorem postRequest_none {key : KeyExchange} {n : Nonce} {p : Sent}
    (h : ¬ Characters (bodyText p.body)) : postRequest T C key n p = none := by
  have hne : (bodyText p.body).isEmpty = false := by
    cases hb : bodyText p.body with
    | nil => rw [hb] at h; exact absurd nofun h
    | cons c cs => rfl
  have hnone : encryptBody C key n (bodyText p.body) = none := by
    rw [encryptBody, hne]
    simp only [Bool.false_eq_true, if_false, aesEncrypt, Utf8.encode_eq_none h]
    cases aesKey key.shareKey <;> rfl
  rw [postRequest, hnone]
  rfl

theorem onWire_settle (key? : Option KeyExchange) (m : Nat) (d : Program β) :
    onWire T C S.qa nonce key? m (settle key?.isSome d) = onWire T C S.qa nonce key? m d := by
  induction d with
  | done b => rfl
  | ask r k ih =>
    rw [settle]
    split
    · rfl
    · rename_i hsend
      cases r with
      | handshake h => exact absurd rfl hsend
      | post p =>
        have hnone : (key?.bind fun key => (postRequest T C key (nonce m) p).map (key, ·)) =
            none := by
          cases key? with
          | none => rfl
          | some key =>
            have htext : ¬ Characters (bodyText p.body) := by simpa [Ask.sendable] using hsend
            rw [Option.bind_some, postRequest_none htext]
            rfl
        rw [ih none, onWire, hnone]

/-- What a client still has to do on the wire is what is left of its program. -/
def Follows (T : Casing) (C : Crypto) (qa : Bool) (nonce : Nat → Nonce) (P : Peer η)
    (w : Dialogue Http Response β) (c : Bool × Program β) : Prop :=
  ∃ key? m, w = onWire T C qa nonce key? m c.2 ∧ key?.isSome = c.1 ∧
    ∀ key ∈ key?, Held P nonce key

/-- One request of a client: it waits as long as its program calls, and what
the server does for it is the call. -/
inductive Served (T : Casing) (C : Crypto) (S : Service η) (nonce : Nat → Nonce) (P : Peer η) :
    Dialogue Http Response β → Bool × Program β → Prop
  | done (b : β) {c : Bool × Program β} (h : settle c.1 c.2 = .done b) :
    Served T C S nonce P (.done b) c
  | handshake {req : Http} {k' : Response → Dialogue Http Response β} {c : Bool × Program β}
    {h : Handshake} {k : Option Envelope → Program β} (ident shareKey : Str)
    (hcall : settle c.1 c.2 = .ask (.handshake h) k) (hident : ∃ m, ident = (nonce m).rf.keyindent)
    (hpeer : (S.answer C P req).1 = { P with sessions := P.sessions.set ident shareKey })
    (hnext : Follows T C S.qa nonce (S.answer C P req).1 (k' (S.answer C P req).2)
      (true, k (some nothing))) :
    Served T C S nonce P (.ask req k') c
  | post {req : Http} {k' : Response → Dialogue Http Response β} {c : Bool × Program β}
    {p : Sent} {k : Option Envelope → Program β} (hcall : settle c.1 c.2 = .ask (.post p) k)
    (hpeer : (S.answer C P req).1 = { P with app := (S.handle P.app (p.delivered T)).1 })
    (hnext : Follows T C S.qa nonce (S.answer C P req).1 (k' (S.answer C P req).2)
      (c.1, k (some ⟨(S.handle P.app (p.delivered T)).2.code,
        (S.handle P.app (p.delivered T)).2.data⟩))) :
    Served T C S nonce P (.ask req k') c

theorem Held.keep {P Q : Peer η} {key : KeyExchange} (h : Held P nonce key)
    (hsame : Q.sessions.get? key.keyIndent = P.sessions.get? key.keyIndent) : Held Q nonce key :=
  { h with session := hsame.trans h.session }

theorem Follows.served {P : Peer η} {w : Dialogue Http Response β} {c : Bool × Program β}
    (h : Follows T C S.qa nonce P w c)
    (hagrees : ∀ m, C.Agrees (nonce m).clientPriv (S.priv (nonce m).rf.keyindent)) :
    Served T C S nonce P w c := by
  obtain ⟨key?, m, rfl, hkeyed, hheld⟩ := h
  rw [← onWire_settle, hkeyed]
  cases hsettle : settle c.1 c.2 with
  | done b => exact .done b hsettle
  | ask r k =>
    cases r with
    | handshake h =>
      obtain ⟨req, resp, key, hreq, hanswer, hresult, hident, husable, hascii⟩ :=
        exchange_agrees (T := T) P h (hagrees m)
      have hwire : onWire T C S.qa nonce key? m (.ask (.handshake h) k) = .ask req fun resp =>
          match handshakeResult C S.qa (nonce m) h resp with
          | .ok key' => onWire T C S.qa nonce (some key') (m + 1) (k (some nothing))
          | .error _ => onWire T C S.qa nonce key? (m + 1) (k none) := by
        rw [onWire, hreq]
      rw [hwire]
      refine .handshake (nonce m).rf.keyindent key.shareKey hsettle ⟨m, rfl⟩ (by rw [hanswer]) ?_
      rw [hanswer]
      refine ⟨some key, m + 1, by rw [hresult], rfl, fun _ hk => ?_⟩
      cases hk
      exact ⟨by rw [hident, Dict.get?_set, if_pos rfl], husable, hascii, m, hident⟩
    | post p =>
      have hsend := settle_sendable hsettle
      simp only [Ask.sendable, Bool.and_eq_true, decide_eq_true_eq] at hsend
      obtain ⟨key, rfl⟩ := Option.isSome_iff_exists.mp (hkeyed.trans hsend.1)
      have hk := hheld key rfl
      obtain ⟨req, resp, hreq, hanswer, hresult⟩ := post_agrees (T := T) (S := S) (n := nonce m)
        hk.session hk.usable hk.ascii hsend.2
      have hwire : onWire T C S.qa nonce (some key) m (.ask (.post p) k) = .ask req fun resp =>
          match postEnvelope C key (nonce m) p resp with
          | .ok env => onWire T C S.qa nonce (some key) (m + 1) (k (some env))
          | .error _ => onWire T C S.qa nonce (some key) (m + 1) (k none) := by
        rw [onWire, Option.bind_some, hreq, Option.map_some]
      rw [hwire]
      refine .post hsettle (by rw [hanswer]) ?_
      rw [hanswer]
      refine ⟨some key, m + 1, by rw [hresult], hkeyed, fun _ hk' => ?_⟩
      cases hk'
      exact hk.keep rfl

-- ---------------------------------------------------------------------------
-- All clients
-- ---------------------------------------------------------------------------

section

variable [DecidableEq ι] {nonces : ι → Nat → Nonce}

structure Linked (T : Casing) (C : Crypto) (qa : Bool) (nonces : ι → Nat → Nonce) (W : World ι η β)
    (V : Calls ι η β) : Prop where
  app : W.peer.app = V.app
  follows : ∀ i, Follows T C qa (nonces i) W.peer (W.clients i) (V.clients i)

/-- A step of one client leaves the keys of the others. -/
theorem Linked.update {W : World ι η β} {V : Calls ι η β} (h : Linked T C S.qa nonces W V) (i : ι)
    {w : Dialogue Http Response β} {c : Bool × Program β} {P : Peer η}
    (hother : ∀ j ≠ i, ∀ key, Held W.peer (nonces j) key → Held P (nonces j) key)
    (hnext : Follows T C S.qa (nonces i) P w c) :
    Linked T C S.qa nonces ⟨Function.update W.clients i w, P⟩
      ⟨Function.update V.clients i c, P.app⟩ := by
  refine ⟨rfl, fun j => ?_⟩
  by_cases hj : j = i
  · subst hj
    simpa using hnext
  · obtain ⟨key?, m, hw, hkeyed, hheld⟩ := h.follows j
    simp only [Function.update_of_ne hj]
    exact ⟨key?, m, hw, hkeyed, fun key hk => hother j hj key (hheld key hk)⟩

theorem linked_lockstep
    (hident : ∀ i j m k, (nonces i m).rf.keyindent = (nonces j k).rf.keyindent → i = j)
    (hagrees : ∀ i m, C.Agrees (nonces i m).clientPriv (S.priv (nonces i m).rf.keyindent)) :
    Lockstep (serveStep (β := β) S C) (callStep T S) (Linked (ι := ι) T C S.qa nonces) := by
  intro W V i h
  have hserved := (h.follows i).served (hagrees i)
  generalize hw : W.clients i = w at hserved
  unfold serveStep callStep
  rw [hw]
  cases hserved with
  | done b hsettle =>
    rw [hsettle]
    exact .none
  | handshake ident shareKey hcall hdrawn hpeer hnext =>
    obtain ⟨m, rfl⟩ := hdrawn
    rw [hcall]
    refine .some ?_
    have hlinked := h.update i (P := (S.answer C W.peer _).1) (fun j hj key hk => ?_) hnext
    · rw [hpeer] at hlinked ⊢
      simpa [← h.app] using hlinked
    · obtain ⟨k, hkey⟩ := hk.drawn
      have hne : key.keyIndent ≠ (nonces i m).rf.keyindent := fun heq =>
        hj (hident j i k m (hkey ▸ heq))
      refine hk.keep ?_
      rw [hpeer, Dict.get?_set, if_neg hne]
  | post hcall hpeer hnext =>
    rw [hcall]
    refine .some ?_
    have hlinked := h.update i (P := (S.answer C W.peer _).1)
      (fun j hj key hk => hk.keep (by rw [hpeer])) hnext
    rw [hpeer] at hlinked ⊢
    rw [h.app] at hlinked ⊢
    exact hlinked

/-- Clients that share a server have the results, and leave the application
in the state, that calling it in the same order gives. -/
theorem wire_refines_calls (programs : ι → Program β) (app : η) (order : List ι)
    (hident : ∀ i j m k, (nonces i m).rf.keyindent = (nonces j k).rf.keyindent → i = j)
    (hagrees : ∀ i m, C.Agrees (nonces i m).clientPriv (S.priv (nonces i m).rf.keyindent)) :
    Option.Rel (fun (W : World ι η β) (V : Calls ι η β) => W.peer.app = V.app ∧ ∀ i b,
        W.clients i = .done b ↔ settle (V.clients i).1 (V.clients i).2 = .done b)
      (exec (serveStep S C) ⟨fun i => onWire T C S.qa (nonces i) none 0 (programs i), ⟨.empty, app⟩⟩
        order)
      (exec (callStep T S) ⟨fun i => (false, programs i), app⟩ order) := by
  have hstart : Linked T C S.qa nonces
      ⟨fun i => onWire T C S.qa (nonces i) none 0 (programs i), ⟨.empty, app⟩⟩
      ⟨fun i => (false, programs i), app⟩ := ⟨rfl, fun i => ⟨none, 0, rfl, rfl, nofun⟩⟩
  refine rel_mono ((linked_lockstep hident hagrees).exec hstart) fun W V h =>
    ⟨h.app, fun i b => ?_⟩
  have hserved := (h.follows i).served (hagrees i)
  generalize W.clients i = w at hserved
  cases hserved with
  | done b' hsettle => simp [hsettle]
  | handshake _ _ hcall _ _ _ => simp [hcall]
  | post hcall _ _ => simp [hcall]

end

-- ---------------------------------------------------------------------------
-- The login as a client
-- ---------------------------------------------------------------------------

/-- The post without headers that would be the channel's own. -/
def Sent.ofPost (p : Post) : Sent where
  toPost := { p with headers := p.headers.filter fun h => h.1 ∉ reservedHeaders }
  gtoken := []
  verifySignature := false
  reserved h hh := by simpa using (List.mem_filter.mp hh).2

/-- What a request of `login` asks of the module. -/
def Request.ask (a : Arguments) : Request → Ask
  | .keyExchange => .handshake ⟨.str [], a.region, a.country, true⟩
  | .post p => .post (.ofPost p)

/-- `login` without a key of its own. -/
def loginProgram (U : Unicode) (md5 : Bytes → Bytes) (openudid : Str → Str → Str) (a : Arguments) :
    Program Result := (login U md5 openudid { a with keyObj := false }).mapAsk (Request.ask a)

/-- A channel whose cipher and hash leave a text as it is. -/
def plainCrypto : Crypto where
  aes _ := ⟨id, id, fun _ h => h, fun _ _ => rfl⟩
  hmacSha256 key msg := key ++ msg
  point _ := 4 :: List.replicate 64 0xab
  exchange _ _ := some (0x0a :: List.replicate 31 0xbc)

def plainNonce (first : Bool) : Nonce where
  iv := List.replicate 16 7
  clientPriv := lit "1"
  rf := ⟨lit "f0", if first then lit "0a" else lit "0b", lit "cc", 1700000000⟩
  length_iv := rfl
  ascii_keyindent := by cases first <;> decide
  ascii_once := by cases first <;> decide

def sessionEnvelope : Envelope where
  code := .int 0
  data := .obj [(lit "auth_token", .str (lit "final-token")), (lit "gtoken", .str (lit "g"))]

theorem sound_sessionEnvelope : Sound sessionEnvelope.code ∧ Sound sessionEnvelope.data :=
  have hzero : (numeral 0).length ≤ 4300 := by decide
  have hnames : [lit "auth_token", lit "gtoken"].Nodup := by decide
  ⟨hzero, hnames, by decide, Sound.of_ascii (by decide), by decide, Sound.of_ascii (by decide), trivial⟩

/-- An application that keeps what it was asked, and has a session for all. -/
def openService : Service (List Delivered) where
  qa := false
  priv _ := lit "2"
  iv _ := List.replicate 16 9
  length_iv _ := rfl
  handle app d := (app ++ [d], ⟨sessionEnvelope.code, sessionEnvelope.data, sound_sessionEnvelope⟩)

set_option maxRecDepth 8000 in
/-- Two logins at once: their requests alternate. -/
theorem wire_refines_calls_logins : ∃ W : World Bool (List Delivered) Result,
    exec (serveStep openService plainCrypto)
      ⟨fun first => onWire .dotless plainCrypto false (fun _ => plainNonce first) none 0
        (loginProgram .plain id (fun _ _ => []) codeArguments), ⟨.empty, []⟩⟩
      [true, false, false, true] = some W ∧
    (∀ first, W.clients first =
      .done (.ok ⟨.str (lit "final-token"), .str (lit "g"), .str [], .str []⟩)) ∧
    W.peer.app = List.replicate 2 ((Sent.ofPost (loginPost (fun _ _ => [])
      codeArguments)).delivered .dotless) := by
  have hident (i j : Bool) (m k : Nat)
      (h : (plainNonce i).rf.keyindent = (plainNonce j).rf.keyindent) : i = j := by
    cases i <;> cases j <;> first | rfl | exact absurd h (by decide)
  have hagrees (i : Bool) (m : Nat) : plainCrypto.Agrees (plainNonce i).clientPriv
      (openService.priv (plainNonce i).rf.keyindent) := ⟨rfl, _, rfl, rfl, by decide⟩
  obtain ⟨V, hcalls, hdone, happ⟩ : ∃ V : Calls Bool (List Delivered) Result,
      exec (callStep .dotless openService)
        ⟨fun _ => (false, loginProgram .plain id (fun _ _ => []) codeArguments), []⟩
        [true, false, false, true] = some V ∧
      (∀ first, settle (V.clients first).1 (V.clients first).2 =
        .done (.ok ⟨.str (lit "final-token"), .str (lit "g"), .str [], .str []⟩)) ∧
      V.app = List.replicate 2 ((Sent.ofPost (loginPost (fun _ _ => [])
        codeArguments)).delivered .dotless) := by
    refine ⟨_, rfl, fun first => ?_, rfl⟩
    cases first <;> rfl
  have h := wire_refines_calls (T := .dotless) (C := plainCrypto) (S := openService)
    (fun _ => loginProgram .plain id (fun _ _ => []) codeArguments) [] [true, false, false, true]
    hident hagrees
  rw [hcalls] at h
  generalize hwire : exec _ _ _ = W? at h
  cases h with
  | some hrel => exact ⟨_, hwire, fun first => (hrel.2 first _).mpr (hdone first), hrel.1.trans happ⟩

end EufyNvr.Cloud
