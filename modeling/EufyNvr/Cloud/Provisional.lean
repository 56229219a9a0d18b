import EufyNvr.Cloud.Login

/-!
# The provisional token

The runs of a login, whatever the server answers: which requests they make,
in which order, and with which result. A provisional token is neither
returned nor sent with a code that belongs to another challenge.
-/

namespace EufyNvr.Cloud

open Json Dialogue

variable {U : Unicode} {md5 : Bytes → Bytes} {openudid : Str → Str → Str} {a : Arguments}
  {t : List (Request × Option Envelope)} {r : Result} {env : Envelope} {s : Session}

/-- The envelope asks for a code. -/
def Envelope.Challenges (env : Envelope) : Prop :=
  ∃ step, env.step = some step ∧ equals 26052 step = true

/-- The envelope has been read, and asks for no code. -/
def Envelope.Settles (env : Envelope) : Prop :=
  ∃ step, env.step = some step ∧ equals 26052 step = false

/-- What a login can do after the key exchange. -/
inductive Course (md5 : Bytes → Bytes) (openudid : Str → Str → Str) (a : Arguments) :
    List (Request × Option Envelope) → Result → Prop
  | unanswered : Course md5 openudid a [(.post (loginPost openudid a), none)] (.error .raised)
  | captcha (env : Envelope) (answer : Option Envelope) :
    Course md5 openudid a
      [(.post (loginPost openudid a), some env), (.post (captchaPost openudid a), answer)]
      (.error .captchaRequired)
  | ended (env : Envelope) (e : LoginError) :
    Course md5 openudid a [(.post (loginPost openudid a), some env)] (.error e)
  | settled (env : Envelope) (h : env.Settles) :
    Course md5 openudid a [(.post (loginPost openudid a), some env)] (finish md5 env)
  | codeSent (env answer : Envelope) (key : Json) (h : env.Challenges)
    (hcode : a.verificationCode = []) :
    Course md5 openudid a [(.post (loginPost openudid a), some env),
      (.post (codePost openudid a env.token key), some answer)]
      (.error (.verificationRequired (equals 0 answer.code)))
  | codeUnanswered (env : Envelope) (key : Json) (h : env.Challenges)
    (hcode : a.verificationCode = []) :
    Course md5 openudid a [(.post (loginPost openudid a), some env),
      (.post (codePost openudid a env.token key), none)] (.error .raised)
  | refused (env : Envelope) (answer : Option Envelope) (e : LoginError) (h : env.Challenges)
    (htoken : truthy env.token = true) :
    Course md5 openudid a [(.post (loginPost openudid a), some env),
      (.post (verifyPost openudid a env.token), answer)] (.error e)
  | verified (env answer : Envelope) (h : env.Challenges) (htoken : truthy env.token = true)
    (hs : answer.Settles) :
    Course md5 openudid a [(.post (loginPost openudid a), some env),
      (.post (verifyPost openudid a env.token), some answer)] (finish md5 answer)

theorem run_verify (h : env.Challenges) (htoken : truthy env.token = true)
    (hr : Run (verify md5 openudid a env.token) t r) :
    Course md5 openudid a ((.post (loginPost openudid a), some env) :: t) r := by
  obtain ⟨answer, u, rfl, hk⟩ := run_ask_iff.mp hr
  cases answer with
  | none =>
    obtain ⟨rfl, rfl⟩ := run_done_iff.mp hk
    exact .refused env none .raised h htoken
  | some answer =>
    dsimp only at hk
    split at hk
    · obtain ⟨rfl, rfl⟩ := run_done_iff.mp hk
      exact .refused env (some answer) .raised h htoken
    · rename_i step hstep
      obtain ⟨rfl, rfl⟩ := run_done_iff.mp hk
      split
      · exact .refused env (some answer) .codeRejected h htoken
      · rename_i hne
        exact .verified env answer h htoken ⟨step, hstep, Bool.not_eq_true _ ▸ hne⟩

theorem run_sendCode (h : env.Challenges) (hcode : a.verificationCode = [])
    (hr : Run (sendCode openudid a env.token env.serverPublicKey) t r) :
    Course md5 openudid a ((.post (loginPost openudid a), some env) :: t) r := by
  unfold sendCode at hr
  split at hr
  · obtain ⟨rfl, rfl⟩ := run_done_iff.mp hr
    exact .ended env _
  · obtain ⟨answer, u, rfl, hk⟩ := run_ask_iff.mp hr
    cases answer with
    | none =>
      obtain ⟨rfl, rfl⟩ := run_done_iff.mp hk
      exact .codeUnanswered env _ h hcode
    | some answer =>
      obtain ⟨rfl, rfl⟩ := run_done_iff.mp hk
      exact .codeSent env answer _ h hcode

theorem run_challenge (h : env.Challenges) (hr : Run (challenge U md5 openudid a env) t r) :
    Course md5 openudid a ((.post (loginPost openudid a), some env) :: t) r := by
  unfold challenge at hr
  split at hr
  · obtain ⟨rfl, rfl⟩ := run_done_iff.mp hr
    exact .ended env _
  · rename_i htoken
    have htoken : truthy env.token = true := by simpa using htoken
    split at hr
    · exact run_sendCode h (List.isEmpty_iff.mp ‹_›) hr
    · split at hr
      · obtain ⟨rfl, rfl⟩ := run_done_iff.mp hr
        exact .ended env _
      · exact run_verify h htoken hr

theorem run_respond (hr : Run (respond U md5 openudid a env) t r) :
    Course md5 openudid a ((.post (loginPost openudid a), some env) :: t) r := by
  unfold respond at hr
  split at hr
  · obtain ⟨answer, rfl, rfl⟩ := run_ask_done_iff.mp hr
    exact .captcha env answer
  · split at hr
    · obtain ⟨rfl, rfl⟩ := run_done_iff.mp hr
      exact .ended env _
    · rename_i step hstep
      split at hr
      · exact run_challenge ⟨step, hstep, ‹_›⟩ hr
      · rename_i hne
        obtain ⟨rfl, rfl⟩ := run_done_iff.mp hr
        exact .settled env ⟨step, hstep, Bool.not_eq_true _ ▸ hne⟩

theorem run_firstPost (hr : Run (firstPost U md5 openudid a) t r) : Course md5 openudid a t r := by
  obtain ⟨answer, u, rfl, hk⟩ := run_ask_iff.mp hr
  cases answer with
  | none =>
    obtain ⟨rfl, rfl⟩ := run_done_iff.mp hk
    exact .unanswered
  | some env => exact run_respond hk

-- ---------------------------------------------------------------------------
-- What every run keeps to
-- ---------------------------------------------------------------------------

def Request.path : Request → Str
  | .post p => p.path
  | .keyExchange => []

/-- The `verify_code` in the body. -/
def Post.verifyCode (p : Post) : Option Json :=
  match p.body with
  | .obj ms => get? ms (lit "verify_code")
  | _ => none

structure Guarded (a : Arguments) (t : List (Request × Option Envelope)) (r : Result) : Prop where
  /-- A returned token is that of the last envelope, which asks for no code. -/
  returned : ∀ s, r = .ok s → ∃ request env, t.getLast? = some (request, some env) ∧
    s.authToken = env.token ∧ (equals 0 env.code = true ∨ env.code = .null) ∧ env.Settles
  logins : t.countP (fun e => e.1.path == loginPath) ≤ 2
  codes : t.countP (fun e => e.1.path == codePath) ≤ 1
  /-- A code is asked for where there is none, and that ends the login. -/
  asked : ∀ e ∈ t, e.1.path = codePath → a.verificationCode = [] ∧
    (e.2.isSome = true → ∃ sent, r = .error (.verificationRequired sent))
  /-- A code goes with the token of an earlier challenge. -/
  verified : ∀ before p answer after, t = before ++ (.post p, answer) :: after →
    p.verifyCode.isSome = true → ∃ request env, (request, some env) ∈ before ∧ env.Challenges ∧
      truthy env.token = true ∧ p.authToken = env.token

theorem finish_ok (h : finish md5 env = .ok s) :
    s.authToken = env.token ∧ (equals 0 env.code = true ∨ env.code = .null) := by
  unfold finish at h
  split at h
  · cases h
  · split at h
    · cases h
    · rename_i hcode
      dsimp only at h
      split at h
      · cases h
      · cases h
        simp only [Bool.or_eq_true, Bool.not_eq_true', not_or, Bool.not_eq_false,
          decide_eq_true_eq] at hcode
        exact ⟨rfl, hcode.1⟩

/-- One post, and that is the login. -/
theorem Guarded.single {answer : Option Envelope}
    (hr : ∀ s, r = .ok s → ∃ env, answer = some env ∧ s.authToken = env.token ∧
      (equals 0 env.code = true ∨ env.code = .null) ∧ env.Settles) :
    Guarded a [(.post (loginPost openudid a), answer)] r where
  returned s hs := by
    obtain ⟨env, rfl, h⟩ := hr s hs
    exact ⟨_, env, rfl, h⟩
  logins := List.countP_le_length.trans (by simp)
  codes := List.countP_le_length.trans (by simp)
  asked e he hpath := by
    rw [List.mem_singleton.mp he] at hpath
    cases hpath
  verified before p answer' after h hv := by
    cases before with
    | nil =>
      cases h
      cases hv
    | cons e before => simp at h

/-- A second post after the first. -/
theorem Guarded.pair {p : Post} {answer : Option Envelope}
    (hr : ∀ s, r = .ok s → ∃ env, answer = some env ∧ s.authToken = env.token ∧
      (equals 0 env.code = true ∨ env.code = .null) ∧ env.Settles)
    (hcode : p.path = codePath → a.verificationCode = [] ∧
      (answer.isSome = true → ∃ sent, r = .error (.verificationRequired sent)))
    (hverify : p.verifyCode.isSome = true → env.Challenges ∧ truthy env.token = true ∧
      p.authToken = env.token) :
    Guarded a [(.post (loginPost openudid a), some env), (.post p, answer)] r where
  returned s hs := by
    obtain ⟨env, rfl, h⟩ := hr s hs
    exact ⟨_, env, rfl, h⟩
  logins := List.countP_le_length
  codes := by
    rw [List.countP_cons_of_neg (by simp [Request.path, loginPost, passportPost]; decide)]
    exact List.countP_le_length.trans (by simp)
  asked e he hpath := by
    rcases List.mem_cons.mp he with rfl | he
    · cases hpath
    · rw [List.mem_singleton.mp he] at hpath ⊢
      exact hcode hpath
  verified before q answer' after h hv := by
    cases before with
    | nil =>
      cases h
      cases hv
    | cons e before =>
      rw [List.cons_append, List.cons.injEq] at h
      obtain ⟨rfl, h⟩ := h
      cases before with
      | nil =>
        cases h
        exact ⟨.post (loginPost openudid a), env, by simp, hverify hv⟩
      | cons e' before => simp at h

theorem Course.guarded (h : Course md5 openudid a t r) : Guarded a t r := by
  cases h with
  | unanswered => exact .single nofun
  | captcha env answer => exact .pair nofun nofun nofun
  | ended env e => exact .single nofun
  | settled env h =>
    refine .single fun s hs => ?_
    obtain ⟨htoken, hcode⟩ := finish_ok hs
    exact ⟨env, rfl, htoken, hcode, h⟩
  | codeSent env answer key h hcode =>
    exact .pair nofun (fun _ => ⟨hcode, fun _ => ⟨_, rfl⟩⟩) nofun
  | codeUnanswered env key h hcode => exact .pair nofun (fun _ => ⟨hcode, nofun⟩) nofun
  | refused env answer e h htoken => exact .pair nofun nofun fun _ => ⟨h, htoken, rfl⟩
  | verified env answer h htoken hs =>
    refine .pair (fun s hr => ?_) nofun fun _ => ⟨h, htoken, rfl⟩
    obtain ⟨htoken, hcode⟩ := finish_ok hr
    exact ⟨answer, rfl, htoken, hcode, hs⟩

theorem Guarded.nothing : Guarded a [] (.error .raised) where
  returned := nofun
  logins := Nat.zero_le _
  codes := Nat.zero_le _
  asked := nofun
  verified before p answer after h := by simp at h

theorem Guarded.keyExchange {answer : Option Envelope} (h : Guarded a t r) :
    Guarded a ((.keyExchange, answer) :: t) r where
  returned s hs := by
    obtain ⟨request, env, hlast, h⟩ := h.returned s hs
    exact ⟨request, env, by rw [List.getLast?_cons, hlast]; rfl, h⟩
  logins := by
    rw [List.countP_cons_of_neg (Bool.false_ne_true)]
    exact h.logins
  codes := by
    rw [List.countP_cons_of_neg (Bool.false_ne_true)]
    exact h.codes
  asked e he hpath := by
    rcases List.mem_cons.mp he with rfl | he
    · cases hpath
    · exact h.asked e he hpath
  verified before p answer' after hsplit hv := by
    cases before with
    | nil => cases hsplit
    | cons e before =>
      rw [List.cons_append, List.cons.injEq] at hsplit
      obtain ⟨request, env, hm, h⟩ := h.verified before p answer' after hsplit.2 hv
      exact ⟨request, env, List.mem_cons_of_mem _ hm, h⟩

/-- Every run of a login, whatever the server answers. -/
theorem login_guarded (h : Run (login U md5 openudid a) t r) : Guarded a t r := by
  unfold login at h
  split at h
  · exact (run_firstPost h).guarded
  · obtain ⟨answer, u, rfl, hk⟩ := run_ask_iff.mp h
    cases answer with
    | none =>
      obtain ⟨rfl, rfl⟩ := run_done_iff.mp hk
      exact Guarded.nothing.keyExchange
    | some env => exact (run_firstPost hk).guarded.keyExchange

def codeArguments : Arguments where
  email := lit "owner@example.com"
  region := lit "us-pr"
  country := lit "US"
  language := lit "en-US"
  userAgent := lit "web"
  captchaId := []
  answer := []
  verificationCode := lit "123456"
  keyObj := true
  encPassword := lit "c2VjcmV0"
  clientPublicKey := lit "04"

def challengeEnvelope : Envelope where
  code := .int 0
  data := .obj [(lit "auth_token", .str (lit "provisional-token")),
    (lit "fa_info", .obj [(lit "step", .int 26052)])]

def finalEnvelope : Envelope where
  code := .int 0
  data := .obj [(lit "auth_token", .str (lit "final-token")), (lit "gtoken", .str (lit "g"))]

/-- A challenge, and the code for it. -/
theorem login_guarded_verified : ∃ t s,
    Run (login .plain id (fun _ _ => []) codeArguments) t (.ok s) ∧
    t.map Prod.snd = [some challengeEnvelope, some finalEnvelope] ∧
    s.authToken = .str (lit "final-token") ∧ Guarded codeArguments t (.ok s) := by
  have hrun : Run (login .plain id (fun _ _ => []) codeArguments)
      [(.post (loginPost (fun _ _ => []) codeArguments), some challengeEnvelope),
        (.post (verifyPost (fun _ _ => []) codeArguments (.str (lit "provisional-token"))),
          some finalEnvelope)]
      (.ok ⟨.str (lit "final-token"), .str (lit "g"), .str [], .str []⟩) := .ask (.ask (.done _))
  exact ⟨_, _, hrun, rfl, rfl, login_guarded hrun⟩

end EufyNvr.Cloud
