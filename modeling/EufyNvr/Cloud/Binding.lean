import EufyNvr.Cloud.AuthCache
import EufyNvr.Lib.Utf8Bytes

/-!
# A cache and its account

The file of one account is accepted for another if both have one fingerprint,
and the fingerprint of an account is that of its e-mail, its region and its
country. The three are told apart in the text of which the hash is taken,
since none of them has the NUL that separates them.
-/

namespace EufyNvr.Cloud

open Json Hex Dialogue

variable {T : Casing} {sha256 : Bytes → Bytes} {A B : Account} {U : Unicode} {md5 : Bytes → Bytes}
  {openudid : Str → Str → Str} {a : Arguments} {t : List (Request × Option Envelope)}
  {r : Result} {env : Envelope} {session : Session} {found stationSn : Json}
  {content : Option Bytes} {email region country digest : Str}

-- ---------------------------------------------------------------------------
-- Accounts
-- ---------------------------------------------------------------------------

/-- No variable has a NUL. -/
structure Account.NulFree (A : Account) : Prop where
  email : ∀ s, A.eufyEmail = some s → 0 ∉ s
  region : ∀ s, A.eufyRegion = some s → 0 ∉ s
  country : ∀ s, A.eufyCountry = some s → 0 ∉ s

/-- The accounts are one to the cloud. -/
structure Account.Same (T : Casing) (A B : Account) : Prop where
  email : T.folded A.email = T.folded B.email
  region : A.region T = B.region T
  country : A.country T = B.country T

theorem nul_not_mem_email (h : A.NulFree) : 0 ∉ A.email := by
  intro hm
  have hm := mem_of_mem_strip hm
  cases hv : A.eufyEmail with
  | none =>
    rw [hv] at hm
    cases hm
  | some s =>
    rw [hv] at hm
    exact h.email s hv hm

/-- What the table of the regions gives. -/
theorem region_cases (T : Casing) (A : Account) :
    A.region T = usPr ∨ A.region T = euPr ∨ A.region T = iePr := by
  unfold Account.region
  cases hlookup : regionMap.lookup (A.regionOpt T) with
  | none => exact .inl rfl
  | some s =>
    have hall : ∀ p ∈ regionMap, p.2 = usPr ∨ p.2 = euPr ∨ p.2 = iePr := by decide
    exact hall (A.regionOpt T, s) (mem_of_lookup hlookup)

theorem nul_not_mem_region (T : Casing) (A : Account) : 0 ∉ A.region T := by
  rcases region_cases T A with h | h | h <;> rw [h] <;> decide

theorem country_uppered (hT : T.Documented) (A : Account) :
    T.uppered (A.country T) = A.country T := Casing.uppered_uppered hT _

-- ---------------------------------------------------------------------------
-- The fingerprint
-- ---------------------------------------------------------------------------

/-- Two texts without NUL, and a third one. -/
theorem joined_injective {b c a' b' c' : Str} {a : Str} (ha : 0 ∉ a) (ha' : 0 ∉ a') (hb : 0 ∉ b)
    (hb' : 0 ∉ b') (h : [0].intercalate [a, b, c] = [0].intercalate [a', b', c']) :
    a = a' ∧ b = b' ∧ c = c' := by
  have hjoin (a b c : Str) : [0].intercalate [a, b, c] = a ++ 0 :: (b ++ 0 :: c) := by
    simp [List.intercalate]
  rw [hjoin, hjoin] at h
  have hfirst := congrArg (partition 0) h
  rw [partition_present ha, partition_present ha', Partition.mk.injEq] at hfirst
  have hsecond := congrArg (partition 0) hfirst.2.2
  rw [partition_present hb, partition_present hb', Partition.mk.injEq] at hsecond
  exact ⟨hfirst.1, hsecond.1, hsecond.2.2⟩

/-- What is asked of the hash. -/
structure Hashes (sha256 : Bytes → Bytes) : Prop where
  injective : Function.Injective sha256
  ne_nil : ∀ b, sha256 b ≠ []

/-- The fingerprint of an account. -/
def Account.fingerprint (T : Casing) (sha256 : Bytes → Bytes) (A : Account) : Option Str :=
  accountFingerprint T sha256 A.email (A.region T) (A.country T)

theorem identity_eq (hT : T.Documented) (A : Account) :
    identity T A.email (A.region T) (A.country T) =
      [0].intercalate [T.folded A.email, A.region T, A.country T] := by
  rw [identity, country_uppered hT, Account.email, strip_strip]

theorem fingerprint_ascii (h : accountFingerprint T sha256 email region country = some digest) :
    Ascii digest := by
  obtain ⟨b, -, rfl⟩ := Option.map_eq_some_iff.mp h
  intro c hc
  have := isHexDigit_hex hc
  simp only [isAscii, decide_eq_true_eq]
  omega

theorem fingerprint_ne_nil (hs : Hashes sha256)
    (h : accountFingerprint T sha256 email region country = some digest) : digest ≠ [] := by
  obtain ⟨b, -, rfl⟩ := Option.map_eq_some_iff.mp h
  intro hnil
  have hlen := length_hex (sha256 b)
  rw [hnil, List.length_nil] at hlen
  exact hs.ne_nil b (List.length_eq_zero_iff.mp (by omega))

/-- One fingerprint, one account. -/
theorem fingerprint_iff (hT : T.Documented) (hs : Hashes sha256) (hA : A.NulFree) (hB : B.NulFree)
    (h : A.fingerprint T sha256 = some digest) :
    B.fingerprint T sha256 = some digest ↔ A.Same T B := by
  rw [Account.fingerprint, accountFingerprint, identity_eq hT] at h ⊢
  constructor
  · intro h'
    obtain ⟨b, hb, hhex⟩ := Option.map_eq_some_iff.mp h
    obtain ⟨b', hb', hhex'⟩ := Option.map_eq_some_iff.mp h'
    have hdigest : sha256 b = sha256 b' := by
      have hbytes := congrArg fromhex (hhex.trans hhex'.symm)
      rwa [fromhex_hex, fromhex_hex, Option.some.injEq] at hbytes
    have hdecode := Utf8.decode_encode hb
    rw [hs.injective hdigest, Utf8.decode_encode hb', Option.some.injEq] at hdecode
    obtain ⟨hemail, hregion, hcountry⟩ := joined_injective
      (Casing.nul_not_mem_folded hT (nul_not_mem_email hB))
      (Casing.nul_not_mem_folded hT (nul_not_mem_email hA)) (nul_not_mem_region T B)
      (nul_not_mem_region T A) hdecode
    exact ⟨hemail.symm, hregion.symm, hcountry.symm⟩
  · rintro ⟨hemail, hregion, hcountry⟩
    rwa [hemail, hregion, hcountry] at h

-- ---------------------------------------------------------------------------
-- What is accepted
-- ---------------------------------------------------------------------------

/-- What is read from a file. -/
def document (content : Option Bytes) : Option Json :=
  (content.bind Utf8.decode).bind fun text => loads (newlines text)

/-- A complete cache with a fingerprint. -/
structure Binds (cached : List (Str × Json)) (fingerprint : Str) : Prop where
  version : equals cacheVersion (getD cached "cacheVersion") = true
  token : truthy (getD cached "authToken") = true
  station : truthy (getD cached "stationSn") = true
  fingerprint : get? cached (lit "accountFingerprint") = some (.str fingerprint)

theorem compareDigest_eq {s t : Str} (ht : Ascii t) :
    compareDigest s t = some true ↔ s = t := by
  unfold compareDigest
  split
  · simp
  · rename_i hs
    simp only [reduceCtorEq, false_iff]
    rintro rfl
    exact hs ⟨ht, ht⟩

theorem cacheMatches_iff (hs : Hashes sha256) :
    cacheMatches T sha256 content email region country = some true ↔
      ∃ cached digest, document content = some (.obj cached) ∧
        accountFingerprint T sha256 email region country = some digest ∧ Binds cached digest := by
  rw [cacheMatches, ← document]
  constructor
  · intro h
    split at h
    · rename_i cached hdocument
      dsimp only at h
      split at h
      · rename_i hcomplete
        split at h
        · rename_i actual hactual
          obtain ⟨digest, hdigest, heq⟩ := Option.bind_eq_some_iff.mp h
          rw [compareDigest_eq (fingerprint_ascii hdigest)] at heq
          simp only [Bool.and_eq_true] at hcomplete
          obtain ⟨⟨hversion, htoken⟩, hstation⟩ := hcomplete
          refine ⟨cached, digest, hdocument, hdigest, hversion, htoken, hstation, ?_⟩
          -- Without an entry the empty text is compared, which is no fingerprint.
          cases hget : get? cached (lit "accountFingerprint") with
          | none =>
            rw [hget, Option.getD_none, Json.str.injEq] at hactual
            exact absurd (hactual ▸ heq).symm (fingerprint_ne_nil hs hdigest)
          | some v =>
            rw [hget, Option.getD_some] at hactual
            rw [hactual, heq]
        · cases h
      · cases h
    · cases h
  · rintro ⟨cached, digest, hdocument, hdigest, hbinds⟩
    rw [hdocument]
    simp only [hbinds.version, hbinds.token, hbinds.station, Bool.and_self, if_true,
      hbinds.fingerprint, Option.getD_some, hdigest, Option.bind_some]
    exact (compareDigest_eq (fingerprint_ascii hdigest)).mpr rfl

-- ---------------------------------------------------------------------------
-- What is written
-- ---------------------------------------------------------------------------

/-- A session with a token, read from JSON texts. -/
structure Session.Received (session : Session) : Prop where
  token : truthy session.authToken = true
  authToken : Sound session.authToken
  gtoken : Sound session.gtoken
  userId : Sound session.userId

theorem sound_getD {ms : List (Str × Json)} (h : SoundMembers ms) (key : String) :
    Sound (getD ms key) := by
  rw [getD, get?]
  cases hlookup : ms.lookup (lit key) with
  | none => trivial
  | some v => exact (soundMembers_iff.mp h (lit key, v) (mem_of_lookup hlookup)).2

theorem sound_orElse {v w : Json} (hv : Sound v) (hw : Sound w) : Sound (orElse v w) := by
  unfold orElse
  split
  · exact hv
  · exact hw

theorem finish_received (h : finish md5 env = .ok session) (hread : Sound env.data) :
    session.Received := by
  have hmembers : SoundMembers env.members := by
    unfold Envelope.members
    split
    · rename_i ms hms
      rw [hms] at hread
      exact hread.2
    · trivial
  have hempty : Sound (.str []) := Unpaired.nil
  have hkey (key key' : String) : Sound (orElse (orElse (getD env.members key)
      (getD env.members key')) (.str [])) :=
    sound_orElse (sound_orElse (sound_getD hmembers key) (sound_getD hmembers key')) hempty
  unfold finish at h
  split at h
  · cases h
  · split at h
    · cases h
    · rename_i htoken
      simp only [Bool.or_eq_true, Bool.not_eq_true', not_or, Bool.not_eq_false] at htoken
      dsimp only at h
      split at h
      · cases h
      · rename_i gtoken hgtoken
        cases h
        refine ⟨htoken.2, sound_orElse (sound_getD hmembers _) (sound_getD hmembers _), ?_,
          hkey _ _⟩
        unfold gtokenOf at hgtoken
        split at hgtoken
        · split at hgtoken
          · obtain ⟨b, -, rfl⟩ := Option.map_eq_some_iff.mp hgtoken
            exact sound_hex (md5 b)
          · cases hgtoken
        · cases hgtoken
          exact hkey _ _

theorem Course.received (h : Course md5 openudid a t (.ok session))
    (hread : ∀ e ∈ t, ∀ env, e.2 = some env → Sound env.data) : session.Received := by
  generalize hr : Except.ok session = r at h
  cases h with
  | settled env h =>
    exact finish_received hr.symm (hread (_, some env) (List.mem_singleton_self _) env rfl)
  | verified env answer h htoken hs =>
    exact finish_received hr.symm
      (hread (_, some answer) (.tail _ (List.mem_singleton_self _)) answer rfl)
  | _ => cases hr

/-- What a login gives has been read from the answers to it. -/
theorem login_received (h : Run (login U md5 openudid a) t (.ok session))
    (hread : ∀ e ∈ t, ∀ env, e.2 = some env → Sound env.data) : session.Received := by
  unfold login at h
  split at h
  · exact (run_firstPost h).received hread
  · obtain ⟨answer, u, rfl, hk⟩ := run_ask_iff.mp h
    cases answer with
    | none => cases (run_done_iff.mp hk).2
    | some env => exact (run_firstPost hk).received fun e he => hread e (List.mem_cons_of_mem _ he)

/-- A text of the environment, where a byte that is not UTF-8 is a low surrogate. -/
def FromEnvironment (s : Str) : Prop := ∀ c ∈ s, c ≤ 0x10ffff ∧ isHigh c = false

theorem main_refreshed {password : Str} {eufyStationSn : Option Str} {bytes : Bytes}
    (h : main T sha256 A password eufyStationSn r found = .refreshed bytes) :
    ∃ session stationSn digest, r = .ok session ∧ truthy stationSn = true ∧
      (stationSn = found ∨ stationSn = .str (strip (eufyStationSn.getD []))) ∧
      A.fingerprint T sha256 = some digest ∧
      Utf8.encode (dumps spaced (authFile session stationSn (A.region T) (A.country T) digest)) =
        some bytes := by
  unfold main at h
  split at h
  · cases h
  · split at h
    · cases h
    · rename_i session
      extract_lets explicit stationSn at h
      have horigin : stationSn = found ∨ stationSn = .str explicit := by
        by_cases hexplicit : explicit.isEmpty = true
        · exact .inl (if_pos hexplicit)
        · exact .inr (if_neg hexplicit)
      split at h
      · cases h
      · rename_i hstation
        rw [Bool.not_eq_true, Bool.not_eq_false'] at hstation
        split at h
        · cases h
        · rename_i digest hdigest
          split at h
          · cases h
          · rename_i hencode
            cases h
            exact ⟨session, stationSn, digest, rfl, hstation, horigin, hdigest, hencode⟩

theorem unpaired_country (hT : T.Documented) (h : A.fingerprint T sha256 = some digest) :
    Unpaired (A.country T) := by
  rw [Account.fingerprint, accountFingerprint, identity_eq hT] at h
  obtain ⟨b, hb, -⟩ := Option.map_eq_some_iff.mp h
  have hchars := Utf8.encode_isSome.mp (Option.isSome_of_eq_some hb)
  refine .of_no_high fun c hc => ?_
  have hcharacter := hchars c (by simp [List.intercalate, hc])
  refine ⟨?_, (isHigh_of_isCharacter hcharacter).1⟩
  simp only [isCharacter, decide_eq_true_eq, Nat.isValidChar] at hcharacter
  omega

theorem sound_authFile (hs : session.Received) (hstation : Sound stationSn)
    (hregion : Unpaired region) (hcountry : Unpaired country) (hdigest : Unpaired digest) :
    Sound (authFile session stationSn region country digest) := by
  have hkeys : [lit "authToken", lit "gtoken", lit "userId", lit "stationSn", lit "region",
      lit "webCountry", lit "appName", lit "cacheVersion", lit "accountFingerprint"].Nodup := by
    decide +kernel
  have hone : (numeral cacheVersion).length ≤ 4300 := by decide
  refine ⟨hkeys, ?_⟩
  simp only [soundMembers_iff, List.forall_mem_cons, List.not_mem_nil, false_imp_iff, implies_true,
    and_true]
  exact ⟨⟨by decide, hs.authToken⟩, ⟨by decide, hs.gtoken⟩, ⟨by decide, hs.userId⟩,
    ⟨by decide, hstation⟩, ⟨by decide, hregion⟩, ⟨by decide, hcountry⟩,
    ⟨by decide, Unpaired.of_printable (by decide)⟩, ⟨by decide, hone⟩, by decide, hdigest⟩

/-- What is read from the file of a value. -/
theorem document_dumps {v : Json} {bytes : Bytes} (hv : Sound v)
    (h : Utf8.encode (dumps spaced v) = some bytes) : document (some bytes) = some v := by
  have hprint := printable_dump spaced_oneLine v 0 hv
  have hreturn : 13 ∉ dumps spaced v := fun hm => absurd (hprint 13 hm) (by decide)
  rw [document, Option.bind_some, Utf8.decode_encode h, Option.bind_some, newlines_self hreturn,
    loads_dumps_self hv]

theorem document_refreshed (hT : T.Documented) (hs : session.Received) (hfound : Sound found)
    {password : Str} {eufyStationSn : Option Str} {bytes : Bytes}
    (hstation : ∀ s, eufyStationSn = some s → FromEnvironment s)
    (h : main T sha256 A password eufyStationSn (.ok session) found = .refreshed bytes) :
    ∃ cached digest, document (some bytes) = some (.obj cached) ∧
      A.fingerprint T sha256 = some digest ∧ Binds cached digest ∧
      getD cached "region" = .str (A.region T) := by
  obtain ⟨session', stationSn, digest, heq, htruthy, horigin, hdigest, hencode⟩ := main_refreshed h
  cases heq
  have hsn : Sound stationSn := by
    rcases horigin with rfl | rfl
    · exact hfound
    · refine Unpaired.of_no_high fun c hc => ?_
      have hc := mem_of_mem_strip hc
      cases hv : eufyStationSn with
      | none =>
        rw [hv] at hc
        cases hc
      | some s =>
        rw [hv] at hc
        exact hstation s hv c hc
  have hregion : Unpaired (A.region T) := by
    rcases region_cases T A with h | h | h <;> rw [h] <;> decide
  have hhex : Unpaired digest := by
    obtain ⟨b, -, rfl⟩ := Option.map_eq_some_iff.mp hdigest
    exact sound_hex (sha256 b)
  have hsound := sound_authFile hs hsn hregion (unpaired_country hT hdigest) hhex
  exact ⟨_, digest, document_dumps hsound hencode, hdigest, ⟨rfl, hs.token, htruthy, rfl⟩, rfl⟩

/-- The file that a login under one account writes, and any file, looked at
under another account. -/
theorem cache_bound (hT : T.Documented) (hs : Hashes sha256) (hA : A.NulFree) (hB : B.NulFree)
    {password : Str} {eufyStationSn : Option Str} {bytes : Bytes}
    (hlogin : Run (login U md5 openudid a) t (.ok session))
    (hread : ∀ e ∈ t, ∀ env, e.2 = some env → Loaded env.data) (hfound : Loaded found)
    (hstation : ∀ s, eufyStationSn = some s → FromEnvironment s)
    (hmain : main T sha256 A password eufyStationSn (.ok session) found = .refreshed bytes) :
    (cacheMatches T sha256 (some bytes) B.email (B.region T) (B.country T) = some true ↔
      A.Same T B) ∧
    ∀ content, cacheMatches T sha256 content B.email (B.region T) (B.country T) = some true →
      ∃ cached digest, document content = some (.obj cached) ∧
        B.fingerprint T sha256 = some digest ∧ Binds cached digest := by
  have hreceived := login_received hlogin fun e he env h => loaded_iff.mp (hread e he env h)
  obtain ⟨cached, digest, hdocument, hdigest, hbinds, -⟩ :=
    document_refreshed hT hreceived (loaded_iff.mp hfound) hstation hmain
  refine ⟨?_, fun content => (cacheMatches_iff hs).mp⟩
  rw [cacheMatches_iff hs, ← fingerprint_iff hT hs hA hB hdigest]
  constructor
  · rintro ⟨cached', digest', hdocument', hdigest', hbinds'⟩
    rw [hdocument, Option.some.injEq, Json.obj.injEq] at hdocument'
    subst hdocument'
    have hsame := hbinds.fingerprint.symm.trans hbinds'.fingerprint
    rw [Option.some.injEq, Json.str.injEq] at hsame
    rw [hsame]
    exact hdigest'
  · exact fun h => ⟨cached, digest, hdocument, h, hbinds⟩

def ownerIdentity : Bytes :=
  (lit "owner@example.com" ++ 0 :: lit "ie-pr" ++ 0 :: lit "IE").map UInt8.ofNat

/-- Its digest, and longer texts for what is not looked at. -/
def ownerHash (b : Bytes) : Bytes :=
  if b = ownerIdentity then
    [212, 55, 170, 89, 167, 215, 21, 190, 55, 68, 5, 188, 180, 204, 174, 37, 178, 28, 72, 44, 197,
      86, 193, 103, 98, 220, 98, 101, 32, 246, 210, 53]
  else List.replicate 33 0 ++ b

theorem ownerHash_hashes : Hashes ownerHash where
  injective b b' h := by
    have hlen := congrArg List.length h
    unfold ownerHash at h hlen
    split at h <;> split at h
    · simp_all
    · simp_all
    · simp_all
    · exact List.append_cancel_left h
  ne_nil b := by
    unfold ownerHash
    split <;> simp [List.replicate]

def owner : Account where
  eufyEmail := some (lit " Owner@Example.com")
  eufyRegion := some (lit "ie")
  eufyCountry := none

def ownerAgain : Account where
  eufyEmail := some (lit "owner@example.COM ")
  eufyRegion := some (lit " IE")
  eufyCountry := some (lit "ie")

def ownerSession : Session := ⟨.str (lit "final-token"), .str (lit "g"), .str [], .str []⟩

def ownerMain (A : Account) : Ending :=
  main .dotless ownerHash A (lit "secret") none (.ok ownerSession) (.str (lit "T8N000000000"))

def Ending.isRefreshed : Ending → Bool
  | .refreshed _ => true
  | _ => false

theorem refreshed_of {e : Ending} (h : e.isRefreshed = true) : ∃ bytes, e = .refreshed bytes := by
  cases e with
  | refreshed bytes => exact ⟨bytes, rfl⟩
  | _ => cases h

theorem owner_login : Run (login .plain id (fun _ _ => []) codeArguments)
    [(.post (loginPost (fun _ _ => []) codeArguments), some finalEnvelope)] (.ok ownerSession) :=
  .ask (.done _)

theorem owner_answers : ∀ e ∈ [(Request.post (loginPost (fun _ _ => []) codeArguments),
    some finalEnvelope)], ∀ env, e.2 = some env → Loaded env.data := by
  intro e he env henv
  rw [List.mem_singleton.mp he] at henv
  cases henv
  exact loaded_iff.mpr ⟨by decide, ⟨by decide, Unpaired.of_printable (by decide), by decide,
    Unpaired.of_printable (by decide), trivial⟩⟩

theorem owner_found : Loaded (.str (lit "T8N000000000")) :=
  loaded_iff.mpr (Unpaired.of_printable (by decide))

theorem owner_unset (s : Str) (h : (none : Option Str) = some s) : FromEnvironment s := nomatch h

/-- Two spellings of one account. -/
theorem cache_bound_again : ∃ bytes, ownerMain owner = .refreshed bytes ∧
    cacheMatches .dotless ownerHash (some bytes) ownerAgain.email (ownerAgain.region .dotless)
      (ownerAgain.country .dotless) = some true := by
  obtain ⟨bytes, hmain⟩ := refreshed_of (e := ownerMain owner) (by decide +kernel)
  have hnul {s : Str} (hs : 0 ∉ s) (u : Str) (hu : some s = some u) : 0 ∉ u :=
    Option.some.inj hu ▸ hs
  have hA : owner.NulFree := ⟨hnul (by decide), hnul (by decide), nofun⟩
  have hB : ownerAgain.NulFree := ⟨hnul (by decide), hnul (by decide), hnul (by decide)⟩
  have hsame : owner.Same .dotless ownerAgain :=
    ⟨by decide +kernel, by decide +kernel, by decide +kernel⟩
  exact ⟨bytes, hmain, (cache_bound Casing.dotless_documented ownerHash_hashes hA hB owner_login
    owner_answers owner_found owner_unset hmain).1.mpr hsame⟩

end EufyNvr.Cloud
