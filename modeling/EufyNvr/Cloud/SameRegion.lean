import EufyNvr.Cloud.Binding

/-!
# The region of a stream

`REGION` of `eufy_stream.py`, beside the region that the login before it was
made in. Both read `EUFY_REGION`, each by its own table: the login knows no
name with `-pr`, and takes an upper case where the stream takes a lower one.
-/

namespace EufyNvr.Cloud

open Json Dialogue Casing

variable {T : Casing} {sha256 : Bytes → Bytes} {A : Account} {U : Unicode} {md5 : Bytes → Bytes}
  {openudid : Str → Str → Str} {a : Arguments} {t : List (Request × Option Envelope)}
  {session : Session} {found : Json} {bytes : Bytes} {s name service region stream stationSn : Str}

-- ---------------------------------------------------------------------------
-- The two programs
-- ---------------------------------------------------------------------------

section

variable (T)

/-- The region whose passport host `main` logs in to. -/
def loginRegion (A : Account) : Str := resolveRegion T passport (A.region T)

/-- `REGION`, where `auth` is read from `auth.json`. It raises for `none`. -/
def streamRegion (eufyRegion : Option Str) (auth : Json) : Option Str :=
  match eufyRegion, auth with
  | some (c :: s), _ => some (c :: s)
  | _, .obj ms =>
    match orElse (getD ms "region") (.str (lit "US")) with
    | .str s => some s
    | _ => none
  | _, _ => none

/-- The host of each region, and its name in the subprotocol. -/
def served : List (Str × Str × Str) :=
  [(usPr, lit "security-smart.eufylife.com", lit "US"),
    (euPr, lit "security-smart-eu.eufylife.com", lit "EU"),
    (iePr, lit "security-smart-ie.eufylife.com", lit "IE")]

/-- A stream is made in a region. -/
def Uses (stationSn stream region : Str) : Prop :=
  ∃ host name, (region, host, name) ∈ served ∧
    smartUrls T stationSn stream = (lit "wss://" ++ host ++ lit "/v1/rtc/ws/join?reqtype=nvr",
      lit "https://" ++ host ++ lit "/v1/smart/nvr/ws/sign?station_sn=" ++ stationSn) ∧
    signalingRegion T stream = name

end

/-- The settings that the two programs read as different regions, without the
white space around them. -/
def Diverges (s : Str) : Prop :=
  Spells (lit "eu-pr") s ∨ Spells (lit "ie-pr") s ∨ s = [0x131, 101] ∨ s = [0x131, 69]

instance (s : Str) : Decidable (Diverges s) := inferInstanceAs (Decidable (_ ∨ _))

-- ---------------------------------------------------------------------------
-- What a region is resolved to
-- ---------------------------------------------------------------------------

theorem resolveRegion_eq (h : (table service).map Prod.fst = [usPr, euPr, iePr]) :
    resolveRegion T service region =
      if normalizeRegion T region = euPr ∨ normalizeRegion T region = iePr then
        normalizeRegion T region
      else usPr := by
  rw [resolveRegion, h]
  simp only [List.mem_cons, List.not_mem_nil, or_false, true_or, if_true]
  by_cases hus : normalizeRegion T region = usPr
  · simp only [hus, true_or, ite_self]
  · simp only [hus, false_or]

theorem keys_smart : (table smart).map Prod.fst = [usPr, euPr, iePr] := by decide +kernel

/-- The suffix may be there already. -/
theorem normalizeRegion_iff (hT : T.Documented) (hne : region ≠ []) (name : Str)
    (hname : Ascii name) (hk : 107 ∉ name) (hsuffix : ¬ lit "-pr" <:+ name) :
    normalizeRegion T region = name ++ lit "-pr" ↔
      Spells name (strip region) ∨ Spells (name ++ lit "-pr") (strip region) := by
  have hascii : Ascii (name ++ lit "-pr") := List.forall_mem_append.mpr ⟨hname, by decide⟩
  have hkelvin : 107 ∉ name ++ lit "-pr" := by
    rw [List.mem_append, not_or]
    exact ⟨hk, by decide⟩
  have hsome : region.isEmpty = false := by simpa using hne
  rw [normalizeRegion, hsome, if_neg Bool.false_ne_true, ← lowered_eq hT hname hk,
    ← lowered_eq hT hascii hkelvin]
  split
  · rename_i hpr
    refine ⟨.inr, fun h => h.resolve_left fun h => hsuffix (h ▸ hpr)⟩
  · rename_i hpr
    rw [List.append_left_inj]
    exact ⟨.inl, fun h => h.resolve_right fun h => hpr (h ▸ List.suffix_append _ _)⟩

/-- The region of a setting that is there. -/
theorem resolveRegion_smart (hT : T.Documented) (hne : region ≠ []) :
    resolveRegion T smart region =
      if Spells (lit "eu") (strip region) ∨ Spells (lit "eu-pr") (strip region) then euPr
      else if Spells (lit "ie") (strip region) ∨ Spells (lit "ie-pr") (strip region) then iePr
      else usPr := by
  have heu : normalizeRegion T region = euPr ↔ _ :=
    normalizeRegion_iff hT hne (lit "eu") (by decide) (by decide) (by decide)
  have hie : normalizeRegion T region = iePr ↔ _ :=
    normalizeRegion_iff hT hne (lit "ie") (by decide) (by decide) (by decide)
  rw [resolveRegion_eq keys_smart]
  by_cases he : normalizeRegion T region = euPr
  · rw [if_pos (.inl he), he]
    exact (if_pos (heu.mp he)).symm
  · by_cases hi : normalizeRegion T region = iePr
    · rw [if_pos (.inr hi), hi]
      exact ((if_neg (mt heu.mpr he)).trans (if_pos (hie.mp hi))).symm
    · rw [if_neg (not_or.mpr ⟨he, hi⟩)]
      exact ((if_neg (mt heu.mpr he)).trans (if_neg (mt hie.mpr hi))).symm

-- ---------------------------------------------------------------------------
-- What a login makes of a setting
-- ---------------------------------------------------------------------------

theorem uppered_eu (hT : T.Documented) : T.uppered s = lit "EU" ↔ Spells (lit "eu") s := by
  have hpair := uppered_eq (s := s) hT (c := 69) (d := 85) (.inl rfl) (.inr rfl)
  exact hpair.trans (or_iff_left fun h => absurd h.1 (by decide))

theorem uppered_ie (hT : T.Documented) : T.uppered s = lit "IE" ↔
    Spells (lit "ie") s ∨ s = [0x131, 101] ∨ s = [0x131, 69] := by
  have hpair := uppered_eq (s := s) hT (c := 73) (d := 69) (.inr (.inl rfl)) (.inl rfl)
  have hletter (y : Nat) : y < 128 ∧ asciiLower y = 69 + 32 ↔ y = 101 ∨ y = 69 := by
    unfold asciiLower
    split <;> omega
  refine hpair.trans (or_congr_right ?_)
  simp only [true_and, hletter]
  constructor
  · rintro ⟨y, rfl, rfl | rfl⟩
    · exact .inl rfl
    · exact .inr rfl
  · rintro (rfl | rfl)
    · exact ⟨101, rfl, .inl rfl⟩
    · exact ⟨69, rfl, .inr rfl⟩

theorem region_eq (hT : T.Documented) (hs : strip (envOr A.eufyRegion (lit "US")) = s) :
    A.region T = if Spells (lit "eu") s then euPr
      else if Spells (lit "ie") s ∨ s = [0x131, 101] ∨ s = [0x131, 69] then iePr
      else usPr := by
  rw [Account.region, Account.regionOpt, hs]
  by_cases heu : T.uppered s = lit "EU"
  · rw [if_pos ((uppered_eu hT).mp heu), heu]
    decide
  · rw [if_neg (mt (uppered_eu hT).mpr heu)]
    by_cases hie : T.uppered s = lit "IE"
    · rw [if_pos ((uppered_ie hT).mp hie), hie]
      decide
    · rw [if_neg (mt (uppered_ie hT).mpr hie)]
      cases hus : regionMap.lookup (T.uppered s) with
      | none => rfl
      | some r =>
        have hmem : (T.uppered s, r) ∈ regionMap := mem_of_lookup hus
        simp only [regionMap, List.mem_cons, Prod.mk.injEq, List.not_mem_nil, or_false] at hmem
        rcases hmem with ⟨-, rfl⟩ | ⟨h, -⟩ | ⟨h, -⟩
        · rfl
        · exact absurd h heu
        · exact absurd h hie

/-- The passport knows the region as it is. -/
theorem loginRegion_eq (T : Casing) (A : Account) : loginRegion T A = A.region T := by
  rw [loginRegion]
  rcases region_cases T A with h | h | h <;> rw [h] <;> rfl

-- ---------------------------------------------------------------------------
-- What a stream is made of
-- ---------------------------------------------------------------------------

/-- All three texts follow the region that the setting is resolved to. -/
theorem urls_of_mem (stationSn : Str) (h : (resolveRegion T smart stream, s, name) ∈ served) :
    smartUrls T stationSn stream = (lit "wss://" ++ s ++ lit "/v1/rtc/ws/join?reqtype=nvr",
      lit "https://" ++ s ++ lit "/v1/smart/nvr/ws/sign?station_sn=" ++ stationSn) ∧
    signalingRegion T stream = name := by
  rw [smartUrls, baseUrl, signalingRegion]
  generalize resolveRegion T smart stream = region at h
  simp only [served, List.mem_cons, Prod.mk.injEq, List.not_mem_nil, or_false] at h
  rcases h with ⟨rfl, rfl, rfl⟩ | ⟨rfl, rfl, rfl⟩ | ⟨rfl, rfl, rfl⟩ <;> exact ⟨rfl, rfl⟩

theorem resolveRegion_cases (T : Casing) (stream : Str) :
    ∃ host name, (resolveRegion T smart stream, host, name) ∈ served := by
  rw [resolveRegion_eq keys_smart]
  split
  · rename_i h
    rcases h with h | h <;> rw [h]
    · exact ⟨_, _, .tail _ (.head _)⟩
    · exact ⟨_, _, .tail _ (.tail _ (.head _))⟩
  · exact ⟨_, _, .head _⟩

theorem uses_iff : Uses T stationSn stream region ↔ resolveRegion T smart stream = region := by
  obtain ⟨host, name, hmem⟩ := resolveRegion_cases T stream
  obtain ⟨hurls, hname⟩ := urls_of_mem stationSn hmem
  constructor
  · rintro ⟨host', name', hmem', -, hname'⟩
    -- The names of the regions are different.
    have hinj : ∀ p ∈ served, ∀ q ∈ served, p.2.2 = q.2.2 → p.1 = q.1 := by decide +kernel
    exact hinj _ hmem _ hmem' (hname.symm.trans hname')
  · rintro rfl
    exact ⟨host, name, hmem, hurls, hname⟩

-- ---------------------------------------------------------------------------
-- One setting for both
-- ---------------------------------------------------------------------------

/-- A setting that is there. -/
theorem resolveRegion_agrees (hT : T.Documented) (hne : stream ≠ [])
    (hA : A.eufyRegion = some stream) :
    resolveRegion T smart stream = A.region T ↔ ¬ Diverges (strip stream) := by
  have henv : envOr A.eufyRegion (lit "US") = stream := by
    obtain ⟨c, u, rfl⟩ := List.exists_cons_of_ne_nil hne
    rw [hA]
    rfl
  rw [resolveRegion_smart hT hne, region_eq hT (congrArg strip henv), Diverges]
  generalize strip stream = s
  by_cases heu : Spells (lit "eu") s
  · have hne {name : Str} (h : Spells name s) : name = lit "eu" := Spells.unique h heu
    rw [if_pos (.inl heu), if_pos heu, eq_self, true_iff]
    rintro (h | h | rfl | rfl)
    · exact absurd (hne h) (by decide)
    · exact absurd (hne h) (by decide)
    · exact absurd heu (by decide)
    · exact absurd heu (by decide)
  · by_cases hie : Spells (lit "ie") s
    · have hne {name : Str} (h : Spells name s) : name = lit "ie" := Spells.unique h hie
      have hpr : ¬ (Spells (lit "eu") s ∨ Spells (lit "eu-pr") s) := by
        rintro (h | h)
        · exact heu h
        · exact absurd (hne h) (by decide)
      rw [if_neg hpr, if_pos (.inl hie), if_neg heu, if_pos (.inl hie), eq_self, true_iff]
      rintro (h | h | rfl | rfl)
      · exact hpr (.inr h)
      · exact absurd (hne h) (by decide)
      · exact absurd hie (by decide)
      · exact absurd hie (by decide)
    · simp only [heu, hie, false_or, if_false]
      by_cases hdotless : s = [0x131, 101] ∨ s = [0x131, 69]
      · have hpr (name : Str) : ¬ Spells name s := by
          rcases hdotless with rfl | rfl <;> exact fun h => absurd h.1 (by decide)
        rw [if_neg (hpr _), if_neg (hpr _), if_pos hdotless]
        exact iff_of_false (by decide) (not_not_intro (.inr (.inr hdotless)))
      · rw [if_neg hdotless]
        split_ifs with heupr hiepr
        · exact iff_of_false (by decide) (not_not_intro (.inl heupr))
        · exact iff_of_false (by decide) (not_not_intro (.inr (.inl hiepr)))
        · exact iff_of_true rfl fun h => h.elim heupr fun h => h.elim hiepr hdotless

/-- What `REGION` is, beside the file of the login. -/
theorem streamRegion_eq {cached : List (Str × Json)}
    (hregion : getD cached "region" = .str (A.region T)) :
    streamRegion A.eufyRegion (.obj cached) = some (envOr A.eufyRegion (A.region T)) := by
  have hne : (A.region T).isEmpty = false := by
    rcases region_cases T A with h | h | h <;> rw [h] <;> rfl
  have hauth : orElse (getD cached "region") (.str (lit "US")) = .str (A.region T) := by
    rw [hregion, orElse, truthy, hne]
    rfl
  rcases A.eufyRegion with _ | _ | ⟨c, s⟩
  · simp only [streamRegion, hauth, envOr]
  · simp only [streamRegion, hauth, envOr]
  · rfl

/-- The three texts of a stream are those of the region of the login. -/
theorem regions_agree (hT : T.Documented) {password : Str} {eufyStationSn : Option Str}
    (hlogin : Run (login U md5 openudid a) t (.ok session))
    (hread : ∀ e ∈ t, ∀ env, e.2 = some env → Loaded env.data) (hfound : Loaded found)
    (hstation : ∀ s, eufyStationSn = some s → FromEnvironment s)
    (hmain : main T sha256 A password eufyStationSn (.ok session) found = .refreshed bytes) :
    (∃ auth stream, document (some bytes) = some auth ∧
      streamRegion A.eufyRegion auth = some stream ∧ Uses T stationSn stream (loginRegion T A)) ↔
    ¬ Diverges (strip (envOr A.eufyRegion (lit "US"))) := by
  have hreceived := login_received hlogin fun e he env h => loaded_iff.mp (hread e he env h)
  obtain ⟨cached, digest, hdocument, -, -, hregion⟩ :=
    document_refreshed hT hreceived (loaded_iff.mp hfound) hstation hmain
  have hstream := streamRegion_eq hregion
  have hagree : resolveRegion T smart (envOr A.eufyRegion (A.region T)) = A.region T ↔
      ¬ Diverges (strip (envOr A.eufyRegion (lit "US"))) := by
    match h : A.eufyRegion with
    | some (c :: s) => exact resolveRegion_agrees hT (List.cons_ne_nil c s) h
    | none | some [] =>
      have hus : A.region T = usPr := by
        rw [region_eq hT (s := lit "US") (by rw [h]; rfl)]
        rfl
      rw [envOr, hus]
      exact iff_of_true rfl (by decide)
  rw [← hagree, loginRegion_eq, ← uses_iff]
  constructor
  · rintro ⟨auth, stream, hauth, hstream', huses⟩
    rw [hdocument, Option.some.injEq] at hauth
    subst hauth
    rw [hstream, Option.some.injEq] at hstream'
    rw [hstream']
    exact huses
  · exact fun huses => ⟨_, _, hdocument, hstream, huses⟩

theorem regions_agree_ie : ∃ auth stream bytes, ownerMain owner = .refreshed bytes ∧
    document (some bytes) = some auth ∧ streamRegion owner.eufyRegion auth = some stream ∧
    Uses .dotless (lit "T8N000000000") stream (loginRegion .dotless owner) := by
  obtain ⟨bytes, hmain⟩ := refreshed_of (e := ownerMain owner) (by decide +kernel)
  obtain ⟨auth, stream, h⟩ := (regions_agree Casing.dotless_documented owner_login owner_answers
    owner_found owner_unset hmain).mpr (by decide +kernel)
  exact ⟨auth, stream, bytes, hmain, h⟩

def suffixed : Account := { owner with eufyRegion := some (lit "eu-pr") }

/-- With the suffix the login goes to one region and the stream to another,
whatever is in the file. -/
theorem regions_diverge : (∃ bytes, ownerMain suffixed = .refreshed bytes) ∧
    loginRegion .dotless suffixed = usPr ∧ resolveRegion .dotless smart (lit "eu-pr") = euPr ∧
    ∀ auth stream, streamRegion suffixed.eufyRegion auth = some stream →
      stream = lit "eu-pr" ∧
      ¬ Uses .dotless (lit "T8N000000000") stream (loginRegion .dotless suffixed) := by
  have hlogin : loginRegion .dotless suffixed = usPr := by decide +kernel
  have hstream : resolveRegion .dotless smart (lit "eu-pr") = euPr := by decide +kernel
  refine ⟨refreshed_of (by decide +kernel), hlogin, hstream, fun auth stream h => ?_⟩
  obtain rfl : lit "eu-pr" = stream := Option.some.inj h
  refine ⟨rfl, fun huses => ?_⟩
  rw [uses_iff, hstream, hlogin] at huses
  exact absurd huses (by decide)

end EufyNvr.Cloud
