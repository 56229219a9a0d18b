import EufyNvr.Endpoint.Canonical

/-!
# The host of the internal URL

`host_from_internal_url` hands the parsed host name to `normalize_host` as it
stands, where `normalize_host` itself first undoes the escape of a scope's
separator. The two agree on the URLs of a host unless the host holds `%25`.
-/

namespace EufyNvr.Endpoint

open Json Url

variable {U : Unicode} {mixed : Bool} {value raw host path hostname n a b t : Str} {c : Nat}

/-- What can stand as the host of a URL. -/
def HostText (host : Str) : Prop := ∀ c ∈ host, isSpace c = false ∧ c ∉ lit "/?#@"

instance (host : Str) : Decidable (HostText host) := inferInstanceAs (Decidable (∀ c ∈ host, _))

-- ---------------------------------------------------------------------------
-- What a check has seen
-- ---------------------------------------------------------------------------

theorem control_of_normalizeHost (h : normalizeHost mixed U value = .ok n) :
    ∀ c ∈ value, isControl c = false := by
  unfold normalizeHost at h
  split at h
  · cases h
  · rename_i hcontrol
    exact fun c hc => Bool.eq_false_iff.mpr fun hc' =>
      hcontrol (List.any_eq_true.mpr ⟨c, hc, hc'⟩)

theorem urlHostname_ok (h : urlHostname U raw = .ok host) : ∃ parsed hostname,
    urlsplit U raw = some parsed ∧ parsed.hostname U = some hostname ∧
    parsed.scheme = lit "http" ∧ parsed.username.getD [] = [] ∧ parsed.password.getD [] = [] ∧
    parsed.port = some none ∧ host = replaceFirst (lit "%25") (lit "%") hostname := by
  unfold urlHostname at h
  dsimp only at h
  split at h
  · cases h
  · rename_i parsed hparsed
    split at h
    · cases h
    · rename_i hostname hhostname
      split at h
      · cases h
      · rename_i hfirst
        split at h
        · cases h
        · rename_i port hport
          split at h
          · cases h
          · rename_i hlast
            cases h
            simp only [not_or, not_not] at hfirst hlast
            exact ⟨parsed, hostname, hparsed, hhostname, hfirst.1, hfirst.2.1, hfirst.2.2,
              by rw [hport, hlast.1], rfl⟩

theorem hostFromInternalUrl_eq {parsed : SplitResult} (hne : value ≠ [])
    (hparsed : urlsplit U value = some parsed) (hhostname : parsed.hostname U = some hostname)
    (hscheme : parsed.scheme = lit "http") (husername : parsed.username.getD [] = [])
    (hpassword : parsed.password.getD [] = []) :
    hostFromInternalUrl mixed U (some value) = (normalizeHost mixed U hostname).toOption := by
  cases value with
  | nil => exact absurd rfl hne
  | cons c value =>
    simp [hostFromInternalUrl, hparsed, hhostname, hscheme, husername, hpassword]

/-- The host name in lower case up to a scope. -/
theorem hostname_ok {r : SplitResult} (h : r.hostname U = some hostname) : ∃ a z,
    r.hostinfo.1 = a ++ z ∧ percent ∉ a ∧ (z = [] ∨ ∃ t, z = percent :: t) ∧
      hostname = U.lowered a ++ z := by
  unfold SplitResult.hostname at h
  split at h
  · cases h
  · cases h
    rcases partition_cases percent r.hostinfo.1 with ⟨hnone, hp⟩ | ⟨a, b, heq, ha, hp⟩
    · exact ⟨_, [], (List.append_nil _).symm, hnone, .inl rfl, by simp [hp]⟩
    · exact ⟨a, percent :: b, heq, ha, .inr ⟨b, rfl⟩, by simp [hp]⟩

theorem port_none {r : SplitResult} (h : r.port = some none) : r.hostinfo.2 = [] := by
  unfold SplitResult.port at h
  split at h
  · assumption
  · split at h <;> cases h

theorem count_of_canonical (h : canonical mixed U raw = .ok n) :
    raw ≠ [] ∧ raw.count colon ≠ 1 := by
  unfold canonical at h
  split at h
  · rename_i hcolon
    obtain ⟨a, b, z, rfl, -, -, hcompressed, -⟩ := canonicalAddress_ok h
    have := count_of_compressed hcompressed
    exact ⟨List.ne_nil_of_mem hcolon, by rw [List.count_append]; omega⟩
  · rename_i hcolon
    rw [List.count_eq_zero_of_not_mem hcolon]
    refine ⟨?_, by decide⟩
    rintro rfl
    obtain ⟨encoded, hencode, -, rfl, hname⟩ := canonicalName_ok h
    cases hencode
    exact hname.ne_nil rfl

theorem canonicalName_percent (hU : Idna.Documented U) (h : canonicalName U raw = .ok n) :
    percent ∉ raw := by
  obtain ⟨encoded, hencode, -, rfl, hname⟩ := canonicalName_ok h
  intro hraw
  have hstrip : percent ∈ raw.rdropWhile (· == point) := by
    have hsplit : raw.rdropWhile (· == point) ++ raw.rtakeWhile (· == point) = raw :=
      List.rdropWhile_append_rtakeWhile
    rw [← hsplit] at hraw
    refine (List.mem_append.mp hraw).resolve_right fun h => ?_
    exact absurd (List.mem_rtakeWhile_imp h) (by decide)
  have hencoded := Idna.percent_mem_encode hU hencode hstrip
  exact hname.percent_not_mem (List.mem_map.mpr ⟨percent, hencoded, by decide⟩)

theorem canonical_scope (ha : percent ∉ a) (hcompressed : Ipv6.compressed mixed a = some b)
    (hne : t ≠ []) (hscope : ∀ c ∈ t, isScopeChar c = true) :
    canonical mixed U (a ++ percent :: t) = .ok (b ++ percent :: t) := by
  have hcount := count_of_compressed hcompressed
  have hcolon : colon ∈ a := List.count_pos_iff.mp (by omega)
  rw [canonical, if_pos (List.mem_append_left _ hcolon),
    canonicalAddress_scope ha hcompressed hne hscope]

-- ---------------------------------------------------------------------------
-- The host name that was parsed
-- ---------------------------------------------------------------------------

variable {z : Str}

/-- An authority without a port: the host `a`, its scope `z`, and around them
only brackets and a colon. -/
structure Parsed (host a z : Str) : Prop where
  around : ∃ p q, host = p ++ ((a ++ z) ++ q) ∧ (∀ c ∈ p, c = lbracket) ∧
    ∀ c ∈ q, c = rbracket ∨ c = colon
  name : percent ∉ a
  scope : z = [] ∨ ∃ t, z = percent :: t
  close : rbracket ∉ a ++ z

theorem lowered_percent (hU : Idna.Documented U) (ha : percent ∉ a) : percent ∉ U.lowered a :=
  fun h => ha (hU.lowered h (by decide))

theorem Parsed.within (h : Parsed host a z) : a ++ z <:+: host := by
  obtain ⟨p, q, rfl, -, -⟩ := h.around
  exact ⟨p, q, List.append_assoc p (a ++ z) q⟩

theorem Parsed.escape_iff (hU : Idna.Documented U) (h : Parsed host a z) :
    lit "%25" <:+: U.lowered a ++ z ↔ lit "%25" <:+: host := by
  have hlowered := lowered_percent hU h.name
  constructor
  · intro hwithin
    have hz : lit "%25" <:+: z := infix_of_append_left hlowered hwithin
    exact (hz.trans (List.suffix_append a z).isInfix).trans h.within
  · intro hwithin
    obtain ⟨p, q, rfl, hp, hq⟩ := h.around
    have hleft : percent ∉ p := fun h => absurd (hp _ h) (by decide)
    have hright : 53 ∉ q := fun h => absurd (hq _ h) (by decide)
    have haz : lit "%2" ++ [53] <:+: a ++ z :=
      infix_of_append_right hright (infix_of_append_left hleft hwithin)
    have hz : lit "%25" <:+: z := infix_of_append_left h.name haz
    exact hz.trans (List.suffix_append (U.lowered a) z).isInfix

theorem Parsed.passes (hU : Idna.Documented U) (h : Parsed host a z) (hhost : HostText host)
    (hcontrol : ∀ c ∈ host, isControl c = false) : Passes (U.lowered a ++ z) := by
  intro c hc
  by_cases hreserved : Idna.isReserved c = true
  · have haz : c ∈ a ++ z := by
      rcases List.mem_append.mp hc with hc | hc
      · exact List.mem_append_left z (hU.lowered hc hreserved)
      · exact List.mem_append_right a hc
    have hmem : c ∈ host := h.within.subset haz
    refine ⟨hcontrol c hmem, (hhost c hmem).1, fun hdelimiter => ?_⟩
    rcases List.mem_append.mp (show c ∈ lit "/?#@" ++ [rbracket] from hdelimiter) with hd | hd
    · exact (hhost c hmem).2 hd
    · exact h.close (List.mem_singleton.mp hd ▸ haz)
  · simp only [Idna.isReserved, Bool.or_eq_true, not_or, decide_eq_true_eq] at hreserved
    obtain ⟨⟨hcontrol, hspace⟩, hdelimiter⟩ := hreserved
    have hsubset : lit "/?#@]" ⊆ lit "%/?#@[]:" := by decide
    refine ⟨?_, by simpa using hspace, fun hmem => ?_⟩
    · simp [isControl]
      omega
    · exact hdelimiter (List.contains_iff_mem.mpr (hsubset hmem))

theorem isUnsafe_of_control (h : isControl c = false) : isUnsafe c = false := by
  simp only [isControl, Bool.or_eq_false_iff, decide_eq_false_iff_not] at h
  simp only [isUnsafe, Bool.or_eq_false_iff, beq_eq_false_iff_ne]
  omega

theorem isDelimiter_of_hostText (h : c ∉ lit "/?#@") : isDelimiter c = false := by
  refine Bool.eq_false_iff.mpr fun hc => h ?_
  simp only [isDelimiter, Bool.or_eq_true, beq_iff_eq] at hc
  rcases hc with (rfl | rfl) | rfl <;> decide

/-- A URL of a host that is accepted, as both functions parse it. -/
theorem parsed_of_normalizeHost (hU : Idna.Documented U) (hhost : HostText host)
    (hpath : path = [] ∨ path = [slash])
    (h : normalizeHost mixed U (lit "http://" ++ (host ++ path)) = .ok n) : ∃ a z,
      Parsed host a z ∧ Passes (U.lowered a ++ z) ∧
      canonical mixed U (replaceFirst (lit "%25") (lit "%") (U.lowered a ++ z)) = .ok n ∧
      hostFromInternalUrl mixed U (some (lit "http://" ++ (host ++ path))) =
        (normalizeHost mixed U (U.lowered a ++ z)).toOption := by
  have hcontrol : ∀ c ∈ host, isControl c = false := fun c hc =>
    control_of_normalizeHost h c (List.mem_append_right _ (List.mem_append_left path hc))
  have hsafe : ∀ c ∈ host, isUnsafe c = false ∧ isDelimiter c = false := fun c hc =>
    ⟨isUnsafe_of_control (hcontrol c hc), isDelimiter_of_hostText (hhost c hc).2⟩
  have hat : atSign ∉ host := fun hc => (hhost _ hc).2 (by decide)
  rw [normalizeHost_http U mixed (fun c hc => ⟨hcontrol c hc, (hhost c hc).1⟩) hpath] at h
  obtain ⟨raw, hraw, hcanonical⟩ := bind_ok.mp h
  obtain ⟨parsed, hostname, hparsed, hhostname, hscheme, husername, hpassword, hport, rfl⟩ :=
    urlHostname_ok hraw
  have hinternal : hostFromInternalUrl mixed U (some (lit "http://" ++ (host ++ path))) =
      (normalizeHost mixed U hostname).toOption :=
    hostFromInternalUrl_eq (List.cons_ne_nil _ _) hparsed hhostname hscheme husername hpassword
  rw [urlsplit_http hsafe hpath] at hparsed
  split at hparsed
  · rename_i hcheck
    obtain ⟨a, z, hinfo, ha, hz, rfl⟩ := hostname_ok hhostname
    cases hparsed
    obtain ⟨hclose, p, q, haround, hp, hq⟩ := netloc_of_hostinfo hat hcheck.1 (port_none hport)
    rw [hinfo] at hclose haround
    have hparsed : Parsed host a z := ⟨⟨p, q, haround, hp, hq⟩, ha, hz, hclose⟩
    exact ⟨a, z, hparsed, hparsed.passes hU hhost hcontrol, hcanonical, hinternal⟩
  · cases hparsed

-- ---------------------------------------------------------------------------
-- With an escape, and without
-- ---------------------------------------------------------------------------

/-- The escape that was undone was that of the separator, or a percent sign
is left after it. -/
theorem unescape_cases (ha : percent ∉ a) (h : lit "%25" <:+: a ++ percent :: t) :
    ∃ w, replaceFirst (lit "%25") (lit "%") (a ++ percent :: t) = a ++ percent :: w ∧
      (t = lit "25" ++ w ∨ percent ∈ w) := by
  have hlit : lit "%25" = percent :: lit "25" := rfl
  rw [hlit, replaceFirst_append _ _ ha, replaceFirst]
  split
  · rename_i hbegins
    obtain ⟨w, rfl⟩ := (List.cons_prefix_cons.mp hbegins).2
    exact ⟨w, rfl, .inl rfl⟩
  · rename_i hbegins
    have ht : percent :: lit "25" <:+: t :=
      (List.infix_cons_iff.mp (infix_of_append_left ha h)).resolve_left hbegins
    exact ⟨_, rfl, .inr (subset_replaceFirst (lit "%") ht (List.mem_singleton_self percent))⟩

theorem canonical_scope_ok (hU : Idna.Documented U) (ha : percent ∉ a)
    (h : canonical mixed U (a ++ percent :: t) = .ok n) : ∃ b,
      Ipv6.compressed mixed a = some b ∧ n = b ++ percent :: t ∧
        ∀ c ∈ t, isScopeChar c = true := by
  unfold canonical at h
  split at h
  · obtain ⟨a', b, z, heq, ha', rfl, hcompressed, rfl | ⟨t', rfl, -, hscope⟩⟩ :=
      canonicalAddress_ok h
    · rw [List.append_nil] at heq
      exact absurd (heq ▸ (by simp : percent ∈ a ++ percent :: t)) ha'
    · have hcut := congrArg (partition percent) heq
      rw [partition_present ha, partition_present ha'] at hcut
      cases hcut
      exact ⟨b, hcompressed, rfl, hscope⟩
  · exact absurd (by simp) (canonicalName_percent hU h)

/-- The two URL-to-host paths agree on an accepted URL of a host exactly when
the host does not hold the escape of a percent sign. -/
theorem internal_agrees (hU : Idna.Documented U) (hhost : HostText host)
    (hpath : path = [] ∨ path = lit "/")
    (h : normalizeHost mixed U (lit "http://" ++ (host ++ path)) = .ok n) :
    hostFromInternalUrl mixed U (some (lit "http://" ++ (host ++ path))) = some n ↔
      ¬ lit "%25" <:+: host := by
  obtain ⟨a, z, hparsed, hpasses, hcanonical, hinternal⟩ :=
    parsed_of_normalizeHost hU hhost hpath h
  rw [hinternal, ← hparsed.escape_iff hU]
  constructor
  · intro hsame hescape
    have ha := lowered_percent hU hparsed.name
    rcases hparsed.scope with rfl | ⟨t, rfl⟩
    · exact ha ((List.append_nil (U.lowered a) ▸ hescape).subset (by decide))
    · obtain ⟨w, hw, ht⟩ := unescape_cases ha hescape
      rw [hw] at hcanonical
      obtain ⟨b, hcompressed, rfl, hscope⟩ := canonical_scope_ok hU ha hcanonical
      rcases ht with rfl | hpercent
      · have hkept : canonical mixed U (U.lowered a ++ percent :: (lit "25" ++ w)) =
            .ok (b ++ percent :: (lit "25" ++ w)) :=
          canonical_scope ha hcompressed (List.cons_ne_nil _ _) (scope_digits hscope)
        obtain ⟨hne, hcount⟩ := count_of_canonical hkept
        rw [normalizeHost_passes hpasses hne hcount, hkept] at hsame
        have hcut : lit "25" ++ w = w :=
          (List.cons.inj (List.append_cancel_left (Option.some.inj hsame))).2
        exact absurd (List.append_left_eq_self.mp hcut) (by decide)
      · exact absurd (hscope percent hpercent) (by decide)
  · intro hescape
    rw [replaceFirst_absent hescape] at hcanonical
    obtain ⟨hne, hcount⟩ := count_of_canonical hcanonical
    rw [normalizeHost_passes hpasses hne hcount, hcanonical]
    rfl

theorem documented_plain : Idna.Documented Unicode.plain where
  lower _ _ hc _ := hc
  toAscii _ _ h hs := by
    cases h
    exact hs

theorem internal_agrees_named :
    hostFromInternalUrl true Unicode.plain (some (lit "http://" ++ (lit "[FE80::1]:" ++ lit "/"))) =
      some (lit "fe80::1") ↔ ¬ lit "%25" <:+: lit "[FE80::1]:" :=
  internal_agrees documented_plain (by decide) (.inr rfl) (by decide)

/-- The escaped separator of a scope is taken for the beginning of the scope. -/
theorem internal_differs :
    HostText (lit "[fe80::1%25Eth0]") ∧
    normalizeHost true Unicode.plain (lit "http://" ++ (lit "[fe80::1%25Eth0]" ++ lit "/")) =
      .ok (lit "fe80::1%Eth0") ∧
    hostFromInternalUrl true Unicode.plain
      (some (lit "http://" ++ (lit "[fe80::1%25Eth0]" ++ lit "/"))) =
        some (lit "fe80::1%25Eth0") := by
  decide

end EufyNvr.Endpoint
