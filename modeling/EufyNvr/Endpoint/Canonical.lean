import EufyNvr.Lib.Except
import EufyNvr.Endpoint.Host

/-!
# The canonical form of a host

What `normalize_host` returns is a host name of lower-case labels or an IPv6
address as the library writes it, with a scope or without. It is left as it
is when it is normalized again, and so is the host of its own URL.
-/

namespace EufyNvr.Endpoint

open Json Url

variable {U : Unicode} {mixed : Bool} {value raw host n l : Str} {c : Nat}

-- ---------------------------------------------------------------------------
-- The two forms
-- ---------------------------------------------------------------------------

abbrev hyphen : Nat := 45

structure Label (l : Str) : Prop where
  ne_nil : l ≠ []
  length_le : l.length ≤ 63
  char : ∀ c ∈ l, isLabelEnd c = true ∨ c = hyphen
  head : l.head? ≠ some hyphen
  last : l.getLast? ≠ some hyphen

structure Name (n : Str) : Prop where
  label : ∀ l ∈ n.splitOn point, Label l
  length_le : n.length ≤ 253

inductive Address (mixed : Bool) : Str → Prop
  | whole {a : Str} : Ipv6.compressed mixed a = some a → Address mixed a
  | inScope {a z : Str} : Ipv6.compressed mixed a = some a → z ≠ [] →
      (∀ c ∈ z, isScopeChar c = true) → Address mixed (a ++ percent :: z)

theorem isLabel_iff : isLabel l = true ↔ Label l := by
  have hend : isLabelEnd hyphen = false := by decide
  constructor
  · intro h
    simp only [isLabel, Bool.and_eq_true, List.all_eq_true, Bool.or_eq_true, beq_iff_eq,
      decide_eq_true_eq] at h
    obtain ⟨⟨⟨hhead, hlast⟩, hlen⟩, hall⟩ := h
    refine ⟨?_, hlen, hall, ?_, ?_⟩
    · rintro rfl
      cases hhead
    · intro hh
      rw [hh, Option.any_some, hend] at hhead
      cases hhead
    · intro hl
      rw [hl, Option.any_some, hend] at hlast
      cases hlast
  · rintro ⟨hne, hlen, hchar, hhead, hlast⟩
    have hfirst : l.head?.any isLabelEnd = true := by
      rw [List.head?_eq_some_head hne] at hhead ⊢
      exact (hchar _ (List.head_mem hne)).resolve_right fun h => hhead (congrArg some h)
    have hfinal : l.getLast?.any isLabelEnd = true := by
      rw [List.getLast?_eq_some_getLast hne] at hlast ⊢
      exact (hchar _ (List.getLast_mem hne)).resolve_right fun h => hlast (congrArg some h)
    simp only [isLabel, hfirst, hfinal, hlen, decide_true, Bool.true_and, List.all_eq_true,
      Bool.or_eq_true, beq_iff_eq]
    exact hchar

/-- A letter, a digit or one of `_.-:%`. -/
def isHostChar (c : Nat) : Bool := isScopeChar c || c == colon || c == percent

theorem isHostChar_lt (h : isHostChar c = true) : c < 128 := by
  simp only [isHostChar, isScopeChar, isAlpha, isDigit, Bool.or_eq_true, decide_eq_true_eq,
    beq_iff_eq, point, colon, percent] at h
  omega

theorem Name.char (h : Name n) (hc : c ∈ n) : isLabelEnd c = true ∨ c = hyphen ∨ c = point := by
  have hjoin : [point].intercalate (n.splitOn point) = n := List.intercalate_splitOn point
  rw [← hjoin] at hc
  rcases mem_intercalate hc with rfl | ⟨l, hl, hc⟩
  · exact .inr (.inr rfl)
  · exact ((h.label l hl).char c hc).imp_right .inl

theorem Name.ne_nil (h : Name n) : n ≠ [] := by
  rintro rfl
  exact (h.label [] (by simp)).ne_nil rfl

theorem Name.colon_not_mem (h : Name n) : colon ∉ n := fun hc => by
  have := h.char hc
  revert this
  decide

theorem Name.percent_not_mem (h : Name n) : percent ∉ n := fun hc => by
  have := h.char hc
  revert this
  decide

theorem Name.ascii (h : Name n) : Ascii n := fun c hc => by
  have := h.char hc
  simp only [isLabelEnd, isDigit, Bool.or_eq_true, decide_eq_true_eq, hyphen, point] at this
  rw [isAscii, decide_eq_true_eq]
  omega

theorem Name.lowered (h : Name n) : U.lowered n = n := by
  rw [Unicode.lowered, if_pos h.ascii]
  refine (List.map_congr_left fun c hc => ?_).trans (List.map_id n)
  have := h.char hc
  simp only [isLabelEnd, isDigit, Bool.or_eq_true, decide_eq_true_eq, hyphen, point] at this
  rw [asciiLower, if_neg (by omega), id]

theorem compressed_char {a b : Str} (h : Ipv6.compressed mixed a = some b) (hc : c ∈ b) :
    Ipv6.isAddressChar c = true := by
  obtain ⟨hs, -, rfl⟩ := Option.map_eq_some_iff.mp h
  exact Ipv6.text_char hc

theorem percent_not_mem_compressed {a b : Str} (h : Ipv6.compressed mixed a = some b) :
    percent ∉ b := fun hc => by
  have := compressed_char h hc
  revert this
  decide

-- ---------------------------------------------------------------------------
-- What a check accepts
-- ---------------------------------------------------------------------------

theorem canonicalName_ok (h : canonicalName U raw = .ok n) :
    ∃ encoded, Idna.encode U (raw.rdropWhile (· == point)) = some encoded ∧ Ascii encoded ∧
      n = encoded.map asciiLower ∧ Name n := by
  unfold canonicalName at h
  split at h
  · cases h
  · rename_i encoded hencoded
    obtain ⟨encoded', hencode, hdecode⟩ := Option.bind_eq_some_iff.mp hencoded
    unfold Idna.decodeAscii at hdecode
    split at hdecode
    · rename_i hascii
      cases hdecode
      rw [Unicode.lowered, if_pos hascii] at h
      dsimp only at h
      split at h
      · cases h
      · rename_i hname
        cases h
        obtain ⟨-, hlen, hlabels⟩ := not_or.mp hname |>.imp_right not_or.mp
        refine ⟨encoded, hencode, hascii, rfl, fun l hl => ?_, by omega⟩
        exact isLabel_iff.mp (List.all_eq_true.mp (not_not.mp hlabels) l hl)
    · cases hdecode

theorem Name.canonicalName (h : Name n) : canonicalName U n = .ok n := by
  have hlast : n.rdropWhile (· == point) = n := by
    refine List.rdropWhile_eq_self_iff.mpr fun hne hpoint => ?_
    have hsplit : n.splitOn point = n.dropLast.splitOn point ++ [[]] := by
      conv => lhs; rw [← List.dropLast_append_getLast hne, beq_iff_eq.mp hpoint]
      exact List.splitOn_append_cons_self n.dropLast []
    exact (h.label [] (by rw [hsplit]; simp)).ne_nil rfl
  have hfits : ∀ l ∈ n.splitOn point, Idna.fits l = true := fun l hl => by
    have hpos := List.length_pos_iff.mpr (h.label l hl).ne_nil
    have := (h.label l hl).length_le
    rw [Idna.fits, decide_eq_true_eq]
    omega
  have hlabels : (n.splitOn point).all isLabel = true :=
    List.all_eq_true.mpr fun l hl => isLabel_iff.mpr (h.label l hl)
  have hname : ¬ (n = [] ∨ 253 < n.length ∨ ¬ (n.splitOn point).all isLabel = true) := by
    rw [not_or, not_or, not_not]
    exact ⟨h.ne_nil, by have := h.length_le; omega, hlabels⟩
  have hdecode : (Idna.encode U (n.rdropWhile (· == point))).bind Idna.decodeAscii = some n := by
    rw [hlast, Idna.encode_ascii h.ascii hfits, Option.bind_some, Idna.decodeAscii, if_pos h.ascii]
  rw [Endpoint.canonicalName, hdecode]
  simp only [h.lowered]
  rw [if_neg hname]

theorem canonicalAddress_ok (h : canonicalAddress mixed raw = .ok n) :
    ∃ a b z, raw = a ++ z ∧ percent ∉ a ∧ n = b ++ z ∧ Ipv6.compressed mixed a = some b ∧
      (z = [] ∨ ∃ t, z = percent :: t ∧ t ≠ [] ∧ ∀ c ∈ t, isScopeChar c = true) := by
  unfold canonicalAddress at h
  dsimp only at h
  split at h
  · cases h
  · rename_i hscope
    split at h
    · cases h
    · rename_i b hb
      cases h
      rcases partition_cases percent raw with ⟨hnone, hp⟩ | ⟨a, t, rfl, ha, hp⟩
      · rw [hp] at hb ⊢
        exact ⟨raw, b, [], (List.append_nil raw).symm, hnone, rfl, hb, .inl rfl⟩
      · rw [hp] at hb hscope ⊢
        have hscope : t ≠ [] ∧ t.all isScopeChar = true := by
          simpa [not_or] using hscope
        exact ⟨a, b, percent :: t, rfl, ha, rfl, hb,
          .inr ⟨t, rfl, hscope.1, List.all_eq_true.mp hscope.2⟩⟩

theorem address_of_canonicalAddress (h : canonicalAddress mixed raw = .ok n) : Address mixed n := by
  obtain ⟨a, b, z, -, -, rfl, hcompressed, hz⟩ := canonicalAddress_ok h
  have hb := Ipv6.compressed_compressed hcompressed
  rcases hz with rfl | ⟨t, rfl, hne, hscope⟩
  · rw [List.append_nil]
    exact .whole hb
  · exact .inScope hb hne hscope

theorem canonicalAddress_scope {a b t : Str} (ha : percent ∉ a)
    (hcompressed : Ipv6.compressed mixed a = some b) (hne : t ≠ [])
    (hscope : ∀ c ∈ t, isScopeChar c = true) :
    canonicalAddress mixed (a ++ percent :: t) = .ok (b ++ percent :: t) := by
  have hall : t.all isScopeChar = true := List.all_eq_true.mpr hscope
  rw [canonicalAddress, partition_present ha]
  simp [hcompressed, hne, hall]

theorem Address.canonicalAddress (h : Address mixed n) : canonicalAddress mixed n = .ok n := by
  cases h with
  | whole ha =>
    have hp := partition_absent (percent_not_mem_compressed ha)
    rw [Endpoint.canonicalAddress, hp]
    simp [ha]
  | inScope ha hne hscope =>
    exact canonicalAddress_scope (percent_not_mem_compressed ha) ha hne hscope

theorem Address.hostChar (h : Address mixed n) (hc : c ∈ n) : isHostChar c = true := by
  have haddress (h : Ipv6.isAddressChar c = true) : isHostChar c = true := by
    simp only [Ipv6.isAddressChar, isDigit, Bool.or_eq_true, decide_eq_true_eq, beq_iff_eq,
      colon, point] at h
    simp only [isHostChar, isScopeChar, isAlpha, isDigit, Bool.or_eq_true, decide_eq_true_eq,
      beq_iff_eq, colon, point, percent]
    omega
  cases h with
  | whole ha => exact haddress (compressed_char ha hc)
  | inScope ha hne hscope =>
    rcases List.mem_append.mp hc with hc | hc
    · exact haddress (compressed_char ha hc)
    · rcases List.mem_cons.mp hc with rfl | hc
      · decide
      · simp [isHostChar, hscope c hc]

theorem count_of_compressed {a b : Str} (h : Ipv6.compressed mixed a = some b) :
    2 ≤ a.count colon := by
  obtain ⟨hs, hparse, -⟩ := Option.map_eq_some_iff.mp h
  exact Ipv6.count_colon hparse

theorem Address.count (h : Address mixed n) : 2 ≤ n.count colon := by
  cases h with
  | whole ha => exact count_of_compressed ha
  | inScope ha hne hscope =>
    rw [List.count_append]
    have := count_of_compressed ha
    omega

theorem Address.colon_mem (h : Address mixed n) : colon ∈ n :=
  List.count_pos_iff.mp (by have := h.count; omega)

theorem Name.hostChar (h : Name n) (hc : c ∈ n) : isHostChar c = true := by
  rcases h.char hc with h | rfl | rfl
  · simp only [isLabelEnd, isDigit, Bool.or_eq_true, decide_eq_true_eq] at h
    simp only [isHostChar, isScopeChar, isAlpha, isDigit, Bool.or_eq_true, decide_eq_true_eq]
    omega
  · decide
  · decide

theorem canonical_form (h : canonical mixed U raw = .ok n) : Name n ∨ Address mixed n := by
  unfold canonical at h
  split at h
  · exact .inr (address_of_canonicalAddress h)
  · obtain ⟨-, -, -, -, hname⟩ := canonicalName_ok h
    exact .inl hname

theorem canonical_of_form (h : Name n ∨ Address mixed n) : canonical mixed U n = .ok n := by
  rcases h with h | h
  · rw [canonical, if_neg h.colon_not_mem, h.canonicalName]
  · rw [canonical, if_pos h.colon_mem, h.canonicalAddress]

-- ---------------------------------------------------------------------------
-- Hosts without a delimiter
-- ---------------------------------------------------------------------------

/-- No delimiter of a URL, no white space and no control character. -/
def Free (n : Str) : Prop :=
  ∀ c ∈ n, isControl c = false ∧ isSpace c = false ∧ c ∉ lit "/?#@[]"

theorem free_of_isHostChar (h : ∀ c ∈ n, isHostChar c = true) : Free n := by
  have hall : ∀ c < 128, isHostChar c = true →
      isControl c = false ∧ isSpace c = false ∧ c ∉ lit "/?#@[]" := by decide
  exact fun c hc => hall c (isHostChar_lt (h c hc)) (h c hc)

theorem free_of_form (h : Name n ∨ Address mixed n) : Free n :=
  free_of_isHostChar fun _ hc => h.elim (·.hostChar hc) (·.hostChar hc)

/-- Nothing that a host is searched for before the last checks. -/
def Passes (raw : Str) : Prop :=
  ∀ c ∈ raw, isControl c = false ∧ isSpace c = false ∧ c ∉ lit "/?#@]"

theorem Free.passes (h : Free n) : Passes n := fun c hc => by
  have hsubset : lit "/?#@]" ⊆ lit "/?#@[]" := by decide
  obtain ⟨hcontrol, hspace, hdelimiter⟩ := h c hc
  exact ⟨hcontrol, hspace, fun hmem => hdelimiter (hsubset hmem)⟩

theorem normalizeHost_passes (hfree : Passes raw) (hne : raw ≠ []) (hcount : raw.count colon ≠ 1) :
    normalizeHost mixed U raw = canonical mixed U raw := by
  have hcontrol : raw.any isControl = false :=
    List.any_eq_false.mpr fun c hc => by simp [(hfree c hc).1]
  have hstrip : strip raw = raw := strip_of_no_space fun c hc => (hfree c hc).2.1
  have hurl : ¬ lit "://" <:+: raw := fun h =>
    (hfree slash (h.subset (by decide))).2.2 (by decide)
  have hbracket : ¬ (raw.head? = some lbracket ∧ raw.getLast? = some rbracket) := fun h =>
    (hfree rbracket (List.mem_of_getLast? h.2)).2.2 (by decide)
  have hdelimiter : raw.any (lit "/?#@").contains = false := by
    refine List.any_eq_false.mpr fun c hc h => (hfree c hc).2.2 ?_
    exact List.mem_append_left [rbracket] (List.contains_iff_mem.mp h)
  rw [normalizeHost, hcontrol, hstrip, if_neg (by decide), if_neg hne, rawHost, if_neg hurl,
    if_neg hbracket, hdelimiter, if_neg (by decide), if_neg hcount]
  rfl

theorem normalizeHost_form (h : normalizeHost mixed U value = .ok n) :
    Name n ∨ Address mixed n := by
  unfold normalizeHost at h
  split at h
  · cases h
  · split at h
    · cases h
    · obtain ⟨raw, -, hcanonical⟩ := bind_ok.mp h
      exact canonical_form hcanonical

theorem normalizeHost_of_form (h : Name n ∨ Address mixed n) : normalizeHost mixed U n = .ok n := by
  have hne : n ≠ [] := h.elim (·.ne_nil) fun h => List.ne_nil_of_mem h.colon_mem
  have hcount : n.count colon ≠ 1 := h.elim
    (fun h => by rw [List.count_eq_zero_of_not_mem h.colon_not_mem]; decide)
    fun h => by have := h.count; omega
  rw [normalizeHost_passes (free_of_form h).passes hne hcount, canonical_of_form h]

-- ---------------------------------------------------------------------------
-- The host within a URL
-- ---------------------------------------------------------------------------

variable {netloc path inner : Str}

variable (U mixed) in
/-- The guards let such a URL pass. -/
theorem normalizeHost_http (hfree : ∀ c ∈ netloc, isControl c = false ∧ isSpace c = false)
    (hpath : path = [] ∨ path = [slash]) :
    normalizeHost mixed U (lit "http://" ++ (netloc ++ path)) =
      urlHostname U (lit "http://" ++ (netloc ++ path)) >>= canonical mixed U := by
  have hall : ∀ c ∈ lit "http://" ++ (netloc ++ path), isControl c = false ∧ isSpace c = false := by
    have hscheme : ∀ c ∈ lit "http://", isControl c = false ∧ isSpace c = false := by decide
    intro c hc
    rcases List.mem_append.mp hc with hc | hc
    · exact hscheme c hc
    · rcases List.mem_append.mp hc with hc | hc
      · exact hfree c hc
      · rcases hpath with rfl | rfl
        · cases hc
        · rw [List.mem_singleton.mp hc]
          decide
  have hcontrol : (lit "http://" ++ (netloc ++ path)).any isControl = false :=
    List.any_eq_false.mpr fun c hc => by simp [(hall c hc).1]
  have hstrip : strip (lit "http://" ++ (netloc ++ path)) = lit "http://" ++ (netloc ++ path) :=
    strip_of_no_space fun c hc => (hall c hc).2
  have hurl : lit "://" <:+: lit "http://" ++ (netloc ++ path) := ⟨lit "http", netloc ++ path, rfl⟩
  have hne : lit "http://" ++ (netloc ++ path) ≠ [] := List.cons_ne_nil _ _
  rw [normalizeHost, hcontrol, hstrip, if_neg (by decide), if_neg hne, rawHost, if_pos hurl]

/-- An authority that is a host only. -/
theorem urlHostname_http {r : SplitResult} (hr : r = ⟨lit "http", netloc, path, [], []⟩)
    (hsafe : ∀ c ∈ netloc, isUnsafe c = false ∧ isDelimiter c = false) (hat : atSign ∉ netloc)
    (hcheck : checkBrackets netloc = true) (hascii : Ascii netloc)
    (hpath : path = [] ∨ path = [slash]) (hinfo : r.hostinfo = (host, [])) (hne : host ≠ []) :
    urlHostname U (lit "http://" ++ (netloc ++ path)) =
      .ok (replaceFirst (lit "%25") (lit "%") (U.lowered (partition percent host).before ++
        (partition percent host).separator ++ (partition percent host).after)) := by
  have hnetloc : checkNetloc U netloc = true := if_pos hascii
  have hsplit : urlsplit U (lit "http://" ++ (netloc ++ path)) = some r := by
    rw [urlsplit_http hsafe hpath, if_pos ⟨hcheck, hnetloc⟩, hr]
  have hhostname : r.hostname U = some (U.lowered (partition percent host).before ++
      (partition percent host).separator ++ (partition percent host).after) := by
    rw [SplitResult.hostname, hinfo, if_neg hne]
  have hport : r.port = some none := by
    rw [SplitResult.port, hinfo, if_pos rfl]
  have hat' : atSign ∉ r.netloc := by
    rw [hr]
    exact hat
  have hpath' : path ∈ [[], lit "/"] := by
    rcases hpath with rfl | rfl <;> decide
  simp only [urlHostname, hsplit, hhostname, hport, username_eq_none hat', password_eq_none hat']
  simp [hr, hpath']

/-- How an address stands between brackets. -/
structure Bracketed (U : Unicode) (n inner : Str) : Prop where
  check : checkBracketedHost inner = true
  char : ∀ c ∈ inner, isHostChar c = true
  lower : U.lowered (partition percent inner).before ++ (partition percent inner).separator ++
    (partition percent inner).after = inner
  unescape : replaceFirst (lit "%25") (lit "%") inner = n

theorem lowered_compressed {a b : Str} (h : Ipv6.compressed mixed a = some b) :
    U.lowered b = b := by
  have hchar (c : Nat) (hc : c ∈ b) : c < 128 ∧ ¬ (65 ≤ c ∧ c ≤ 90) := by
    have := compressed_char h hc
    simp only [Ipv6.isAddressChar, isDigit, Bool.or_eq_true, decide_eq_true_eq, beq_iff_eq,
      colon, point] at this
    omega
  have hascii : Ascii b := fun c hc => decide_eq_true (hchar c hc).1
  rw [Unicode.lowered, if_pos hascii]
  exact (List.map_congr_left fun c hc => if_neg (hchar c hc).2).trans (List.map_id b)

theorem head_compressed {a b t : Str} (h : Ipv6.compressed mixed a = some b) :
    (b ++ t).head? ≠ some 118 := by
  have hcount := count_of_compressed (Ipv6.compressed_compressed h)
  cases b with
  | nil => exact absurd hcount (by decide)
  | cons c b =>
    rintro ⟨⟩
    exact absurd (compressed_char h (c := 118) (by simp)) (by decide)

theorem parse_compressed {a b : Str} (h : Ipv6.compressed mixed a = some b) :
    (Ipv6.parse a).isSome = true := by
  obtain ⟨hs, hparse, -⟩ := Option.map_eq_some_iff.mp h
  rw [hparse]
  rfl

theorem bracketed_whole {a : Str} (ha : Ipv6.compressed mixed a = some a) : Bracketed U a a := by
  have hpercent := percent_not_mem_compressed ha
  have hp := partition_absent hpercent
  have hipv6 : isIpv6 a = true := by
    simp [isIpv6, hp, parse_compressed ha]
  have hhead : a.head? ≠ some 118 := by
    have := head_compressed (t := []) ha
    rwa [List.append_nil] at this
  refine ⟨checkBracketedHost_ipv6 hhead (Address.whole ha).colon_mem hipv6,
    fun c hc => (Address.whole ha).hostChar hc, ?_, ?_⟩
  · simp [hp, lowered_compressed ha]
  · exact replaceFirst_absent fun h => hpercent (h.subset (by decide))

theorem scope_digits {t : Str} (h : ∀ c ∈ t, isScopeChar c = true) :
    ∀ c ∈ lit "25" ++ t, isScopeChar c = true := by
  have hdigits : ∀ c ∈ lit "25", isScopeChar c = true := by decide
  exact fun c hc => (List.mem_append.mp hc).elim (hdigits c) (h c)

theorem bracketed_inScope {a z : Str} (ha : Ipv6.compressed mixed a = some a)
    (hscope : ∀ c ∈ z, isScopeChar c = true) :
    Bracketed U (a ++ percent :: z) (a ++ percent :: (lit "25" ++ z)) := by
  have hpercent := percent_not_mem_compressed ha
  have hp := partition_present (b := lit "25" ++ z) hpercent
  have hscope' := scope_digits hscope
  have haddress : Address mixed (a ++ percent :: (lit "25" ++ z)) :=
    .inScope ha (List.cons_ne_nil _ _) hscope'
  have hafter : percent ∉ lit "25" ++ z := fun h => absurd (hscope' percent h) (by decide)
  have hipv6 : isIpv6 (a ++ percent :: (lit "25" ++ z)) = true := by
    have hne : lit "25" ++ z ≠ [] := List.cons_ne_nil _ _
    simp [isIpv6, hp, parse_compressed ha, hne, hafter]
  refine ⟨checkBracketedHost_ipv6 (head_compressed ha) haddress.colon_mem hipv6,
    fun c hc => haddress.hostChar hc, ?_, ?_⟩
  · simp [hp, lowered_compressed ha]
  · exact replaceFirst_present (b := z) (lit "25") (lit "%") hpercent

theorem Address.bracketed (h : Address mixed n) :
    Bracketed U n (replaceFirst (lit "%") (lit "%25") n) := by
  cases h with
  | whole ha =>
    have hpercent := percent_not_mem_compressed ha
    rw [replaceFirst_absent fun h => hpercent (h.subset (by decide))]
    exact bracketed_whole ha
  | inScope ha hne hscope =>
    rename_i a z
    have hescape : replaceFirst (lit "%") (lit "%25") (a ++ percent :: z) =
        a ++ percent :: (lit "25" ++ z) :=
      replaceFirst_present [] (lit "%25") (percent_not_mem_compressed ha)
    rw [hescape]
    exact bracketed_inScope ha hscope

theorem urlHost_name (hhost : normalizeHost mixed U host = .ok n) (h : Name n) :
    urlHost mixed U host = .ok n := by
  rw [urlHost, hhost]
  exact if_neg h.colon_not_mem

theorem urlHost_address (hhost : normalizeHost mixed U host = .ok n) (h : Address mixed n) :
    urlHost mixed U host =
      .ok (lbracket :: (replaceFirst (lit "%") (lit "%25") n ++ [rbracket])) := by
  rw [urlHost, hhost]
  exact if_pos h.colon_mem

theorem safe_of_free (h : Free n) :
    (∀ c ∈ n, isUnsafe c = false ∧ isDelimiter c = false) ∧
      atSign ∉ n ∧ lbracket ∉ n ∧ rbracket ∉ n := by
  refine ⟨fun c hc => ?_, fun hc => (h _ hc).2.2 (by decide), fun hc => (h _ hc).2.2 (by decide),
    fun hc => (h _ hc).2.2 (by decide)⟩
  obtain ⟨hcontrol, -, hdelimiter⟩ := h c hc
  constructor
  · by_contra hunsafe
    simp only [isUnsafe, Bool.not_eq_false, Bool.or_eq_true, beq_iff_eq] at hunsafe
    rcases hunsafe with (rfl | rfl) | rfl <;> cases hcontrol
  · by_contra hdelim
    simp only [isDelimiter, Bool.not_eq_false, Bool.or_eq_true, beq_iff_eq] at hdelim
    rcases hdelim with (rfl | rfl) | rfl <;> exact hdelimiter (by decide)

theorem normalizeHost_urlName (h : Name n) :
    normalizeHost mixed U (lit "http://" ++ n) = .ok n := by
  have hform : Name n ∨ Address mixed n := .inl h
  have hfree := free_of_form hform
  obtain ⟨hsafe, hat, hopen, hclose⟩ := safe_of_free hfree
  have hinfo : (⟨lit "http", n, [], [], []⟩ : SplitResult).hostinfo = (n, []) :=
    hostinfo_plain hat hopen h.colon_not_mem
  have hhost := urlHostname_http (U := U) rfl hsafe hat (checkBrackets_plain hopen hclose) h.ascii
    (.inl rfl) hinfo h.ne_nil
  have hguards := normalizeHost_http U mixed (fun c hc => ⟨(hfree c hc).1, (hfree c hc).2.1⟩)
    (.inl rfl)
  have hpercent : replaceFirst (lit "%25") (lit "%") n = n :=
    replaceFirst_absent fun hwithin => h.percent_not_mem (hwithin.subset (by decide))
  rw [List.append_nil] at hhost hguards
  rw [hguards, hhost]
  simp only [partition_absent h.percent_not_mem, h.lowered, List.append_nil, hpercent]
  exact canonical_of_form hform

theorem Bracketed.netloc_char (h : Bracketed U n inner) :
    ∀ c ∈ lbracket :: (inner ++ [rbracket]), isAscii c = true ∧
      (isUnsafe c = false ∧ isDelimiter c = false) ∧ isControl c = false ∧ isSpace c = false := by
  have hall : ∀ c < 128, isHostChar c = true → isAscii c = true ∧
      (isUnsafe c = false ∧ isDelimiter c = false) ∧ isControl c = false ∧ isSpace c = false := by
    decide
  intro c hc
  simp only [List.mem_cons, List.mem_append, List.not_mem_nil, or_false] at hc
  rcases hc with rfl | hc | rfl
  · decide
  · exact hall c (isHostChar_lt (h.char c hc)) (h.char c hc)
  · decide

theorem normalizeHost_urlAddress (h : Address mixed n) (hinner : Bracketed U n inner) :
    normalizeHost mixed U (lit "http://" ++ (lbracket :: (inner ++ [rbracket]))) = .ok n := by
  obtain ⟨-, hat, -, hclose⟩ := safe_of_free (free_of_isHostChar hinner.char)
  have hchar := hinner.netloc_char
  have hat' : atSign ∉ lbracket :: (inner ++ [rbracket]) := by
    simp [hat]
  have hinfo : (⟨lit "http", lbracket :: (inner ++ [rbracket]), [], [], []⟩ :
      SplitResult).hostinfo = (inner, []) := hostinfo_bracketed rfl hat hclose
  have hne : inner ≠ [] := by
    rintro rfl
    exact absurd hinner.check (by decide)
  have hhost := urlHostname_http (U := U) rfl (fun c hc => (hchar c hc).2.1) hat'
    (checkBrackets_bracketed hat hclose hinner.check) (fun c hc => (hchar c hc).1) (.inl rfl)
    hinfo hne
  have hguards := normalizeHost_http U mixed (fun c hc => (hchar c hc).2.2) (.inl rfl)
  rw [List.append_nil] at hhost hguards
  rw [hguards, hhost, hinner.lower, hinner.unescape]
  exact canonical_of_form (.inr h)

-- ---------------------------------------------------------------------------
-- The canonical form
-- ---------------------------------------------------------------------------

/-- What `normalize_host` returns is kept by it, also by way of its URL, and
is a host name or an address that no part of a URL can be mistaken for. -/
theorem normalizeHost_canonical (h : normalizeHost mixed U value = .ok n) :
    normalizeHost mixed U n = .ok n ∧
    (∃ host, urlHost mixed U n = .ok host ∧ normalizeHost mixed U (lit "http://" ++ host) = .ok n) ∧
    (Name n ∨ Address mixed n) ∧ Free n := by
  have hform := normalizeHost_form h
  have hagain := normalizeHost_of_form (U := U) hform
  refine ⟨hagain, ?_, hform, free_of_form hform⟩
  rcases hform with hname | haddress
  · exact ⟨n, urlHost_name hagain hname, normalizeHost_urlName hname⟩
  · exact ⟨_, urlHost_address hagain haddress,
      normalizeHost_urlAddress haddress haddress.bracketed⟩

/-- A scoped address in a URL. -/
theorem normalizeHost_canonical_scoped :
    normalizeHost true Unicode.plain (lit "http://[FE80:0::1%25Eth0]/") = .ok (lit "fe80::1%Eth0") ∧
    (normalizeHost true Unicode.plain (lit "fe80::1%Eth0") = .ok (lit "fe80::1%Eth0") ∧
    (∃ host, urlHost true Unicode.plain (lit "fe80::1%Eth0") = .ok host ∧
      normalizeHost true Unicode.plain (lit "http://" ++ host) = .ok (lit "fe80::1%Eth0")) ∧
    (Name (lit "fe80::1%Eth0") ∨ Address true (lit "fe80::1%Eth0")) ∧
    Free (lit "fe80::1%Eth0")) := by
  have h : normalizeHost true Unicode.plain (lit "http://[FE80:0::1%25Eth0]/") =
      .ok (lit "fe80::1%Eth0") := by decide
  exact ⟨h, normalizeHost_canonical h⟩

end EufyNvr.Endpoint
