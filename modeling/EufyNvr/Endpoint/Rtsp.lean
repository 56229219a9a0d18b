import EufyNvr.Endpoint.Canonical
import EufyNvr.Lib.Uri

/-!
# What an RTSP URL holds

Split by the generic syntax and decoded, the result of `rtsp_url` is the
user name, the password, the normalized host, the port and the stream name
it was built from.
-/

namespace EufyNvr.Endpoint

open Json Url

variable {U : Unicode} {mixed : Bool} {host stream username password n s t : Str} {port : Int}
  {c : Nat}

theorem validatePort_ok {p : Int} (h : validatePort port = .ok p) : p = port ∧ 1 ≤ port := by
  unfold validatePort at h
  split at h
  · rename_i hport
    cases h
    exact ⟨rfl, hport.1⟩
  · cases h

/-- Every delimiter that the generic syntax looks for. -/
def Separated (s : Str) : Prop := ∀ c ∈ s, c ≠ colon ∧ c ≠ atSign ∧ isDelimiter c = false

instance (s : Str) : Decidable (Separated s) := inferInstanceAs (Decidable (∀ c ∈ s, _))

/-- A quoted text holds none of them. -/
theorem quote_ok (safe : Str) (hs : Characters s) (hsafe : Separated safe)
    (hpercent : percent ∉ safe) :
    ∃ t, quote s safe = .ok t ∧ Percent.decode t = some s ∧ Separated t := by
  obtain ⟨b, hb⟩ := Utf8.encode_of_characters hs
  have hquote : Percent.quote safe s = some (b.flatMap (Percent.quoteByte safe)) := by
    rw [Percent.quote, hb, Option.map_some]
  refine ⟨_, by rw [quote, hquote]; rfl, Percent.decode_quote hpercent hquote, fun c hc => ?_⟩
  rcases Percent.quote_char hquote hc with hc | hc | rfl
  · have hall : ∀ c < 128, Percent.isUnreserved c = true →
        c ≠ colon ∧ c ≠ atSign ∧ isDelimiter c = false := by decide
    refine hall c ?_ hc
    simp only [Percent.isUnreserved, isAlpha, isDigit, Bool.or_eq_true, decide_eq_true_eq,
      beq_iff_eq, point, minus] at hc
    omega
  · exact hsafe c hc
  · decide

theorem portNumber_intText (h : 1 ≤ port) : Uri.portNumber (intText port) = some port := by
  obtain ⟨k, rfl⟩ := Int.eq_ofNat_of_zero_le (by omega : 0 ≤ port)
  rw [intText, if_neg (by omega), Int.natAbs_natCast, Uri.portNumber_numeral]

theorem intText_digits (h : 1 ≤ port) (hc : c ∈ intText port) : isDigit c = true := by
  rw [intText, if_neg (by omega)] at hc
  exact isDigit_numeral hc

-- ---------------------------------------------------------------------------
-- The host
-- ---------------------------------------------------------------------------

/-- The escape of the separator is undone by decoding. -/
theorem Address.decode (h : Address mixed n) :
    Percent.decode (replaceFirst (lit "%") (lit "%25") n) = some n := by
  have hascii : Ascii n := fun c hc => decide_eq_true (isHostChar_lt (h.hostChar hc))
  cases h with
  | whole ha =>
    have hpercent := percent_not_mem_compressed ha
    rw [replaceFirst_absent fun h => hpercent (h.subset (by decide))]
    exact Percent.decode_plain hascii hpercent
  | inScope ha hne hscope =>
    rename_i a z
    have hescape : replaceFirst (lit "%") (lit "%25") (a ++ percent :: z) =
        a ++ percent :: (lit "25" ++ z) :=
      replaceFirst_present [] (lit "%25") (percent_not_mem_compressed ha)
    have hz : percent ∉ z := fun h => absurd (hscope percent h) (by decide)
    have hasciiA : Ascii a := fun c hc => hascii c (by simp [hc])
    have hasciiZ : Ascii z := fun c hc => hascii c (by simp [hc])
    have hend : Percent.bytes z = some (z.map UInt8.ofNat) := by
      have hbytes := Percent.bytes_append hasciiZ hz []
      rwa [List.append_nil, Percent.bytes, Option.map_some, List.append_nil] at hbytes
    have hsep : Percent.bytes (percent :: (lit "25" ++ z)) =
        some (UInt8.ofNat percent :: z.map UInt8.ofNat) := by
      have hbytes := Percent.bytes_escape 37 (by decide) z
      rw [hend] at hbytes
      exact hbytes
    refine hescape ▸ Percent.decode_of_bytes hascii ?_
    rw [Percent.bytes_append hasciiA (percent_not_mem_compressed ha), hsep]
    simp

/-- What a URL has as its host is split off and read as the host. -/
theorem urlHost_ok (h : normalizeHost mixed U host = .ok n) : ∃ text host',
    urlHost mixed U host = .ok text ∧ (∀ c ∈ text, c ≠ atSign ∧ isDelimiter c = false) ∧
    (∀ {digits : Str} {k : Int}, Uri.portNumber digits = some k →
      Uri.splitHost (text ++ colon :: digits) = some (host', k)) ∧
    Percent.decode host' = some n := by
  rcases normalizeHost_form h with hn | hn
  · obtain ⟨hsafe, hat, hopen, -⟩ := safe_of_free (free_of_isHostChar fun c hc => hn.hostChar hc)
    refine ⟨n, n, urlHost_name h hn, fun c hc => ⟨?_, (hsafe c hc).2⟩, fun hport => ?_,
      Percent.decode_plain hn.ascii hn.percent_not_mem⟩
    · rintro rfl
      exact hat hc
    · exact Uri.splitHost_plain (fun hhead => hopen (List.mem_of_head? hhead)) hn.ne_nil
        hn.colon_not_mem hport
  · have hinner : Bracketed U n _ := hn.bracketed
    obtain ⟨-, hat, -, hclose⟩ := safe_of_free (free_of_isHostChar hinner.char)
    refine ⟨_, _, urlHost_address h hn, fun c hc => ⟨?_, (hinner.netloc_char c hc).2.1.2⟩,
      fun hport => ?_, hn.decode⟩
    · rintro rfl
      simp [hat] at hc
    · rw [List.cons_append, List.append_assoc]
      exact Uri.splitHost_bracketed hclose hport

-- ---------------------------------------------------------------------------
-- The whole URL
-- ---------------------------------------------------------------------------

/-- Every part of an RTSP URL is read back as it went in. -/
theorem rtspUrl_split (hhost : normalizeHost mixed U host = .ok n)
    (hport : validatePort port = .ok port)
    (hcredentials : validateCredentials username password = .ok (username, password))
    (husername : Characters username) (hpassword : Characters password)
    (hstream : Characters stream) : ∃ url,
      rtspUrl mixed U host port stream username password = .ok url ∧
      Uri.split url = some ⟨lit "rtsp", username, password, n, port, stream⟩ := by
  obtain ⟨-, hpositive⟩ := validatePort_ok hport
  obtain ⟨user, huser, hdecodeUser, hseparatedUser⟩ := quote_ok [] husername nofun nofun
  obtain ⟨secret, hsecret, hdecodeSecret, hseparatedSecret⟩ := quote_ok [] hpassword nofun nofun
  obtain ⟨segment, hsegment, hdecodeSegment, hseparatedSegment⟩ :=
    quote_ok (lit "_-") hstream (by decide) (by decide)
  obtain ⟨text, host', hurlHost, htext, hsplitHost, hdecodeHost⟩ := urlHost_ok hhost
  have hdigits : ∀ c ∈ intText port, c ≠ atSign ∧ isDelimiter c = false := fun c hc => by
    have hall : ∀ c < 58, isDigit c = true → c ≠ atSign ∧ isDelimiter c = false := by decide
    have hdigit := intText_digits hpositive hc
    rw [isDigit, decide_eq_true_eq] at hdigit
    exact hall c (by omega) (intText_digits hpositive hc)
  have hauthority : ∀ c ∈ user ++ colon :: (secret ++ atSign :: (text ++ colon :: intText port)),
      isDelimiter c = false := by
    simp only [List.mem_append, List.mem_cons]
    rintro c (hc | rfl | hc | rfl | hc | rfl | hc)
    · exact (hseparatedUser c hc).2.2
    · decide
    · exact (hseparatedSecret c hc).2.2
    · decide
    · exact (htext c hc).2
    · decide
    · exact (hdigits c hc).2
  have hat : atSign ∉ text ++ colon :: intText port := by
    simp only [List.mem_append, List.mem_cons]
    rintro (hc | hc | hc)
    · exact (htext _ hc).1 rfl
    · exact absurd hc (by decide)
    · exact (hdigits _ hc).1 rfl
  have hsplit : Uri.splitAuthority
      (user ++ colon :: (secret ++ atSign :: (text ++ colon :: intText port))) =
        some (user, secret, host', port) :=
    Uri.splitAuthority_append (fun hc => (hseparatedUser _ hc).1 rfl) hat
      (hsplitHost (portNumber_intText hpositive))
  refine ⟨lit "rtsp" ++ colon :: ([slash, slash] ++ ((user ++ colon :: (secret ++ atSign ::
    (text ++ colon :: intText port))) ++ slash :: segment)), ?_, ?_⟩
  · have hscheme : lit "rtsp://" = lit "rtsp" ++ [colon, slash, slash] := rfl
    simp only [rtspUrl, hcredentials, huser, hsecret, hurlHost, hport, hsegment, bind, Except.bind,
      pure, Except.pure, hscheme, List.append_assoc, List.cons_append, List.nil_append]
  · exact Uri.split_append (by decide) hauthority (fun c hc => (hseparatedSegment c hc).2.2) hsplit
      hdecodeUser hdecodeSecret hdecodeHost hdecodeSegment

theorem rtspUrl_split_scoped : ∃ url,
    rtspUrl true Unicode.plain (lit "[fe80::1%Eth0]") 8556 (lit "eufy_front/gate") (lit "e:u@f")
      (lit "long pass:@/word%25") = .ok url ∧
    Uri.split url = some ⟨lit "rtsp", lit "e:u@f", lit "long pass:@/word%25",
      lit "fe80::1%Eth0", 8556, lit "eufy_front/gate"⟩ :=
  rtspUrl_split (by decide) (by decide) (by decide) (by decide) (by decide) (by decide)

end EufyNvr.Endpoint
