import EufyNvr.Stream.Sdp

/-!
# The identity in a description

A description that the engine sends, compact or native, is one that a handler
of offers takes. The text it is there has the names and the certificate digest
of the engine, and a peer is accepted for it that has this digest, and no other.
-/

namespace EufyNvr.Stream

open Json Hex Search

variable {U : Unicode} {digest : Algorithm → Bytes → Bytes} {sdp fp setup callType : Str}
  {own : LocalIce} {d b : Bytes} {c : Nat}

-- ---------------------------------------------------------------------------
-- Digests in upper case
-- ---------------------------------------------------------------------------

def upperHex (b : Bytes) : Str := (hex b).map asciiUpper

theorem upperHex_bounds (h : c ∈ upperHex b) : 48 ≤ c ∧ c ≤ 57 ∨ 65 ≤ c ∧ c ≤ 70 := by
  obtain ⟨e, he, rfl⟩ := List.mem_map.mp h
  have := isHexDigit_hex he
  unfold asciiUpper
  split <;> omega

theorem colonize_upperHex (b : Bytes) : colonize (upperHex b) = colonHex b := by
  rw [colonize, upperHex, pairs_map, pairs_hex, List.map_map]
  rfl

theorem filter_colonHex (b : Bytes) : (colonHex b).filter (· != colon) = upperHex b := by
  rw [← colonize_upperHex, filter_colonize, List.filter_eq_self]
  intro c hc
  have hbounds := upperHex_bounds hc
  rw [bne_iff_ne]
  rintro rfl
  exact absurd hbounds (by decide)

theorem hexValue_upper (c : Nat) (h : 48 ≤ c ∧ c ≤ 57 ∨ 97 ≤ c ∧ c ≤ 102) :
    hexValue (asciiUpper c) = hexValue c := by
  have hall : ∀ c < 103, 48 ≤ c ∧ c ≤ 57 ∨ 97 ≤ c ∧ c ≤ 102 →
    hexValue (asciiUpper c) = hexValue c := by decide
  exact hall c (by omega) h

theorem fromhex_upper {s : Str} (h : ∀ c ∈ s, 48 ≤ c ∧ c ≤ 57 ∨ 97 ≤ c ∧ c ≤ 102) :
    fromhex (s.map asciiUpper) = fromhex s := by
  fun_induction fromhex s with
  | case1 => rfl
  | case2 => rfl
  | case3 a b cs ih =>
    rw [List.map_cons, List.map_cons, fromhex, hexValue_upper a (h a (by simp)),
      hexValue_upper b (h b (by simp)), ih fun c hc => h c (by simp [hc])]

theorem upperHex_injective (h : upperHex b = upperHex d) : b = d := by
  have hread (b : Bytes) : fromhex (upperHex b) = some b :=
    (fromhex_upper fun _ hc => isHexDigit_hex hc).trans (fromhex_hex b)
  exact Option.some.inj ((hread b).symm.trans ((congrArg fromhex h).trans (hread d)))

theorem colonHex_injective (h : colonHex b = colonHex d) : b = d := by
  refine upperHex_injective ?_
  rw [← filter_colonHex, h, filter_colonHex]

theorem ascii_of_upper {s : Str} (h : Ascii (s.map asciiUpper)) : Ascii s := by
  intro c hc
  have hup := h _ (List.mem_map_of_mem hc)
  simp only [isAscii, decide_eq_true_eq] at hup ⊢
  unfold asciiUpper at hup
  split at hup <;> omega

theorem colonHex_bounds (h : c ∈ colonHex b) : 48 ≤ c ∧ c ≤ 58 ∨ 65 ≤ c ∧ c ≤ 70 := by
  rw [← colonize_upperHex] at h
  rcases mem_intercalate h with rfl | ⟨l, hl, hcl⟩
  · decide
  · have := upperHex_bounds (mem_pairs hl hcl)
    omega

theorem ascii_colonHex (b : Bytes) : Ascii (colonHex b) := fun c hc => by
  have := colonHex_bounds hc
  simp only [isAscii, decide_eq_true_eq]
  omega

theorem uppered_ascii {s : Str} (h : Ascii s) : U.uppered s = s.map asciiUpper := if_pos h

theorem uppered_colonHex (b : Bytes) : U.uppered (colonHex b) = colonHex b := by
  rw [uppered_ascii (ascii_colonHex b), List.map_congr_left fun c hc => ?_, List.map_id]
  have := colonHex_bounds hc
  rw [asciiUpper, if_neg (by omega), id]

theorem lineValue_upperHex (h : d ≠ []) : LineValue (upperHex d) where
  ne_nil hd := by
    have hlength := congrArg List.length hd
    rw [upperHex, List.length_map, length_hex] at hlength
    exact h (List.length_eq_zero_iff.mp (by simpa using hlength))
  visible c hc := by
    have hall : ∀ c < 71, 48 ≤ c ∧ c ≤ 57 ∨ 65 ≤ c ∧ c ≤ 70 → isVisible c = true := by decide
    have := upperHex_bounds hc
    exact hall c (by omega) this
  no_equals hc := by
    have := upperHex_bounds hc
    omega

/-- The fingerprint of the own certificate, in whichever case it is written. -/
theorem uppered_own (h : fp.map asciiUpper = colonHex d) :
    U.uppered (fp.filter (· != colon)) = upperHex d := by
  have hascii : Ascii fp := ascii_of_upper (h ▸ ascii_colonHex d)
  have hcolon (c : Nat) : (asciiUpper c != colon) = (c != colon) := by
    rw [Bool.eq_iff_iff, bne_iff_ne, bne_iff_ne, asciiUpper]
    have : colon = 58 := rfl
    split <;> omega
  rw [uppered_ascii fun c hc => hascii c (List.mem_of_mem_filter hc), ← filter_colonHex, ← h,
    List.filter_map]
  congr 1
  exact List.filter_congr fun c _ => (hcolon c).symm

-- ---------------------------------------------------------------------------
-- Whom a fingerprint lets in
-- ---------------------------------------------------------------------------

/-- The certificate of the peer has the digest. -/
def HasDigest {X509 : Type} (digest : Algorithm → Bytes → Bytes) (peer : Peer X509) (d : Bytes) :
    Prop :=
  ∃ certificate der, peer.getPeerCertificate = some (some certificate) ∧
    peer.dumpCertificate certificate = some der ∧ digest .sha256 der = d

theorem validatePeerIdentity_sha256 {X509 : Type} {peer : Peer X509} {value : Str}
    (h : U.uppered value = colonHex d) :
    validatePeerIdentity U digest peer [⟨some (lit "sha-256"), some value⟩] = none ↔
      HasDigest digest peer d := by
  have hnamed : Fingerprint.named U ⟨some (lit "sha-256"), some value⟩ = some .sha256 := by
    rw [Fingerprint.named, Option.bind_some, Unicode.lowered, if_pos (by decide)]
    decide
  rw [(peer_identity U digest peer _).1, Genuine]
  constructor
  · rintro ⟨certificate, der, hpeer, hder, -, -, hall⟩
    have hvalue := hall _ (List.mem_singleton_self _) .sha256 hnamed
    rw [Option.map_some, h] at hvalue
    exact ⟨certificate, der, hpeer, hder, (colonHex_injective (Option.some.inj hvalue)).symm⟩
  · rintro ⟨certificate, der, hpeer, hder, hd⟩
    refine ⟨certificate, der, hpeer, hder, ?_, ⟨_, List.mem_singleton_self _, ?_⟩, ?_⟩
    · intro f hf
      rw [List.mem_singleton.mp hf]
      exact ⟨rfl, fun _ => rfl⟩
    · rw [hnamed]
      rfl
    · intro f hf a ha
      rw [List.mem_singleton.mp hf] at ha ⊢
      rw [hnamed] at ha
      cases ha
      rw [Option.map_some, h, hd]

-- ---------------------------------------------------------------------------
-- What a handler makes of the value
-- ---------------------------------------------------------------------------

theorem unpaired_part {s t : Str} (h : Unpaired s) (ht : t <:+: s) : Unpaired t := by
  obtain ⟨u, v, rfl⟩ := ht
  exact ⟨fun c hc => h.1 c (by simp [hc]), h.2.left_of_append.right_of_append⟩

/-- The values of a description are parts of its text. -/
theorem own_eq (h : extractLocalIce sdp = some own) :
    search isVisible (lit "a=ice-ufrag:") sdp = some own.ufrag ∧
    search isVisible (lit "a=ice-pwd:") sdp = some own.pwd ∧
    (∃ fp, fingerprintOf sdp = some fp ∧ own.fingerprint = fp.filter (· != colon)) ∧
    own.candidates = findCandidates 0 sdp := by
  simp only [extractLocalIce, Option.bind_eq_bind, Option.bind_eq_some_iff, Option.pure_def,
    Option.some.injEq] at h
  obtain ⟨ufrag, hu, pwd, hp, fp, hf, rfl⟩ := h
  exact ⟨hu, hp, ⟨fp, hf, rfl⟩, rfl⟩

theorem lineValue_found {mark v : Str} (h : search isVisible mark sdp = some v) (he : 61 ∉ v) :
    LineValue v :=
  ⟨(search_eq_some h).1, (search_eq_some h).2.1, he⟩

theorem unpaired_found {mark v : Str} (hs : Unpaired sdp)
    (h : search isVisible mark sdp = some v) : Unpaired v :=
  unpaired_part hs ((List.suffix_append mark v).isInfix.trans (search_eq_some h).2.2)

theorem sound_compactValue (hu : Unpaired own.ufrag) (hp : Unpaired own.pwd)
    (hf : Unpaired (U.uppered own.fingerprint)) (hs : Unpaired setup) :
    Sound (compactValue U own setup) := by
  have hkeys : [lit "ufrag", lit "pwd", lit "fingerprint", lit "fingerprint_type"].Nodup ∧
      (∀ k ∈ [lit "ufrag", lit "pwd", lit "fingerprint", lit "fingerprint_type"], Printable k) ∧
      [lit "ice", lit "setup"].Nodup ∧ ∀ k ∈ [lit "ice", lit "setup"], Printable k := by decide
  have hu : Sound (.str own.ufrag) := hu
  have hp : Sound (.str own.pwd) := hp
  have hf : Sound (.str (U.uppered own.fingerprint)) := hf
  have hs : Sound (.str setup) := hs
  have htype : Sound (.str (lit "sha-256")) := Unpaired.of_printable (by decide)
  have hice := @sound_obj [(lit "ufrag", .str own.ufrag), (lit "pwd", .str own.pwd),
    (lit "fingerprint", .str (U.uppered own.fingerprint)),
    (lit "fingerprint_type", .str (lit "sha-256"))] hkeys.1 hkeys.2.1 (by simp [hu, hp, hf, htype])
  exact sound_obj hkeys.2.2.1 hkeys.2.2.2 (by simp [hice, hs])

theorem offerOf_compact (h : Sound (compactValue U own setup)) :
    offerOf (.str (dumps spaced (compactValue U own setup))) = .valid (.compact (.str own.ufrag)
      (.str own.pwd) (.str (U.uppered own.fingerprint)) (.str setup)) := by
  rw [offerOf, loads_dumps_self h]
  rfl

theorem offerOf_native (h : lit "v=0" <+: sdp) : offerOf (.str sdp) = .valid (.native sdp) := by
  obtain ⟨rest, rfl⟩ := h
  have hloads : loads (lit "v=0" ++ rest) = none := by
    have hskip : skip (lit "v=0" ++ rest) = lit "v=0" ++ rest := rfl
    have hvalue (n : Nat) : value (n + 1) (lit "v=0" ++ rest) = none :=
      value_other (by decide) (by decide) (by decide)
    rw [loads, hskip, hvalue, Option.bind_none]
  have hspace : (lit "v=0" ++ rest).dropWhile isSpace = lit "v=0" ++ rest := rfl
  have hprefix : (lit "v=0").isPrefixOf (lit "v=0" ++ rest) = true :=
    List.isPrefixOf_iff_prefix.mpr (List.prefix_append _ _)
  rw [offerOf, hloads]
  simp only [offerOf.native, hspace, hprefix, if_true]

/-- A description that the engine sends in either mode is taken as an offer, with its own names
and a fingerprint for which a peer is accepted that has its digest, and no other. -/
theorem identity_described (U : Unicode) (digest : Algorithm → Bytes → Bytes)
    (hmode : callType = lit "call" ∨ callType = lit "scall") (hv : lit "v=0" <+: sdp)
    (hsdp : Unpaired sdp) (hown : extractLocalIce sdp = some own) (hu : 61 ∉ own.ufrag)
    (hp : 61 ∉ own.pwd) (hf : fingerprintOf sdp = some fp) (hfp : fp.map asciiUpper = colonHex d)
    (hd : d ≠ []) (hs : Unpaired setup) (he : 61 ∉ setup) :
    ∃ offer text ice value, offerOf (.str (sdpValue U callType sdp own setup)) = .valid offer ∧
      offer.text = some text ∧ extractLocalIce text = some ice ∧ ice.ufrag = own.ufrag ∧
      ice.pwd = own.pwd ∧ fingerprintOf text = some value ∧
      ∀ (X509 : Type) (peer : Peer X509),
        validatePeerIdentity U digest peer [⟨some (lit "sha-256"), some value⟩] = none ↔
          HasDigest digest peer d := by
  obtain ⟨hufrag, hpwd, ⟨fp', hf', hfilter⟩, -⟩ := own_eq hown
  obtain rfl : fp = fp' := Option.some.inj (hf.symm.trans hf')
  rcases hmode with rfl | rfl
  -- the text itself
  · refine ⟨.native sdp, sdp, own, fp, ?_, rfl, hown, rfl, rfl, hf, fun X509 peer => ?_⟩
    · rw [sdpValue, if_neg (by decide)]
      exact offerOf_native hv
    · refine validatePeerIdentity_sha256 ?_
      rw [uppered_ascii (ascii_of_upper (hfp ▸ ascii_colonHex d)), hfp]
  -- the template, with the digest in upper case
  · have hup : U.uppered own.fingerprint = upperHex d := by rw [hfilter, uppered_own hfp]
    have hsound : Sound (compactValue U own setup) := by
      refine sound_compactValue (unpaired_found hsdp hufrag) (unpaired_found hsdp hpwd) ?_ hs
      rw [hup]
      exact .of_printable fun c hc => by
        have := upperHex_bounds hc
        omega
    have hlu := lineValue_found hufrag hu
    have hlp := lineValue_found hpwd hp
    have hld := lineValue_upperHex hd
    have hvalue : sdpValue U (lit "scall") sdp own setup = dumps spaced (compactValue U own setup) :=
      if_pos rfl
    refine ⟨.compact (.str own.ufrag) (.str own.pwd) (.str (upperHex d)) (.str setup),
      textOf (sdpLines own.ufrag own.pwd (upperHex d) setup),
      ⟨own.ufrag, own.pwd, (upperHex d).filter (· != colon), []⟩, colonHex d, ?_, rfl,
      extractLocalIce_sdpLines hlu hlp hld he, rfl, rfl, ?_,
      fun X509 peer => validatePeerIdentity_sha256 (uppered_colonHex d)⟩
    · rw [hvalue, offerOf_compact hsound, hup]
    · rw [← colonize_upperHex]
      exact fingerprint_sdpLines hu hp hld

/-- A description in the form of the engine's own ones. -/
def ownSdp : Str := textOf [lit "v=0", lit "a=candidate:1 1 udp 9 192.168.1.9 9 typ host",
  lit "a=ice-ufrag:x1+/", lit "a=ice-pwd:p2", lit "a=fingerprint:sha-256 0A:ff",
  lit "a=fingerprint:sha-384 00", lit "a=setup:active"]

theorem identity_described_compact : ∃ offer text ice value,
    offerOf (.str (sdpValue .plain (lit "scall") ownSdp ⟨lit "x1+/", lit "p2", lit "0Aff",
      [lit "candidate:1 1 udp 9 192.168.1.9 9 typ host"]⟩ (lit "active"))) = .valid offer ∧
    offer.text = some text ∧ extractLocalIce text = some ice ∧ ice.ufrag = lit "x1+/" ∧
    ice.pwd = lit "p2" ∧ fingerprintOf text = some value ∧
    ∀ (X509 : Type) (peer : Peer X509), validatePeerIdentity .plain (fun _ der => der) peer
      [⟨some (lit "sha-256"), some value⟩] = none ↔ HasDigest (fun _ der => der) peer [0x0a, 0xff] :=
  identity_described .plain (fun _ der => der) (.inr rfl) (by decide +kernel) (by decide +kernel)
    (by decide +kernel) (by decide +kernel) (by decide +kernel)
    (by decide +kernel : fingerprintOf ownSdp = some (lit "0A:ff")) (by decide +kernel) (by decide)
    (by decide +kernel) (by decide +kernel)

end EufyNvr.Stream
