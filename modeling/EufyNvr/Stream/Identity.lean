import EufyNvr.Lib.Hex
import EufyNvr.Lib.Unicode

/-!
# The certificate of the peer

`_validate_peer_identity_via_der` of `eufy_stream.py`, with the digests as a
parameter. What raises an exception is `none`.
-/

namespace EufyNvr.Stream

open Json Hex

/-- The algorithms of `_PEER_DIGESTS`. -/
inductive Algorithm
  | sha256
  | sha384
  | sha512
  deriving DecidableEq

def peerDigests : List (Str × Algorithm) :=
  [(lit "sha-256", .sha256), (lit "sha-384", .sha384), (lit "sha-512", .sha512)]

inductive TransportState
  | new
  | connecting
  | connected
  | closed
  | failed
  deriving DecidableEq

/-- A fingerprint of the remote description. -/
structure Fingerprint where
  algorithm : Option Str
  value : Option Str

/-- What the connection and OpenSSL answer. -/
structure Peer (X509 : Type) where
  getPeerCertificate : Option (Option X509)
  dumpCertificate : X509 → Option Bytes

structure Counters where
  supported : Nat
  valid : Nat

section

variable {X509 : Type} (U : Unicode) (digest : Algorithm → Bytes → Bytes)

/-- `":".join(hx[i:i + 2] for i in range(0, len(hx), 2))` -/
def digestText (a : Algorithm) (der : Bytes) : Str :=
  [colon].intercalate (pairs (U.uppered (hex (digest a der))))

/-- One turn of the loop over the fingerprints. -/
def tally (der : Bytes) (c : Counters) (f : Fingerprint) : Option Counters := do
  let algorithm ← f.algorithm
  match peerDigests.lookup (U.lowered algorithm) with
  | none => return c
  | some a =>
    let value ← f.value
    if U.uppered value = digestText U digest a der then return ⟨c.supported + 1, c.valid + 1⟩
    else return { c with supported := c.supported + 1 }

def countFingerprints (peer : Peer X509) (fingerprints : List Fingerprint) : Option Counters := do
  let certificate ← peer.getPeerCertificate
  let certificate ← certificate
  let der ← peer.dumpCertificate certificate
  fingerprints.foldlM (tally U digest der) ⟨0, 0⟩

/-- The state that is set, if one is. -/
def validatePeerIdentity (peer : Peer X509) (fingerprints : List Fingerprint) :
    Option TransportState :=
  match countFingerprints U digest peer fingerprints with
  | none => some .failed
  | some c => if c.supported = 0 ∨ c.valid ≠ c.supported then some .failed else none

end

variable {X509 : Type} {U : Unicode} {digest : Algorithm → Bytes → Bytes} {der : Bytes}
  {f : Fingerprint} {fs : List Fingerprint} {c d : Counters} {a : Algorithm}

-- ---------------------------------------------------------------------------
-- What a fingerprint says
-- ---------------------------------------------------------------------------

/-- The digest in upper case, with colons between the bytes. -/
def colonHex (b : Bytes) : Str :=
  [colon].intercalate (b.map fun x => (byteDigits x).map asciiUpper)

/-- The supported algorithm that a fingerprint names. -/
def Fingerprint.named (U : Unicode) (f : Fingerprint) : Option Algorithm :=
  f.algorithm.bind fun algorithm => peerDigests.lookup (U.lowered algorithm)

/-- Nothing raises that is read of a fingerprint. -/
def Fingerprint.Readable (U : Unicode) (f : Fingerprint) : Prop :=
  f.algorithm.isSome = true ∧ ((f.named U).isSome = true → f.value.isSome = true)

def Fingerprint.matching (U : Unicode) (digest : Algorithm → Bytes → Bytes) (der : Bytes)
    (f : Fingerprint) : Bool :=
  (f.named U).any fun a => f.value.any fun value => U.uppered value == colonHex (digest a der)

theorem pairs_map (g : Nat → Nat) (s : Str) : pairs (s.map g) = (pairs s).map (List.map g) := by
  fun_induction pairs s with
  | case1 => rfl
  | case2 => rfl
  | case3 a b cs ih => rw [List.map_cons, List.map_cons, pairs, ih]; rfl

theorem digestText_eq (a : Algorithm) (der : Bytes) :
    digestText U digest a der = colonHex (digest a der) := by
  rw [digestText, Unicode.uppered, if_pos (ascii_hex _), pairs_map, pairs_hex, List.map_map]
  rfl

def Counters.add (c d : Counters) : Counters := ⟨c.supported + d.supported, c.valid + d.valid⟩

/-- What a fingerprint counts for. -/
def Fingerprint.counts (U : Unicode) (digest : Algorithm → Bytes → Bytes) (der : Bytes)
    (f : Fingerprint) : Counters :=
  ⟨if (f.named U).isSome then 1 else 0, if f.matching U digest der then 1 else 0⟩

theorem tally_readable (h : f.Readable U) :
    tally U digest der c f = some (c.add (f.counts U digest der)) := by
  obtain ⟨algorithm, halg⟩ := Option.isSome_iff_exists.mp h.1
  have hnamed : f.named U = peerDigests.lookup (U.lowered algorithm) := by
    rw [Fingerprint.named, halg, Option.bind_some]
  rw [tally, halg, Option.bind_eq_bind, Option.bind_some, ← hnamed]
  cases hn : f.named U with
  | none => simp [Fingerprint.counts, Fingerprint.matching, Counters.add, hn]
  | some a =>
    obtain ⟨value, hvalue⟩ := Option.isSome_iff_exists.mp (h.2 (by rw [hn]; rfl))
    by_cases hv : U.uppered value = colonHex (digest a der)
    · simp [Fingerprint.counts, Fingerprint.matching, Counters.add, hn, hvalue, digestText_eq, hv]
    · simp [Fingerprint.counts, Fingerprint.matching, Counters.add, hn, hvalue, digestText_eq, hv]

theorem tally_raises (h : ¬ f.Readable U) : tally U digest der c f = none := by
  cases halg : f.algorithm with
  | none => rw [tally, halg]; rfl
  | some algorithm =>
    have hnamed : f.named U = peerDigests.lookup (U.lowered algorithm) := by
      rw [Fingerprint.named, halg, Option.bind_some]
    rw [tally, halg, Option.bind_eq_bind, Option.bind_some, ← hnamed]
    cases hn : f.named U with
    | none => exact absurd ⟨by rw [halg]; rfl, fun hs => by rw [hn] at hs; cases hs⟩ h
    | some a =>
      cases hvalue : f.value with
      | none => rfl
      | some value => exact absurd ⟨by rw [halg]; rfl, fun _ => by rw [hvalue]; rfl⟩ h

-- ---------------------------------------------------------------------------
-- The counters after the loop
-- ---------------------------------------------------------------------------

/-- The loop ends with the counts of all fingerprints, if nothing raises. -/
theorem foldlM_tally : fs.foldlM (tally U digest der) c = some d ↔
    (∀ f ∈ fs, f.Readable U) ∧ d.supported = c.supported + fs.countP (fun f => (f.named U).isSome) ∧
      d.valid = c.valid + fs.countP (Fingerprint.matching U digest der) := by
  induction fs generalizing c with
  | nil =>
    obtain ⟨s, v⟩ := c
    obtain ⟨s', v'⟩ := d
    simp [eq_comm]
  | cons f fs ih =>
    rw [List.foldlM_cons, List.forall_mem_cons]
    by_cases hf : f.Readable U
    · rw [tally_readable hf, Option.bind_eq_bind, Option.bind_some, ih, List.countP_cons,
        List.countP_cons]
      simp only [hf, true_and, Counters.add, Fingerprint.counts]
      have hadd (k n m : Nat) : k + n + m = k + (m + n) := by omega
      rw [hadd, hadd]
    · rw [tally_raises hf]
      simp [hf]

/-- The certificate is there, nothing raises, a supported algorithm is named,
and every fingerprint that names one has the digest of the certificate. -/
def Genuine (U : Unicode) (digest : Algorithm → Bytes → Bytes) (peer : Peer X509)
    (fs : List Fingerprint) : Prop :=
  ∃ certificate der, peer.getPeerCertificate = some (some certificate) ∧
    peer.dumpCertificate certificate = some der ∧ (∀ f ∈ fs, f.Readable U) ∧
    (∃ f ∈ fs, (f.named U).isSome = true) ∧
    ∀ f ∈ fs, ∀ a, f.named U = some a →
      f.value.map U.uppered = some (colonHex (digest a der))

theorem countP_eq_iff {α : Type} {p q : α → Bool} (h : ∀ x, q x = true → p x = true) (l : List α) :
    l.countP q = l.countP p ↔ ∀ x ∈ l, p x = true → q x = true := by
  induction l with
  | nil => simp
  | cons x l ih =>
    have hle : l.countP q ≤ l.countP p := List.countP_mono_left fun x _ => h x
    rw [List.countP_cons, List.countP_cons, List.forall_mem_cons, ← ih]
    cases hq : q x with
    | true => simp [h x hq]
    | false =>
      cases hp : p x with
      | true => simp; omega
      | false => simp

theorem matching_iff (h : f.named U = some a) : f.matching U digest der = true ↔
    f.value.map U.uppered = some (colonHex (digest a der)) := by
  cases hv : f.value <;> simp [Fingerprint.matching, h, hv]

theorem countFingerprints_eq_some {peer : Peer X509} :
    countFingerprints U digest peer fs = some c ↔ ∃ certificate der,
      peer.getPeerCertificate = some (some certificate) ∧
      peer.dumpCertificate certificate = some der ∧
      fs.foldlM (tally U digest der) ⟨0, 0⟩ = some c := by
  simp only [countFingerprints, Option.bind_eq_bind, Option.bind_eq_some_iff]
  constructor
  · rintro ⟨_, hpeer, certificate, rfl, der, hder, hfold⟩
    exact ⟨certificate, der, hpeer, hder, hfold⟩
  · rintro ⟨certificate, der, hpeer, hder, hfold⟩
    exact ⟨_, hpeer, certificate, rfl, der, hder, hfold⟩

theorem validatePeerIdentity_eq_none {peer : Peer X509} :
    validatePeerIdentity U digest peer fs = none ↔ ∃ c,
      countFingerprints U digest peer fs = some c ∧ c.supported ≠ 0 ∧ c.valid = c.supported := by
  unfold validatePeerIdentity
  split
  · rename_i h
    simp [h]
  · rename_i c h
    rw [h]
    split
    · rename_i hfail
      refine ⟨nofun, fun ⟨d, hd, hs, hv⟩ => ?_⟩
      cases hd
      exact absurd hfail (by simp [hs, hv])
    · rename_i hok
      rw [not_or, not_not] at hok
      exact ⟨fun _ => ⟨c, rfl, hok⟩, fun _ => rfl⟩

theorem genuine_iff {peer : Peer X509} : Genuine U digest peer fs ↔
    ∃ c, countFingerprints U digest peer fs = some c ∧ c.supported ≠ 0 ∧ c.valid = c.supported := by
  have hmatch (der : Bytes) (f : Fingerprint) (h : f.matching U digest der = true) :
      (f.named U).isSome = true := by
    obtain ⟨a, ha, -⟩ := (Option.any_eq_true _ _).mp h
    rw [ha]
    rfl
  constructor
  · rintro ⟨certificate, der, hpeer, hder, hread, ⟨f, hf, hnamed⟩, hall⟩
    refine ⟨⟨fs.countP fun f => (f.named U).isSome, fs.countP (Fingerprint.matching U digest der)⟩,
      countFingerprints_eq_some.mpr ⟨certificate, der, hpeer, hder,
        foldlM_tally.mpr ⟨hread, by simp⟩⟩, ?_, ?_⟩
    · exact (List.countP_pos_iff.mpr ⟨f, hf, hnamed⟩).ne'
    · refine (countP_eq_iff (hmatch der) fs).mpr fun f hf hs => ?_
      obtain ⟨a, ha⟩ := Option.isSome_iff_exists.mp hs
      exact (matching_iff ha).mpr (hall f hf a ha)
  · rintro ⟨c, hcount, hs, hv⟩
    obtain ⟨certificate, der, hpeer, hder, hfold⟩ := countFingerprints_eq_some.mp hcount
    obtain ⟨hread, hsupported, hvalid⟩ := foldlM_tally.mp hfold
    rw [Nat.zero_add] at hsupported hvalid
    refine ⟨certificate, der, hpeer, hder, hread, ?_, fun f hf a ha => ?_⟩
    · exact List.countP_pos_iff.mp (Nat.pos_of_ne_zero (hsupported ▸ hs))
    · rw [hsupported, hvalid] at hv
      exact (matching_iff ha).mp ((countP_eq_iff (hmatch der) fs).mp hv f hf (by rw [ha]; rfl))

/-- A genuine certificate is accepted, and nothing else is. -/
theorem peer_identity (U : Unicode) (digest : Algorithm → Bytes → Bytes) (peer : Peer X509)
    (fs : List Fingerprint) :
    (validatePeerIdentity U digest peer fs = none ↔ Genuine U digest peer fs) ∧
    (validatePeerIdentity U digest peer fs = some .failed ↔ ¬ Genuine U digest peer fs) := by
  have hnone : validatePeerIdentity U digest peer fs = none ↔ Genuine U digest peer fs :=
    validatePeerIdentity_eq_none.trans genuine_iff.symm
  refine ⟨hnone, ?_⟩
  rw [← hnone]
  -- No other state is ever set.
  unfold validatePeerIdentity
  split
  · simp
  · split <;> simp

/-- A text in mixed case, after one of an algorithm that is not supported. -/
example : validatePeerIdentity .plain (fun _ der => der)
    (⟨some (some ()), fun _ => some [0x0a, 0xff]⟩ : Peer Unit)
    [⟨some (lit "sha-1"), none⟩, ⟨some (lit "SHA-256"), some (lit "0a:Ff")⟩] = none := by
  decide +kernel

end EufyNvr.Stream
