import EufyNvr.Lib.Search
import EufyNvr.Stream.Identity
import EufyNvr.Stream.Message

/-!
# Session descriptions

The text that `build_offer_sdp` makes of a compact offer, what
`extract_local_ice` reads of a text, and the value `send_sdp` makes of that.
-/

namespace EufyNvr.Stream

open Json Hex Search

variable {v fp ufrag pwd setup mark : Str} {ls : List Str} {c : Nat}

/-- `colonize` of a text -/
def colonize (fp : Str) : Str := [colon].intercalate (pairs fp)

/-- The lines of `build_offer_sdp`. -/
def sdpLines (ufrag pwd fingerprint setup : Str) : List Str :=
  [lit "v=0", lit "o=- 0 0 IN IP4 127.0.0.1", lit "s=-", lit "t=0 0", lit "a=group:BUNDLE 2",
    lit "a=msid-semantic: WMS", lit "m=application 9 UDP/DTLS/SCTP webrtc-datachannel",
    lit "c=IN IP4 127.0.0.1", lit "a=mid:2", lit "a=ice-options:trickle",
    lit "a=ice-ufrag:" ++ ufrag, lit "a=ice-pwd:" ++ pwd,
    lit "a=fingerprint:sha-256 " ++ colonize fingerprint, lit "a=setup:" ++ setup,
    lit "a=sctp-port:5000", lit "a=max-message-size:262144"]

/-- Every line with what ends it. -/
def textOf (ls : List Str) : Str := ls.flatMap (· ++ [13, 10])

/-- The text of an offer, where the values that go into it are texts. -/
def Offer.text : Offer → Option Str
  | .compact (.str ufrag) (.str pwd) (.str fingerprint) (.str setup) =>
    some (textOf (sdpLines ufrag pwd fingerprint setup))
  | .compact .. => none
  | .native sdp => some sdp

/-- `\S` -/
def isVisible (c : Nat) : Bool := !isSpace c

/-- The group of a match of `a=(candidate:\S[^\r\n]*)` that begins here. -/
def candidateAt (text : Str) : Option Str :=
  if lit "a=candidate:" <+: text then
    match text.drop 12 with
    | c :: cs =>
      if isVisible c then some (lit "candidate:" ++ c :: cs.takeWhile fun c => c != 13 && c != 10)
      else none
    | [] => none
  else none

/-- `re.findall`. The characters that are skipped belong to the last match. -/
def findCandidates : Nat → Str → List Str
  | _, [] => []
  | skip + 1, _ :: cs => findCandidates skip cs
  | 0, c :: cs =>
    match candidateAt (c :: cs) with
    | some cand => cand :: findCandidates (cand.length + 1) cs
    | none => findCandidates 0 cs

structure LocalIce where
  ufrag : Str
  pwd : Str
  fingerprint : Str
  candidates : List Str
  deriving DecidableEq

/-- The group of `a=fingerprint:sha-256 (\S+)`. -/
def fingerprintOf (sdp : Str) : Option Str := search isVisible (lit "a=fingerprint:sha-256 ") sdp

/-- `extract_local_ice`, which raises for `none`. -/
def extractLocalIce (sdp : Str) : Option LocalIce := do
  let ufrag ← search isVisible (lit "a=ice-ufrag:") sdp
  let pwd ← search isVisible (lit "a=ice-pwd:") sdp
  let fp ← fingerprintOf sdp
  return ⟨ufrag, pwd, fp.filter (· != colon), findCandidates 0 sdp⟩

/-- The compact form of a description. -/
def compactValue (U : Unicode) (own : LocalIce) (setup : Str) : Json :=
  .obj [(lit "ice", .obj [(lit "ufrag", .str own.ufrag), (lit "pwd", .str own.pwd),
    (lit "fingerprint", .str (U.uppered own.fingerprint)),
    (lit "fingerprint_type", .str (lit "sha-256"))]), (lit "setup", .str setup)]

/-- The value that `send_sdp` sends. -/
def sdpValue (U : Unicode) (callType sdp : Str) (own : LocalIce) (setup : Str) : Str :=
  if callType = lit "scall" then dumps spaced (compactValue U own setup) else sdp

-- ---------------------------------------------------------------------------
-- Line by line
-- ---------------------------------------------------------------------------

theorem isVisible_end : isVisible 13 = false ∧ isVisible 10 = false := by decide

theorem search_textOf (hcr : 13 ∉ mark) (hlf : 10 ∉ mark) :
    search isVisible mark (textOf ls) = ls.findSome? (search isVisible mark) := by
  induction ls with
  | nil => rfl
  | cons l ls ih =>
    have hline : textOf (l :: ls) = l ++ 13 :: ([] ++ 10 :: textOf ls) := by simp [textOf]
    rw [hline, search_separated hcr isVisible_end.1, search_separated hlf isVisible_end.2, ih,
      List.findSome?_cons, search, Option.none_or]
    cases search isVisible mark l <;> rfl

theorem infix_textOf (hcr : 13 ∉ mark) (hlf : 10 ∉ mark) (hm : mark ≠ []) :
    mark <:+: textOf ls ↔ ∃ l ∈ ls, mark <:+: l := by
  induction ls with
  | nil => simp [textOf, hm]
  | cons l ls ih =>
    have hline : textOf (l :: ls) = l ++ 13 :: ([] ++ 10 :: textOf ls) := by simp [textOf]
    rw [hline, Infix.infix_separated hcr, Infix.infix_separated hlf, ih, List.infix_nil,
      or_iff_right hm]
    exact (List.exists_mem_cons_iff _ l ls).symm

theorem findCandidates_eq_nil {text : Str} (h : ¬ lit "a=candidate:" <:+: text) :
    findCandidates 0 text = [] := by
  induction text with
  | nil => rfl
  | cons c cs ih =>
    have hhere : candidateAt (c :: cs) = none := if_neg fun hc => h hc.isInfix
    rw [findCandidates, hhere]
    exact ih fun hcs => h (hcs.trans (List.suffix_cons c cs).isInfix)

/-- The mark of one attribute is not in the line of another. -/
theorem attribute_apart {m n : Str} (hn : 61 ∉ n) (hv : 61 ∉ v) (h : ¬ m <+: n ∧ ¬ n <+: m) :
    ¬ lit "a=" ++ m <:+: lit "a=" ++ (n ++ v) := by
  intro hin
  have hnv : 61 ∉ n ++ v := fun hc => (List.mem_append.mp hc).elim hn hv
  have heq : 61 ∈ lit "a=" ++ m := List.mem_append_left m (by decide)
  have hline : lit "a=" ++ (n ++ v) = [97] ++ 61 :: (n ++ v) := rfl
  rw [hline] at hin
  rcases Infix.infix_append_cons hin with ha | hb | ⟨u, w, hw, hu, hwn⟩
  · exact absurd (ha.subset heq) (by decide)
  · exact hnv (hb.subset heq)
  · have hu : u = [97] := by
      rcases List.suffix_cons_iff.mp hu with hu | hu
      · exact hu
      · obtain rfl := List.suffix_nil.mp hu
        cases hw
    subst hu
    obtain rfl : m = w := by simpa [lit] using hw
    rcases List.prefix_or_prefix_of_prefix hwn (List.prefix_append n v) with hp | hp
    · exact h.1 hp
    · exact h.2 hp

-- ---------------------------------------------------------------------------
-- The text of a compact offer
-- ---------------------------------------------------------------------------

/-- A value that can stand in a line of its own and be found there. -/
structure LineValue (v : Str) : Prop where
  ne_nil : v ≠ []
  visible : ∀ c ∈ v, isVisible c = true
  no_equals : 61 ∉ v

theorem mem_pairs {s : Str} {l : Str} (hl : l ∈ pairs s) (hc : c ∈ l) : c ∈ s := by
  fun_induction pairs s with
  | case1 => cases hl
  | case2 a =>
    rw [List.mem_singleton] at hl
    exact hl ▸ hc
  | case3 a b cs ih =>
    rcases List.mem_cons.mp hl with rfl | hl
    · rcases List.mem_pair.mp hc with rfl | rfl <;> simp
    · simp [ih hl]

theorem filter_intercalate (ls : List Str) : ([colon].intercalate ls).filter (· != colon) =
    ls.flatten.filter (· != colon) := by
  induction ls with
  | nil => rfl
  | cons l ls ih =>
    cases ls with
    | nil => simp
    | cons l' ls =>
      rw [List.intercalate_cons_cons, List.filter_append, ih, List.flatten_cons,
        List.filter_append, List.filter_append]
      simp

theorem flatten_pairs (s : Str) : (pairs s).flatten = s := by
  fun_induction pairs s with
  | case1 => rfl
  | case2 => rfl
  | case3 a b cs ih => rw [List.flatten_cons, ih]; rfl

/-- The colons that `colonize` puts in are those that are taken out again. -/
theorem filter_colonize (fp : Str) :
    (colonize fp).filter (· != colon) = fp.filter (· != colon) := by
  rw [colonize, filter_intercalate, flatten_pairs]

theorem LineValue.colonize (h : LineValue fp) : LineValue (colonize fp) := by
  have hmem : ∀ c ∈ Stream.colonize fp, c = colon ∨ c ∈ fp := by
    intro c hc
    rcases mem_intercalate hc with hcolon | ⟨l, hl, hcl⟩
    · exact .inl hcolon
    · exact .inr (mem_pairs hl hcl)
  refine ⟨?_, ?_, ?_⟩
  · cases fp with
    | nil => exact absurd rfl h.ne_nil
    | cons a cs =>
      cases cs with
      | nil => simp [Stream.colonize, pairs]
      | cons b cs => cases hp : pairs cs <;> simp [Stream.colonize, pairs, hp, List.intercalate_cons_cons]
  · intro c hc
    rcases hmem c hc with rfl | hc
    · decide
    · exact h.visible c hc
  · intro hc
    rcases hmem 61 hc with hcolon | hc
    · cases hcolon
    · exact h.no_equals hc

/-- The first line with the mark has the value. -/
theorem search_lines (pre : List Str) {post : List Str} (hcr : 13 ∉ mark) (hlf : 10 ∉ mark) (hm : mark ≠ [])
    (hpre : ∀ l ∈ pre, ¬ mark <:+: l) (h : LineValue v) :
    search isVisible mark (textOf (pre ++ (mark ++ v) :: post)) = some v := by
  have hnone : pre.findSome? (search isVisible mark) = none :=
    List.findSome?_eq_none_iff.mpr fun l hl => search_eq_none (hpre l hl)
  rw [search_textOf hcr hlf, List.findSome?_append, hnone, Option.none_or, List.findSome?_cons,
    search_mark hm h.ne_nil h.visible]

/-- The lines before the first value. -/
def sdpFixed : List Str :=
  [lit "v=0", lit "o=- 0 0 IN IP4 127.0.0.1", lit "s=-", lit "t=0 0", lit "a=group:BUNDLE 2",
    lit "a=msid-semantic: WMS", lit "m=application 9 UDP/DTLS/SCTP webrtc-datachannel",
    lit "c=IN IP4 127.0.0.1", lit "a=mid:2", lit "a=ice-options:trickle"]

theorem sdpFixed_apart : ∀ mark ∈ [lit "a=ice-ufrag:", lit "a=ice-pwd:",
    lit "a=fingerprint:sha-256 ", lit "a=candidate:"], ∀ l ∈ sdpFixed, ¬ mark <:+: l := by
  decide +kernel

theorem ufrag_sdpLines (h : LineValue ufrag) :
    search isVisible (lit "a=ice-ufrag:") (textOf (sdpLines ufrag pwd fp setup)) = some ufrag :=
  search_lines sdpFixed (by decide) (by decide) (by decide) (sdpFixed_apart _ (by simp)) h

theorem pwd_sdpLines (hu : 61 ∉ ufrag) (h : LineValue pwd) :
    search isVisible (lit "a=ice-pwd:") (textOf (sdpLines ufrag pwd fp setup)) = some pwd := by
  refine search_lines (sdpFixed ++ [lit "a=ice-ufrag:" ++ ufrag]) (by decide) (by decide)
    (by decide) (fun l hl => ?_) h
  rcases List.mem_append.mp hl with hl | hl
  · exact sdpFixed_apart _ (by simp) l hl
  · rw [List.mem_singleton.mp hl]
    exact attribute_apart (m := lit "ice-pwd:") (n := lit "ice-ufrag:") (by decide) hu (by decide)

theorem fingerprint_sdpLines (hu : 61 ∉ ufrag) (hp : 61 ∉ pwd) (h : LineValue fp) :
    fingerprintOf (textOf (sdpLines ufrag pwd fp setup)) = some (colonize fp) := by
  refine search_lines (sdpFixed ++ [lit "a=ice-ufrag:" ++ ufrag, lit "a=ice-pwd:" ++ pwd])
    (by decide) (by decide) (by decide) (fun l hl => ?_) h.colonize
  rcases List.mem_append.mp hl with hl | hl
  · exact sdpFixed_apart _ (by simp) l hl
  · rcases List.mem_pair.mp hl with rfl | rfl
    · exact attribute_apart (m := lit "fingerprint:sha-256 ") (n := lit "ice-ufrag:") (by decide) hu
        (by decide)
    · exact attribute_apart (m := lit "fingerprint:sha-256 ") (n := lit "ice-pwd:") (by decide) hp
        (by decide)

theorem no_candidate (hu : 61 ∉ ufrag) (hp : 61 ∉ pwd) (h : LineValue fp) (hs : 61 ∉ setup) :
    ¬ lit "a=candidate:" <:+: textOf (sdpLines ufrag pwd fp setup) := by
  have hlines : sdpLines ufrag pwd fp setup = sdpFixed ++ [lit "a=ice-ufrag:" ++ ufrag,
      lit "a=ice-pwd:" ++ pwd, lit "a=fingerprint:sha-256 " ++ colonize fp, lit "a=setup:" ++ setup,
      lit "a=sctp-port:5000", lit "a=max-message-size:262144"] := rfl
  have hapart {n v : Str} (hn : 61 ∉ n) (hv : 61 ∉ v)
      (h : ¬ lit "candidate:" <+: n ∧ ¬ n <+: lit "candidate:") :
      ¬ lit "a=candidate:" <:+: lit "a=" ++ (n ++ v) := attribute_apart hn hv h
  rw [infix_textOf (by decide) (by decide) (by decide), hlines]
  rintro ⟨l, hl, hin⟩
  rcases List.mem_append.mp hl with hl | hl
  · exact sdpFixed_apart _ (by simp) l hl hin
  simp only [List.mem_cons, List.not_mem_nil, or_false] at hl
  rcases hl with rfl | rfl | rfl | rfl | rfl | rfl
  · exact hapart (n := lit "ice-ufrag:") (by decide) hu (by decide) hin
  · exact hapart (n := lit "ice-pwd:") (by decide) hp (by decide) hin
  · exact hapart (n := lit "fingerprint:sha-256 ") (by decide) h.colonize.no_equals
      (by decide) hin
  · exact hapart (n := lit "setup:") (by decide) hs (by decide) hin
  · exact absurd hin (by decide)
  · exact absurd hin (by decide)

/-- What goes into the text of a compact offer is what is read of it. -/
theorem extractLocalIce_sdpLines (hu : LineValue ufrag) (hp : LineValue pwd) (hf : LineValue fp)
    (hs : 61 ∉ setup) : extractLocalIce (textOf (sdpLines ufrag pwd fp setup)) =
      some ⟨ufrag, pwd, fp.filter (· != colon), []⟩ := by
  rw [extractLocalIce, ufrag_sdpLines hu, pwd_sdpLines hu.no_equals hp,
    fingerprint_sdpLines hu.no_equals hp.no_equals hf,
    findCandidates_eq_nil (no_candidate hu.no_equals hp.no_equals hf hs)]
  simp only [Option.bind_eq_bind, Option.bind_some, Option.pure_def, filter_colonize]

end EufyNvr.Stream
