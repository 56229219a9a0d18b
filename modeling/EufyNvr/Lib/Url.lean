import EufyNvr.Lib.Ipv6RoundTrip
import EufyNvr.Lib.Partition
import EufyNvr.Lib.Unicode

/-!
# Splitting a URL

`urllib.parse.urlsplit`, and the parts of an authority as its result reads
them. Nothing here undoes a percent escape.
-/

namespace EufyNvr.Url

open Json

variable {U : Unicode} {url netloc path host s : Str} {c : Nat}

abbrev slash : Nat := 47
abbrev question : Nat := 63
abbrev hash : Nat := 35
abbrev atSign : Nat := 64

def isSchemeChar (c : Nat) : Bool := isAlpha c || isDigit c || c == 43 || c == 45 || c == 46

/-- What ends an authority. -/
def isDelimiter (c : Nat) : Bool := c == slash || c == question || c == hash

def isUnsafe (c : Nat) : Bool := c == 9 || c == 10 || c == 13

structure SplitResult where
  scheme : Str
  netloc : Str
  path : Str
  query : Str
  fragment : Str
  deriving DecidableEq

/-- The scheme in lower case, and what follows its colon. -/
def splitScheme (url : Str) : Str × Str :=
  let p := partition colon url
  if p.separator ≠ [] ∧ url.head?.any isAlpha ∧ p.before.all isSchemeChar then
    (p.before.map asciiLower, p.after)
  else ([], url)

/-- `_splitnetloc` -/
def splitNetloc (url : Str) : Str × Str :=
  (url.takeWhile (!isDelimiter ·), url.dropWhile (!isDelimiter ·))

/-- `IPv6Address` takes it, with a scope or without. -/
def isIpv6 (s : Str) : Bool :=
  let p := partition percent s
  (p.separator == [] || (p.after != [] && !p.after.contains percent)) &&
    (Ipv6.parse p.before).isSome

/-- `v[a-fA-F0-9]+\..+` -/
def isFuture (s : Str) : Bool :=
  let p := partition point (s.drop 1)
  s.head? == some 118 && p.before != [] && p.before.all (fun c => (hexValue c).isSome) &&
    p.after != [] && !p.after.contains 10

/-- `_check_bracketed_host` -/
def checkBracketedHost (host : Str) : Bool :=
  if host.head? = some 118 then isFuture host else (Ipv4.parse host).isNone && isIpv6 host

/-- `_check_bracketed_netloc` -/
def checkBracketedNetloc (netloc : Str) : Bool :=
  let p := partition lbracket (rpartition atSign netloc).after
  if p.separator ≠ [] then
    let q := partition rbracket p.after
    p.before == [] && (q.after == [] || q.after.head? == some colon) && checkBracketedHost q.before
  else checkBracketedHost (partition colon (rpartition atSign netloc).after).before

def checkBrackets (netloc : Str) : Bool :=
  if lbracket ∈ netloc ∧ rbracket ∈ netloc then checkBracketedNetloc netloc
  else lbracket ∉ netloc ∧ rbracket ∉ netloc

/-- `_checknetloc` -/
def checkNetloc (U : Unicode) (netloc : Str) : Bool :=
  if Ascii netloc then true
  else
    let n := netloc.filter fun c => !(c == atSign || c == colon || c == hash || c == question)
    U.nfkc n == n || (U.nfkc n).all fun c => !(isDelimiter c || c == atSign || c == colon)

/-- Nothing where it raises `ValueError`. -/
def urlsplit (U : Unicode) (url : Str) : Option SplitResult :=
  let url := (url.dropWhile fun c => decide (c ≤ 32)).filter (!isUnsafe ·)
  let (scheme, url) := splitScheme url
  let (netloc, url) := if url.take 2 = [slash, slash] then splitNetloc (url.drop 2) else ([], url)
  if checkBrackets netloc then
    let p := partition hash url
    let q := partition question p.before
    if checkNetloc U netloc then some ⟨scheme, netloc, q.before, q.after, p.after⟩ else none
  else none

namespace SplitResult

variable (r : SplitResult)

def username : Option Str :=
  let p := rpartition atSign r.netloc
  if p.separator = [] then none else some (partition colon p.before).before

def password : Option Str :=
  let p := rpartition atSign r.netloc
  let q := partition colon p.before
  if p.separator = [] ∨ q.separator = [] then none else some q.after

/-- The host, and the text of the port. -/
def hostinfo : Str × Str :=
  let p := partition lbracket (rpartition atSign r.netloc).after
  if p.separator ≠ [] then
    let q := partition rbracket p.after
    (q.before, (partition colon q.after).after)
  else
    let q := partition colon (rpartition atSign r.netloc).after
    (q.before, q.after)

/-- In lower case up to a scope. -/
def hostname (U : Unicode) : Option Str :=
  if r.hostinfo.1 = [] then none
  else
    let p := partition percent r.hostinfo.1
    some (U.lowered p.before ++ p.separator ++ p.after)

/-- The outer nothing is a `ValueError`. -/
def port : Option (Option Nat) :=
  if r.hostinfo.2 = [] then some none
  else if r.hostinfo.2.all isDigit && r.hostinfo.2.length ≤ 4300 &&
      digitsValue r.hostinfo.2 ≤ 65535 then
    some (some (digitsValue r.hostinfo.2))
  else none

end SplitResult

-- ---------------------------------------------------------------------------
-- What becomes of a URL of one authority
-- ---------------------------------------------------------------------------

theorem splitNetloc_append (hnetloc : ∀ c ∈ netloc, isDelimiter c = false)
    (hpath : path.head?.all isDelimiter = true) :
    splitNetloc (netloc ++ path) = (netloc, path) := by
  have hall : ∀ c ∈ netloc, (!isDelimiter c) = true := fun c hc => by rw [hnetloc c hc]; rfl
  rw [splitNetloc, List.takeWhile_append_of_pos hall, List.dropWhile_append_of_pos hall]
  cases path with
  | nil => simp
  | cons c path =>
    have hc : (!isDelimiter c) = false := by simpa using hpath
    rw [List.takeWhile_cons_of_neg (by simp [hc]), List.dropWhile_cons_of_neg (by simp [hc]),
      List.append_nil]

theorem splitScheme_http (s : Str) : splitScheme (lit "http:" ++ s) = (lit "http", s) := by
  have hpartition : partition colon (lit "http:" ++ s) = ⟨lit "http", [colon], s⟩ :=
    by
    have happend : lit "http:" ++ s = lit "http" ++ colon :: s := rfl
    rw [happend, partition_present (by decide)]
  have hhead : (lit "http:" ++ s).head? = some 104 := rfl
  have halpha : (some 104).any isAlpha = true := by decide
  have hall : (lit "http").all isSchemeChar = true := by decide
  have hlower : (lit "http").map asciiLower = lit "http" := by decide
  rw [splitScheme, hpartition, hhead]
  simp only [halpha, hall, hlower]
  rfl

/-- The one with an empty path or a slash. -/
theorem urlsplit_http (hnetloc : ∀ c ∈ netloc, isUnsafe c = false ∧ isDelimiter c = false)
    (hpath : path = [] ∨ path = [slash]) :
    urlsplit U (lit "http://" ++ (netloc ++ path)) =
      if checkBrackets netloc ∧ checkNetloc U netloc then some ⟨lit "http", netloc, path, [], []⟩
      else none := by
  have hsafe : ∀ c ∈ lit "http://" ++ (netloc ++ path), (!isUnsafe c) = true := by
    have hscheme : ∀ c ∈ lit "http://", (!isUnsafe c) = true := by decide
    intro c hc
    rcases List.mem_append.mp hc with hc | hc
    · exact hscheme c hc
    · rcases List.mem_append.mp hc with hc | hc
      · rw [(hnetloc c hc).1]
        rfl
      · rcases hpath with rfl | rfl
        · cases hc
        · rw [List.mem_singleton.mp hc]
          decide
  have hstrip : ((lit "http://" ++ (netloc ++ path)).dropWhile fun c => decide (c ≤ 32)).filter
      (!isUnsafe ·) = lit "http:" ++ ([slash, slash] ++ (netloc ++ path)) := by
    have hdrop : (lit "http://" ++ (netloc ++ path)).dropWhile (fun c => decide (c ≤ 32)) =
        lit "http://" ++ (netloc ++ path) := List.dropWhile_cons_of_neg (by decide)
    rw [hdrop, List.filter_eq_self.mpr hsafe]
    rfl
  have hhead : path.head?.all isDelimiter = true := by
    rcases hpath with rfl | rfl <;> decide
  have hquestion : question ∉ path := by
    rcases hpath with rfl | rfl <;> decide
  have hhash : hash ∉ path := by
    rcases hpath with rfl | rfl <;> decide
  have htake : ([slash, slash] ++ (netloc ++ path)).take 2 = [slash, slash] := rfl
  have hdrop : ([slash, slash] ++ (netloc ++ path)).drop 2 = netloc ++ path := rfl
  rw [urlsplit, hstrip, splitScheme_http]
  simp only [htake, hdrop, if_true, splitNetloc_append (fun c hc => (hnetloc c hc).2) hhead,
    partition_absent hhash, partition_absent hquestion]
  split <;> split <;> simp_all

-- ---------------------------------------------------------------------------
-- Authorities that are a host only
-- ---------------------------------------------------------------------------

variable {r : SplitResult}

theorem username_eq_none (h : atSign ∉ r.netloc) : r.username = none := by
  rw [SplitResult.username, rpartition_absent h]
  rfl

theorem password_eq_none (h : atSign ∉ r.netloc) : r.password = none := by
  rw [SplitResult.password, rpartition_absent h]
  rfl

theorem hostinfo_plain (hat : atSign ∉ r.netloc) (hbracket : lbracket ∉ r.netloc)
    (hcolon : colon ∉ r.netloc) : r.hostinfo = (r.netloc, []) := by
  simp [SplitResult.hostinfo, rpartition_absent hat, partition_absent hbracket,
    partition_absent hcolon]

theorem hostinfo_bracketed (hnetloc : r.netloc = lbracket :: (host ++ [rbracket]))
    (hat : atSign ∉ host) (hbracket : rbracket ∉ host) : r.hostinfo = (host, []) := by
  have hat' : atSign ∉ r.netloc := by
    simp [hnetloc, hat]
  have hopen : partition lbracket r.netloc = ⟨[], [lbracket], host ++ [rbracket]⟩ := by
    rw [hnetloc]
    exact partition_present List.not_mem_nil
  simp [SplitResult.hostinfo, rpartition_absent hat', hopen, partition_present hbracket, partition]

/-- Around a host without a port there are only its delimiters. -/
theorem netloc_of_hostinfo (hat : atSign ∉ r.netloc) (hcheck : checkBrackets r.netloc = true)
    (hport : r.hostinfo.2 = []) : rbracket ∉ r.hostinfo.1 ∧ ∃ p q,
      r.netloc = p ++ (r.hostinfo.1 ++ q) ∧ (∀ c ∈ p, c = lbracket) ∧
        ∀ c ∈ q, c = rbracket ∨ c = colon := by
  have hafter : (rpartition atSign r.netloc).after = r.netloc := by rw [rpartition_absent hat]
  rcases partition_cases lbracket r.netloc with ⟨hopen, hp⟩ | ⟨a, b, hnetloc, -, hp⟩
  · have hclose : rbracket ∉ r.netloc := by
      simpa [checkBrackets, hopen] using hcheck
    simp only [SplitResult.hostinfo, hafter, hp, ne_eq, not_true_eq_false, if_false] at hport ⊢
    rcases partition_cases colon r.netloc with ⟨-, hq⟩ | ⟨a, b, hnetloc, -, hq⟩
    · rw [hq]
      exact ⟨hclose, [], [], (List.append_nil _).symm, nofun, nofun⟩
    · rw [hq] at hport ⊢
      obtain rfl : b = [] := hport
      refine ⟨fun h => hclose (hnetloc ▸ List.mem_append_left _ h), [], [colon], hnetloc, nofun, ?_⟩
      simp
  · have hne : ([lbracket] : Str) ≠ [] := List.cons_ne_nil _ _
    have hmem : lbracket ∈ r.netloc := hnetloc ▸ by simp
    have hclose : rbracket ∈ r.netloc := by
      by_contra hclose
      simp [checkBrackets, hmem, hclose] at hcheck
    rw [checkBrackets, if_pos ⟨hmem, hclose⟩, checkBracketedNetloc, hafter, hp] at hcheck
    simp only [hne, ne_eq, not_false_eq_true, if_true, Bool.and_eq_true, Bool.or_eq_true,
      beq_iff_eq] at hcheck
    obtain ⟨⟨rfl, hrest⟩, -⟩ := hcheck
    simp only [SplitResult.hostinfo, hafter, hp, hne, ne_eq, not_false_eq_true, if_true] at hport ⊢
    rcases partition_cases rbracket b with ⟨hb, hq⟩ | ⟨a', b', rfl, ha', hq⟩
    · rw [hq]
      exact ⟨hb, [lbracket], [], by rw [hnetloc, List.append_nil]; rfl, by simp, nofun⟩
    · rw [hq] at hport hrest ⊢
      cases b' with
      | nil => exact ⟨ha', [lbracket], [rbracket], hnetloc, by simp, by simp⟩
      | cons c b' =>
        obtain rfl : c = colon := by simpa using hrest
        obtain rfl : b' = [] := by simpa [partition] using hport
        exact ⟨ha', [lbracket], [rbracket, colon], hnetloc, by simp, by simp⟩

theorem checkBrackets_plain (hopen : lbracket ∉ netloc) (hclose : rbracket ∉ netloc) :
    checkBrackets netloc = true := by
  simp [checkBrackets, hopen, hclose]

theorem checkBrackets_bracketed (hat : atSign ∉ host) (hbracket : rbracket ∉ host)
    (hcheck : checkBracketedHost host = true) :
    checkBrackets (lbracket :: (host ++ [rbracket])) = true := by
  have hat' : atSign ∉ lbracket :: (host ++ [rbracket]) := by
    simp [hat]
  have hopen : partition lbracket (lbracket :: (host ++ [rbracket])) =
      ⟨[], [lbracket], host ++ [rbracket]⟩ := partition_present List.not_mem_nil
  have hmem : lbracket ∈ lbracket :: (host ++ [rbracket]) ∧
      rbracket ∈ lbracket :: (host ++ [rbracket]) := by simp
  rw [checkBrackets, if_pos hmem, checkBracketedNetloc, rpartition_absent hat', hopen]
  simp [partition_present hbracket, hcheck]

/-- An address in brackets, its scope included. -/
theorem checkBracketedHost_ipv6 (hhead : host.head? ≠ some 118) (hcolon : colon ∈ host)
    (hipv6 : isIpv6 host = true) : checkBracketedHost host = true := by
  have hipv4 : (Ipv4.parse host).isNone = true := by
    cases hparse : Ipv4.parse host with
    | none => rfl
    | some os =>
      have hne : ¬ (isDigit colon = true ∨ colon = point) := by decide
      exact absurd (Ipv4.parse_char hparse hcolon) hne
  rw [checkBracketedHost, if_neg hhead, hipv4, hipv6]
  rfl

end EufyNvr.Url
