import EufyNvr.Lib.JsonRoundTrip

/-!
# Arguments

What the supervisor hands on to the engine, and what `eufy_stream.py` reads
from `sys.argv` when it is loaded: the channels, and where the video goes.
-/

namespace EufyNvr.Stream

open Json

variable {s url script : Str} {n : Nat}

/-- `str.isdigit` and `int`, beyond ASCII. -/
structure Digits where
  isDigit : Str → Bool
  int : Str → Option Int

/-- No digits beyond ASCII. -/
def noDigits : Digits := ⟨fun _ => false, fun _ => none⟩

/-- What `int` takes for space in an ASCII text. -/
def isIntSpace (c : Nat) : Bool := c == 32 || decide (9 ≤ c ∧ c ≤ 13)

/-- Digits, and single underscores between them; not more than 4300. -/
def digits (s : Str) : Option Nat :=
  let parts := s.splitOn 95
  if parts.all (fun p => !p.isEmpty && p.all isDigit) ∧ parts.flatten.length ≤ 4300 then
    some (digitsValue parts.flatten)
  else none

/-- `int`, or none for a `ValueError`. -/
def toInt (D : Digits) (s : Str) : Option Int :=
  if Ascii s then
    match (s.dropWhile isIntSpace).rdropWhile isIntSpace with
    | 43 :: ds => (digits ds).map Int.ofNat
    | minus :: ds => (digits ds).map fun n => -(n : Int)
    | ds => (digits ds).map Int.ofNat
  else D.int s

def isdigit (D : Digits) (s : Str) : Bool :=
  if Ascii s then !s.isEmpty && s.all isDigit else D.isDigit s

/-- What the module keeps of its arguments. -/
structure Arguments where
  discover : Bool
  channels : List Int
  rtspUrl : Option Str
  streamMode : Bool
  runSecs : Int
  deriving DecidableEq

/-- `_carg` -/
def channelArgument (argv : List Str) : Str :=
  match argv[1]? with
  | some a => if (lit "--").isPrefixOf a then lit "0" else a
  | none => lit "0"

/-- `CHANNELS` -/
def channelsOf (D : Digits) (carg : Str) : Option (List Int) :=
  if carg = lit "all" then some [0, 1, 2, 3] else (carg.splitOn comma).mapM (toInt D)

/-- `RTSP_URL`; none of nothing where there is no argument after `--rtsp`. -/
def rtspUrlOf (argv : List Str) : Option (Option Str) :=
  if lit "--rtsp" ∈ argv then (argv[argv.idxOf (lit "--rtsp") + 1]?).map some else some none

/-- The module-level code of `eufy_stream.py` over `sys.argv`; `stdout` is
whether `EUFY_STDOUT` is set. -/
def readArguments (D : Digits) (stdout : Bool) (argv : List Str) : Option Arguments := do
  let channels ← channelsOf D (channelArgument argv)
  let rtspUrl ← rtspUrlOf argv
  let streamMode := rtspUrl.any (· ≠ []) || stdout
  let rest := (argv.drop 2).filter fun a => a ≠ lit "--rtsp" ∧ some a ≠ rtspUrl
  let runSecs ← match rest.head? with
    | some a => if isdigit D a then toInt D a else some (if streamMode then 10 ^ 9 else 70)
    | none => some (if streamMode then 10 ^ 9 else 70)
  return ⟨decide (lit "--discover" ∈ argv), channels, rtspUrl, streamMode, runSecs⟩

-- ---------------------------------------------------------------------------
-- The supervisor
-- ---------------------------------------------------------------------------

/-- Whether `main` of `eufy_run.py` takes its `sys.argv` for a discovery. -/
def isDiscovery (argv : List Str) : Bool := decide (lit "--discover" ∈ argv.drop 1)

/-- What the gate calls the session. -/
def gateLabel (argv : List Str) : Option Str :=
  match argv[1]? with
  | some a => if a.head? = some minus then none else some (lit "channel " ++ a)
  | none => none

/-- `sys.argv` of the engine that `run_attempt` starts. -/
def engineArgv (engine : Str) (argv : List Str) : List Str := engine :: argv.drop 1

-- ---------------------------------------------------------------------------
-- The arguments of a stream
-- ---------------------------------------------------------------------------

theorem numeral_ne_nil (n : Nat) : numeral n ≠ [] := by
  obtain ⟨d, ds, hd, -⟩ := numeral_cons n
  simp [hd]

theorem not_mem_numeral {c : Nat} (h : isDigit c = false) : c ∉ numeral n := fun hm => by
  rw [isDigit_numeral hm] at h
  cases h

theorem digits_numeral (h : (numeral n).length ≤ 4300) : digits (numeral n) = some n := by
  have hsplit : (numeral n).splitOn 95 = [numeral n] :=
    List.splitOn_eq_singleton (not_mem_numeral rfl)
  have hall : (numeral n).all isDigit = true := List.all_eq_true.mpr fun c hc => isDigit_numeral hc
  simp [digits, hsplit, numeral_ne_nil, hall, h, digitsValue_numeral]

theorem toInt_numeral (D : Digits) (h : (numeral n).length ≤ 4300) : toInt D (numeral n) = some n := by
  have hascii : Ascii (numeral n) := Printable.ascii (printable_numeral n)
  have hspace : ∀ c ∈ numeral n, isIntSpace c = false := fun c hc => by
    have hdigit := isDigit_numeral hc
    simp only [isDigit, decide_eq_true_eq] at hdigit
    simp only [isIntSpace, Bool.or_eq_false_iff, beq_eq_false_iff_ne, decide_eq_false_iff_not]
    omega
  obtain ⟨d, ds, hd, -⟩ := numeral_cons n
  have hdrop : (numeral n).dropWhile isIntSpace = numeral n := by
    rw [hd]
    exact List.dropWhile_cons_of_neg (by simp [hspace d (by simp [hd])])
  have hrdrop : (numeral n).rdropWhile isIntSpace = numeral n :=
    List.rdropWhile_eq_self_iff.mpr fun hne => by simp [hspace _ (List.getLast_mem hne)]
  rw [toInt, if_pos hascii, hdrop, hrdrop]
  split
  · rename_i hsign
    exact absurd (show 43 ∈ numeral n by rw [hsign]; exact List.mem_cons_self) (not_mem_numeral rfl)
  · rename_i hsign
    exact absurd (show minus ∈ numeral n by rw [hsign]; exact List.mem_cons_self)
      (not_mem_numeral rfl)
  · rw [digits_numeral h]
    rfl

/-- A channel is no option and not `all`. -/
theorem channelsOf_numeral (D : Digits) (h : (numeral n).length ≤ 4300) :
    channelsOf D (numeral n) = some [(n : Int)] := by
  have hall : numeral n ≠ lit "all" := fun heq =>
    absurd (show 97 ∈ numeral n by rw [heq]; decide) (not_mem_numeral rfl)
  have hsplit : (numeral n).splitOn comma = [numeral n] :=
    List.splitOn_eq_singleton (not_mem_numeral rfl)
  simp [channelsOf, hall, hsplit, toInt_numeral D h]

theorem channelArgument_numeral (rest : List Str) :
    channelArgument (script :: numeral n :: rest) = numeral n := by
  have hprefix : (lit "--").isPrefixOf (numeral n) = false := Bool.eq_false_iff.mpr fun h => by
    obtain ⟨t, ht⟩ := List.isPrefixOf_iff_prefix.mp h
    exact not_mem_numeral (c := minus) rfl (ht ▸ List.mem_append_left t (by decide))
  simp [channelArgument, hprefix]

/-- The engine of a stream gets its channel, and publishes at the URL. -/
theorem readArguments_stream (D : Digits) (stdout : Bool) (hn : (numeral n).length ≤ 4300)
    (hscript : script ≠ lit "--rtsp" ∧ script ≠ lit "--discover")
    (hurl : url ≠ [] ∧ url ≠ lit "--discover") :
    readArguments D stdout [script, numeral n, lit "--rtsp", url] =
      some ⟨false, [(n : Int)], some url, true, 10 ^ 9⟩ := by
  have hoption {o : Str} (ho : minus ∈ o) : numeral n ≠ o := fun heq =>
    not_mem_numeral (n := n) rfl (heq ▸ ho)
  have hrtsp : numeral n ≠ lit "--rtsp" := hoption (by decide)
  have hdiscover : lit "--discover" ∉ [script, numeral n, lit "--rtsp", url] := by
    have hne : lit "--discover" ≠ lit "--rtsp" := by decide
    simp [hscript.2.symm, hurl.2.symm, hne, (hoption (o := lit "--discover") (by decide)).symm]
  have hindex : [script, numeral n, lit "--rtsp", url].idxOf (lit "--rtsp") = 2 := by
    rw [List.idxOf_cons_ne _ hscript.1, List.idxOf_cons_ne _ hrtsp, List.idxOf_cons_self]
  have hpublish : rtspUrlOf [script, numeral n, lit "--rtsp", url] = some (some url) := by
    rw [rtspUrlOf, if_pos (by simp), hindex]
    rfl
  rw [readArguments, channelArgument_numeral, channelsOf_numeral D hn, hpublish]
  simp [hdiscover, hurl.1]

end EufyNvr.Stream
