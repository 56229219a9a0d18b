import EufyNvr.Stream.Frame
import EufyNvr.Supervisor.Markers

/-!
# Device text in the relayed log

The lines that `on_frame` logs for a control reply, as `_relay_stderr` reads
them and `inspect_log_line` looks through them. They hold texts of the
device, and a marker is in one of the lines if it is in one of these texts:
what is printed around them has no marker and completes none.
-/

namespace EufyNvr.Supervisor

open Json Infix
open EufyNvr.Stream

variable {I : Interpreter} {k : Constants} {e : Surroundings} {s : FrameState} {buf : Bytes}
  {link : Nat} {m : String} {a b text : Str}

-- ---------------------------------------------------------------------------
-- The log
-- ---------------------------------------------------------------------------

/-- `time.strftime("%H:%M:%S")` -/
structure Stamp where
  text : Str
  digits : ∀ c ∈ text, isDigit c = true ∨ c = colon

variable {calls : List (Stamp × Str)}

/-- `log`, with the end of the line. -/
def printed (t : Stamp) (text : Str) : Str := lit "[" ++ t.text ++ lit "] " ++ text ++ [10]

/-- What a few calls of `log` print. -/
def log (calls : List (Stamp × Str)) : Str := calls.flatMap fun c => printed c.1 c.2

/-- What the supervisor inspects of the calls. -/
def relayed (calls : List (Stamp × Str)) : List String :=
  (TextStream.readLines (TextStream.written (log calls))).map asString

/-- The texts of a control reply, and of what is found in it, that are printed as they are. -/
def echoed (I : Interpreter) (k : Constants) (s : FrameState) (buf : Bytes) : List Str :=
  if isDevlist k s buf then
    match I.parse (replyText buf) with
    | .error _ => []
    | .ok reply =>
      match cameras reply with
      | .error _ => []
      | .ok cams =>
        s.nvrIp.toList ++ I.str k.stationSn ::
          cams.flatMap (fun c => [I.str c.channel, I.repr c.name, I.str c.sn, I.str c.status]) ++
          [k.camerasJson]
  else [(replyText buf).take 170]

/-- Every marker has one of these characters, which neither a float nor a
message of `json.loads` has. -/
def telling : Str := lit "/VWZ"

structure Tame (I : Interpreter) : Prop where
  floatRepr : ∀ f, ∀ c ∈ I.floatRepr f, c ∉ telling
  refusal : ∀ text, ∀ c ∈ I.refusal text, c ∉ telling

-- ---------------------------------------------------------------------------
-- Markers
-- ---------------------------------------------------------------------------

theorem not_infix_of_telling (hm : m ∈ markers) (h : ∀ c ∈ text, c ∉ telling) :
    ¬ lit m <:+: text := by
  have hall : ∀ m ∈ markers, (lit m).any (· ∈ telling) = true := by decide
  obtain ⟨c, hc, htelling⟩ := List.any_eq_true.mp (hall m hm)
  exact fun hin => h c (hin.subset hc) (of_decide_eq_true htelling)

/-- The first letters of the markers. -/
def initials : Str := lit "sNDVE"

theorem infix_after_initials (hm : m ∈ markers) (h : ∀ c ∈ a, c ∉ initials) :
    lit m <:+: a ++ b ↔ lit m <:+: b := by
  have hall : ∀ m ∈ markers, (lit m).head?.any (· ∈ initials) = true := by decide
  refine ⟨fun hin => ?_, fun hin => hin.trans (List.suffix_append a b).isInfix⟩
  have hhead := hall m hm
  cases hw : lit m with
  | nil =>
    rw [hw] at hhead
    cases hhead
  | cons c w =>
    rw [hw] at hhead hin
    have hc : c ∈ initials := of_decide_eq_true hhead
    exact infix_of_append_left (fun hca => h c hca hc) hin

/-- The only marker with a colon goes on with a `W` after it. -/
theorem infix_colon (hm : m ∈ markers) (h : b[1]? ≠ some 87) :
    lit m <:+: a ++ colon :: b ↔ lit m <:+: a ∨ lit m <:+: b := by
  have hall : ∀ m ∈ markers, ∀ t ∈ (lit m).tails, t.head? = some colon → t[2]? = some 87 := by
    decide
  constructor
  · intro hin
    rcases infix_append_cons hin with ha | hb | ⟨u, v, huv, -, hv⟩
    · exact .inl ha
    · exact .inr hb
    · have hv₁ : v[1]? = some 87 := hall m hm (colon :: v)
        ((List.mem_tails _ _).mpr (huv ▸ List.suffix_append _ _)) rfl
      obtain ⟨rest, rfl⟩ := hv
      have hlt : 1 < v.length := (List.getElem?_eq_some_iff.mp hv₁).1
      exact absurd (by rwa [List.getElem?_append_left hlt]) h
  · rintro (ha | hb)
    · exact ha.trans (List.prefix_append _ _).isInfix
    · exact hb.trans ((List.suffix_cons colon b).trans (List.suffix_append _ _)).isInfix

theorem infix_log (hm : m ∈ markers) :
    lit m <:+: log calls ↔ ∃ t ∈ calls.map Prod.snd, lit m <:+: t := by
  have hnewline : ∀ m ∈ markers, 10 ∉ lit m := by decide
  have hne : ∀ m ∈ markers, lit m ≠ [] := by decide
  induction calls with
  | nil => simp [log, hne m hm]
  | cons c calls ih =>
    have hfront : ∀ d ∈ lit "[" ++ c.1.text ++ lit "] ", d ∉ initials := by
      have hdigits : ∀ d ∈ initials, isDigit d = false ∧ d ≠ colon := by decide
      have htext : ∀ d ∈ c.1.text, d ∉ initials := by
        intro d hd hin
        rcases c.1.digits d hd with h | h
        · rw [(hdigits d hin).1] at h
          cases h
        · exact (hdigits d hin).2 h
      simp only [List.forall_mem_append]
      exact ⟨⟨by decide, htext⟩, by decide⟩
    rw [log, List.flatMap_cons, printed, List.append_assoc _ [10], List.singleton_append,
      infix_separated (hnewline m hm), infix_after_initials hm hfront, ← log]
    exact (or_congr_right ih).trans (List.exists_mem_cons_iff _ c.2 (calls.map Prod.snd)).symm

-- ---------------------------------------------------------------------------
-- The lines of a reply
-- ---------------------------------------------------------------------------

theorem not_initial_of_number {c : Nat} (h : isDigit c = true ∨ c = minus) : c ∉ initials := by
  have hall : ∀ d ∈ initials, isDigit d = false ∧ d ≠ minus := by decide
  intro hin
  rcases h with h | h
  · rw [(hall c hin).1] at h
    cases h
  · exact (hall c hin).2 h

theorem number_of_intText {i : Int} {c : Nat} (h : c ∈ intText i) : isDigit c = true ∨ c = minus := by
  unfold intText at h
  split at h
  · exact (List.mem_cons.mp h).symm.imp_left isDigit_numeral
  · exact .inl (isDigit_numeral h)

theorem infix_controlLine (hm : m ∈ markers) (link : Nat) (buf : Bytes) :
    lit m <:+: controlLine link buf ↔ lit m <:+: (replyText buf).take 170 := by
  have hnumeral (n : Nat) : ∀ c ∈ numeral n, c ∉ initials := fun c hc =>
    not_initial_of_number (.inl (isDigit_numeral hc))
  have hcommand : ∀ c ∈ intText (cmdid buf), c ∉ initials := fun c hc =>
    not_initial_of_number (number_of_intText hc)
  refine infix_after_initials hm ?_
  simp only [List.forall_mem_append, and_assoc]
  exact ⟨by decide, hcommand, by decide, hnumeral _, by decide, hnumeral _, by decide⟩

theorem repr_head (hI : Tame I) (v : Json) : (I.repr v).head? ≠ some 87 := by
  intro h
  have hmem := List.mem_of_mem_head? h
  cases v with
  | null =>
    rw [Interpreter.repr] at h
    exact absurd h (by decide)
  | bool v =>
    rw [Interpreter.repr] at h
    cases v <;> exact absurd h (by decide)
  | int n =>
    rw [Interpreter.repr] at hmem
    exact absurd (number_of_intText hmem) (by decide)
  | float f =>
    rw [Interpreter.repr] at hmem
    exact hI.floatRepr f 87 hmem (by decide)
  | str t =>
    rw [Interpreter.repr, Interpreter.reprStr, List.head?_cons, Option.some.injEq,
      Interpreter.quoteOf] at h
    split at h <;> cases h
  | arr vs => cases vs <;> rw [Interpreter.repr] at h <;> exact absurd h (by simp [lit])
  | obj ms => cases ms <;> rw [Interpreter.repr] at h <;> exact absurd h (by simp [lit])

theorem infix_cameraLine (hI : Tame I) (hm : m ∈ markers) (c : Camera) :
    lit m <:+: Camera.line I c ↔
      ∃ t ∈ [I.str c.channel, I.repr c.name, I.str c.sn, I.str c.status], lit m <:+: t := by
  have hline : Camera.line I c = lit "   ch " ++ (I.str c.channel ++ colon ::
      ((lit " " ++ (I.repr c.name ++ lit " ")) ++ 40 :: ((lit "sn " ++ I.str c.sn) ++ comma ::
        ((lit " status " ++ I.str c.status) ++ 41 :: [])))) := by
    simp [Camera.line, lit]
  have hsep : ∀ m ∈ markers, lit m ≠ [] ∧ 40 ∉ lit m ∧ comma ∉ lit m ∧ 41 ∉ lit m := by decide
  have hspace : ∀ m ∈ markers, Apart (lit m).reverse (lit " ").reverse := by decide
  have hsn : ∀ m ∈ markers, Apart (lit m) (lit "sn ") := by decide
  have hstatus : ∀ m ∈ markers, Apart (lit m) (lit " status ") := by decide
  obtain ⟨hne, hopen, hcomma, hclose⟩ := hsep m hm
  have hname : ((lit " " ++ (I.repr c.name ++ lit " ")) ++ 40 :: ((lit "sn " ++ I.str c.sn) ++
      comma :: ((lit " status " ++ I.str c.status) ++ 41 :: [])))[1]? ≠ some 87 := by
    intro h
    cases hr : I.repr c.name with
    | nil =>
      rw [hr] at h
      exact absurd h (by simp [lit])
    | cons d u =>
      refine repr_head hI c.name ?_
      rw [hr] at h ⊢
      exact h
  rw [hline, infix_after_initials hm (by decide), infix_colon hm hname, infix_separated hopen,
    infix_separated hcomma, infix_separated hclose, infix_after_initials hm (by decide),
    infix_before (hspace m hm), infix_after (hsn m hm), infix_after (hstatus m hm)]
  simp [hne]

theorem infix_discoveredLine (hm : m ∈ markers) (cams : List Camera) :
    lit m <:+: discoveredLine I k s cams ↔
      ∃ t ∈ s.nvrIp.toList ++ [I.str k.stationSn], lit m <:+: t := by
  have hline : discoveredLine I k s cams = lit "DISCOVERED nvr_ip" ++ 61 ::
      ((s.nvrIp.getD (lit "None") ++ lit " sn") ++ 61 :: (I.str k.stationSn ++ colon ::
        (lit " " ++ numeral cams.length ++ lit " camera(s)"))) := by
    simp [discoveredLine, lit]
  have hfront : ∀ m ∈ markers, 61 ∉ lit m ∧ ¬ lit m <:+: lit "DISCOVERED nvr_ip" ∧
      ¬ lit m <:+: lit "None" := by decide
  have hsn : ∀ m ∈ markers, Apart (lit m).reverse (lit " sn").reverse := by decide
  have htelling : ∀ d ∈ telling, isDigit d = false := by decide
  obtain ⟨hequals, hword, hnone⟩ := hfront m hm
  have hcount : ∀ c ∈ lit " " ++ numeral cams.length ++ lit " camera(s)", c ∉ telling := by
    have hnumeral : ∀ c ∈ numeral cams.length, c ∉ telling := by
      intro c hc hin
      have hdigit := isDigit_numeral hc
      rw [htelling c hin] at hdigit
      cases hdigit
    simp only [List.forall_mem_append]
    exact ⟨⟨by decide, hnumeral⟩, by decide⟩
  have hsecond : (lit " " ++ numeral cams.length ++ lit " camera(s)")[1]? ≠ some 87 := fun h =>
    hcount 87 (List.mem_of_getElem? h) (by decide)
  have hip : lit m <:+: s.nvrIp.getD (lit "None") ↔ ∃ t ∈ s.nvrIp.toList, lit m <:+: t := by
    cases s.nvrIp <;> simp [hnone]
  rw [hline, infix_separated hequals, infix_separated hequals, infix_colon hm hsecond,
    infix_before (hsn m hm), hip]
  simp only [hword, not_infix_of_telling hm hcount, false_or, or_false, List.mem_append,
    List.mem_singleton, or_and_right, exists_or, exists_eq_left]

/-- A marker is in what is logged for a reply if it is in what is echoed. -/
theorem infix_reply (hI : Tame I) (hm : m ∈ markers) :
    (∃ t ∈ (onControl I k s link buf).log, lit m <:+: t) ↔
      ∃ t ∈ echoed I k s buf, lit m <:+: t := by
  have hlog : (onControl I k s link buf).log =
      (if isDevlist k s buf then handleDevlist I k s (replyText buf)
        else { s.quiet with log := [controlLine link buf] }).log := by
    unfold onControl
    extract_lets o
    split <;> rfl
  rw [hlog, echoed]
  by_cases hlist : isDevlist k s buf = true
  · rw [if_pos hlist, if_pos hlist, handleDevlist]
    cases hparse : I.parse (replyText buf) with
    | error message =>
      have hmessage : ∀ c ∈ lit "devlist parse err: " ++ message, c ∉ telling := by
        rw [I.parse_error hparse]
        exact List.forall_mem_append.mpr ⟨by decide, hI.refusal _⟩
      simp [not_infix_of_telling hm hmessage]
    | ok reply =>
      dsimp only
      cases hcams : cameras reply with
      | error e => simp [FrameState.quiet]
      | ok cams =>
        dsimp only
        have hwrote : lit m <:+: lit "wrote " ++ k.camerasJson ↔ lit m <:+: k.camerasJson :=
          infix_after_initials hm (by decide)
        have hcameras : (∃ t ∈ cams.map (Camera.line I), lit m <:+: t) ↔ ∃ t ∈ cams.flatMap
            fun c => [I.str c.channel, I.repr c.name, I.str c.sn, I.str c.status], lit m <:+: t := by
          simp only [List.mem_map, List.mem_flatMap, exists_exists_and_eq_and, infix_cameraLine hI hm]
          exact ⟨fun ⟨c, hc, t, ht, h⟩ => ⟨t, ⟨c, hc, ht⟩, h⟩,
            fun ⟨t, ⟨c, hc, ht⟩, h⟩ => ⟨c, hc, t, ht, h⟩⟩
        have happend (l l' : List Str) : (∃ t ∈ l ++ l', lit m <:+: t) ↔
            (∃ t ∈ l, lit m <:+: t) ∨ ∃ t ∈ l', lit m <:+: t := by
          simp only [List.mem_append, or_and_right, exists_or]
        have hone (t : Str) : (∃ u ∈ [t], lit m <:+: u) ↔ lit m <:+: t := by simp
        rw [List.cons_append, List.exists_mem_cons_iff, infix_discoveredLine hm]
        simp only [happend, hcameras, hone, hwrote, List.exists_mem_cons_iff, or_assoc]
  · rw [if_neg hlist, if_neg hlist]
    simp [infix_controlLine hm]

/-- The classification of a session is safe from a reply, whatever is in its
bytes, if none of the texts that are echoed has a marker, and only then. -/
theorem reply_unmoved (hI : Tame I) (hvideo : isVideo buf = false) (hstatus : cmdid buf ≠ 1032)
    (hcalls : calls.map Prod.snd = (onFrame I k e s link buf).log) :
    Unmoved (relayed calls) ↔ ∀ t ∈ echoed I k s buf, ∀ m ∈ markers, ¬ lit m <:+: t := by
  have hframe : (onFrame I k e s link buf).log =
      (onControl I k { s with framesSeen := s.framesSeen + 1 } link buf).log := by
    rw [onFrame, hvideo, if_neg Bool.false_ne_true, if_neg hstatus]
  have hechoed : echoed I k { s with framesSeen := s.framesSeen + 1 } buf = echoed I k s buf := rfl
  have hmarker (m : String) (hm : m ∈ markers) :
      lit m <:+: log calls ↔ ∃ t ∈ echoed I k s buf, lit m <:+: t := by
    rw [infix_log hm, hcalls, hframe, infix_reply hI hm, hechoed]
  rw [relayed, unmoved_written]
  constructor
  · intro h t ht m hm hin
    exact h m hm ((hmarker m hm).mpr ⟨t, ht, hin⟩)
  · intro h m hm hin
    obtain ⟨t, ht, hin⟩ := (hmarker m hm).mp hin
    exact h t ht m hm hin

/-- An interpreter whose floats are all written as numbers. -/
def tameInterpreter : Interpreter := { Interpreter.plain with floatRepr := fun _ => lit "0.5" }

def quietConstants : Constants := ⟨false, .str (lit "T8N000000000"), lit "cameras.json"⟩

def quietSurroundings : Surroundings := ⟨0, none, none⟩

def quietState : FrameState := ⟨0, ⟨0, 0, 0, 0⟩, 0, none, none, false⟩

/-- The header of a reply to command 1350, and a text. -/
def reply (text : String) : Bytes :=
  [88, 90, 89, 72, 70, 5] ++ List.replicate 10 0 ++ (lit text).map UInt8.ofNat

def noon : Stamp := ⟨lit "12:00:00", by decide⟩

def listReply : Bytes := reply "\x7b\"cmd\":9100,\"payload\":\x7b\"dev_list\":[]\x7d\x7d"

theorem reply_unmoved_list : Unmoved (relayed [(noon, controlLine 1 listReply)]) := by
  have hI : Tame tameInterpreter :=
    ⟨fun _ => show ∀ c ∈ lit "0.5", c ∉ telling by decide, fun _ => nofun⟩
  have hvideo : isVideo listReply = false := by decide
  have hstatus : cmdid listReply ≠ 1032 := by decide
  have hcalls : [(noon, controlLine 1 listReply)].map Prod.snd =
      (onFrame tameInterpreter quietConstants quietSurroundings quietState 1 listReply).log := by
    decide +kernel
  exact (reply_unmoved hI hvideo hstatus hcalls).mpr (by decide +kernel)

def namedReply : Bytes := reply "\x7b\"name\":\"EUFY_AUTHORIZATION_ERROR_-104\"\x7d"

def namedLine : String :=
  "[12:00:00] CTRL cmd=1350 link=1 len=56 \x7b\"name\":\"EUFY_AUTHORIZATION_ERROR_-104\"\x7d"

/-- A name in a reply makes the session one that the account may not open. -/
theorem reply_steers :
    (onFrame tameInterpreter quietConstants quietSurroundings quietState 1 namedReply).log =
      [controlLine 1 namedReply] ∧
    relayed [(noon, controlLine 1 namedReply)] = [namedLine] ∧
    (inspectLogLine 5 namedLine (.start 0)).authorizationRejection = true ∧
    ¬ Unmoved (relayed [(noon, controlLine 1 namedReply)]) := by
  have hline : relayed [(noon, controlLine 1 namedReply)] = [namedLine] := by decide +kernel
  refine ⟨by decide +kernel, hline, by decide +kernel, fun h => ?_⟩
  rw [hline] at h
  have hkept := (h (.start 0) [5] rfl).authorizationRejection
  exact absurd hkept (by decide +kernel)

end EufyNvr.Supervisor
