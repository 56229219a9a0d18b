import EufyNvr.Lib.Base64Lax
import EufyNvr.Lib.JsonBraces
import EufyNvr.Lib.LineReader
import EufyNvr.Lib.Stringify
import EufyNvr.Oracle.ControlStatus
import EufyNvr.Oracle.Lines
import EufyNvr.Stream.Reader

/-!
# The way back

The lines that the oracle writes and `Oracle._read_stdout` reads. Between the
two calls of the frame managers and the callbacks of the engine there are two
pipes; however these cut up what is written, and whenever the reader runs,
the callbacks are called as if the managers were in the same process, for as
long as none of them raises. Only a line over the limit of the stream is
lost, and nothing with it.
-/

namespace EufyNvr.Oracle

open Json LineReader
open EufyNvr.Stream (Constants Delivery Reader Surroundings)

-- ---------------------------------------------------------------------------
-- Writing
-- ---------------------------------------------------------------------------

def Manager.src : Manager → Str
  | .sender => lit "send"
  | .receiver => lit "recv"

def Event.json : Event → Json
  | .tx src data => .obj [(lit "ev", .str (lit "tx")), (lit "src", .str src.src),
      (lit "b64", .str (Base64.encode data))]
  | .controlStatus link status => .obj [(lit "ev", .str (lit "control_status")),
      (lit "channel", .int link), (lit "status", .int status)]
  | .frame link data => .obj [(lit "ev", .str (lit "frame")), (lit "channel", .int link),
      (lit "b64", .str (Base64.encode data))]
  | .openLive data => .obj [(lit "ev", .str (lit "openLive")), (lit "b64", .str (Base64.encode data))]
  -- What is undefined is left out.
  | .error op msg => .obj ((lit "ev", .str (lit "error")) :: (op.map fun op => (lit "op", op)).toList ++
      [(lit "msg", .str msg)])

/-- The line that `send` writes, without its end. -/
def Event.line (e : Event) : Option Bytes := (stringify e.json).bind Utf8.encode

def readyJson : Json := .obj [(lit "ev", .str (lit "ready"))]

/-- The line after which the oracle takes operations. -/
def readyLine : Bytes := (lit "\x7b\"ev\":\"ready\"\x7d").map UInt8.ofNat

-- ---------------------------------------------------------------------------
-- Reading
-- ---------------------------------------------------------------------------

inductive Reading
  | ignored
  | delivery (d : Delivery)
  /-- An exception that ends the task. -/
  | raised
  /-- A message that the oracle never writes: its numbers are none. -/
  | foreign (msg : Json)

section

variable (repr : Json → Str)

/-- What `_read_stdout` makes of a message. -/
def readMessage (ms : List (Str × Json)) : Reading :=
  let ev := get? ms (lit "ev")
  let data := match get? ms (lit "b64") with
    | some (.str s) => Base64.b64decode s
    | _ => none
  if ev = some (.str (lit "ready")) then .delivery .ready
  else if ev = some (.str (lit "tx")) then
    if get? ms (lit "src") = some (.str (lit "send")) then
      data.elim .raised fun b => .delivery (.transmit true b)
    else .ignored
  else if ev = some (.str (lit "frame")) then
    data.elim .raised fun b =>
      match get? ms (lit "channel") with
      | some (.int (.ofNat link)) => .delivery (.frame link b)
      | _ => .foreign (.obj ms)
  else if ev = some (.str (lit "control_status")) then
    match get? ms (lit "status") with
    | some (.int status) => .delivery (.status (some status))
    | none => .delivery (.status none)
    | some _ => .foreign (.obj ms)
  else if ev = some (.str (lit "error")) then .delivery (.error (repr (.obj ms)))
  else .ignored

/-- What it makes of a line, with the newline that `readline` leaves on it. -/
def readLine (line : Bytes) : Reading :=
  match (Utf8.decode (line ++ [10])).bind fun text => loads (strip text) with
  | none => .ignored
  | some (.obj ms) => readMessage repr ms
  | some _ => .raised

/-- The callback that an event is for. -/
def Event.delivery : Event → Option Delivery
  | .tx .sender data => some (.transmit true data)
  | .tx .receiver _ | .openLive _ => none
  | .controlStatus _ status => some (.status (some status))
  | .frame link data => some (.frame link data)
  | .error op msg => some (.error (repr (Event.error op msg).json))

end

/-- `limit` of the subprocess. -/
def streamLimit : Nat := 64 * 1024 * 1024

/-- The task of `_read_stdout`, and what it finds around it. -/
structure StdoutReader where
  reader : Reader
  around : Surroundings
  ended : Bool

section

variable (I : Interpreter) (k : Constants) (repr : Json → Str) (other : Json → StdoutReader → StdoutReader)

def StdoutReader.receive (t : StdoutReader) (d : Delivery) : StdoutReader :=
  if t.ended then t
  else
    let r := t.reader.handle I k t.around d
    { t with reader := r.1, ended := r.2.isSome }

def StdoutReader.consume (t : StdoutReader) (line : Bytes) : StdoutReader :=
  match readLine repr line with
  | .ignored => t
  | .delivery d => t.receive I k d
  | .raised => { t with ended := true }
  | .foreign msg => if t.ended then t else other msg t

end

/-- A delivery, or what the other tasks do. -/
inductive Arrival
  | delivery (d : Delivery)
  | other (f : StdoutReader → StdoutReader)

def Arrival.delivery? : Arrival → Option Delivery
  | .delivery d => some d
  | .other _ => none

def Arrival.other? : Arrival → Option (StdoutReader → StdoutReader)
  | .delivery _ => none
  | .other f => some f

def StdoutReader.arrive (I : Interpreter) (k : Constants) (t : StdoutReader) : Arrival → StdoutReader
  | .delivery d => t.receive I k d
  | .other f => f t

/-- The callback of a delivery is called, and returns. -/
def StdoutReader.call (I : Interpreter) (k : Constants) (t : StdoutReader) : Arrival → StdoutReader
  | .delivery d => { t with reader := (t.reader.handle I k t.around d).1 }
  | .other f => f t

-- ---------------------------------------------------------------------------
-- The events of a run
-- ---------------------------------------------------------------------------

variable {σ : Type*} {W : Wasm σ} {w : World σ} {e : Event} {op : Op} {text : Str} {b : Bytes}

/-- What the operations and the timer write. -/
inductive Event.Written : Event → Prop
  | tx (src : Manager) (data : Bytes) : Written (.tx src data)
  | controlStatus (link : Nat) (status : Int) (hlink : link ≤ 99)
    (hstatus : -2147483648 ≤ status ∧ status < 2147483648) : Written (.controlStatus link status)
  | frame (link : Nat) (data : Bytes) (hlink : link ≤ 99) : Written (.frame link data)
  | error (op : Op) (msg : Str) (hmsg : Unpaired msg) : Written (.error (some op.name) msg)

/-- A text of the language, in which no pair of surrogates is left, where the
call throws. -/
def Speaks {α : Type} (f : σ → Effect σ α) : Prop :=
  ∀ m msg, (f m).result = .error msg → Unpaired msg

structure Wasm.Speaks (W : Wasm σ) : Prop where
  getFrameBuffer : ∀ fm size, Oracle.Speaks (W.getFrameBuffer fm size)
  fillFrame : ∀ fb data, Oracle.Speaks (W.fillFrame fb data)
  pushFrameData : ∀ fm fb channel, Oracle.Speaks (W.pushFrameData fm fb channel)
  getPacketBuffer : ∀ fm size, Oracle.Speaks (W.getPacketBuffer fm size)
  fillPacket : ∀ pb data, Oracle.Speaks (W.fillPacket pb data)
  pushPacketData : ∀ fm pb, Oracle.Speaks (W.pushPacketData fm pb)

theorem channel2link_le (channel : Nat) : channel2link channel ≤ 99 := by
  unfold channel2link
  split <;> decide

theorem Callback.written (c : Callback) : ∀ e ∈ c.events, e.Written := by
  cases c with
  | packet src data => exact List.forall_mem_singleton.mpr (.tx src data)
  | frame channel data =>
    have hlink := channel2link_le channel
    have hframe : ∀ e ∈ [Event.frame (channel2link channel) data], e.Written :=
      List.forall_mem_singleton.mpr (.frame _ data hlink)
    unfold Callback.events
    dsimp only
    split
    · rename_i status hstatus
      have hbounds := (statusReply_of hstatus).bounds
      exact List.forall_mem_cons.mpr ⟨.controlStatus _ status hlink hbounds, hframe⟩
    · exact hframe

theorem Pushes.unpaired {get : σ → Effect σ Nat} {fill : Nat → σ → Effect σ Unit}
    {push : Nat → σ → Effect σ Int} {full msg : Str} {refused : Int → Str} {m : σ}
    {eff : Effect σ Unit} (h : Pushes get fill push full refused m eff)
    (hresult : eff.result = .error msg) (hget : Speaks get) (hfill : ∀ b, Speaks (fill b))
    (hpush : ∀ b, Speaks (push b)) (hfull : Unpaired full) (hrefused : ∀ code, Unpaired (refused code)) :
    Unpaired msg := by
  cases h with
  | pushed => cases hresult
  | refused =>
    cases hresult
    exact hrefused _
  | pushThrows _ _ _ hthrows =>
    cases hresult
    exact hpush _ _ _ (congrArg Effect.result hthrows)
  | fillThrows _ _ hthrows =>
    cases hresult
    exact hfill _ _ _ (congrArg Effect.result hthrows)
  | full =>
    cases hresult
    exact hfull
  | getThrows hthrows =>
    cases hresult
    exact hget _ _ (congrArg Effect.result hthrows)

theorem Op.Performs.unpaired {m : σ} {eff : Effect σ Unit} {msg : Str} (hspeaks : W.Speaks)
    (h : op.Performs W m eff) (hresult : eff.result = .error msg) : Unpaired msg := by
  have hsize (text : String) (n : Nat) (htext : Printable (lit text)) :
      Unpaired (lit text ++ numeral n) := .of_printable (htext.append (printable_numeral n))
  have hcode (text : String) (n : Int) (htext : Printable (lit text)) :
      Unpaired (lit text ++ intText n) := .of_printable (htext.append (printable_intText n))
  cases op with
  | send link data =>
    exact Pushes.unpaired h hresult (hspeaks.getFrameBuffer _ _) (fun _ => hspeaks.fillFrame _ _)
      (fun _ => hspeaks.pushFrameData _ _ _) (hsize _ _ (by decide)) fun _ => hcode _ _ (by decide)
  | recv data =>
    exact Pushes.unpaired h hresult (hspeaks.getPacketBuffer _ _) (fun _ => hspeaks.fillPacket _ _)
      (fun _ => hspeaks.pushPacketData _ _) (hsize _ _ (by decide)) fun _ => hcode _ _ (by decide)

theorem written_of_runs {actions : List Action} {after : World σ} (hspeaks : W.Speaks)
    (hruns : Runs W actions w after) (h : ∀ e ∈ w.stdout, e.Written) :
    ∀ e ∈ after.stdout, e.Written := by
  have hcallbacks (cs : List Callback) : ∀ e ∈ cs.flatMap Callback.events, e.Written := by
    intro e he
    obtain ⟨c, -, he⟩ := List.mem_flatMap.mp he
    exact c.written e he
  induction hruns with
  | nil => exact h
  | performed _ _ _ ih => exact ih (List.forall_mem_append.mpr ⟨h, hcallbacks _⟩)
  | @thrown op _ msg _ _ _ hperforms hresult _ ih =>
    have herror : ∀ e ∈ [Event.error (some op.name) msg], e.Written :=
      List.forall_mem_singleton.mpr (.error op msg (hperforms.unpaired hspeaks hresult))
    exact ih (List.forall_mem_append.mpr ⟨List.forall_mem_append.mpr ⟨h, hcallbacks _⟩, herror⟩)
  | timer _ _ ih => exact ih (List.forall_mem_append.mpr ⟨h, hcallbacks _⟩)

-- ---------------------------------------------------------------------------
-- One line
-- ---------------------------------------------------------------------------

theorem length_numeral {n : Nat} (h : n < 10 ^ 10) : (numeral n).length ≤ 4300 := by
  rw [numeral, List.length_map]
  exact ((Nat.length_toDigits_le_iff (by decide) (by decide)).mpr h).trans (by decide)

def Event.isError : Event → Bool
  | .error .. => true
  | _ => false

theorem Event.Written.plain (h : e.Written) (he : e.isError = false) : Plain e.json := by
  cases h with
  | tx src data =>
    have hsrc : Printable src.src := by cases src <;> decide
    simp only [Event.json, Plain, PlainMembers, printable_encode, hsrc, and_true, true_and,
      List.map_cons, List.map_nil]
    decide
  | controlStatus link status hlink hstatus =>
    have hsmall : (numeral status.natAbs).length ≤ 4300 := length_numeral (by omega)
    have hchannel : (numeral (link : Int).natAbs).length ≤ 4300 := length_numeral (by omega)
    simp only [Event.json, Plain, PlainMembers, hsmall, hchannel, and_true, true_and, List.map_cons,
      List.map_nil]
    decide
  | frame link data hlink =>
    have hchannel : (numeral (link : Int).natAbs).length ≤ 4300 := length_numeral (by omega)
    simp only [Event.json, Plain, PlainMembers, printable_encode, hchannel, and_true, true_and,
      List.map_cons, List.map_nil]
    decide
  | error => cases he

theorem Event.Written.sound (h : e.Written) : Sound e.json := by
  cases he : e.isError with
  | false => exact (h.plain he).sound
  | true =>
    cases h with
    | error op msg hmsg =>
      have hname : Sound op.name := by
        cases op <;>
        · rw [Op.name, Sound]
          decide
      simp only [Event.json, Sound, SoundMembers, hname, hmsg, and_true, true_and, List.map_cons,
        List.map_nil, Option.map_some, Option.toList_some, List.cons_append, List.nil_append]
      decide
    | _ => cases he

theorem Event.Written.line_eq (h : e.Written) : e.line = Utf8.encode (unspaced e.json) := by
  have hkept : isKept e.json = true := by
    have hdigits (k : Str) (hk : k ∈ ["ev", "src", "b64", "channel", "status", "op", "msg"].map lit) :
        k.all Json.isDigit = false := by
      revert k
      decide
    cases h with
    | error op msg hmsg => cases op <;> simp [Event.json, Op.name, isKept, isKeptMembers, hdigits]
    | _ => simp [Event.json, isKept, isKeptMembers, hdigits]; try omega
  rw [Event.line, stringify, if_pos hkept, Option.bind_some]

/-- Its text is an object with this first entry. -/
theorem Event.unspaced_json (e : Event) : ∃ init, unspaced e.json = lbrace :: (init ++ [rbrace]) := by
  have hobj (k : Str) (v : Json) (ms : List (Str × Json)) :
      unspaced (.obj ((k, v) :: ms)) =
        lbrace :: ((quotedFew k ++ colon :: (unspaced v ++ unspacedMembers ms)) ++ [rbrace]) := by
    rw [unspaced]
    simp only [List.append_assoc, List.cons_append]
  cases e <;> exact ⟨_, hobj _ _ _⟩

theorem strip_line {c d : Nat} (s : Str) (hc : isSpace c = false) (hd : isSpace d = false) :
    strip (c :: (s ++ [d]) ++ [10]) = c :: (s ++ [d]) := by
  have hten : isSpace 10 = true := by decide
  rw [strip, List.cons_append, List.dropWhile_cons_of_neg (by simp [hc]), ← List.cons_append,
    List.rdropWhile_concat_pos _ _ _ hten, ← List.cons_append, List.rdropWhile_concat_neg _ _ _ (by simp [hd])]

theorem readLine_encode (repr : Json → Str) (hb : Utf8.encode text = some b) :
    readLine repr b = match loads (strip (text ++ [10])) with
      | none => .ignored
      | some (.obj ms) => readMessage repr ms
      | some _ => .raised := by
  obtain ⟨cs, rfl, rfl⟩ := Utf8.encode_cases hb
  have hdecode : Utf8.decode (cs.flatMap String.utf8EncodeChar ++ [10]) =
      some (cs.map Char.toNat ++ [10]) := by
    have hcs := Utf8.decode_flatMap (cs ++ ['\n'])
    rw [List.flatMap_append, List.map_append] at hcs
    exact hcs
  rw [readLine, hdecode, Option.bind_some]

/-- A line that comes whole is for its callback. -/
theorem Event.Written.reads (repr : Json → Str) (h : e.Written) (hline : e.line = some b) :
    readLine repr b = (e.delivery repr).elim .ignored .delivery := by
  have hstrip : strip (unspaced e.json ++ [10]) = unspaced e.json := by
    obtain ⟨init, htext⟩ := e.unspaced_json
    rw [htext]
    exact strip_line init rfl rfl
  rw [h.line_eq] at hline
  rw [readLine_encode repr hline, hstrip, loads_unspaced h.sound]
  cases h with
  | tx src data =>
    cases src with
    | sender =>
      have hread : readMessage repr [(lit "ev", .str (lit "tx")), (lit "src", .str (lit "send")),
          (lit "b64", .str (Base64.encode data))] = (Base64.b64decode (Base64.encode data)).elim
            .raised fun b => .delivery (.transmit true b) := rfl
      rw [Base64.b64decode_encode] at hread
      exact hread
    | receiver => rfl
  | controlStatus link status => rfl
  | frame link data =>
    have hread : readMessage repr [(lit "ev", .str (lit "frame")), (lit "channel", .int link),
        (lit "b64", .str (Base64.encode data))] =
          (Base64.b64decode (Base64.encode data)).elim .raised fun b => .delivery (.frame link b) :=
      rfl
    rw [Base64.b64decode_encode] at hread
    exact hread
  | error op msg => rfl

theorem Event.Written.line (h : e.Written) : ∃ b, e.line = some b ∧ 10 ∉ b := by
  have honeLine := oneLine_unspaced e.json h.sound
  obtain ⟨b, hb⟩ := Utf8.encode_of_characters honeLine.characters
  exact ⟨b, h.line_eq.trans hb, honeLine.newline_not_mem hb⟩

theorem Event.Written.flat (h : e.Written) (he : e.isError = false) :
    ∃ m ms, e.json = .obj (m :: ms) ∧ ∀ n ∈ m :: ms, lbrace ∉ n.1 ∧ Flat n.2 := by
  have hencode (data : Bytes) : lbrace ∉ Base64.encode data := fun hm => by
    have hdigit : ∀ n < 64, Base64.digit n ≠ lbrace := by decide
    rcases Base64.mem_encode hm with hpad | ⟨n, hn, hd⟩
    · cases hpad
    · exact hdigit n hn hd.symm
  cases h with
  | tx src data =>
    have hsrc : lbrace ∉ src.src := by cases src <;> decide
    refine ⟨_, _, rfl, ?_⟩
    simp only [List.forall_mem_cons, Flat, hencode, hsrc, List.not_mem_nil, false_imp_iff,
      implies_true, and_true, not_false_iff]
    decide
  | controlStatus link status =>
    refine ⟨_, _, rfl, ?_⟩
    simp only [List.forall_mem_cons, Flat, List.not_mem_nil, false_imp_iff, implies_true, and_true]
    decide
  | frame link data =>
    refine ⟨_, _, rfl, ?_⟩
    simp only [List.forall_mem_cons, Flat, hencode, List.not_mem_nil, false_imp_iff,
      implies_true, and_true, not_false_iff]
    decide
  | error => cases he

/-- The end of an object that is stripped is refused. -/
theorem loads_strip_unopened (h : text = [] ∨ Unopened text) : loads (strip (text ++ [10])) = none := by
  have hten : isSpace 10 = true := by decide
  rcases h with rfl | h
  · decide +kernel
  · have hdrop := h.dropWhile (p := isSpace) rfl
    have hne : (text.dropWhile isSpace).isEmpty = false := by simpa using hdrop.ne_nil
    have hlast : (text.dropWhile isSpace).rdropWhile isSpace = text.dropWhile isSpace := by
      refine List.rdropWhile_eq_self_iff.mpr fun hnil => ?_
      have hget := hdrop.last
      rw [List.getLast?_eq_some_getLast hnil] at hget
      rw [Option.some.inj hget]
      decide
    rw [strip, List.dropWhile_append, hne, if_neg Bool.false_ne_true,
      List.rdropWhile_concat_pos _ _ _ hten, hlast, hdrop.loads]

/-- What is left of a long line is passed over. -/
theorem Event.Written.rest (repr : Json → Str) (h : e.Written) (he : e.isError = false)
    (hline : e.line = some b) {t : Bytes} (ht : t <:+ b) (hne : t ≠ b) :
    readLine repr t = .ignored := by
  have hplain := h.plain he
  obtain ⟨m, ms, hjson, hflat⟩ := h.flat he
  have hascii : Ascii (unspaced e.json) := by
    rw [unspaced_plain e.json hplain 0]
    exact (printable_dump compact_oneLine e.json 0 hplain.sound).ascii
  rw [h.line_eq, Utf8.encode_ascii hascii] at hline
  obtain ⟨front, hfront⟩ := ht
  rw [← Option.some.inj hline] at hfront hne
  obtain ⟨first, text, htext, -, rfl⟩ := List.map_eq_append_iff.mp hfront.symm
  have hsuffix : text <:+ unspaced e.json := ⟨first, htext.symm⟩
  have hencode : Utf8.encode text = some (text.map UInt8.ofNat) :=
    Utf8.encode_ascii fun c hc => hascii c (hsuffix.subset hc)
  rw [hjson] at hsuffix hne
  have hunopened := unopened_of_suffix hflat hsuffix fun heq => hne (heq ▸ rfl)
  rw [readLine_encode repr hencode, loads_strip_unopened hunopened]

-- ---------------------------------------------------------------------------
-- The deliveries of a run
-- ---------------------------------------------------------------------------

/-- The line of the event is within the limit. -/
def Event.fits (e : Event) : Bool := e.line.any (within streamLimit)

def lineDelivery (repr : Json → Str) (line : Bytes) : Option Delivery :=
  match readLine repr line with
  | .delivery d => some d
  | _ => none

def arrivalOf (repr : Json → Str) : Act StdoutReader → Option Arrival
  | .line b => (lineDelivery repr b).map .delivery
  | .other f => some (.other f)

/-- The callbacks of the events whose lines are within the limit have been
called, and what else happened to the reader has happened in between. -/
structure Hears (I : Interpreter) (k : Constants) (repr : Json → Str) (events : List Event)
    (labels : List (Label StdoutReader)) (before after : StdoutReader) (arrivals : List Arrival) :
    Prop where
  state : after = arrivals.foldl (StdoutReader.call I k) before
  deliveries : arrivals.filterMap Arrival.delivery? =
    .ready :: (events.filter Event.fits).filterMap (Event.delivery repr)
  others : arrivals.filterMap Arrival.other? = labels.filterMap Label.other?

variable {I : Interpreter} {k : Constants} {repr : Json → Str}
  {other : Json → StdoutReader → StdoutReader} {events : List Event} {lines : List Bytes}

theorem foldl_arrivals {acts : List (Act StdoutReader)} {t : StdoutReader}
    (h : ∀ b ∈ acts.filterMap Act.line?, ∃ d : Option Delivery,
      readLine repr b = d.elim .ignored .delivery) :
    acts.foldl (act (StdoutReader.consume I k repr other)) t =
      (acts.filterMap (arrivalOf repr)).foldl (StdoutReader.arrive I k) t := by
  induction acts generalizing t with
  | nil => rfl
  | cons a acts ih =>
    cases a with
    | other f => exact ih h
    | line b =>
      obtain ⟨⟨d, hd⟩, hrest⟩ := List.forall_mem_cons.mp h
      rw [List.foldl_cons, ih hrest, act, StdoutReader.consume, hd]
      cases d with
      | none =>
        have hnone : arrivalOf repr (.line b) = none := by rw [arrivalOf, lineDelivery, hd]; rfl
        rw [List.filterMap_cons_none hnone]
        rfl
      | some d =>
        have hsome : arrivalOf repr (.line b) = some (.delivery d) := by
          rw [arrivalOf, lineDelivery, hd]
          rfl
        rw [List.filterMap_cons_some hsome]
        rfl

theorem delivery_arrivals (acts : List (Act StdoutReader)) :
    (acts.filterMap (arrivalOf repr)).filterMap Arrival.delivery? =
      (acts.filterMap Act.line?).filterMap (lineDelivery repr) := by
  rw [List.filterMap_filterMap, List.filterMap_filterMap]
  refine List.filterMap_congr fun a _ => ?_
  cases a with
  | line b =>
    rw [arrivalOf, Act.line?, Option.bind_some, Option.bind_map]
    cases lineDelivery repr b <;> rfl
  | other f => rfl

theorem other_arrivals (acts : List (Act StdoutReader)) :
    (acts.filterMap (arrivalOf repr)).filterMap Arrival.other? = acts.filterMap Act.other? := by
  rw [List.filterMap_filterMap]
  refine List.filterMap_congr fun a _ => ?_
  cases a with
  | line b =>
    rw [arrivalOf, Option.bind_map]
    cases lineDelivery repr b <;> rfl
  | other f => rfl

theorem readLine_ready : readLine repr readyLine = .delivery .ready := by
  have hencode : Utf8.encode (lit "\x7b\"ev\":\"ready\"\x7d") = some readyLine :=
    Utf8.encode_ascii (by decide)
  have hloads : loads (strip (lit "\x7b\"ev\":\"ready\"\x7d" ++ [10])) = some readyJson := by
    decide +kernel
  rw [readLine_encode repr hencode, hloads]
  rfl

theorem deliveries_lines (hevents : ∀ e ∈ events, e.Written)
    (hlines : events.mapM Event.line = some lines) :
    (lines.filter (within streamLimit)).filterMap (lineDelivery repr) =
      (events.filter Event.fits).filterMap (Event.delivery repr) := by
  induction events generalizing lines with
  | nil =>
    cases hlines
    rfl
  | cons e events ih =>
    obtain ⟨he, hrest⟩ := List.forall_mem_cons.mp hevents
    rw [List.mapM_cons] at hlines
    obtain ⟨b, hb, hlines⟩ := Option.bind_eq_some_iff.mp hlines
    obtain ⟨bs, hbs, hlines⟩ := Option.bind_eq_some_iff.mp hlines
    cases hlines
    have hfits : e.fits = within streamLimit b := by rw [Event.fits, hb]; rfl
    have hdelivery : lineDelivery repr b = e.delivery repr := by
      rw [lineDelivery, he.reads repr hb]
      cases e.delivery repr <;> rfl
    rw [List.filter_cons, List.filter_cons, hfits]
    split
    · rw [List.filterMap_cons, List.filterMap_cons, hdelivery, ih hrest hbs]
    · exact ih hrest hbs

/-- A task that has not ended at the end has called every callback. -/
theorem foldl_call {arrivals : List Arrival} {t : StdoutReader}
    (hothers : ∀ f ∈ arrivals.filterMap Arrival.other?, ∀ t, (f t).ended = t.ended)
    (h : (arrivals.foldl (StdoutReader.arrive I k) t).ended = false) :
    t.ended = false ∧ arrivals.foldl (StdoutReader.arrive I k) t =
      arrivals.foldl (StdoutReader.call I k) t := by
  induction arrivals generalizing t with
  | nil => exact ⟨h, rfl⟩
  | cons a arrivals ih =>
    rw [List.foldl_cons] at h
    cases a with
    | other f =>
      obtain ⟨hf, hrest⟩ := List.forall_mem_cons.mp hothers
      obtain ⟨hnext, hfold⟩ := ih hrest h
      exact ⟨(hf t).symm.trans hnext, hfold⟩
    | delivery d =>
      obtain ⟨hnext, hfold⟩ := ih hothers h
      have hopen : t.ended = false := by
        by_contra hended
        rw [StdoutReader.arrive, StdoutReader.receive, if_pos (by simpa using hended)] at hnext
        exact hended hnext
      have hcall : t.arrive I k (.delivery d) = t.call I k (.delivery d) := by
        rw [StdoutReader.arrive, StdoutReader.receive, hopen, if_neg Bool.false_ne_true] at hnext ⊢
        rw [StdoutReader.call]
        exact congrArg (StdoutReader.mk _ _) (hnext.trans hopen.symm)
      refine ⟨hopen, ?_⟩
      rw [List.foldl_cons, hfold, List.foldl_cons, hcall]

/-- However what the oracle has written is cut up, and whenever the reader
looks: where it has all come and the task of the reader goes on, every event
within the limit has had its callback, in their order and with its bytes. -/
theorem hears_written (hevents : ∀ e ∈ events, e.Written)
    (hlines : events.mapM Event.line = some lines)
    (herrors : ∀ e ∈ events, e.isError = true → e.fits = true) {before : StdoutReader}
    {labels : List (Label StdoutReader)}
    (hfed : labels.flatMap Label.chunk = stream (readyLine :: lines))
    (hothers : ∀ f ∈ labels.filterMap Label.other?, ∀ t, (f t).ended = t.ended)
    (hwaits : (readline streamLimit (run streamLimit (StdoutReader.consume I k repr other)
      ⟨[], before⟩ labels).buffer).1 = .waits)
    (hgoes : (run streamLimit (StdoutReader.consume I k repr other) ⟨[], before⟩
      labels).state.ended = false) :
    ∃ arrivals, Hears I k repr events labels before
      (run streamLimit (StdoutReader.consume I k repr other) ⟨[], before⟩ labels).state arrivals := by
  have hline (b : Bytes) (hb : b ∈ lines) : ∃ e, e.Written ∧ e ∈ events ∧ e.line = some b := by
    obtain ⟨e, he, hb⟩ := mem_of_mapM hlines hb
    exact ⟨e, hevents e he, he, hb⟩
  have hall : ∀ line ∈ readyLine :: lines, 10 ∉ line := by
    refine List.forall_mem_cons.mpr ⟨by decide, fun b hb => ?_⟩
    obtain ⟨e, he, -, hb⟩ := hline b hb
    obtain ⟨b', hb', hnot⟩ := he.line
    rwa [Option.some.inj (hb.symm.trans hb')]
  have hrests (t : Bytes) (h : Rest streamLimit (readyLine :: lines) t) (s : StdoutReader) :
      s.consume I k repr other t = s := by
    obtain ⟨line, hmem, hlong, ht, hne⟩ := h
    rcases List.mem_cons.mp hmem with rfl | hmem
    · exact absurd hlong (by decide)
    · obtain ⟨e, he, hin, hb⟩ := hline line hmem
      have hshort : e.isError = false := by
        by_contra hError
        have hfits := herrors e hin (Bool.not_eq_false _ ▸ hError)
        rw [Event.fits, hb] at hfits
        simp only [Option.any_some, within, decide_eq_true_eq] at hfits
        omega
      rw [StdoutReader.consume, he.rest repr hshort hb ht hne]
  obtain ⟨acts, hstate, hacts, hacted⟩ := run_consumes_all hall hrests hfed before hwaits
  have hreads : ∀ b ∈ acts.filterMap Act.line?, ∃ d : Option Delivery,
      readLine repr b = d.elim .ignored .delivery := fun b hb => by
    rw [hacts] at hb
    rcases List.mem_cons.mp (List.mem_filter.mp hb).1 with rfl | hb
    · exact ⟨some .ready, readLine_ready⟩
    · obtain ⟨e, he, -, hb⟩ := hline b hb
      exact ⟨e.delivery repr, he.reads repr hb⟩
  rw [hstate, foldl_arrivals hreads] at hgoes
  rw [← hacted, ← @other_arrivals repr acts] at hothers
  refine ⟨acts.filterMap (arrivalOf repr), ?_, ?_, (other_arrivals acts).trans hacted⟩
  · rw [hstate, foldl_arrivals hreads, (foldl_call hothers hgoes).2]
  · have hready : lineDelivery repr readyLine = some .ready := by rw [lineDelivery, readLine_ready]
    have hwithin : within streamLimit readyLine = true := by decide
    rw [delivery_arrivals, hacts, List.filter_cons_of_pos hwithin, List.filterMap_cons_some hready,
      deliveries_lines hevents hlines]

theorem mapM_line (hevents : ∀ e ∈ events, e.Written) : ∃ lines, events.mapM Event.line = some lines := by
  induction events with
  | nil => exact ⟨[], rfl⟩
  | cons e events ih =>
    obtain ⟨he, hrest⟩ := List.forall_mem_cons.mp hevents
    obtain ⟨b, hb, -⟩ := he.line
    obtain ⟨bs, hbs⟩ := ih hrest
    exact ⟨b :: bs, by rw [List.mapM_cons, hb, Option.bind_eq_bind, Option.bind_some, hbs]; rfl⟩

/-- The engine's calls of the frame managers, and their calls back to it:
between the two processes it is as within one, whatever the pipes do. After
enough looks the reader has taken all that has come; then its task is one
that goes on, and no line of an error is over the limit. -/
theorem oracle_transparent {R : Runtime} {ops : List Op} {turns : List Turn} (hspeaks : W.Speaks)
    (hlinks : ∀ op ∈ ops, op.hasLink) {written : List Bytes} (hwritten : ops.mapM Op.write = some written)
    (hchunks : turns.flatMap Turn.chunk = written.flatten) (m : σ) :
    ∃ actions after, Does W R [] ⟨m, []⟩ turns ops actions after ∧
      ∃ lines, after.stdout.mapM Event.line = some lines ∧
        (∀ before labels, ∃ n, (readline streamLimit (run streamLimit
          (StdoutReader.consume I k repr other) ⟨[], before⟩
            (labels ++ List.replicate n .read)).buffer).1 = .waits) ∧
        ∀ before labels, labels.flatMap Label.chunk = stream (readyLine :: lines) →
          (∀ e ∈ after.stdout, e.isError = true → e.fits = true) →
          (∀ f ∈ labels.filterMap Label.other?, ∀ t, (f t).ended = t.ended) →
          (readline streamLimit (run streamLimit (StdoutReader.consume I k repr other)
            ⟨[], before⟩ labels).buffer).1 = .waits →
          (run streamLimit (StdoutReader.consume I k repr other) ⟨[], before⟩
            labels).state.ended = false →
          ∃ arrivals, Hears I k repr after.stdout labels before
            (run streamLimit (StdoutReader.consume I k repr other) ⟨[], before⟩ labels).state
            arrivals := by
  have hops : ∀ op ∈ ops, op.writable = true ∧ op.hasLink := fun op hop => by
    obtain ⟨b, -, hb⟩ := mapM_mem hwritten hop
    exact ⟨(Op.write_ok hb).1, hlinks op hop⟩
  obtain ⟨actions, after, hdoes⟩ := serve_does (W := W) (R := R) (w := ⟨m, []⟩) (a := []) hops nofun
    rfl (hchunks.trans (flatten_written hwritten))
  have hevents := written_of_runs hspeaks hdoes.runs nofun
  obtain ⟨lines, hlines⟩ := mapM_line hevents
  refine ⟨actions, after, hdoes, lines, hlines, fun before labels => ?_,
    fun _ _ hfed herrors hothers hwaits hgoes =>
      hears_written hevents hlines herrors hfed hothers hwaits hgoes⟩
  obtain ⟨n, hn⟩ := exists_waits streamLimit (StdoutReader.consume I k repr other)
    (run streamLimit (StdoutReader.consume I k repr other) ⟨[], before⟩ labels)
  exact ⟨n, by rwa [run_append]⟩

/-- Managers that send a frame out as a packet, and deliver a packet as a
frame. -/
def loopback : Wasm Bytes where
  getFrameBuffer _ _ := .ret 1
  fillFrame _ data _ := .ret () data
  pushFrameData fm _ _ m := ⟨m, [.packet fm m], .ok 0⟩
  getPacketBuffer _ _ := .ret 1
  fillPacket _ data _ := .ret () data
  pushPacketData _ _ m := ⟨m, [.frame 0 m], .ok 0⟩
  onTimer _ _ := .ret ()

theorem loopback_speaks : loopback.Speaks := by
  constructor
  all_goals
    intros
    rintro m msg h
    cases h

theorem actions_without_timers {actions : List Action}
    (h : actions.filterMap Action.timer? = []) :
    actions = (actions.filterMap Action.operation?).map .operation := by
  induction actions with
  | nil => rfl
  | cons a actions ih =>
    cases a with
    | operation op => exact congrArg (Action.operation op :: ·) (ih h)
    | timer now => cases h

def idle : StdoutReader := ⟨EufyNvr.Stream.discovery, ⟨0, none, none⟩, false⟩

def loopbackLines : List Bytes :=
  ([Event.tx .sender [3], .frame 1 [1, 2]].mapM Event.line).getD []

def loopbackLabels : List (Label StdoutReader) :=
  [.feed ((stream (readyLine :: loopbackLines)).take 9), .read,
    .feed ((stream (readyLine :: loopbackLines)).drop 9), .read, .read, .read, .read]

/-- A frame and a packet, cut inside the first line on both ways. -/
theorem oracle_transparent_loopback : ∃ labels arrivals after,
    Hears .plain ⟨true, .str [], []⟩ (fun _ => []) [.tx .sender [3], .frame 1 [1, 2]] labels idle
      after arrivals ∧
    arrivals.filterMap Arrival.delivery? = [.ready, .transmit true [3], .frame 1 [1, 2]] := by
  have hlinks : ∀ op ∈ [Op.send 1 [3], .recv [1, 2]], op.hasLink := by simp [Op.hasLink]
  have hsome : ([Op.send 1 [3], .recv [1, 2]].mapM Op.write).isSome = true := by decide +kernel
  obtain ⟨written, hwritten⟩ := Option.isSome_iff_exists.mp hsome
  obtain ⟨actions, after, hdoes, lines, hlines, -, hears⟩ := @oracle_transparent _ loopback .plain
    ⟨true, .str [], []⟩ (fun _ => []) (fun _ t => t) refusing _
    [.data (written.flatten.take 7), .data (written.flatten.drop 7)] loopback_speaks
    hlinks _ hwritten (by simp [Turn.chunk]) []
  have hactions := actions_without_timers hdoes.timers
  rw [hdoes.ops] at hactions
  subst hactions
  have hstdout : after.stdout = [.tx .sender [3], .frame 1 [1, 2]] := by
    rw [← runs_iff.mp hdoes.runs]
    rfl
  rw [hstdout] at hlines hears
  obtain rfl : loopbackLines = lines := by rw [loopbackLines, hlines, Option.getD_some]
  have hgoes : (readline streamLimit (run streamLimit (StdoutReader.consume .plain
        ⟨true, .str [], []⟩ (fun _ => []) fun _ t => t) ⟨[], idle⟩ loopbackLabels).buffer).1 = .waits ∧
      (run streamLimit (StdoutReader.consume .plain ⟨true, .str [], []⟩ (fun _ => [])
        fun _ t => t) ⟨[], idle⟩ loopbackLabels).state.ended = false := by
    decide +kernel
  obtain ⟨arrivals, h⟩ := hears idle loopbackLabels (by simp [loopbackLabels, Label.chunk])
    (by simp [Event.isError]) (by simp [loopbackLabels, Label.other?]) hgoes.1 hgoes.2
  have hfits : ∀ e ∈ [Event.tx .sender [3], .frame 1 [1, 2]], e.fits = true := by decide +kernel
  refine ⟨_, arrivals, _, h, h.deliveries.trans ?_⟩
  rw [List.filter_eq_self.mpr hfits]
  rfl

end EufyNvr.Oracle
