import EufyNvr.Lib.JsonRoundTrip
import EufyNvr.Lib.Partition
import EufyNvr.Oracle.Serve

/-!
# The line protocol

The operations that the engine writes to the oracle, and what the handler
does with them, however the pipe cuts them up: each call once, in the order
they were written, with timer calls in between.
-/

namespace EufyNvr.Oracle

open Json

/-- What `push_send` and `push_recv` are called with. -/
inductive Op
  | send (link : Int) (data : Bytes)
  | recv (data : Bytes)

namespace Op

def json : Op → Json
  | .send link data =>
    .obj [(lit "op", .str (lit "send")), (lit "link", .int link),
      (lit "b64", .str (Base64.encode data))]
  | .recv data => .obj [(lit "op", .str (lit "recv")), (lit "b64", .str (Base64.encode data))]

/-- Integers of more than 4300 digits are not written. -/
def writable : Op → Bool
  | .send link _ => (numeral link.natAbs).length ≤ 4300
  | .recv _ => true

/-- `_write`; `none` is an exception. -/
def write (op : Op) : Option Bytes :=
  if op.writable then Utf8.encode (dumps spaced op.json ++ lit "\n") else none

/-- The value of `msg.op`. -/
def name : Op → Json
  | .send .. => .str (lit "send")
  | .recv _ => .str (lit "recv")

def hasLink : Op → Prop
  | .send link _ => link ≠ 0
  | .recv _ => True

end Op

-- ---------------------------------------------------------------------------
-- What the operations are to do
-- ---------------------------------------------------------------------------

section

variable {σ : Type*}

/-- The functions that are called of a manager, one after the other: they
take a buffer, fill it and push it, as far as they come. The rest is what
leaves them. -/
inductive Pushes (get : σ → Effect σ Nat) (fill : Nat → σ → Effect σ Unit)
    (push : Nat → σ → Effect σ Int) (full : Str) (refused : Int → Str) (m : σ) :
    Effect σ Unit → Prop
  | pushed {b : Nat} {m₁ m₂ m₃ : σ} {cs₁ cs₂ cs₃ : List Callback} :
      get m = ⟨m₁, cs₁, .ok b⟩ → b ≠ 0 → fill b m₁ = ⟨m₂, cs₂, .ok ()⟩ →
      push b m₂ = ⟨m₃, cs₃, .ok 0⟩ →
      Pushes get fill push full refused m ⟨m₃, cs₁ ++ cs₂ ++ cs₃, .ok ()⟩
  | refused {b : Nat} {code : Int} {m₁ m₂ m₃ : σ} {cs₁ cs₂ cs₃ : List Callback} :
      get m = ⟨m₁, cs₁, .ok b⟩ → b ≠ 0 → fill b m₁ = ⟨m₂, cs₂, .ok ()⟩ →
      push b m₂ = ⟨m₃, cs₃, .ok code⟩ → code ≠ 0 →
      Pushes get fill push full refused m ⟨m₃, cs₁ ++ cs₂ ++ cs₃, .error (refused code)⟩
  | pushThrows {b : Nat} {msg : Str} {m₁ m₂ m₃ : σ} {cs₁ cs₂ cs₃ : List Callback} :
      get m = ⟨m₁, cs₁, .ok b⟩ → b ≠ 0 → fill b m₁ = ⟨m₂, cs₂, .ok ()⟩ →
      push b m₂ = ⟨m₃, cs₃, .error msg⟩ →
      Pushes get fill push full refused m ⟨m₃, cs₁ ++ cs₂ ++ cs₃, .error msg⟩
  | fillThrows {b : Nat} {msg : Str} {m₁ m₂ : σ} {cs₁ cs₂ : List Callback} :
      get m = ⟨m₁, cs₁, .ok b⟩ → b ≠ 0 → fill b m₁ = ⟨m₂, cs₂, .error msg⟩ →
      Pushes get fill push full refused m ⟨m₂, cs₁ ++ cs₂, .error msg⟩
  | full {m₁ : σ} {cs₁ : List Callback} : get m = ⟨m₁, cs₁, .ok 0⟩ →
      Pushes get fill push full refused m ⟨m₁, cs₁, .error full⟩
  | getThrows {msg : Str} {m₁ : σ} {cs₁ : List Callback} : get m = ⟨m₁, cs₁, .error msg⟩ →
      Pushes get fill push full refused m ⟨m₁, cs₁, .error msg⟩

/-- A frame that is sent goes to the sender, on the channel of its link, and
a packet that is received goes to the receiver, each with its bytes. -/
def Op.Performs (W : Wasm σ) (m : σ) (e : Effect σ Unit) : Op → Prop
  | .send link data =>
    Pushes (W.getFrameBuffer .sender data.length) (fun fb => W.fillFrame fb data)
      (fun fb => W.pushFrameData .sender fb (link2channel (.int link)))
      (lit "Error: get_frame_buffer failed size=" ++ numeral data.length)
      (fun code => lit "Error: push_frame_data ret=" ++ intText code) m e
  | .recv data =>
    Pushes (W.getPacketBuffer .receiver data.length) (fun pb => W.fillPacket pb data)
      (W.pushPacketData .receiver)
      (lit "Error: get_packet_buffer failed size=" ++ numeral data.length)
      (fun code => lit "Error: push_packet_data ret=" ++ intText code) m e

/-- What the process does: an operation, or the call of a timer. -/
inductive Action
  | operation (op : Op)
  | timer (now : Nat)

def Action.operation? : Action → Option Op
  | .operation op => some op
  | .timer _ => none

def Action.timer? : Action → Option Nat
  | .operation _ => none
  | .timer now => some now

/-- Actions one after the other. What an operation throws is an error event
with its name, after what the module has called back; what the timer throws
is passed over. -/
inductive Runs (W : Wasm σ) : List Action → World σ → World σ → Prop
  | nil {w : World σ} : Runs W [] w w
  | performed {op : Op} {e : Effect σ Unit} {as : List Action} {w w' : World σ} :
      op.Performs W w.module e → e.result = .ok () →
      Runs W as ⟨e.module, w.stdout ++ e.callbacks.flatMap Callback.events⟩ w' →
      Runs W (.operation op :: as) w w'
  | thrown {op : Op} {e : Effect σ Unit} {msg : Str} {as : List Action} {w w' : World σ} :
      op.Performs W w.module e → e.result = .error msg →
      Runs W as ⟨e.module, w.stdout ++ e.callbacks.flatMap Callback.events ++
        [.error (some op.name) msg]⟩ w' →
      Runs W (.operation op :: as) w w'
  | timer {now : Nat} {e : Effect σ Unit} {as : List Action} {w w' : World σ} :
      W.onTimer .receiver now w.module = e →
      Runs W as ⟨e.module, w.stdout ++ e.callbacks.flatMap Callback.events⟩ w' →
      Runs W (.timer now :: as) w w'

variable {get : σ → Effect σ Nat} {fill : Nat → σ → Effect σ Unit}
  {push : Nat → σ → Effect σ Int} {full : Str} {refused : Int → Str} {m : σ} {W : Wasm σ}

theorem pushBuffer_pushes :
    Pushes get fill push full refused m (pushBuffer get fill push full refused m) := by
  unfold pushBuffer Effect.andThen
  rcases hget : get m with ⟨m₁, cs₁, msg | b⟩
  · exact .getThrows hget
  by_cases hb : b = 0
  · subst hb
    simpa [Effect.throw] using (Pushes.full hget : Pushes get fill push full refused m _)
  rcases hfill : fill b m₁ with ⟨m₂, cs₂, msg | ⟨⟩⟩
  · simpa [hb, hfill] using Pushes.fillThrows hget hb hfill
  rcases hpush : push b m₂ with ⟨m₃, cs₃, msg | code⟩
  · simpa [hb, hfill, hpush] using Pushes.pushThrows hget hb hfill hpush
  by_cases hcode : code = 0
  · subst hcode
    simpa [hb, hfill, hpush, Effect.ret] using Pushes.pushed hget hb hfill hpush
  · simpa [hb, hfill, hpush, hcode, Effect.throw] using
      (Pushes.refused hget hb hfill hpush hcode : Pushes get fill push full refused m _)

theorem Pushes.eq {e : Effect σ Unit} (h : Pushes get fill push full refused m e) :
    pushBuffer get fill push full refused m = e := by
  cases h with
  | pushed hget hb hfill hpush =>
    simp [pushBuffer, Effect.andThen, hget, hb, hfill, hpush, Effect.ret]
  | refused hget hb hfill hpush hcode =>
    simp [pushBuffer, Effect.andThen, hget, hb, hfill, hpush, hcode, Effect.throw]
  | pushThrows hget hb hfill hpush => simp [pushBuffer, Effect.andThen, hget, hb, hfill, hpush]
  | fillThrows hget hb hfill => simp [pushBuffer, Effect.andThen, hget, hb, hfill]
  | full hget => simp [pushBuffer, Effect.andThen, hget, Effect.throw]
  | getThrows hget => simp [pushBuffer, Effect.andThen, hget]

/-- What the handler makes of an operation. -/
def Op.effect (W : Wasm σ) : Op → σ → Effect σ Unit
  | .send link data => pushFrame W .sender (.int link) data
  | .recv data => pushPacket W .receiver data

theorem Op.performs_iff {op : Op} {e : Effect σ Unit} : op.Performs W m e ↔ op.effect W m = e := by
  cases op <;> exact ⟨Pushes.eq, fun h => h ▸ pushBuffer_pushes⟩

end

-- ---------------------------------------------------------------------------
-- One operation
-- ---------------------------------------------------------------------------

theorem printable_encode (b : Bytes) : Printable (Base64.encode b) := by
  have hdigit (n : Nat) (h : n < 64) : 32 ≤ Base64.digit n ∧ Base64.digit n ≤ 126 := by
    have hall : ∀ n < 64, 32 ≤ Base64.digit n ∧ Base64.digit n ≤ 126 := by decide
    exact hall n h
  have hpad : 32 ≤ Base64.pad ∧ Base64.pad ≤ 126 := by decide
  fun_induction Base64.encode b with
  | case1 => exact List.forall_mem_nil _
  | case2 x =>
    have := x.toNat_lt
    exact .cons (hdigit _ (by omega)) (.cons (hdigit _ (by omega)) (.cons hpad
      (.cons hpad (List.forall_mem_nil _))))
  | case3 x y =>
    have := x.toNat_lt
    have := y.toNat_lt
    exact .cons (hdigit _ (by omega)) (.cons (hdigit _ (by omega))
      (.cons (hdigit _ (by omega)) (.cons hpad (List.forall_mem_nil _))))
  | case4 x y z b ih =>
    have := x.toNat_lt
    have := y.toNat_lt
    have := z.toNat_lt
    exact .cons (hdigit _ (by omega)) (.cons (hdigit _ (by omega))
      (.cons (hdigit _ (by omega)) (.cons (hdigit _ (by omega)) ih)))

namespace Op

variable {op : Op}

theorem plain (h : op.writable = true) : Plain op.json := by
  cases op with
  | send link data =>
    have hlink : (numeral link.natAbs).length ≤ 4300 := of_decide_eq_true h
    simp only [json, Plain, PlainMembers, printable_encode, hlink, and_true, true_and,
      List.map_cons, List.map_nil]
    decide
  | recv data =>
    simp only [json, Plain, PlainMembers, printable_encode, and_true, List.map_cons, List.map_nil]
    decide

/-- The line without its end. -/
def line (op : Op) : Str := dumps spaced op.json

def text (op : Op) : Str := op.line ++ [10]

theorem printable_line (h : op.writable = true) : Printable op.line :=
  printable_dump spaced_oneLine op.json 0 (plain h).sound

theorem newline_not_mem_line (h : op.writable = true) : 10 ∉ op.line := fun hm => by
  have := printable_line h 10 hm
  omega

theorem ascii_text (h : op.writable = true) : Ascii op.text := by
  refine fun c hc => decide_eq_true ?_
  rcases List.mem_append.mp hc with hc | hc
  · have := printable_line h c hc
    omega
  · rw [List.mem_singleton.mp hc]
    decide

theorem write_ok {b : Bytes} (h : op.write = some b) :
    op.writable = true ∧ b = op.text.map UInt8.ofNat := by
  obtain ⟨hw, h⟩ := Option.ite_none_right_eq_some.mp h
  have hascii := Utf8.encode_ascii (ascii_text hw)
  exact ⟨hw, Option.some.inj (h.symm.trans hascii)⟩

end Op

section

variable {σ : Type*} {W : Wasm σ} {R : Runtime} {w : World σ} {op : Op} {ops : List Op}
  {a b rest : Str}

/-- What becomes of the world with an operation; an exception is reported
with the name of the operation. -/
def World.execute (W : Wasm σ) (w : World σ) (op : Op) : World σ := w.perform op.name (op.effect W)

theorem Runtime.parse_line (h : op.writable = true) : R.parse op.line = some op.json := by
  have hloads : loads (op.line ++ []) = some op.json := loads_dumps (Op.plain h) nofun
  rw [List.append_nil] at hloads
  have hspecial : hasSpecial op.json = false := by cases op <;> rfl
  rw [parse, hloads]
  simp [hspecial]

theorem unb64_encode (data : Bytes) :
    R.unb64 (some (.str (Base64.encode data))) = .ok data := by
  rw [Runtime.unb64, Base64.decode_encode]

theorem execute_json (h : op.hasLink) : execute W R op.json w = w.execute W op := by
  cases op with
  | send link data =>
    have hop : property (Op.send link data).json "op" = some (.str (lit "send")) := rfl
    have hlink : property (Op.send link data).json "link" = some (.int link) := rfl
    have hdata : property (Op.send link data).json "b64" = some (.str (Base64.encode data)) := rfl
    have hne : link ≠ 0 := h
    have htrue : isTrue (.int link) = true := by simp [isTrue, truthy, hne]
    unfold execute
    simp only [hop, hlink, hdata, if_true, unb64_encode, Option.filter_some, htrue,
      Option.getD_some]
    rfl
  | recv data =>
    have hop : property (Op.recv data).json "op" = some (.str (lit "recv")) := rfl
    have hdata : property (Op.recv data).json "b64" = some (.str (Base64.encode data)) := rfl
    have hne : (Json.str (lit "recv")) ≠ .str (lit "send") := by decide
    unfold execute
    simp only [hop, hdata, if_neg hne, if_true, unb64_encode]
    rfl

theorem handle_line (hw : op.writable = true) (hl : op.hasLink) :
    handle W R op.line w = some (w.execute W op) := by
  have hblank : op.line.all isBlank = false := by cases op <;> rfl
  have hne : op.json ≠ .null := by cases op <;> exact nofun
  unfold handle
  rw [hblank, if_neg Bool.false_ne_true, Runtime.parse_line hw]
  split
  · rename_i heq
    cases heq
  · rename_i heq
    exact absurd (Option.some.inj heq) hne
  · rename_i heq
    rw [← Option.some.inj heq, execute_json hl]

-- ---------------------------------------------------------------------------
-- Lines
-- ---------------------------------------------------------------------------

theorem splitLine_none (h : 10 ∉ a) : splitLine a = none := by
  induction a with
  | nil => rfl
  | cons c a ih =>
    obtain ⟨hc, ha⟩ := not_or.mp (mt List.mem_cons.mpr h)
    rw [splitLine, if_neg (Ne.symm hc), ih ha]
    rfl

theorem splitLine_append (h : 10 ∉ a) : splitLine (a ++ 10 :: rest) = some (a, rest) := by
  induction a with
  | nil => exact if_pos rfl
  | cons c a ih =>
    obtain ⟨hc, ha⟩ := not_or.mp (mt List.mem_cons.mpr h)
    rw [List.cons_append, splitLine, if_neg (Ne.symm hc), ih ha]
    rfl

theorem drain_none (h : 10 ∉ a) : drain W R a w = some (a, w) := by
  unfold drain
  split
  · rfl
  · rename_i heq
    rw [splitLine_none h] at heq
    cases heq

theorem drain_text (hw : op.writable = true) (hl : op.hasLink) :
    drain W R (op.text ++ a) w = drain W R a (w.execute W op) := by
  have hsplit : splitLine (op.text ++ a) = some (op.line, a) := by
    rw [Op.text, List.append_assoc]
    exact splitLine_append (Op.newline_not_mem_line hw)
  rw [drain]
  split
  · rename_i heq
    rw [hsplit] at heq
    cases heq
  · rename_i heq
    rw [hsplit] at heq
    cases heq
    rw [handle_line hw hl, Option.bind_some]

theorem drain_texts (hops : ∀ op ∈ ops, op.writable = true ∧ op.hasLink) (h : 10 ∉ a) :
    drain W R (ops.flatMap Op.text ++ a) w = some (a, ops.foldl (World.execute W) w) := by
  induction ops generalizing w with
  | nil => exact drain_none h
  | cons op ops ih =>
    obtain ⟨hw, hl⟩ := hops op (by simp)
    rw [List.flatMap_cons, List.append_assoc, drain_text hw hl,
      ih fun op hop => hops op (by simp [hop])]
    rfl

/-- Where the texts of operations are cut: some are whole, and then there is
a line without its end. -/
theorem cut_texts (hops : ∀ op ∈ ops, op.writable = true) (h : a ++ b = ops.flatMap Op.text) :
    ∃ whole left rest, ops = whole ++ left ∧ a = whole.flatMap Op.text ++ rest ∧ 10 ∉ rest ∧
      rest ++ b = left.flatMap Op.text := by
  induction ops generalizing a with
  | nil =>
    obtain ⟨rfl, rfl⟩ := List.append_eq_nil_iff.mp h
    exact ⟨[], [], [], rfl, rfl, nofun, rfl⟩
  | cons op ops ih =>
    rw [List.flatMap_cons] at h
    rcases List.append_eq_append_iff.mp h with ⟨a', htext, hb⟩ | ⟨a', ha, hrest⟩
    · by_cases ha' : a' = []
      · subst ha'
        rw [List.append_nil] at htext
        obtain ⟨whole, left, rest, rfl, hnil, hnot, hleft⟩ :=
          ih (fun op hop => hops op (by simp [hop])) (a := []) hb
        exact ⟨op :: whole, left, rest, rfl, by rw [← htext, List.flatMap_cons, List.append_assoc,
          ← hnil, List.append_nil], hnot, hleft⟩
      · have hnot : 10 ∉ a := fun hm => by
          have hlast : a' = a'.dropLast ++ [10] := by
            have hget := congrArg List.getLast? htext
            rw [Op.text, List.getLast?_concat, List.getLast?_append_of_ne_nil _ ha'] at hget
            obtain ⟨init, hinit⟩ := List.getLast?_eq_some_iff.mp hget.symm
            rw [hinit, List.dropLast_concat]
          rw [hlast, ← List.append_assoc, Op.text] at htext
          have hline := List.append_cancel_right htext
          exact Op.newline_not_mem_line (hops op (by simp)) (hline ▸ List.mem_append_left _ hm)
        exact ⟨[], op :: ops, a, rfl, rfl, hnot, by rw [h, List.flatMap_cons]⟩
    · obtain ⟨whole, left, rest, rfl, ha', hnot, hleft⟩ :=
        ih (fun op hop => hops op (by simp [hop])) hrest.symm
      exact ⟨op :: whole, left, rest, rfl, by rw [ha, ha', List.flatMap_cons, List.append_assoc],
        hnot, hleft⟩

end

-- ---------------------------------------------------------------------------
-- Runs
-- ---------------------------------------------------------------------------

def Turn.chunk : Turn → Bytes
  | .data chunk => chunk
  | .timer _ => []

def Turn.timer? : Turn → Option Nat
  | .data _ => none
  | .timer now => some now

section

variable {σ : Type*} {W : Wasm σ} {R : Runtime} {w : World σ} {ops : List Op} {turns : List Turn}
  {a s : Str}

def World.act (W : Wasm σ) (w : World σ) : Action → World σ
  | .operation op => w.execute W op
  | .timer now => w.tick W now

theorem execute_ok (h : (op.effect W w.module).result = .ok ()) :
    w.execute W op = ⟨(op.effect W w.module).module,
      w.stdout ++ (op.effect W w.module).callbacks.flatMap Callback.events⟩ := by
  simp [World.execute, World.perform, World.absorb, h]

theorem execute_thrown {msg : Str} (h : (op.effect W w.module).result = .error msg) :
    w.execute W op = ⟨(op.effect W w.module).module, w.stdout ++
      (op.effect W w.module).callbacks.flatMap Callback.events ++ [.error (some op.name) msg]⟩ := by
  simp [World.execute, World.perform, World.absorb, h]

theorem tick_eq (w : World σ) (now : Nat) : w.tick W now =
    ⟨(W.onTimer .receiver now w.module).module,
      w.stdout ++ (W.onTimer .receiver now w.module).callbacks.flatMap Callback.events⟩ := by
  rw [World.tick, World.absorb]
  split <;> simp

/-- The handler does what the operations are to do, and it alone. -/
theorem runs_iff {actions : List Action} {after : World σ} :
    Runs W actions w after ↔ actions.foldl (World.act W) w = after := by
  constructor
  · intro h
    induction h with
    | nil => rfl
    | performed hperforms hresult _ ih =>
      rw [← Op.performs_iff.mp hperforms] at hresult ih
      rw [← ih, List.foldl_cons, World.act, execute_ok hresult]
    | thrown hperforms hresult _ ih =>
      rw [← Op.performs_iff.mp hperforms] at hresult ih
      rw [← ih, List.foldl_cons, World.act, execute_thrown hresult]
    | timer htimer _ ih =>
      rw [← htimer] at ih
      rw [← ih, List.foldl_cons, World.act, tick_eq]
  · rintro rfl
    induction actions generalizing w with
    | nil => exact .nil
    | cons a actions ih =>
      have hrest := ih (w := w.act W a)
      cases a with
      | operation op =>
        have hperforms := Op.performs_iff.mpr (rfl : op.effect W w.module = _)
        cases hresult : (op.effect W w.module).result with
        | ok =>
          rw [World.act, execute_ok hresult] at hrest
          exact .performed hperforms hresult (by rwa [List.foldl_cons, World.act, execute_ok hresult])
        | error msg =>
          rw [World.act, execute_thrown hresult] at hrest
          exact .thrown hperforms hresult
            (by rwa [List.foldl_cons, World.act, execute_thrown hresult])
      | timer now =>
        rw [World.act, tick_eq] at hrest
        exact .timer rfl (by rwa [List.foldl_cons, World.act, tick_eq])

/-- The handler does these operations, and the calls of its timers. -/
structure Does (W : Wasm σ) (R : Runtime) (a : Str) (w : World σ) (turns : List Turn)
    (ops : List Op) (actions : List Action) (after : World σ) : Prop where
  serve : serve W R a w turns = some ([], after)
  runs : Runs W actions w after
  ops : actions.filterMap Action.operation? = ops
  timers : actions.filterMap Action.timer? = turns.filterMap Turn.timer?

theorem Does.timer {actions : List Action} {after : World σ} {now : Nat}
    (h : Does W R a (w.tick W now) turns ops actions after) :
    Does W R a w (.timer now :: turns) ops (.timer now :: actions) after where
  serve := h.serve
  runs := by
    have hruns := runs_iff.mp h.runs
    exact runs_iff.mpr hruns
  ops := by
    rw [List.filterMap_cons, Action.operation?]
    exact h.ops
  timers := congrArg (now :: ·) h.timers

theorem Does.data {whole : List Op} {actions : List Action} {after : World σ} {chunk : Bytes}
    {rest : Str} (hdrain : drain W R (a ++ Utf8.decodeReplace chunk) w =
      some (rest, whole.foldl (World.execute W) w))
    (h : Does W R rest (whole.foldl (World.execute W) w) turns ops actions after) :
    Does W R a w (.data chunk :: turns) (whole ++ ops) (whole.map .operation ++ actions) after where
  serve := by
    rw [Oracle.serve, turn, hdrain, Option.bind_some, h.serve]
  runs := by
    rw [runs_iff, List.foldl_append, List.foldl_map]
    exact runs_iff.mp h.runs
  ops := by
    have hwhole : (whole.map Action.operation).filterMap Action.operation? = whole := by
      rw [List.filterMap_map]
      exact (List.filterMap_congr fun _ _ => rfl).trans List.filterMap_some
    rw [List.filterMap_append, hwhole, h.ops]
  timers := by
    have hwhole : (whole.map Action.operation).filterMap Action.timer? = [] := by
      rw [List.filterMap_map]
      exact List.filterMap_eq_nil_iff.mpr fun _ _ => rfl
    rw [List.filterMap_append, hwhole, List.nil_append, h.timers]
    rfl

theorem serve_does (hops : ∀ op ∈ ops, op.writable = true ∧ op.hasLink) (hnot : 10 ∉ a)
    (hs : a ++ s = ops.flatMap Op.text) (hbytes : turns.flatMap Turn.chunk = s.map UInt8.ofNat) :
    ∃ actions after, Does W R a w turns ops actions after := by
  have hascii : ∀ c ∈ s, isAscii c = true := fun c hc => by
    have hmem : c ∈ ops.flatMap Op.text := hs ▸ List.mem_append_right a hc
    obtain ⟨op, hop, hc⟩ := List.mem_flatMap.mp hmem
    exact Op.ascii_text (hops op hop).1 c hc
  induction turns generalizing a s w ops with
  | nil =>
    obtain rfl : s = [] := List.map_eq_nil_iff.mp hbytes.symm
    rw [List.append_nil] at hs
    cases ops with
    | nil =>
      subst hs
      exact ⟨[], w, rfl, .nil, rfl, rfl⟩
    | cons op ops =>
      refine absurd ?_ hnot
      rw [hs, List.flatMap_cons, Op.text]
      simp
  | cons t turns ih =>
    cases t with
    | timer now =>
      obtain ⟨actions, after, h⟩ := ih (w := w.tick W now) hops hnot hs hbytes hascii
      exact ⟨.timer now :: actions, after, h.timer⟩
    | data chunk =>
      rw [List.flatMap_cons, Turn.chunk] at hbytes
      obtain ⟨s₁, s₂, rfl, hchunk, hrest⟩ := List.map_eq_append_iff.mp hbytes.symm
      rw [← List.append_assoc] at hs
      obtain ⟨whole, left, rest, rfl, ha, hnot', hleft⟩ :=
        cut_texts (fun op hop => (hops op hop).1) hs
      have hs₁ : Ascii s₁ := fun c hc => hascii c (List.mem_append_left s₂ hc)
      have hdrain : drain W R (a ++ Utf8.decodeReplace chunk) w =
          some (rest, whole.foldl (World.execute W) w) := by
        rw [← hchunk, Utf8.decodeReplace_ascii hs₁, ha]
        exact drain_texts (fun op hop => hops op (by simp [hop])) hnot'
      obtain ⟨actions, after, h⟩ := ih (w := whole.foldl (World.execute W) w)
        (fun op hop => hops op (by simp [hop])) hnot' hleft hrest.symm
        fun c hc => hascii c (List.mem_append_right s₁ hc)
      exact ⟨whole.map .operation ++ actions, after, h.data hdrain⟩

theorem flatten_written {written : List Bytes} (h : ops.mapM Op.write = some written) :
    written.flatten = (ops.flatMap Op.text).map UInt8.ofNat := by
  induction ops generalizing written with
  | nil =>
    cases h
    rfl
  | cons op ops ih =>
    rw [List.mapM_cons] at h
    obtain ⟨b, hb, h⟩ := Option.bind_eq_some_iff.mp h
    obtain ⟨bs, hbs, h⟩ := Option.bind_eq_some_iff.mp h
    cases h
    rw [List.flatten_cons, ih hbs, (Op.write_ok hb).2, List.flatMap_cons, List.map_append]

/-- However the written operations are cut into chunks, and whenever the
timer is called: the handler does exactly these operations, in their order,
with the functions of the module and their bytes, and keeps no rest. After
one that throws it goes on. -/
theorem chunks_independent (hlinks : ∀ op ∈ ops, op.hasLink) {written : List Bytes}
    (hwritten : ops.mapM Op.write = some written)
    (hchunks : turns.flatMap Turn.chunk = written.flatten) :
    ∃ actions after, Does W R [] w turns ops actions after := by
  have hops : ∀ op ∈ ops, op.writable = true ∧ op.hasLink := fun op hop => by
    obtain ⟨b, -, hb⟩ := mapM_mem hwritten hop
    exact ⟨(Op.write_ok hb).1, hlinks op hop⟩
  exact serve_does hops nofun rfl (hchunks.trans (flatten_written hwritten))

end

/-- Managers that keep the frames they are given and have no room for a
packet. -/
def narrow : Wasm (List Bytes) where
  getFrameBuffer _ _ := .ret 1
  fillFrame _ data m := .ret () (m ++ [data])
  pushFrameData _ _ _ := .ret 0
  getPacketBuffer _ _ := .ret 0
  fillPacket _ _ := .ret ()
  pushPacketData _ _ := .ret 0
  onTimer _ _ := .ret ()

/-- A runtime that refuses what the engine never writes. -/
def refusing : Runtime where
  parseLong _ := none
  fromOther _ := .error (lit "TypeError")
  openLive _ := .error (lit "TypeError")

/-- Two operations, cut inside the first line and with a timer call there;
the first throws. -/
theorem chunks_independent_cut :
    ∃ written, [Op.recv [1, 2], .send 1 [3]].mapM Op.write = some written ∧
      ∃ actions after, Does narrow refusing [] ⟨[], []⟩
        [.data (written.flatten.take 7), .timer 5, .data (written.flatten.drop 7)]
        [.recv [1, 2], .send 1 [3]] actions after := by
  have hlinks : ∀ op ∈ [Op.recv [1, 2], .send 1 [3]], op.hasLink := by
    simp [Op.hasLink]
  have hsome : ([Op.recv [1, 2], .send 1 [3]].mapM Op.write).isSome = true := by decide +kernel
  obtain ⟨written, hwritten⟩ := Option.isSome_iff_exists.mp hsome
  refine ⟨written, hwritten, chunks_independent hlinks hwritten ?_⟩
  simp [Turn.chunk]

end EufyNvr.Oracle
