import EufyNvr.Lib.Base64
import EufyNvr.Lib.Utf8Lossy
import EufyNvr.Lib.Values
import EufyNvr.Stream.Acknowledgement

/-!
# The framing oracle

`serve` of `sctp_oracle.js`: the handler of stdin, which cuts what arrives
into lines and hands each operation to the frame managers, and what their
callbacks write to stdout. The managers are the WebAssembly module, which is
a parameter. A call into it may throw, and may call back before it does.

The messages on stderr and the signal to the parent process are left out.
-/

namespace EufyNvr.Oracle

open Json
open EufyNvr.Stream (fixedControlStatus)

-- ---------------------------------------------------------------------------
-- Values of the language
-- ---------------------------------------------------------------------------

/-- `value === n` -/
def isNumber (n : Nat) : Json → Bool
  | .int m => m == n
  | .float f => f.roundsTo n
  | _ => false

/-- Whether `value || other` is the value. -/
def isTrue : Json → Bool
  | .arr _ | .obj _ => true
  | v => truthy v

/-- White space for `trim`. -/
def isBlank (c : Nat) : Bool :=
  decide (9 ≤ c ∧ c ≤ 13 ∨ c = 32 ∨ c = 0xa0 ∨ c = 0x1680 ∨ 0x2000 ≤ c ∧ c ≤ 0x200a ∨ c = 0x2028 ∨
    c = 0x2029 ∨ c = 0x202f ∨ c = 0x205f ∨ c = 0x3000 ∨ c = 0xfeff)

mutual

/-- The value holds a number that only `loads` takes. -/
def hasSpecial : Json → Bool
  | .float (.special _) => true
  | .arr vs => hasSpecialItems vs
  | .obj ms => hasSpecialMembers ms
  | _ => false

def hasSpecialItems : List Json → Bool
  | [] => false
  | v :: vs => hasSpecial v || hasSpecialItems vs

def hasSpecialMembers : List (Str × Json) → Bool
  | [] => false
  | (_, v) :: ms => hasSpecial v || hasSpecialMembers ms

end

/-- `value.key` of a value that is not null; `none` is `undefined`. -/
def property (v : Json) (key : String) : Option Json :=
  match v with
  | .obj ms => get? ms (lit key)
  | _ => none

/-- What the runtime does with arguments that the engine never gives it. An
exception is its text. -/
structure Runtime where
  /-- `JSON.parse` of a text with longer integers than `loads` takes. -/
  parseLong : Str → Option Json
  /-- `Buffer.from(value, "base64")` where the value is no base64 text. -/
  fromOther : Option Json → Except Str Bytes
  /-- The frame of the operation `buildOpenLive`. -/
  openLive : Json → Except Str Bytes

namespace Runtime

variable (R : Runtime)

/-- `JSON.parse`, which throws for `none`. -/
def parse (text : Str) : Option Json :=
  match loads text with
  | some v => if hasSpecial v then none else some v
  | none => R.parseLong text

def unb64 : Option Json → Except Str Bytes
  | some (.str s) =>
    match Base64.decode s with
    | some b => .ok b
    | none => R.fromOther (some (.str s))
  | v => R.fromOther v

end Runtime

-- ---------------------------------------------------------------------------
-- The frame managers
-- ---------------------------------------------------------------------------

/-- `link2channel` -/
def link2channel (link : Json) : Nat :=
  if isNumber 1 link then 0
  else if isNumber 2 link then 3
  else if isNumber 3 link then 2
  else if isNumber 4 link then 4
  else if isNumber 5 link || isNumber 6 link then 5
  else 6

/-- `channel2link` -/
def channel2link : Nat → Nat
  | 0 => 1
  | 1 => 5
  | 2 => 3
  | 3 => 2
  | 4 => 4
  | 5 => 5
  | 6 => 99
  | _ => 0

inductive Manager
  | sender
  | receiver
  deriving DecidableEq

inductive Callback
  | packet (src : Manager) (data : Bytes)
  | frame (channel : Nat) (data : Bytes)

/-- What is written to stdout. -/
inductive Event
  | tx (src : Manager) (data : Bytes)
  | controlStatus (link : Nat) (status : Int)
  | frame (link : Nat) (data : Bytes)
  | openLive (data : Bytes)
  | error (op : Option Json) (msg : Str)

/-- `onPacket` and `onFrame` -/
def Callback.events : Callback → List Event
  | .packet src data => [.tx src data]
  | .frame channel data =>
    let link := channel2link channel
    match fixedControlStatus data with
    | some status => [.controlStatus link status, .frame link data]
    | none => [.frame link data]

/-- What a call leaves behind, and what it returns or throws. -/
structure Effect (σ : Type*) (α : Type*) where
  module : σ
  callbacks : List Callback
  result : Except Str α

namespace Effect

variable {σ α β : Type*}

def ret (a : α) (m : σ) : Effect σ α := ⟨m, [], .ok a⟩

def throw (msg : Str) (m : σ) : Effect σ α := ⟨m, [], .error msg⟩

def andThen (e : Effect σ α) (f : α → σ → Effect σ β) : Effect σ β :=
  match e.result with
  | .ok a => { f a e.module with callbacks := e.callbacks ++ (f a e.module).callbacks }
  | .error msg => ⟨e.module, e.callbacks, .error msg⟩

end Effect

/-- The functions of the module, for each of its managers. -/
structure Wasm (σ : Type*) where
  /-- 0 where there is no buffer. -/
  getFrameBuffer : Manager → Nat → σ → Effect σ Nat
  /-- The bytes are copied into the buffer, and its size is set. -/
  fillFrame : Nat → Bytes → σ → Effect σ Unit
  pushFrameData : Manager → Nat → Nat → σ → Effect σ Int
  getPacketBuffer : Manager → Nat → σ → Effect σ Nat
  fillPacket : Nat → Bytes → σ → Effect σ Unit
  pushPacketData : Manager → Nat → σ → Effect σ Int
  onTimer : Manager → Nat → σ → Effect σ Unit

section

variable {σ : Type*} (W : Wasm σ) (R : Runtime)

/-- A buffer is taken, filled and pushed. Without one `full` is thrown, and
`refused` for a code that is not 0. -/
def pushBuffer (get : σ → Effect σ Nat) (fill : Nat → σ → Effect σ Unit)
    (push : Nat → σ → Effect σ Int) (full : Str) (refused : Int → Str) (m : σ) : Effect σ Unit :=
  (get m).andThen fun b m =>
    if b = 0 then .throw full m
    else
      (fill b m).andThen fun _ m =>
        (push b m).andThen fun code m => if code ≠ 0 then .throw (refused code) m else .ret () m

def pushFrame (fm : Manager) (link : Json) (bytes : Bytes) : σ → Effect σ Unit :=
  pushBuffer (W.getFrameBuffer fm bytes.length) (fun fb => W.fillFrame fb bytes)
    (fun fb => W.pushFrameData fm fb (link2channel link))
    (lit "Error: get_frame_buffer failed size=" ++ numeral bytes.length)
    fun code => lit "Error: push_frame_data ret=" ++ intText code

def pushPacket (fm : Manager) (bytes : Bytes) : σ → Effect σ Unit :=
  pushBuffer (W.getPacketBuffer fm bytes.length) (fun pb => W.fillPacket pb bytes)
    (fun pb => W.pushPacketData fm pb)
    (lit "Error: get_packet_buffer failed size=" ++ numeral bytes.length)
    fun code => lit "Error: push_packet_data ret=" ++ intText code

-- ---------------------------------------------------------------------------
-- The handler
-- ---------------------------------------------------------------------------

/-- The module, and what has been written to stdout. -/
structure World (σ : Type*) where
  module : σ
  stdout : List Event

def World.emit (w : World σ) (events : List Event) : World σ :=
  { w with stdout := w.stdout ++ events }

/-- The effect of a call; where it throws, with what the handler writes then. -/
def World.absorb (w : World σ) (e : Effect σ Unit) (thrown : Str → List Event) : World σ where
  module := e.module
  stdout := w.stdout ++ e.callbacks.flatMap Callback.events ++
    match e.result with
    | .ok () => []
    | .error msg => thrown msg

def World.perform (w : World σ) (op : Json) (push : σ → Effect σ Unit) : World σ :=
  w.absorb (push w.module) fun msg => [.error (some op) msg]

/-- The interval timer. -/
def World.tick (w : World σ) (now : Nat) : World σ :=
  w.absorb (W.onTimer .receiver now w.module) fun _ => []

/-- One message. -/
def execute (msg : Json) (w : World σ) : World σ :=
  match property msg "op" with
  | some op =>
    if op = .str (lit "send") then
      let link := ((property msg "link").filter isTrue).getD (.int 1)
      match R.unb64 (property msg "b64") with
      | .ok data => w.perform op (pushFrame W .sender link data)
      | .error text => w.emit [.error (some op) text]
    else if op = .str (lit "recv") then
      match R.unb64 (property msg "b64") with
      | .ok data => w.perform op (pushPacket W .receiver data)
      | .error text => w.emit [.error (some op) text]
    else if op = .str (lit "buildOpenLive") then
      match R.openLive msg with
      | .ok data => w.emit [.openLive data]
      | .error text => w.emit [.error (some op) text]
    else w
  | none => w

/-- One line; `none` is an exception that ends the process. -/
def handle (line : Str) (w : World σ) : Option (World σ) :=
  if line.all isBlank then some w
  else
    match R.parse line with
    | none => some w
    -- `msg.op` throws, and again in the `catch`.
    | some .null => none
    | some msg => some (execute W R msg w)

/-- The first line and what follows it. -/
def splitLine : Str → Option (Str × Str)
  | [] => none
  | c :: s => if c = 10 then some ([], s) else (splitLine s).map fun r => (c :: r.1, r.2)

theorem splitLine_length {s line rest : Str} (h : splitLine s = some (line, rest)) :
    rest.length < s.length := by
  induction s generalizing line with
  | nil => cases h
  | cons c s ih =>
    rw [splitLine] at h
    split at h
    · cases h
      exact Nat.lt_succ_self _
    · obtain ⟨r, hr, h⟩ := Option.map_eq_some_iff.mp h
      cases h
      exact Nat.lt_succ_of_lt (ih hr)

/-- The loop over the lines. -/
def drain (input : Str) (w : World σ) : Option (Str × World σ) :=
  match _ : splitLine input with
  | none => some (input, w)
  | some (line, rest) => (handle W R line w).bind (drain rest)
termination_by input.length
decreasing_by exact splitLine_length ‹_›

/-- What wakes the process. -/
inductive Turn
  | data (chunk : Bytes)
  | timer (now : Nat)

/-- `input` is the rest of the last chunk. -/
def turn (input : Str) (w : World σ) : Turn → Option (Str × World σ)
  | .data chunk => drain W R (input ++ Utf8.decodeReplace chunk) w
  | .timer now => some (input, w.tick W now)

def serve : Str → World σ → List Turn → Option (Str × World σ)
  | input, w, [] => some (input, w)
  | input, w, t :: ts => (turn W R input w t).bind fun r => serve r.1 r.2 ts

end

end EufyNvr.Oracle
