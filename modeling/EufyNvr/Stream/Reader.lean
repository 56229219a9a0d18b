import EufyNvr.Lib.Except
import EufyNvr.Lib.Machine
import EufyNvr.Stream.Engine
import EufyNvr.Stream.Frame

/-!
# The reader of the oracle

`Oracle._read_stdout` over the deliveries it has parsed, and for which frames
`on_frame` returns. An exception that leaves `on_frame` ends the only task
that reads them.
-/

namespace EufyNvr.Stream

open Json

variable {I : Interpreter} {k : Constants} {e : Surroundings} {s : FrameState} {link : Nat}
  {buf : Bytes}

/-- What the oracle writes. -/
inductive Delivery
  | ready
  | transmit (fromSend : Bool) (packet : Bytes)
  | frame (link : Nat) (buf : Bytes)
  | status (code : Option Int)
  | error (message : Str)

structure Reader where
  ready : Bool
  frames : FrameState
  closeSent : Bool
  closeAck : Bool
  /-- What `on_tx` has been given. -/
  sent : List Bytes
  log : List Str

/-- A delivery, after what the other tasks have done since the last one. -/
structure Turn where
  others : Reader → Reader
  around : Surroundings
  delivery : Delivery

def Reader.handle (I : Interpreter) (k : Constants) (r : Reader) (e : Surroundings) :
    Delivery → Reader × Option Exc
  | .ready => ({ r with ready := true }, none)
  | .transmit fromSend packet =>
    (if fromSend then { r with sent := r.sent ++ [packet] } else r, none)
  | .frame link buf =>
    let o := onFrame I k e r.frames link buf
    ({ r with frames := o.state, log := r.log ++ o.log }, o.raised)
  | .status code => ({ r with closeAck := r.closeAck || (r.closeSent && code == some 0) }, none)
  | .error message => ({ r with log := r.log ++ [lit "oracle error: " ++ message] }, none)

/-- `_read_stdout`; where it ends with an exception, the deliveries
that are left. -/
def readStdout (I : Interpreter) (k : Constants) :
    Reader → List Turn → Reader × Option (Exc × List Turn)
  | r, [] => (r, none)
  | r, t :: ts =>
    match (t.others r).handle I k t.around t.delivery with
    | (r, none) => readStdout I k r ts
    | (r, some exc) => (r, some (exc, ts))

-- ---------------------------------------------------------------------------
-- Device lists
-- ---------------------------------------------------------------------------

/-- The reply is an object, its payload is one too or is not there, and what
is taken for the device list is a list of objects or counts as false. -/
def ListsDevices (reply : Json) : Prop :=
  ∃ ms ps items, reply = .obj ms ∧
    (get? ms (lit "payload") = none ∧ ps = [] ∨ get? ms (lit "payload") = some (.obj ps)) ∧
    firstTrue (get? ps (lit "dev_list")) (get? ms (lit "dev_list")) = .arr items ∧
    ∀ d ∈ items, ∃ m, d = .obj m

theorem firstTrue_cases (a b : Option Json) :
    firstTrue a b = .arr [] ∨ truthy (firstTrue a b) = true := by
  unfold firstTrue
  cases ha : a.filter truthy with
  | some v => exact .inr (Option.filter_eq_some_iff.mp ha).2
  | none =>
    cases hb : b.filter truthy with
    | some v => exact .inr (Option.filter_eq_some_iff.mp hb).2
    | none => exact .inl rfl

theorem getattr_ok {v : Json} {ms : List (Str × Json)} : getattr v = .ok ms ↔ v = .obj ms := by
  cases v <;> simp [getattr]

theorem camera_ok {d : Json} : (∃ c, camera d = .ok c) ↔ ∃ m, d = .obj m := by
  simp only [camera, exists_bind_ok, getattr_ok]
  exact ⟨fun ⟨m, h, _⟩ => ⟨m, h⟩, fun ⟨m, h⟩ => ⟨m, h, _, rfl⟩⟩

theorem mapM_camera_ok {items : List Json} :
    (∃ cs, items.mapM camera = .ok cs) ↔ ∀ d ∈ items, ∃ m, d = .obj m := by
  induction items with
  | nil => exact ⟨fun _ => nofun, fun _ => ⟨[], rfl⟩⟩
  | cons d ds ih =>
    rw [List.mapM_cons, List.forall_mem_cons, ← ih, ← camera_ok, exists_bind_ok]
    constructor
    · rintro ⟨c, hc, h⟩
      obtain ⟨cs, hcs, -⟩ := exists_bind_ok.mp h
      exact ⟨⟨c, hc⟩, cs, hcs⟩
    · rintro ⟨⟨c, hc⟩, cs, hcs⟩
      exact ⟨c, hc, exists_bind_ok.mpr ⟨cs, hcs, _, rfl⟩⟩

/-- A text has at least one character, and an object at least one key, so
their loops raise at the first item. -/
theorem iterate_ok {v : Json} (h : v = .arr [] ∨ truthy v = true) :
    (∃ items, iterate v = .ok items ∧ ∃ cs, items.mapM camera = .ok cs) ↔
      ∃ items, v = .arr items ∧ ∀ d ∈ items, ∃ m, d = .obj m := by
  simp only [mapM_camera_ok]
  cases v with
  | arr items => simp [iterate]
  | str t =>
    refine ⟨?_, fun ⟨_, h, _⟩ => nomatch h⟩
    rintro ⟨items, hitems, hall⟩
    cases hitems
    cases t with
    | nil => rcases h with h | h <;> cases h
    | cons c t =>
      obtain ⟨m, hm⟩ := hall (.str [c]) (by simp)
      cases hm
  | obj ms =>
    refine ⟨?_, fun ⟨_, h, _⟩ => nomatch h⟩
    rintro ⟨items, hitems, hall⟩
    cases hitems
    cases ms with
    | nil => rcases h with h | h <;> cases h
    | cons m ms =>
      obtain ⟨m', hm⟩ := hall (.str m.1) (by simp)
      cases hm
  | _ => exact ⟨fun ⟨_, h, _⟩ => (nomatch h), fun ⟨_, h, _⟩ => nomatch h⟩

theorem payload_ok {ms ps : List (Str × Json)} :
    (get? ms (lit "payload")).getD (.obj []) = .obj ps ↔
      get? ms (lit "payload") = none ∧ ps = [] ∨ get? ms (lit "payload") = some (.obj ps) := by
  cases get? ms (lit "payload") with
  | none => simp [eq_comm]
  | some v => simp

theorem cameras_ok {reply : Json} : (∃ cs, cameras reply = .ok cs) ↔ ListsDevices reply := by
  simp only [cameras, exists_bind_ok, getattr_ok, payload_ok, iterate_ok (firstTrue_cases _ _)]
  constructor
  · rintro ⟨ms, hms, ps, hps, items, h⟩
    exact ⟨ms, ps, items, hms, hps, h⟩
  · rintro ⟨ms, ps, items, hms, hps, h⟩
    exact ⟨ms, hms, ps, hps, items, h⟩

-- ---------------------------------------------------------------------------
-- Frames
-- ---------------------------------------------------------------------------

/-- A device list that is waited for cannot be parsed, or lists devices. -/
def Answerable (I : Interpreter) (k : Constants) (s : FrameState) (buf : Bytes) : Prop :=
  isVideo buf = false → cmdid buf ≠ 1032 → isDevlist k s buf = true →
    ∀ reply, I.parse (replyText buf) = .ok reply → ListsDevices reply

theorem handleDevlist_raised {text : Str} : (handleDevlist I k s text).raised = none ↔
    ∀ reply, I.parse text = .ok reply → ListsDevices reply := by
  unfold handleDevlist
  cases hparse : I.parse text with
  | error e => simp [FrameState.quiet]
  | ok reply =>
    simp only [Except.ok.injEq, forall_eq', ← cameras_ok]
    cases cameras reply with
    | error exc => simp
    | ok cs => simp [FrameState.quiet]

theorem onVideoFrame_raised (f : VideoFrame) : (onVideoFrame e s f).raised = none := by
  unfold onVideoFrame
  split
  · split <;> rfl
  · split <;> rfl

theorem onControl_raised : (onControl I k s link buf).raised = none ↔
    (isDevlist k s buf = true → (handleDevlist I k s (replyText buf)).raised = none) := by
  have hkeep (o : Outcome) : (if o.raised.isNone then { o with records := [controlRecord link buf] }
      else o).raised = o.raised := by split <;> rfl
  rw [onControl, hkeep]
  split
  · rename_i h
    exact ⟨fun hraised _ => hraised, fun hraised => hraised h⟩
  · rename_i h
    exact ⟨fun _ h' => absurd h' h, fun _ => rfl⟩

theorem onFrame_raised : (onFrame I k e s link buf).raised = none ↔ Answerable I k s buf := by
  have hcount : isDevlist k { s with framesSeen := s.framesSeen + 1 } buf = isDevlist k s buf := rfl
  unfold onFrame Answerable
  dsimp only
  cases hv : isVideo buf with
  | true => simp [onVideoFrame_raised]
  | false =>
    by_cases h1032 : cmdid buf = 1032
    · simp [h1032, onStatus1032, FrameState.quiet]
    · simp [h1032, onControl_raised, handleDevlist_raised, hcount]

/-- A reply that cannot be parsed is logged, and changes nothing. -/
theorem onFrame_malformed {refusal : Str} (hv : isVideo buf = false) (h1032 : cmdid buf ≠ 1032)
    (hlist : isDevlist k s buf = true) (h : I.parse (replyText buf) = .error refusal) :
    onFrame I k e s link buf = { FrameState.quiet { s with framesSeen := s.framesSeen + 1 } with
      log := [lit "devlist parse err: " ++ refusal], records := [controlRecord link buf] } := by
  have hcount : isDevlist k { s with framesSeen := s.framesSeen + 1 } buf = true := hlist
  simp [onFrame, hv, h1032, onControl, hcount, handleDevlist, h, FrameState.quiet]

-- ---------------------------------------------------------------------------
-- Runs
-- ---------------------------------------------------------------------------

theorem handle_raised {r : Reader} {d : Delivery} : (r.handle I k e d).2 = none ↔
    ∀ link buf, d = .frame link buf → Answerable I k r.frames buf := by
  cases d with
  | frame link buf =>
    refine onFrame_raised.trans ⟨?_, fun h => h link buf rfl⟩
    rintro h _ _ hd
    cases hd
    exact h
  | _ => exact ⟨fun _ _ _ h => (nomatch h), fun _ => rfl⟩

theorem readStdout_cons_ok {r : Reader} {t : Turn} {ts : List Turn}
    (h : ((t.others r).handle I k t.around t.delivery).2 = none) : readStdout I k r (t :: ts) =
      readStdout I k ((t.others r).handle I k t.around t.delivery).1 ts := by
  rw [readStdout]
  split
  · rename_i hr
    rw [hr]
  · rename_i hr
    rw [hr] at h
    cases h

/-- The frames are answerable where the reader comes to them. -/
def AllAnswerable (I : Interpreter) (k : Constants) (r : Reader) (ts : List Turn) : Prop :=
  ∀ past t future link buf, ts = past ++ t :: future → t.delivery = .frame link buf →
    Answerable I k (t.others (readStdout I k r past).1).frames buf

theorem readStdout_goes_on (r : Reader) (ts : List Turn) :
    (readStdout I k r ts).2 = none ↔ AllAnswerable I k r ts := by
  induction ts generalizing r with
  | nil =>
    refine ⟨fun _ past t future link buf h => ?_, fun _ => rfl⟩
    cases past <;> cases h
  | cons t ts ih =>
    by_cases hraised : ((t.others r).handle I k t.around t.delivery).2 = none
    · rw [readStdout_cons_ok hraised, ih]
      constructor
      · intro h past t' future link buf hts hd
        cases past with
        | nil =>
          cases hts
          exact handle_raised.mp hraised link buf hd
        | cons t₀ past =>
          cases hts
          rw [readStdout_cons_ok hraised]
          exact h past t' future link buf rfl hd
      · intro h past t' future link buf hts hd
        have := h (t :: past) t' future link buf (by rw [hts]; rfl) hd
        rwa [readStdout_cons_ok hraised] at this
    · have hstops : (readStdout I k r (t :: ts)).2 ≠ none := by
        rw [readStdout]
        split
        · rename_i hr
          exact absurd (by rw [hr]) hraised
        · simp
      refine ⟨fun h => absurd h hstops, fun h => absurd ?_ hraised⟩
      exact handle_raised.mpr fun link buf hd => h [] t ts link buf rfl hd

/-- When `on_frame` returns, in which runs the reader goes on to the last
delivery, and what becomes of a device list that cannot be parsed. -/
theorem reader_goes_on (I : Interpreter) (k : Constants) :
    (∀ e s link buf, (onFrame I k e s link buf).raised = none ↔ Answerable I k s buf) ∧
      (∀ r ts, (readStdout I k r ts).2 = none ↔ AllAnswerable I k r ts) ∧
      ∀ e s link buf refusal, isVideo buf = false → cmdid buf ≠ 1032 →
        isDevlist k s buf = true → I.parse (replyText buf) = .error refusal →
        onFrame I k e s link buf = { FrameState.quiet { s with framesSeen := s.framesSeen + 1 } with
          log := [lit "devlist parse err: " ++ refusal], records := [controlRecord link buf] } :=
  ⟨fun _ _ _ _ => onFrame_raised, readStdout_goes_on,
    fun _ _ _ _ _ hv h1032 hlist h => onFrame_malformed hv h1032 hlist h⟩

-- ---------------------------------------------------------------------------
-- The protocol engine
-- ---------------------------------------------------------------------------

section

open Machine

variable {eng : Engine} {mode : Mode} {r : Reader} {t : Turn} {ts : List Turn}

/-- The engine and the state of the frames say the same. -/
structure Agrees (eng : Engine) (s : FrameState) : Prop where
  vframes : eng.vframes = s.progress.vframes
  fatalReason : eng.fatalReason = s.fatalReason
  discovered : eng.discovered = s.discovered

/-- What a frame leaves alone in the engine. -/
structure Aside (eng eng' : Engine) : Prop where
  phase : eng'.phase = eng.phase
  closeSent : eng'.closeSent = eng.closeSent
  closeAck : eng'.closeAck = eng.closeAck

theorem onVideo_aside (eng : Engine) (sink : Sink) : Aside eng (eng.onVideo sink) := by
  unfold Engine.onVideo
  split
  · split <;> exact ⟨rfl, rfl, rfl⟩
  · exact ⟨rfl, rfl, rfl⟩
  · exact ⟨rfl, rfl, rfl⟩

theorem devlist_aside (eng : Engine) (o : DeviceList) : Aside eng (eng.handleDevlist o) := by
  unfold Engine.handleDevlist
  split <;> exact ⟨rfl, rfl, rfl⟩

theorem Agrees.video (h : Agrees eng s) (f : VideoFrame) :
    ∃ sink, Agrees (eng.onVideo sink) (onVideoFrame e s f).state := by
  unfold onVideoFrame
  cases e.ffmpegExit with
  | some rc =>
    refine ⟨.ffmpegExited rc, ?_⟩
    rw [Engine.onVideo, h.fatalReason]
    dsimp only
    split
    · exact ⟨h.vframes, rfl, h.discovered⟩
    · exact h
  | none =>
    cases e.sinkError with
    | some err => exact ⟨.failed err.1, congrArg (· + 1) h.vframes, rfl, h.discovered⟩
    | none =>
      refine ⟨.written, ?_, h.fatalReason, h.discovered⟩
      dsimp only [FrameState.quiet]
      rw [Progress.texts_vframes]
      exact congrArg (· + 1) h.vframes

theorem Agrees.devlist (h : Agrees eng s) (text : Str) :
    ∃ o, Agrees (eng.handleDevlist o) (handleDevlist I k s text).state := by
  unfold handleDevlist
  cases I.parse text with
  | error _ => exact ⟨.unreadable, h⟩
  | ok reply =>
    dsimp only
    cases cameras reply with
    | error _ => exact ⟨.failed, h⟩
    | ok _ => exact ⟨.done, h.vframes, h.fatalReason, rfl⟩

theorem Agrees.control (h : Agrees eng s) (hrunning : eng.running = true)
    (hdiscover : mode.discover = k.discover) :
    ∃ ls eng', exec (Engine.step mode) eng ls = some eng' ∧ Aside eng eng' ∧
      Agrees eng' (onControl I k s link buf).state := by
  have hkeep (o : Outcome) : (if o.raised.isNone then { o with records := [controlRecord link buf] }
      else o).state = o.state := by split <;> rfl
  rw [onControl, hkeep]
  split
  · rename_i hlist
    obtain ⟨o, ho⟩ := h.devlist (I := I) (k := k) (replyText buf)
    simp only [isDevlist, Bool.and_eq_true, Bool.not_eq_true', decide_eq_true_eq] at hlist
    have hopen : ¬ eng.discovered = true := by simp [h.discovered, hlist.2]
    have hstep : eng.step mode (.deviceList o) = some (eng.handleDevlist o) :=
      if_pos ⟨hrunning, hdiscover.trans hlist.1.1, hopen⟩
    exact ⟨[.deviceList o], _, exec_cons.mpr ⟨_, hstep, rfl⟩, devlist_aside eng o, ho⟩
  · exact ⟨[], eng, rfl, ⟨rfl, rfl, rfl⟩, h⟩

/-- A frame is a step of the engine, or does not concern it. -/
theorem Agrees.frame (h : Agrees eng s) (hrunning : eng.running = true)
    (hdiscover : mode.discover = k.discover) :
    ∃ ls eng', exec (Engine.step mode) eng ls = some eng' ∧ Aside eng eng' ∧
      Agrees eng' (onFrame I k e s link buf).state := by
  have h' : Agrees eng { s with framesSeen := s.framesSeen + 1 } := ⟨h.1, h.2, h.3⟩
  unfold onFrame
  dsimp only
  split
  · obtain ⟨sink, hsink⟩ := h'.video (e := e) ⟨(cmdid buf).toNat, link, payload buf⟩
    have hstep : eng.step mode (.video sink) = some (eng.onVideo sink) := if_pos hrunning
    exact ⟨[.video sink], _, exec_cons.mpr ⟨_, hstep, rfl⟩, onVideo_aside eng sink, hsink⟩
  · split
    · refine ⟨[], eng, rfl, ⟨rfl, rfl, rfl⟩, ?_⟩
      unfold onStatus1032
      dsimp only [FrameState.quiet]
      split
      · exact ⟨h.1, h.2, h.3⟩
      · exact h'
    · exact h'.control hrunning hdiscover

/-- The engine is in the same state as far as the reader knows it. -/
structure Follows (eng : Engine) (r : Reader) : Prop where
  frames : Agrees eng r.frames
  closeSent : eng.closeSent = r.closeSent
  closeAck : eng.closeAck = r.closeAck
  running : eng.running = true

theorem running_aside {eng' : Engine} (h : Aside eng eng') (hr : eng.running = true) :
    eng'.running = true := by
  rwa [Engine.running, h.phase]

/-- A delivery is a run of the engine, also where it raises. -/
theorem Follows.handle (h : Follows eng r) (hdiscover : mode.discover = k.discover)
    (d : Delivery) : ∃ ls eng', exec (Engine.step mode) eng ls = some eng' ∧
      Follows eng' (r.handle I k e d).1 := by
  cases d with
  | ready | error message => exact ⟨[], eng, rfl, h.frames, h.closeSent, h.closeAck, h.running⟩
  | transmit fromSend packet =>
    refine ⟨[], eng, rfl, ?_⟩
    unfold Reader.handle
    dsimp only
    split
    · exact ⟨h.frames, h.closeSent, h.closeAck, h.running⟩
    · exact h
  | frame link buf =>
    obtain ⟨ls, eng', hls, haside, hagrees⟩ : ∃ ls eng', exec (Engine.step mode) eng ls = some eng' ∧
        Aside eng eng' ∧ Agrees eng' (onFrame I k e r.frames link buf).state :=
      h.frames.frame h.running hdiscover
    exact ⟨ls, eng', hls, hagrees, haside.closeSent.trans h.closeSent,
      haside.closeAck.trans h.closeAck, running_aside haside h.running⟩
  | status code =>
    cases code with
    | none =>
      refine ⟨[], eng, rfl, h.frames, h.closeSent, ?_, h.running⟩
      simp [Reader.handle, h.closeAck]
    | some c =>
      have hstep : eng.step mode (.status c) =
          some { eng with closeAck := eng.closeAck || (eng.closeSent && c == 0) } :=
        if_pos h.running
      refine ⟨[.status c], _, exec_cons.mpr ⟨_, hstep, rfl⟩, ⟨h.frames.1, h.frames.2, h.frames.3⟩,
        h.closeSent, ?_, h.running⟩
      simp [Reader.handle, h.closeAck, h.closeSent]

/-- What the other tasks do before a delivery is a run of the engine too. -/
def Turn.Driven (mode : Mode) (t : Turn) : Prop :=
  ∀ eng r, Follows eng r → ∃ ls eng', exec (Engine.step mode) eng ls = some eng' ∧
    Follows eng' (t.others r)

/-- Every run of the reader, to its end or to an exception, is one of the
engine. -/
theorem readStdout_refines (hdiscover : mode.discover = k.discover)
    (hts : ∀ t ∈ ts, t.Driven mode) (h : Follows eng r) :
    ∃ ls eng', exec (Engine.step mode) eng ls = some eng' ∧
      Follows eng' (readStdout I k r ts).1 := by
  induction ts generalizing eng r with
  | nil => exact ⟨[], eng, rfl, h⟩
  | cons t ts ih =>
    obtain ⟨ls, eng₁, hls, h₁⟩ := hts t (by simp) eng r h
    obtain ⟨ms, eng₂, hms, h₂⟩ := h₁.handle (I := I) (e := t.around) hdiscover t.delivery
    rw [readStdout]
    split
    · rename_i r' hr
      rw [hr] at h₂
      obtain ⟨ns, eng₃, hns, h₃⟩ := ih (fun t ht => hts t (by simp [ht])) h₂
      exact ⟨ls ++ (ms ++ ns), eng₃,
        exec_append.mpr ⟨eng₁, hls, exec_append.mpr ⟨eng₂, hms, hns⟩⟩, h₃⟩
    · rename_i r' exc hr
      rw [hr] at h₂
      exact ⟨ls ++ ms, eng₂, exec_append.mpr ⟨eng₁, hls, hms⟩, h₂⟩

/-- The reader of a process takes no acknowledgement for one before
`closeLive` is sent. -/
theorem readStdout_acknowledged {now : Int} {ls : List Label}
    (hdiscover : mode.discover = k.discover) (hts : ∀ t ∈ ts, t.Driven mode)
    (hrun : exec (Engine.step mode) (Engine.init now) ls = some eng) (h : Follows eng r)
    (hack : (readStdout I k r ts).1.closeAck = true) :
    (readStdout I k r ts).1.closeSent = true := by
  obtain ⟨ms, eng', hms, hfollows⟩ := readStdout_refines hdiscover hts h
  have hall : exec (Engine.step mode) (Engine.init now) (ls ++ ms) = some eng' :=
    exec_append.mpr ⟨eng, hrun, hms⟩
  rw [← hfollows.closeSent]
  exact Control.closeSent_of_closeAck hall (hfollows.closeAck.trans hack)

end

/-- A discovery that has seen nothing yet. -/
def discovery : Reader where
  ready := true
  frames := ⟨0, .init 0, 0, none, none, false⟩
  closeSent := false
  closeAck := false
  sent := []
  log := []

/-- The payload of the reply is null; a packet comes after it. -/
def nullPayload : List Turn :=
  [⟨id, ⟨0, none, none⟩, .frame 0 ((lit "\x7b\"payload\":null,\"dev_list\":[]\x7d").map UInt8.ofNat)⟩,
    ⟨id, ⟨0, none, none⟩, .transmit true [1]⟩]

theorem reader_stops :
    (readStdout .plain ⟨true, .str [], []⟩ discovery nullPayload).2.map Prod.fst =
        some .attributeError ∧
      (readStdout .plain ⟨true, .str [], []⟩ discovery nullPayload).1.sent = [] := by
  decide +kernel

end EufyNvr.Stream
