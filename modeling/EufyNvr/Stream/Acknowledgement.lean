import EufyNvr.Stream.Close

/-!
# The acknowledgement of `closeLive`

The engine with the frames that the NVR has sent and the engine has not yet
handled. The oracle turns some frames into a status, without the command they
answer, and the engine takes the first status 0 after `closeLive` for its
acknowledgement. It is one exactly where no other frame that reads so is
under way.
-/

namespace EufyNvr.Stream

open Machine (exec)

-- ---------------------------------------------------------------------------
-- Status frames
-- ---------------------------------------------------------------------------

/-- `readInt32LE` -/
def readInt32LE : Bytes → Int
  | a :: b :: c :: d :: _ =>
    let n := a.toNat + 256 * b.toNat + 65536 * c.toNat + 16777216 * d.toNat
    if n < 2147483648 then n else n - 4294967296
  | _ => 0

/-- `toString("ascii")`, which drops the highest bit, of the first four bytes. -/
def magic (frame : Bytes) : List Nat := (frame.take 4).map fun b => b.toNat % 128

/-- `readUInt16LE(4)` -/
def commandId (frame : Bytes) : Option Nat :=
  match frame.drop 4 with
  | lo :: hi :: _ => some (lo.toNat + 256 * hi.toNat)
  | _ => none

/-- `fixedControlStatus` of the oracle. -/
def fixedControlStatus (frame : Bytes) : Option Int :=
  let payload := frame.drop 16
  if frame.length < 20 ∨ magic frame ≠ [88, 90, 89, 72] then none
  else if commandId frame = some 1032 then none
  else if (payload.drop 4).any (· ≠ 0) then none
  else if (payload.take 4).any fun b => b < 0x20 || b > 0x7e then some (readInt32LE payload)
  else none

/-- A frame whose payload is all zero, of any command but 1032. -/
structure ZeroStatus (frame : Bytes) : Prop where
  length : 20 ≤ frame.length
  magic : magic frame = [88, 90, 89, 72]
  command : commandId frame ≠ some 1032
  payload : ∀ b ∈ frame.drop 16, b = 0

theorem readInt32LE_eq_zero {a b c d : UInt8} {rest : Bytes} :
    readInt32LE (a :: b :: c :: d :: rest) = 0 ↔ a = 0 ∧ b = 0 ∧ c = 0 ∧ d = 0 := by
  have ha := a.toNat_lt
  have hb := b.toNat_lt
  have hc := c.toNat_lt
  have hd := d.toNat_lt
  simp only [readInt32LE, ← UInt8.toNat_inj, UInt8.toNat_zero]
  split <;> omega

theorem fixedControlStatus_eq_zero {frame : Bytes} :
    fixedControlStatus frame = some 0 ↔ ZeroStatus frame := by
  by_cases hlen : 20 ≤ frame.length
  · obtain ⟨a, b, c, d, rest, hpay⟩ : ∃ a b c d rest, frame.drop 16 = a :: b :: c :: d :: rest := by
      have hdrop : 4 ≤ (frame.drop 16).length := by
        rw [List.length_drop]
        omega
      match hp : frame.drop 16, hdrop with
      | a :: b :: c :: d :: rest, _ => exact ⟨a, b, c, d, rest, rfl⟩
    constructor
    · intro h
      unfold fixedControlStatus at h
      simp only [hpay] at h
      obtain ⟨hhead, h⟩ := Option.ite_none_left_eq_some.mp h
      obtain ⟨hcmd, h⟩ := Option.ite_none_left_eq_some.mp h
      obtain ⟨hrest, h⟩ := Option.ite_none_left_eq_some.mp h
      obtain ⟨-, h⟩ := Option.ite_none_right_eq_some.mp h
      obtain ⟨rfl, rfl, rfl, rfl⟩ := readInt32LE_eq_zero.mp (Option.some.inj h)
      refine ⟨hlen, not_not.mp fun hm => hhead (.inr hm), hcmd, ?_⟩
      rw [hpay]
      simpa using hrest
    · intro h
      have hzero := h.payload
      rw [hpay] at hzero
      simp only [List.forall_mem_cons] at hzero
      obtain ⟨rfl, rfl, rfl, rfl, hrest⟩ := hzero
      unfold fixedControlStatus
      simp only [hpay]
      rw [if_neg (by simp [hlen, h.magic]), if_neg h.command, if_neg (by simpa using hrest),
        if_pos (by simp), readInt32LE_eq_zero.mpr ⟨rfl, rfl, rfl, rfl⟩]
  · constructor
    · intro h
      simp [fixedControlStatus, not_le.mp hlen] at h
    · exact fun h => absurd h.length hlen

-- ---------------------------------------------------------------------------
-- The engine and the frames under way
-- ---------------------------------------------------------------------------

/-- A frame of the NVR, with the command it was sent in answer to. -/
structure Reply where
  frame : Bytes
  answers : Option Command
  deriving DecidableEq

structure Control where
  engine : Engine
  /-- Sent by the NVR, and not yet handled by the engine. -/
  inFlight : List Reply

inductive ControlLabel
  | engine (l : Label)
  | sent (r : Reply)
  | arrives (i : Nat)

namespace Control

def init (now : Int) : Control := ⟨.init now, []⟩

/-- The NVR answers commands that were pushed; the frames arrive in any order. -/
def step (mode : Mode) (s : Control) : ControlLabel → Option Control
  | .engine (.status _) => none
  | .engine l => (s.engine.step mode l).map fun e => { s with engine := e }
  | .sent r =>
    if r.answers.all fun c => .pushed c ∈ s.engine.trace then
      some { s with inFlight := s.inFlight ++ [r] }
    else none
  | .arrives i =>
    match s.inFlight[i]? with
    | some r =>
      match fixedControlStatus r.frame with
      | some status =>
        (s.engine.step mode (.status status)).map fun e =>
          { engine := e, inFlight := s.inFlight.eraseIdx i }
      | none => some { s with inFlight := s.inFlight.eraseIdx i }
    | none => none

variable {mode : Mode} {s t : Control} {l : ControlLabel} {i : Nat} {r : Reply}

-- ---------------------------------------------------------------------------
-- What sets the acknowledgement
-- ---------------------------------------------------------------------------

theorem closeAck_closeLive (e : Engine) : e.closeLive.closeAck = e.closeAck := by
  unfold Engine.closeLive
  simp only
  split <;> rfl

theorem closeAck_maybeStart (e : Engine) : e.maybeStart.closeAck = e.closeAck := by
  unfold Engine.maybeStart
  split <;> rfl

theorem closeAck_onVideo (e : Engine) (sink : Sink) : (e.onVideo sink).closeAck = e.closeAck := by
  unfold Engine.onVideo
  split
  · split <;> rfl
  · rfl
  · rfl

theorem closeAck_handleDevlist (e : Engine) (o : DeviceList) :
    (e.handleDevlist o).closeAck = e.closeAck := by
  unfold Engine.handleDevlist
  split <;> rfl

theorem closeAck_startSequence {e f : Engine} (h : Engine.startSequence mode e = some f) :
    f.closeAck = e.closeAck := by
  unfold Engine.startSequence at h
  split at h
  · split at h <;> (cases h; rfl)
  · obtain ⟨-, rfl⟩ := Option.ite_some_none_eq_some.mp h
    rfl
  · cases h

/-- Only a status sets it. -/
theorem closeAck_step {e f : Engine} {l : Label} (h : e.step mode l = some f)
    (hl : ∀ code, l ≠ .status code) : f.closeAck = e.closeAck := by
  cases Engine.step_stepped h with
  | status => exact absurd rfl (hl _)
  | connected | channelOpen => exact closeAck_maybeStart _
  | sequence _ hq => exact closeAck_startSequence hq
  | video => exact closeAck_onVideo ..
  | deviceList => exact closeAck_handleDevlist ..
  | loopEnds | interruptLoop => exact closeAck_closeLive _
  | _ => rfl

/-- What is acknowledged has been sent. -/
theorem closeSent_of_closeAck {now : Int} {ls : List Label} {e : Engine}
    (h : exec (Engine.step mode) (Engine.init now) ls = some e) (hack : e.closeAck = true) :
    e.closeSent = true := by
  refine Machine.invariant (I := fun e : Engine => e.closeAck = true → e.closeSent = true)
    (fun e l f hi hs hack => ?_) (fun hack => by cases hack) h hack
  cases hold : e.closeAck with
  | true => exact Engine.closeSent_speaks (hi hold) (Engine.step_speaks hs)
  | false =>
    cases l with
    | status code =>
      obtain ⟨-, rfl⟩ := Option.ite_some_none_eq_some.mp hs
      simp only [hold, Bool.false_or, Bool.and_eq_true] at hack
      exact hack.1
    | _ =>
      rw [closeAck_step hs nofun, hold] at hack
      cases hack

/-- A step that sets the acknowledgement is the arrival of a zero status,
after `closeLive`. -/
theorem sets_closeAck (h : s.step mode l = some t) (hs : s.engine.closeAck = false)
    (ht : t.engine.closeAck = true) : ∃ i r, l = .arrives i ∧ s.inFlight[i]? = some r ∧
      ZeroStatus r.frame ∧ s.engine.closeSent = true ∧ s.engine.running = true := by
  have hsame (heq : t.engine.closeAck = s.engine.closeAck) : False := by
    rw [heq, hs] at ht
    cases ht
  cases l with
  | engine l =>
    have hl : ∀ code, l ≠ .status code := by
      rintro code rfl
      cases h
    have h : (s.engine.step mode l).map (fun e => ({ s with engine := e } : Control)) = some t := by
      cases l with
      | status code => cases h
      | _ => exact h
    obtain ⟨e, he, rfl⟩ := Option.map_eq_some_iff.mp h
    exact (hsame (closeAck_step he hl)).elim
  | sent r =>
    obtain ⟨-, rfl⟩ := Option.ite_some_none_eq_some.mp h
    exact (hsame rfl).elim
  | arrives i =>
    simp only [step] at h
    split at h
    · rename_i r hr
      split at h
      · rename_i status hstatus
        obtain ⟨e, he, rfl⟩ := Option.map_eq_some_iff.mp h
        obtain ⟨hrun, rfl⟩ := Option.ite_some_none_eq_some.mp he
        simp only [hs, Bool.false_or, Bool.and_eq_true, beq_iff_eq] at ht
        obtain ⟨hsent, rfl⟩ := ht
        exact ⟨i, r, rfl, hr, fixedControlStatus_eq_zero.mp hstatus, hsent, hrun⟩
      · cases h
        exact (hsame rfl).elim
    · cases h

/-- A zero status that arrives after `closeLive` sets it. -/
theorem arrives_zero (hr : s.inFlight[i]? = some r) (hz : ZeroStatus r.frame)
    (hsent : s.engine.closeSent = true) (hrun : s.engine.running = true) :
    ∃ t, s.step mode (.arrives i) = some t ∧ t.engine.closeAck = true := by
  refine ⟨⟨{ s.engine with closeAck := true }, s.inFlight.eraseIdx i⟩, ?_, rfl⟩
  simp only [step, hr, fixedControlStatus_eq_zero.mpr hz, Engine.step, hrun, hsent]
  simp

-- ---------------------------------------------------------------------------
-- Answers to `closeLive`
-- ---------------------------------------------------------------------------

/-- Where the step sets the acknowledgement, it does so by an answer to `closeLive`. -/
def Answered (s : Control) (l : ControlLabel) (t : Control) : Prop :=
  s.engine.closeAck = false → t.engine.closeAck = true →
    ∃ i r, l = .arrives i ∧ s.inFlight[i]? = some r ∧ r.answers = some .closeLive

/-- While the engine waits for the acknowledgement, every frame under way
that reads as status 0 answers `closeLive`. -/
def Clean (s : Control) : Prop :=
  s.engine.running = true → s.engine.closeSent = true → s.engine.closeAck = false →
    ∀ r ∈ s.inFlight, ZeroStatus r.frame → r.answers = some .closeLive

theorem clean_iff : s.Clean ↔ ∀ l t, s.step mode l = some t → Answered s l t := by
  constructor
  · intro hclean l t h hs ht
    obtain ⟨i, r, hl, hr, hz, hsent, hrun⟩ := sets_closeAck h hs ht
    exact ⟨i, r, hl, hr, hclean hrun hsent hs r (List.mem_of_getElem? hr) hz⟩
  · intro hall hrun hsent hs r hr hz
    obtain ⟨i, hi⟩ := List.mem_iff_getElem?.mp hr
    obtain ⟨t, ht, hack⟩ : ∃ t, s.step mode (.arrives i) = some t ∧ t.engine.closeAck = true :=
      arrives_zero hi hz hsent hrun
    obtain ⟨j, r', hj, hr', hans⟩ := hall _ t ht hs hack
    cases hj
    rw [hi] at hr'
    cases hr'
    exact hans

theorem close_acknowledged {now : Int} {ls : List ControlLabel}
    (h : exec (step mode) (init now) ls = some s) :
    (s.Clean ↔ ∀ l t, s.step mode l = some t → Answered s l t) ∧
      (Machine.Along (step mode) (fun u _ => u.Clean) (init now) ls → s.engine.closeAck = true →
        ∃ pre i post u r, ls = pre ++ .arrives i :: post ∧
          exec (step mode) (init now) pre = some u ∧ u.engine.closeSent = true ∧
            u.inFlight[i]? = some r ∧ r.answers = some .closeLive) := by
  refine ⟨clean_iff, fun hclean hack => ?_⟩
  obtain ⟨pre, l, post, u, v, hls, hu, hnot, hstep, hv, -⟩ :=
    Machine.exists_step (P := fun s => s.engine.closeAck = true) (by simp [init, Engine.init]) hack h
  have hnot := Bool.not_eq_true _ ▸ hnot
  obtain ⟨i, r, rfl, hr, hz, hsent, hrun⟩ := sets_closeAck hstep hnot hv
  refine ⟨pre, i, post, u, r, hls, hu, hsent, hr, ?_⟩
  exact hclean pre _ post u hls hu hrun hsent hnot r (List.mem_of_getElem? hr) hz

/-- A control reply of the NVR with status 0. -/
def zeroReply (command : Command) : Reply where
  frame := [88, 90, 89, 72, 71, 5] ++ List.replicate 14 0
  answers := some command

/-- A live session, up to the reply to `startStream`. -/
def started : List ControlLabel :=
  [.receiving, .answer, .connected, .channelOpen true, .sequence, .tick (milliseconds 150),
    .sequence].map .engine ++ [.sent (zeroReply .startStream)]

instance : Decidable (ZeroStatus r.frame) := decidable_of_iff _ fixedControlStatus_eq_zero

instance : Decidable s.Clean := inferInstanceAs (Decidable (_ → _ → _ → _))

/-- The reply to `startStream` arrives before `closeLive` is pushed. -/
def prompt : List ControlLabel :=
  started ++ [.arrives 0, .engine .loopEnds, .sent (zeroReply .closeLive), .arrives 0]

theorem close_acknowledged_prompt : ∃ s, exec (step ⟨false⟩) (init 0) prompt = some s ∧
    ∃ pre i post u r, prompt = pre ++ .arrives i :: post ∧
      exec (step ⟨false⟩) (init 0) pre = some u ∧ u.engine.closeSent = true ∧
        u.inFlight[i]? = some r ∧ r.answers = some .closeLive := by
  obtain ⟨s, hs, hack⟩ : ∃ s, exec (step ⟨false⟩) (init 0) prompt = some s ∧
      s.engine.closeAck = true := by
    apply Machine.exec_of_check
    decide +kernel
  have hclean : Machine.Along (step ⟨false⟩) (fun u _ => u.Clean) (init 0) prompt :=
    Machine.along_of_check (by decide +kernel)
  exact ⟨s, hs, (close_acknowledged hs).2 hclean hack⟩

/-- The reply to `startStream` is under way when `closeLive` is pushed. It
ends the wait, though the NVR has answered nothing else. -/
theorem close_misread : ∃ s, exec (step ⟨false⟩) (init 0) (started ++ [.engine .loopEnds]) =
    some s ∧ s.inFlight = [zeroReply .startStream] ∧
      ((exec (step ⟨false⟩) s [.arrives 0, .engine .acknowledged]).any fun t =>
        t.engine.closeAck && decide (t.engine.phase = .teardown)) = true := by
  apply Machine.exec_of_check
  decide +kernel

end Control

end EufyNvr.Stream
