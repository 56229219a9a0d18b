import EufyNvr.Basic

/-!
# Progress lines

What `on_frame` logs for the video frames it has written: the first one at
once, and from then on at most one line in five seconds.
-/

namespace EufyNvr.Stream

structure VideoFrame where
  cmdid : Nat
  link : Nat
  payload : Bytes

structure Progress where
  vframes : Nat
  vbytes : Nat
  /-- `state["last_video_log"]` -/
  lastVideoLog : Int
  perfStarted : Int
  deriving DecidableEq

/-- `bytes.hex()` -/
def hexText (bs : Bytes) : String :=
  String.ofList (bs.flatMap fun b => [Nat.digitChar (b.toNat / 16), Nat.digitChar (b.toNat % 16)])

/-- `log`, with the time of day that it prints. -/
def logLine (stamp text : String) : String := "[" ++ stamp ++ "] " ++ text

namespace Progress

def init (perfStarted : Int) : Progress := ⟨0, 0, 0, perfStarted⟩

def firstLine (p : Progress) (f : VideoFrame) : String :=
  s!"VIDEO #{p.vframes} cmd={f.cmdid} link={f.link} payload={f.payload.length} " ++
    s!"nal={hexText (f.payload.take 8)} total={p.vbytes}"

def perfLine (p : Progress) (now : Int) : String :=
  s!"PERF first_video_ms={(now - p.perfStarted).tdiv 1000000}"

def progressLine (p : Progress) : String := s!"VIDEO_PROGRESS frames={p.vframes} bytes={p.vbytes}"

/-- What is logged of a frame that has been written and counted. -/
def texts (now : Int) (f : VideoFrame) (p : Progress) : Progress × List String :=
  if p.vframes = 1 then ({ p with lastVideoLog := now }, [p.firstLine f, p.perfLine now])
  else if seconds 5 ≤ now - p.lastVideoLog then
    ({ p with lastVideoLog := now }, [p.progressLine])
  else (p, [])

def report (stamp : String) (now : Int) (f : VideoFrame) (p : Progress) : Progress × List String :=
  ((p.texts now f).1, (p.texts now f).2.map (logLine stamp))

def count (f : VideoFrame) (p : Progress) : Progress :=
  { p with vframes := p.vframes + 1, vbytes := p.vbytes + (f.payload.drop 22).length }

/-- A video frame that is written, with the lines that are logged for it. -/
def onFrame (stamp : String) (now : Int) (f : VideoFrame) (p : Progress) :
    Progress × List String :=
  report stamp now f (p.count f)

variable {stamp : String} {now : Int} {f : VideoFrame} {p : Progress}

theorem texts_vframes : (p.texts now f).1.vframes = p.vframes := by
  unfold texts
  split
  · rfl
  · split <;> rfl

theorem onFrame_vframes : (p.onFrame stamp now f).1.vframes = p.vframes + 1 := texts_vframes

/-- A frame is logged, or comes within five seconds of one that was. -/
theorem report_cases :
    ((p.report stamp now f).1.lastVideoLog = now ∧ ∃ line lines,
        (p.report stamp now f).2 = line :: lines ∧
          (line = logLine stamp (p.firstLine f) ∨ line = logLine stamp p.progressLine)) ∨
      (p.report stamp now f).1.lastVideoLog = p.lastVideoLog ∧
        (p.report stamp now f).2 = [] ∧ p.vframes ≠ 1 ∧ now - p.lastVideoLog < seconds 5 := by
  unfold report texts
  split
  · exact .inl ⟨rfl, _, _, rfl, .inl rfl⟩
  · split
    · exact .inl ⟨rfl, _, _, rfl, .inr rfl⟩
    · exact .inr ⟨rfl, rfl, ‹_›, not_le.mp ‹_›⟩

end Progress

end EufyNvr.Stream
