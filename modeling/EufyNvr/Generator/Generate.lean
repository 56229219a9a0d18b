import EufyNvr.Generator.Config

/-!
# One call of the generator

`generate` of `gen_go2rtc.py` on the two files it writes. A call may end at
any point, by an exception or with its process; `atomic_write` replaces a
file as a whole or not at all.
-/

namespace EufyNvr.Generator

open Json

structure Disk where
  registry : Option Str
  config : Option Str
  deriving DecidableEq

inductive File
  | registry
  | config
  deriving DecidableEq

/-- Where a call ends although what it was given is in order. -/
inductive Fault
  | reading
  | validating
  | naming
  | rendering
  | registryWrite
  | between
  | configWrite
  deriving DecidableEq

/-- What a call is given, and the text of the manifest at that time. -/
structure Call where
  differentPaths : Bool
  manifest : Option Str
  username : Str
  password : Str
  apiPort : Int
  rtspPort : Int
  webrtcPort : Int
  startTimeout : Int
  disabledChannels : List Nat

structure Prepared where
  enabled : List (Str × Camera)
  config : Str
  registry : Str

structure Outcome where
  disk : Disk
  /-- The files that the call has replaced. -/
  written : List File
  result : Checked (List (Str × Camera))

def parse (text : Str) : Checked Json := (loads text).elim (.error .notJson) .ok

def readRegistry (text : Option Str) : Checked Registry :=
  match text with
  | some text => parse text >>= validateRegistry
  | none => .ok .empty

/-- What `generate` does before it writes. -/
def prepare (call : Call) (disk : Disk) : Checked Prepared := do
  if ¬ call.differentPaths then
    reject "manifest, config and stream registry must be different files"
  else
    let text ← call.manifest.elim (.error .missing) .ok
    let value ← parse text
    let manifest ← validateManifest value
    let previous ← readRegistry disk.registry
    let named := (assignNames manifest previous).1
    let names := (assignNames manifest previous).2
    let enabled := named.filter fun p => (p.2.channel : Nat) ∉ call.disabledChannels
    let config ← renderConfig enabled call.username call.password call.apiPort call.rtspPort
      call.webrtcPort call.startTimeout
    return { enabled, config, registry := registryText names }

def Disk.replace (d : Disk) : File → Str → Disk
  | .registry, text => { d with registry := some text }
  | .config, text => { d with config := some text }

/-- `os.replace` in `atomic_write`. -/
def Outcome.replace (o : Outcome) (file : File) (text : Str) : Outcome :=
  { o with disk := o.disk.replace file text, written := o.written ++ [file] }

def generate (call : Call) (fault : Option Fault) (disk : Disk) : Outcome :=
  let start : Outcome := ⟨disk, [], .error .fault⟩
  match prepare call disk with
  | .error e => { start with result := .error e }
  | .ok p =>
    match fault with
    | none =>
      { (start.replace .registry p.registry).replace .config p.config with result := .ok p.enabled }
    | some .between | some .configWrite => start.replace .registry p.registry
    | some _ => start

/-- A sequence of calls. -/
def step (disk : Disk) (l : Call × Option Fault) : Option Disk := some (generate l.1 l.2 disk).disk

/-- The files that the calls of a sequence have replaced, in order. -/
def writtenBy : Disk → List (Call × Option Fault) → List File
  | _, [] => []
  | disk, l :: ls =>
    (generate l.1 l.2 disk).written ++ writtenBy (generate l.1 l.2 disk).disk ls

/-- The registry on disk binds the key to the name. -/
def Disk.Bound (d : Disk) (key name : Str) : Prop :=
  ∃ text r, d.registry = some text ∧ readRegistry (some text) = .ok r ∧ r.Bound key name

-- ---------------------------------------------------------------------------
-- What a call does
-- ---------------------------------------------------------------------------

/-- The outcomes of a call: nothing is written, only the registry is, or both
files are. -/
theorem generate_cases (call : Call) (fault : Option Fault) (disk : Disk) :
    ((generate call fault disk).disk = disk ∧ (generate call fault disk).written = []) ∨
    ∃ p, prepare call disk = .ok p ∧
      ((generate call fault disk).disk = disk.replace .registry p.registry ∧
        (generate call fault disk).written = [.registry] ∨
      (generate call fault disk).disk =
        (disk.replace .registry p.registry).replace .config p.config ∧
        (generate call fault disk).written = [.registry, .config]) := by
  unfold generate
  split
  · exact .inl ⟨rfl, rfl⟩
  · rename_i p hp
    refine (?_ : _ ∨ _ ∨ _).imp id fun h => ⟨p, hp, h⟩
    rcases fault with _ | f
    · exact .inr (.inr ⟨rfl, rfl⟩)
    · cases f with
      | between | configWrite => exact .inr (.inl ⟨rfl, rfl⟩)
      | _ => exact .inl ⟨rfl, rfl⟩

/-- A call that has replaced no file has changed neither. -/
theorem generate_unwritten {call : Call} {fault : Option Fault} {disk : Disk}
    (h : (generate call fault disk).written = []) : (generate call fault disk).disk = disk := by
  rcases generate_cases call fault disk with ⟨hdisk, -⟩ | ⟨p, -, ⟨-, hw⟩ | ⟨-, hw⟩⟩
  · exact hdisk
  · rw [hw] at h
    cases h
  · rw [hw] at h
    cases h

theorem generate_ok {call : Call} {fault : Option Fault} {disk : Disk} {named : List (Str × Camera)}
    (h : (generate call fault disk).result = .ok named) : ∃ p, prepare call disk = .ok p ∧
      p.enabled = named ∧ (generate call fault disk).disk = ⟨some p.registry, some p.config⟩ := by
  unfold generate at h ⊢
  split at h
  · cases h
  · rename_i p hp
    rcases fault with _ | f
    · cases h
      exact ⟨p, hp, rfl, rfl⟩
    · cases f <;> cases h

/-- The manifest as `generate` reads it. -/
def Call.readManifest (call : Call) : Checked Manifest :=
  call.manifest.elim (.error .missing) .ok >>= parse >>= validateManifest

/-- What is prepared comes from one manifest and the registry on disk. -/
theorem prepare_ok {call : Call} {disk : Disk} {p : Prepared} (h : prepare call disk = .ok p) :
    ∃ m previous, call.readManifest = .ok m ∧ readRegistry disk.registry = .ok previous ∧
      p.enabled = (assignNames m previous).1.filter
        (fun q => (q.2.channel : Nat) ∉ call.disabledChannels) ∧
      p.registry = registryText (assignNames m previous).2 ∧
      (∀ q ∈ p.enabled, isStreamName q.1 = true) ∧
      p.config = [10].intercalate (configLines (p.enabled.filter fun q => q.2.isOnline)
        call.username call.password call.apiPort call.rtspPort call.webrtcPort
        call.startTimeout) := by
  unfold prepare at h
  split at h
  · cases h
  · obtain ⟨text, htext, h⟩ := bind_ok.mp h
    obtain ⟨value, hvalue, h⟩ := bind_ok.mp h
    obtain ⟨m, hm, h⟩ := bind_ok.mp h
    obtain ⟨previous, hprev, h⟩ := bind_ok.mp h
    obtain ⟨config, hconfig, h⟩ := bind_ok.mp h
    cases h
    have hread : call.readManifest = .ok m := by
      rw [Call.readManifest, htext]
      exact (congrArg (· >>= validateManifest) hvalue).trans hm
    refine ⟨m, previous, hread, hprev, rfl, rfl, fun q hq => ?_, renderConfig_ok hconfig⟩
    have hb := assignNames_bound (List.mem_filter.mp hq).1
    exact (assignNames m previous).2.named _ (Dict.get?_eq_some.mp hb)

theorem prepare_streams {call : Call} {disk : Disk} {p : Prepared} (h : prepare call disk = .ok p) :
    configStreams p.config = (p.enabled.filter fun q => q.2.isOnline).map Prod.fst := by
  obtain ⟨m, previous, -, -, -, -, hnames, hconfig⟩ := prepare_ok h
  rw [hconfig]
  exact configStreams_configLines fun q hq => hnames q (List.mem_filter.mp hq).1

end EufyNvr.Generator
