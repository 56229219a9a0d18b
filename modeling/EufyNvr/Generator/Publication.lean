import EufyNvr.Generator.Credentials
import EufyNvr.Generator.Distinct
import EufyNvr.Generator.Generate

/-!
# What is published

Two calls of the generator on one registry, with manifests that differ in
the status of cameras only, and whatever channels are disabled: they write
one registry, and each publishes its cameras that are neither offline nor
disabled, under the names of that registry.
-/

namespace EufyNvr.Generator

open Json

variable {m m' : Manifest} {r : Registry} {call call' : Call} {fault fault' : Option Fault}
  {d e : Disk} {named named' : List (Str × Camera)} {cs : List Camera} {station : Str}
  {online : List (Str × Camera)} {username password : Str} {api rtsp webrtc timeout : Int}

-- ---------------------------------------------------------------------------
-- Names do not depend on a status
-- ---------------------------------------------------------------------------

def Camera.forgetStatus (c : Camera) : Camera := { c with status := none }

/-- The manifests differ in the status of cameras only. -/
def Manifest.SameCameras (m m' : Manifest) : Prop :=
  m.station = m'.station ∧ m.cameras.map Camera.forgetStatus = m'.cameras.map Camera.forgetStatus

theorem assignFrom_forgetStatus (station : Str) (cs : List Camera) (r : Registry) :
    assignFrom station (cs.map Camera.forgetStatus) r =
      ((assignFrom station cs r).1.map fun p => (p.1, p.2.forgetStatus),
        (assignFrom station cs r).2) := by
  induction cs generalizing r with
  | nil => rfl
  | cons c cs ih =>
    have hname : assignName station c.forgetStatus r = assignName station c r := rfl
    rw [List.map_cons, assignFrom, hname, ih]
    rfl

theorem Manifest.SameCameras.sorted (h : m.SameCameras m') :
    m.sorted.map Camera.forgetStatus = m'.sorted.map Camera.forgetStatus := by
  have hmap (m : Manifest) : m.sorted.map Camera.forgetStatus =
      (m.cameras.map Camera.forgetStatus).insertionSort fun a b => a.channel ≤ b.channel :=
    List.map_insertionSort _ _ _ _ fun _ _ _ _ => Iff.rfl
  rw [hmap, hmap, h.2]

theorem assignNames_same (h : m.SameCameras m') (r : Registry) :
    (assignNames m r).2 = (assignNames m' r).2 := by
  have hreg (m : Manifest) :
      (assignFrom m.station (m.sorted.map Camera.forgetStatus) r).2 = (assignNames m r).2 := by
    rw [assignFrom_forgetStatus]
    rfl
  rw [← hreg m, ← hreg m', h.sorted, h.1]

/-- The name of a camera in the registry. -/
def Registry.nameOf (r : Registry) (key : Str) : Str := (r.names.get? key).getD []

theorem assignNames_nameOf (m : Manifest) (r : Registry) : (assignNames m r).1 =
    m.sorted.map fun c => ((assignNames m r).2.nameOf (cameraKey m.station c), c) := by
  have hcameras : (assignNames m r).1.map Prod.snd = m.sorted := assignFrom_cameras _ _ _
  rw [← hcameras, List.map_map]
  refine (List.map_id _).symm.trans (List.map_congr_left fun p hp => ?_)
  have hb : (assignNames m r).2.names.get? (cameraKey m.station p.2) = some p.1 :=
    assignNames_bound hp
  simp [Registry.nameOf, hb]

-- ---------------------------------------------------------------------------
-- The streams of a configuration
-- ---------------------------------------------------------------------------

/-- The name of a stream and the command that starts it. -/
def readEntry (line : Str) : Option (Str × Str) :=
  let name := (line.drop 2).takeWhile (· != colon)
  (Yaml.scalar (line.drop (name.length + 4))).map fun command => (name, command)

def configEntries (text : Str) : Option (List (Str × Str)) :=
  (blockLines text (lit "streams:")).mapM readEntry

theorem isUnit_of_printable {s : Str} (h : Printable s) : s.all Yaml.isUnit = true := by
  refine List.all_eq_true.mpr fun c hc => ?_
  have hb := h c hc
  have hchar := isCharacter_of_ascii (c := c) (by simp only [isAscii, decide_eq_true_eq]; omega)
  simp only [Yaml.isUnit, hchar, Bool.true_and, decide_eq_true_eq]
  omega

theorem printable_command (timeout : Int) (channel : Nat) : Printable (command timeout channel) :=
  .append (.append (.append (.append (by decide) (printable_numeral _)) (by decide))
    (printable_intText _)) (by decide)

theorem readEntry_streamLine {p : Str × Camera} (h : isStreamName p.1 = true) :
    readEntry (streamLine timeout p) = some (p.1, command timeout p.2.channel) := by
  have hline : streamLine timeout p =
      (lit "  " ++ p.1 ++ lit ": ") ++ quoted (command timeout p.2.channel) := by
    simp only [streamLine, List.append_assoc]
  have hlen : (lit "  " ++ p.1 ++ lit ": ").length = p.1.length + 4 := by
    simp [lit]
  rw [readEntry, streamLine_name h, hline, List.drop_left' hlen, Yaml.scalar_quoted,
    if_pos (isUnit_of_printable (printable_command _ _))]
  rfl

theorem mapM_readEntry (h : ∀ p ∈ online, isStreamName p.1 = true) :
    (online.map (streamLine timeout)).mapM readEntry =
      some (online.map fun p => (p.1, command timeout p.2.channel)) := by
  induction online with
  | nil => rfl
  | cons p online ih =>
    rw [List.map_cons, List.mapM_cons, readEntry_streamLine (h p (by simp)),
      ih fun q hq => h q (by simp [hq])]
    rfl

theorem configEntries_configLines (h : ∀ p ∈ online, isStreamName p.1 = true) :
    configEntries ([10].intercalate
      (configLines online username password api rtsp webrtc timeout)) =
        some (online.map fun p => (p.1, command timeout p.2.channel)) := by
  rw [configEntries, blockLines_streams h, mapM_readEntry h]

-- ---------------------------------------------------------------------------
-- What a call publishes
-- ---------------------------------------------------------------------------

/-- Neither offline nor disabled. -/
def Call.publishes (call : Call) (c : Camera) : Bool :=
  c.isOnline && decide ((c.channel : Nat) ∉ call.disabledChannels)

/-- What a call has written and returned: the registry that names every
camera of the manifest, and a stream for each camera to be published, with
the name from the registry and the channel of the camera. -/
structure Published (call : Call) (m : Manifest) (r : Registry) (o : Outcome) : Prop where
  registry : o.disk.registry = some (registryText r)
  bound : ∀ c ∈ m.cameras, r.Bound (cameraKey m.station c) (r.nameOf (cameraKey m.station c))
  distinct : (m.sorted.map fun c => r.nameOf (cameraKey m.station c)).Nodup
  config : ∃ text, o.disk.config = some text ∧ configEntries text =
    some ((m.sorted.filter call.publishes).map fun c =>
      (r.nameOf (cameraKey m.station c), command call.startTimeout c.channel))
  result : o.result = .ok ((m.sorted.filter fun c => (c.channel : Nat) ∉ call.disabledChannels).map
    fun c => (r.nameOf (cameraKey m.station c), c))

theorem unpaired_of_read (h : call.readManifest = .ok m)
    (ht : ∀ text ∈ call.manifest, Characters text) : m.Unpaired := by
  obtain ⟨v, hv, hm⟩ := bind_ok.mp h
  obtain ⟨text, htext, hparse⟩ := bind_ok.mp hv
  have htext : call.manifest = some text := by
    cases hc : call.manifest with
    | none =>
      rw [hc] at htext
      cases htext
    | some t =>
      rw [hc] at htext
      cases htext
      rfl
  have hloads : loads text = some v := by
    cases hl : loads text with
    | none =>
      rw [parse, hl] at hparse
      cases hparse
    | some w =>
      rw [parse, hl] at hparse
      cases hparse
      rfl
  intro c hc s hs
  exact loads_unpaired hloads (ht text htext) s
    (validateManifest_serial hm c hc s (Option.mem_filter_iff.mp hs).1)

theorem published (h : (generate call fault d).result = .ok named)
    (hm : call.readManifest = .ok m) (ht : ∀ text ∈ call.manifest, Characters text) :
    ∃ previous, readRegistry d.registry = .ok previous ∧
      Published call m (assignNames m previous).2 (generate call fault d) := by
  obtain ⟨p, hp, rfl, hdisk⟩ := generate_ok h
  obtain ⟨m', previous, hm', hread, henabled, hregistry, hnames, hconfig⟩ := prepare_ok hp
  rw [hm] at hm'
  cases hm'
  have hnamed := assignNames_nameOf m previous
  refine ⟨previous, hread, by rw [hdisk, hregistry], fun c hc => ?_, ?_,
    ⟨p.config, by rw [hdisk], ?_⟩, ?_⟩
  · have hmem : ((assignNames m previous).2.nameOf (cameraKey m.station c), c) ∈
        (assignNames m previous).1 := by
      rw [hnamed]
      exact List.mem_map.mpr ⟨c, m.sorted_perm.mem_iff.mpr hc, rfl⟩
    exact assignNames_bound hmem
  · have hn := names_nodup (r := previous) (unpaired_of_read hm ht)
    rwa [hnamed, List.map_map] at hn
  · rw [hconfig, configEntries_configLines fun q hq => hnames q (List.mem_filter.mp hq).1, henabled,
      hnamed, List.filter_filter, List.filter_map, List.map_map]
    rfl
  · rw [h, henabled, hnamed, List.filter_map]
    rfl

/-- Two calls on one registry. The manifests are texts of characters, as they
are read from files. -/
theorem identities_kept (hd : d.registry = e.registry)
    (ha : (generate call fault d).result = .ok named)
    (hb : (generate call' fault' e).result = .ok named')
    (hm : call.readManifest = .ok m) (hm' : call'.readManifest = .ok m') (hsame : m.SameCameras m')
    (ht : ∀ text ∈ call.manifest, Characters text)
    (ht' : ∀ text ∈ call'.manifest, Characters text) :
    (generate call fault d).disk.registry = (generate call' fault' e).disk.registry ∧
    ∃ r, Published call m r (generate call fault d) ∧
      Published call' m' r (generate call' fault' e) ∧
      (m.sorted.map fun c => (c.forgetStatus, r.nameOf (cameraKey m.station c))) =
        m'.sorted.map fun c => (c.forgetStatus, r.nameOf (cameraKey m'.station c)) := by
  obtain ⟨previous, hread, hpub⟩ := published ha hm ht
  obtain ⟨previous', hread', hpub'⟩ := published hb hm' ht'
  rw [← hd, hread] at hread'
  cases hread'
  rw [← assignNames_same hsame previous] at hpub'
  refine ⟨hpub.registry.trans hpub'.registry.symm, _, hpub, hpub', ?_⟩
  -- A name goes by the key, and no status is part of a key.
  have hforget (m : Manifest) (r : Registry) :
      (m.sorted.map fun c => (c.forgetStatus, r.nameOf (cameraKey m.station c))) =
        (m.sorted.map Camera.forgetStatus).map fun c => (c, r.nameOf (cameraKey m.station c)) := by
    rw [List.map_map]
    rfl
  rw [hforget, hforget, hsame.sorted, hsame.1]

/-- Two cameras, the second with a status. -/
def twoCall (status : String) (disabledChannels : List Nat) : Call where
  differentPaths := true
  manifest := some (lit "\x7b\"cameras\":[\x7b\"channel\":3,\"sn\":\"A\"\x7d," ++
    lit "\x7b\"channel\":1,\"status\":" ++ lit status ++ lit "\x7d]\x7d")
  username := lit "eufy"
  password := lit "0123456789abcdef"
  apiPort := 1984
  rtspPort := 8554
  webrtcPort := 8555
  startTimeout := 90
  disabledChannels

/-- One call finds the second camera offline, the other has it disabled. -/
theorem identities_kept_offline :
    (generate (twoCall "0" []) none ⟨none, none⟩).disk.registry =
      (generate (twoCall "\"1\"" [1]) none ⟨none, none⟩).disk.registry ∧
    (generate (twoCall "0" []) none ⟨none, none⟩).disk.config.map configEntries =
      some (some [(lit "eufy_ch3", command 90 3)]) := by
  have hok (call : Call) (h : (generate call none ⟨none, none⟩).result.toOption.isSome = true) :
      ∃ named, (generate call none ⟨none, none⟩).result = .ok named := by
    obtain ⟨named, hn⟩ := Option.isSome_iff_exists.mp h
    exact ⟨named, ok_of_toOption hn⟩
  obtain ⟨named, ha⟩ := hok (twoCall "0" []) (by decide +kernel)
  obtain ⟨named', hb⟩ := hok (twoCall "\"1\"" [1]) (by decide +kernel)
  have hsame : ((twoCall "0" []).readManifest.toOption.any fun m =>
      (twoCall "\"1\"" [1]).readManifest.toOption.any fun m' =>
        decide (m.station = m'.station ∧
          m.cameras.map Camera.forgetStatus = m'.cameras.map Camera.forgetStatus)) = true := by
    decide +kernel
  obtain ⟨m, hm, hsame⟩ := (Option.any_eq_true _ _).mp hsame
  obtain ⟨m', hm', hsame⟩ := (Option.any_eq_true _ _).mp hsame
  rw [decide_eq_true_eq] at hsame
  have hkept := identities_kept (d := ⟨none, none⟩) (e := ⟨none, none⟩) rfl ha hb
    (ok_of_toOption hm) (ok_of_toOption hm') hsame
    (by simp only [twoCall, Option.mem_some_iff, forall_eq']; decide +kernel)
    (by simp only [twoCall, Option.mem_some_iff, forall_eq']; decide +kernel)
  exact ⟨hkept.1, by decide +kernel⟩

end EufyNvr.Generator
