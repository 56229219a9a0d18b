import EufyNvr.Discovery.Manifest
import EufyNvr.Lib.Partition
import EufyNvr.Stream.Arguments
import EufyNvr.Stream.Commands

/-!
# From the device list to the cameras' video

The NVR says which cameras there are; the engine writes the manifest, the
generator the configuration, go2rtc starts the supervisor of a stream, which
starts an engine, which asks the NVR for video. Whatever the cameras are, the
engine of a stream asks for the camera that the stream is named for.
-/

namespace EufyNvr.Discovery

open Json
open EufyNvr.Stream (Digits noDigits Command readArguments readMessage engineArgv isDiscovery gateLabel
  replyText cameras onFrame)
open EufyNvr.Generator (Call Registry Disk command cameraKey configEntries generate)

variable {launch : Str → Str → Option (List Str)} {D : Digits} {engine url : Str} {userId : Json}
  {timeout : Int} {channel : Nat}

-- ---------------------------------------------------------------------------
-- go2rtc
-- ---------------------------------------------------------------------------

abbrev hash : Nat := 35

/-- Nothing that separates, quotes or escapes words, or ends the command. -/
def isWordChar (c : Nat) : Bool := decide (33 ≤ c ∧ c ≤ 126) && !(lit "\"'\\#").contains c

def Word (w : Str) : Prop := w ≠ [] ∧ ∀ c ∈ w, isWordChar c = true

instance (w : Str) : Decidable (Word w) := inferInstanceAs (Decidable (_ ∧ ∀ c ∈ w, _))

def output : Str := lit "\x7boutput\x7d"

/-- How go2rtc starts an `exec` source: the words before the options, with
the URL that it listens at for `{output}`. -/
structure Launches (launch : Str → Str → Option (List Str)) : Prop where
  exec : ∀ (ws : List Str) (options url : Str), ws ≠ [] → (∀ w ∈ ws, Word w) → Word url →
    launch (lit "exec:" ++ ([32].intercalate ws ++ hash :: options)) url =
      some (ws.map fun w => if w = output then url else w)

def commandWords (channel : Nat) : List Str :=
  [lit "python", lit "eufy_run.py", numeral channel, lit "--rtsp", output]

theorem command_words (timeout : Int) (channel : Nat) : command timeout channel =
    lit "exec:" ++ ([32].intercalate (commandWords channel) ++ hash ::
      (lit "starttimeout=" ++ intText timeout ++ lit "#killsignal=2#killtimeout=5")) := by
  simp only [command, commandWords, List.intercalate, List.intersperse, List.flatten_cons,
    List.flatten_nil, List.append_assoc, List.append_nil]
  rfl

theorem word_numeral (n : Nat) : Word (numeral n) := by
  refine ⟨Stream.numeral_ne_nil n, fun c hc => ?_⟩
  have hdigit := isDigit_numeral hc
  simp only [isDigit, decide_eq_true_eq] at hdigit
  simp [isWordChar, lit]
  omega

theorem commandWords_words (channel : Nat) : ∀ w ∈ commandWords channel, Word w := by
  have hfixed : ∀ w ∈ [lit "python", lit "eufy_run.py", lit "--rtsp", output], Word w := by decide
  intro w hw
  by_cases hn : w = numeral channel
  · exact hn ▸ word_numeral channel
  · refine hfixed w ?_
    simpa [commandWords, hn] using hw

theorem numeral_ne_output (n : Nat) : numeral n ≠ output := fun h =>
  Stream.not_mem_numeral (n := n) (c := lbrace) rfl (h ▸ by decide)

-- ---------------------------------------------------------------------------
-- The processes of a stream
-- ---------------------------------------------------------------------------

/-- The command starts a supervisor of a live session, and that an engine
which publishes at the URL and speaks to the NVR of this channel alone. -/
structure Starts (launch : Str → Str → Option (List Str)) (D : Digits) (engine : Str)
    (userId : Json) (source : Str) (channel : Nat) (url : Str) (stdout : Bool) : Prop where
  runs : ∃ argv a, launch source url = some (lit "python" :: argv) ∧ isDiscovery argv = false ∧
    gateLabel argv = some (lit "channel " ++ numeral channel) ∧
    readArguments D stdout (engineArgv engine argv) = some a ∧ a.discover = false ∧
    a.streamMode = true ∧ a.rtspUrl = some url ∧
    ∀ (c : Command) (frame : Bytes), c.bytes userId a.channels = some frame →
      readMessage frame = some (c.message userId [(channel : Int)])

theorem starts_command (hlaunch : Launches launch) (hchannel : channel < 256) (hu : Sound userId)
    (hengine : engine ≠ lit "--rtsp" ∧ engine ≠ lit "--discover") (hurl : Word url)
    (hdiscover : url ≠ lit "--discover") (stdout : Bool) :
    Starts launch D engine userId (command timeout channel) channel url stdout := by
  have hsmall : Sound (.int channel) := Stream.sound_int (by simp only [Int.natAbs_natCast]; omega)
  have hdigits : (numeral channel).length ≤ 4300 := hsmall
  have hnumeral : numeral channel ≠ lit "--discover" := fun h =>
    Stream.not_mem_numeral (n := channel) (c := minus) rfl (h ▸ by decide)
  have hhead : (numeral channel).head? ≠ some minus := fun h =>
    Stream.not_mem_numeral (n := channel) (c := minus) rfl (List.mem_of_head? h)
  have hmap : (commandWords channel).map (fun w => if w = output then url else w) =
      [lit "python", lit "eufy_run.py", numeral channel, lit "--rtsp", url] := by
    simp only [commandWords, List.map_cons, List.map_nil, if_neg (numeral_ne_output channel)]
    rfl
  refine ⟨[lit "eufy_run.py", numeral channel, lit "--rtsp", url], _, ?_, ?_, ?_,
    Stream.readArguments_stream D stdout hdigits hengine ⟨hurl.1, hdiscover⟩, rfl, rfl, rfl,
    fun c frame h => ?_⟩
  · rw [command_words, hlaunch.exec _ _ _ (by simp [commandWords]) (commandWords_words channel) hurl,
      hmap]
  · have hne : lit "--discover" ≠ lit "--rtsp" := by decide
    simp [isDiscovery, hnumeral.symm, hdiscover.symm, hne]
  · simp [gateLabel, hhead]
  · refine Stream.readMessage_command hu (fun c hc => ?_) h
    obtain rfl := List.mem_singleton.mp hc
    exact hsmall

-- ---------------------------------------------------------------------------
-- From the reply to the streams
-- ---------------------------------------------------------------------------

section

variable {I : Interpreter} {k : Stream.Constants} {e : Stream.Surroundings} {s : Stream.FrameState}
  {link : Nat} {buf : Bytes} {v : Json} {call : Call} {fault : Option Generator.Fault} {d : Disk}
  {named : List (Str × Generator.Camera)}

theorem sound_reply {text : Str} {reply : Json} (h : I.parse text = .ok reply)
    (ht : Characters text) : Sound reply := by
  unfold Interpreter.parse at h
  split at h
  · cases h
  · cases hloads : loads text with
    | none =>
      rw [hloads] at h
      cases h
    | some v =>
      rw [hloads] at h
      cases h
      exact sound_of_loads hloads ht

/-- The generator reads the file that the engine has written, and each of its
cameras is a device of the reply. -/
theorem devices_read (hframe : (onFrame I k e s link buf).manifest = some v)
    (hk : Sound k.stationSn) (hip : ∀ ip ∈ s.nvrIp, Unpaired ip)
    (hmanifest : call.manifest = some (manifestText v)) {m : Generator.Manifest}
    (hm : call.readManifest = .ok m) :
    (∃ reply cams, I.parse (replyText buf) = .ok reply ∧ cameras reply = .ok cams ∧
      List.Forall₂ Describes cams m.cameras) ∧ ∀ text ∈ call.manifest, Characters text := by
  obtain ⟨reply, cams, hparse, hcams, rfl⟩ := manifest_of_onFrame hframe
  have hsound := sound_cameras
    (sound_reply hparse (Utf8.characters_decodeReplace _)) hcams
  have hloads := loads_manifestText hk hip hsound
  rw [Call.readManifest, hmanifest] at hm
  obtain ⟨value, hvalue, hm⟩ := bind_ok.mp hm
  obtain ⟨text, htext, hvalue⟩ := bind_ok.mp hvalue
  rw [Option.elim_some, Except.ok.injEq] at htext
  rw [← htext, Generator.parse, hloads, Option.elim_some, Except.ok.injEq] at hvalue
  rw [← hvalue] at hm
  refine ⟨⟨reply, cams, hparse, hcams, (describes_of_validate hm).1⟩, fun text ht => ?_⟩
  rw [hmanifest, Option.mem_some_iff] at ht
  rw [← ht]
  exact .of_ascii (ascii_dump _ 0 (sound_manifest hk hip hsound))

/-- What the NVR lists, the call has published: one stream for each camera
that is neither offline nor disabled, under its name in the registry. The
command of a stream starts an engine that asks the NVR for this camera. -/
def Delivered (I : Interpreter) (launch : Str → Str → Option (List Str)) (D : Digits) (engine : Str)
    (userId : Json) (buf : Bytes) (call : Call) (o : Generator.Outcome) : Prop :=
  ∃ reply cams, ∃ m : Generator.Manifest, ∃ r : Registry, ∃ text entries,
    I.parse (replyText buf) = .ok reply ∧ cameras reply = .ok cams ∧
    List.Forall₂ Describes cams m.cameras ∧
    o.disk = ⟨some (Generator.registryText r), some text⟩ ∧
    configEntries text = some entries ∧ (entries.map Prod.fst).Nodup ∧
    List.Forall₂ (fun c entry => r.Bound (cameraKey m.station c) entry.1 ∧
        ∀ url stdout, Word url → url ≠ lit "--discover" →
          Starts launch D engine userId entry.2 c.channel url stdout)
      (m.sorted.filter call.publishes) entries

/-- Where the engine has written a manifest from a frame, and the generator
accepts it. -/
theorem devices_delivered (hframe : (onFrame I k e s link buf).manifest = some v)
    (hk : Sound k.stationSn) (hip : ∀ ip ∈ s.nvrIp, Unpaired ip)
    (hmanifest : call.manifest = some (manifestText v))
    (hgenerate : (generate call fault d).result = .ok named) (hlaunch : Launches launch)
    (hu : Sound userId) (hengine : engine ≠ lit "--rtsp" ∧ engine ≠ lit "--discover") :
    Delivered I launch D engine userId buf call (generate call fault d) := by
  obtain ⟨p, hp, -, -⟩ := Generator.generate_ok hgenerate
  obtain ⟨m, -, hm, -⟩ := Generator.prepare_ok hp
  obtain ⟨⟨reply, cams, hparse, hcams, hdescribes⟩, htext⟩ :=
    devices_read hframe hk hip hmanifest hm
  obtain ⟨previous, -, hpublished⟩ := Generator.published hgenerate hm htext
  obtain ⟨text, hconfig, hentries⟩ := hpublished.config
  refine ⟨reply, cams, m, (Generator.assignNames m previous).2, text, _, hparse, hcams, hdescribes,
    ?_, hentries, ?_, ?_⟩
  · rw [← hpublished.registry, ← hconfig]
  · rw [List.map_map]
    exact hpublished.distinct.sublist (List.filter_sublist.map _)
  · refine List.forall₂_map_right_iff.mpr (List.forall₂_same.mpr fun c hc => ⟨?_, ?_⟩)
    · exact hpublished.bound c (m.sorted_perm.mem_iff.mp (List.mem_filter.mp hc).1)
    · exact fun url stdout hurl hdiscover =>
        starts_command hlaunch c.channel.isLt hu hengine hurl hdiscover stdout

end

-- ---------------------------------------------------------------------------
-- A launcher
-- ---------------------------------------------------------------------------

/-- The words of a source before its options. -/
def launchWords (source url : Str) : Option (List Str) :=
  if (lit "exec:").isPrefixOf source then
    some ((((source.drop 5).takeWhile (· != hash)).splitOn 32).map fun w =>
      if w = output then url else w)
  else none

theorem launchWords_launches : Launches launchWords where
  exec ws options url hne hws _ := by
    have hchar {c : Nat} (h : isWordChar c = true) : c ≠ 32 ∧ c ≠ hash := by
      constructor <;> rintro rfl <;> cases h
    have hspace : ∀ w ∈ ws, 32 ∉ w := fun w hw hm => (hchar ((hws w hw).2 _ hm)).1 rfl
    have hhash : ∀ c ∈ [32].intercalate ws, (c != hash) = true := fun c hc => by
      rw [bne_iff_ne]
      rcases mem_intercalate hc with rfl | ⟨w, hw, hm⟩
      · decide
      · exact (hchar ((hws w hw).2 c hm)).2
    have hprefix : (lit "exec:").isPrefixOf
        (lit "exec:" ++ ([32].intercalate ws ++ hash :: options)) = true :=
      List.isPrefixOf_iff_prefix.mpr (List.prefix_append _ _)
    have hdrop : (lit "exec:" ++ ([32].intercalate ws ++ hash :: options)).drop 5 =
        [32].intercalate ws ++ hash :: options := rfl
    rw [launchWords, if_pos hprefix, hdrop, List.takeWhile_append_of_pos hhash,
      List.takeWhile_cons_of_neg (by simp), List.append_nil, List.splitOn_intercalate 32 hspace hne]

/-- Two devices, of which one is offline. -/
def doorFrame : Bytes :=
  (lit "\x7b\"payload\":\x7b\"dev_list\":[\x7b\"ch\":2,\"name\":\"Door\",\"sn\":\"B\"\x7d," ++
    lit "\x7b\"ch\":0,\"status\":0\x7d]\x7d\x7d").map UInt8.ofNat

/-- What the engine makes of the frame. -/
def doorManifest : Option Json :=
  (onFrame .plain ⟨true, .str (lit "NVR"), []⟩ ⟨0, none, none⟩ ⟨0, .init 0, 0, none, none, false⟩ 0
    doorFrame).manifest

def doorCall : Call where
  differentPaths := true
  manifest := doorManifest.map manifestText
  username := lit "eufy"
  password := lit "0123456789abcdef"
  apiPort := 1984
  rtspPort := 8554
  webrtcPort := 8555
  startTimeout := 90
  disabledChannels := []

theorem devices_delivered_door :
    Delivered .plain launchWords noDigits (lit "eufy_stream.py") (.str (lit "user")) doorFrame
      doorCall (generate doorCall none ⟨none, none⟩) ∧
    (generate doorCall none ⟨none, none⟩).disk.config.map configEntries =
      some (some [(lit "eufy_door", command 90 2)]) := by
  have hsound (s : Str) (h : Printable s) : Sound (.str s) := Unpaired.of_printable h
  obtain ⟨v, hv⟩ : ∃ v, doorManifest = some v := Option.isSome_iff_exists.mp (by decide +kernel)
  obtain ⟨named, hnamed⟩ : ∃ named, (generate doorCall none ⟨none, none⟩).result.toOption =
    some named := Option.isSome_iff_exists.mp (by decide +kernel)
  have hmanifest : doorCall.manifest = some (manifestText v) := by
    simp only [doorCall, hv, Option.map_some]
  unfold doorManifest at hv
  exact ⟨devices_delivered hv (hsound _ (by decide)) nofun hmanifest
    (ok_of_toOption hnamed) launchWords_launches (hsound _ (by decide)) (by decide),
    by decide +kernel⟩

end EufyNvr.Discovery
