import EufyNvr.Generator.Publication
import EufyNvr.Stream.Reader

/-!
# From a device list to the manifest

`handle_devlist` writes what the NVR says of its cameras, and
`validate_manifest` reads it in another process. Where the generator accepts
the file, each of its cameras is the device of the reply.
-/

namespace EufyNvr.Discovery

open Json
open EufyNvr.Stream (Camera.toJson cameras camera member manifest handleDevlist onFrame replyText)
open EufyNvr.Generator (readChannel readText readStatus readCamera readCameras validateManifest
  Manifest)

variable {I : Interpreter} {k : Stream.Constants} {e : Stream.Surroundings} {s : Stream.FrameState}
  {link : Nat} {buf : Bytes} {v reply : Json} {cam : Stream.Camera} {cams : List Stream.Camera}
  {c : Generator.Camera} {cs : List Generator.Camera} {m : Manifest} {ms : List (Str × Json)}

/-- `json.dump(manifest, fh, indent=2)` -/
def manifestText (v : Json) : Str := dumps (indented 2) v

-- ---------------------------------------------------------------------------
-- What a camera of the manifest is
-- ---------------------------------------------------------------------------

def IsText (v : Json) : Option Str → Prop
  | none => v = .null
  | some s => v = .str s

def IsStatus (v : Json) : Option (Fin 2) → Prop
  | none => v = .null
  | some n => v = .int n ∨ v = .str (numeral n)

/-- What the NVR says of the device is what the generator takes it for. -/
structure Describes (cam : Stream.Camera) (c : Generator.Camera) : Prop where
  channel : cam.channel = .int c.channel
  name : IsText cam.name c.name
  serial : IsText cam.sn c.serial
  status : IsStatus cam.status c.status

theorem readChannel_ok {n : Fin 256} (h : readChannel (some v) = .ok n) : v = .int n := by
  cases v with
  | int i =>
    unfold readChannel at h
    dsimp only at h
    split at h
    · rename_i hi
      cases h
      rw [Int.toNat_of_nonneg hi.1]
    · cases h
  | _ => cases h

theorem readText_ok {message : String} {t : Option Str} (h : readText (some v) message = .ok t) :
    IsText v t := by
  cases v with
  | null | str => cases h; rfl
  | _ => cases h

theorem readStatus_ok {t : Option (Fin 2)} (h : readStatus (some v) = .ok t) : IsStatus v t := by
  cases v with
  | null => cases h; rfl
  | int n =>
    unfold readStatus at h
    dsimp only at h
    split at h
    · rename_i hn
      cases h
      exact .inl (congrArg _ hn)
    · split at h
      · rename_i hn
        cases h
        exact .inl (congrArg _ hn)
      · cases h
  | str s =>
    unfold readStatus at h
    dsimp only at h
    split at h
    · rename_i hs
      cases h
      exact .inr (congrArg _ hs)
    · split at h
      · rename_i hs
        cases h
        exact .inr (congrArg _ hs)
      · cases h
  | _ => cases h

theorem describes_of_readCamera {channels : List (Fin 256)} {serials : List Str}
    (h : readCamera cam.toJson channels serials = .ok c) : Describes cam c := by
  have hfields : get? [(lit "channel", cam.channel), (lit "name", cam.name), (lit "sn", cam.sn),
        (lit "status", cam.status), (lit "dev_type", cam.devType)] (lit "channel") =
          some cam.channel ∧
      get? [(lit "channel", cam.channel), (lit "name", cam.name), (lit "sn", cam.sn),
        (lit "status", cam.status), (lit "dev_type", cam.devType)] (lit "name") = some cam.name ∧
      get? [(lit "channel", cam.channel), (lit "name", cam.name), (lit "sn", cam.sn),
        (lit "status", cam.status), (lit "dev_type", cam.devType)] (lit "sn") = some cam.sn ∧
      get? [(lit "channel", cam.channel), (lit "name", cam.name), (lit "sn", cam.sn),
        (lit "status", cam.status), (lit "dev_type", cam.devType)] (lit "status") =
          some cam.status := ⟨rfl, rfl, rfl, rfl⟩
  rw [Camera.toJson, readCamera] at h
  obtain ⟨hchannel, hname, hserial, hstatus⟩ := hfields
  rw [hchannel, hname, hserial, hstatus] at h
  obtain ⟨channel, hc, h⟩ := bind_ok.mp h
  split at h
  · cases h
  · obtain ⟨name, hn, h⟩ := bind_ok.mp h
    obtain ⟨serial, hs, h⟩ := bind_ok.mp h
    split at h
    · cases h
    · obtain ⟨status, ht, h⟩ := bind_ok.mp h
      cases h
      exact ⟨readChannel_ok hc, readText_ok hn, readText_ok hs, readStatus_ok ht⟩

theorem describes_of_readCameras {channels : List (Fin 256)} {serials : List Str}
    (h : readCameras (cams.map Camera.toJson) channels serials = .ok cs) :
    List.Forall₂ Describes cams cs := by
  induction cams generalizing channels serials cs with
  | nil =>
    cases h
    exact .nil
  | cons cam cams ih =>
    rw [List.map_cons, readCameras] at h
    obtain ⟨c, hc, h⟩ := bind_ok.mp h
    obtain ⟨rest, hrest, h⟩ := bind_ok.mp h
    cases h
    exact .cons (describes_of_readCamera hc) (ih hrest)

/-- Of an accepted manifest. -/
theorem describes_of_validate (h : validateManifest (manifest k s cams) = .ok m) :
    List.Forall₂ Describes cams m.cameras ∧ k.stationSn = .str m.station := by
  have hcameras : get? [(lit "nvr_sn", k.stationSn), (lit "nvr_ip", s.nvrIp.elim .null .str),
      (lit "cameras", .arr (cams.map Camera.toJson))] (lit "cameras") =
        some (.arr (cams.map Camera.toJson)) := rfl
  have hstation : get? [(lit "nvr_sn", k.stationSn), (lit "nvr_ip", s.nvrIp.elim .null .str),
      (lit "cameras", .arr (cams.map Camera.toJson))] (lit "nvr_sn") = some k.stationSn := rfl
  rw [manifest, validateManifest, hcameras, hstation] at h
  dsimp only [Option.getD] at h
  split at h
  · rename_i station hsn
    split at h
    · rename_i hread
      cases h
      exact ⟨describes_of_readCameras hread, hsn⟩
    · cases h
  · cases h

-- ---------------------------------------------------------------------------
-- The file
-- ---------------------------------------------------------------------------

theorem sound_get? {key : Str} (h : Sound (.obj ms)) (hv : get? ms key = some v) : Sound v :=
  (soundMembers_iff.mp h.2 _ (mem_of_lookup hv)).2

theorem sound_member (h : Sound (.obj ms)) (key : Str) : Sound (member ms key) := by
  unfold member
  cases hv : get? ms key with
  | none => trivial
  | some v => exact sound_get? h hv

structure SoundCamera (cam : Stream.Camera) : Prop where
  channel : Sound cam.channel
  name : Sound cam.name
  sn : Sound cam.sn
  status : Sound cam.status
  devType : Sound cam.devType

theorem sound_camera {d : Json} (hd : Sound d) (h : camera d = .ok cam) : SoundCamera cam := by
  cases d with
  | obj ms =>
    cases h
    exact ⟨sound_member hd _, sound_member hd _, sound_member hd _, sound_member hd _,
      sound_member hd _⟩
  | _ => cases h

theorem sound_mapM {items : List Json} (hitems : ∀ d ∈ items, Sound d)
    (h : items.mapM camera = .ok cams) : ∀ cam ∈ cams, SoundCamera cam := by
  induction items generalizing cams with
  | nil =>
    cases h
    exact nofun
  | cons d ds ih =>
    rw [List.mapM_cons] at h
    obtain ⟨cam, hcam, h⟩ := bind_ok.mp h
    obtain ⟨rest, hrest, h⟩ := bind_ok.mp h
    cases h
    obtain ⟨hd, hds⟩ := List.forall_mem_cons.mp hitems
    exact List.forall_mem_cons.mpr ⟨sound_camera hd hcam, ih hds hrest⟩

/-- What a loop that ends without an exception has gone through. -/
theorem sound_iterate {items : List Json} (hv : Sound v) (h : Stream.iterate v = .ok items)
    (hcams : items.mapM camera = .ok cams) : ∀ d ∈ items, Sound d := by
  have hobjects := Stream.mapM_camera_ok.mp ⟨cams, hcams⟩
  cases v with
  | arr vs =>
    cases h
    exact soundItems_iff.mp hv
  | str s =>
    cases h
    intro d hd
    obtain ⟨c, -, rfl⟩ := List.mem_map.mp hd
    obtain ⟨m, hm⟩ := hobjects _ hd
    cases hm
  | obj ms =>
    cases h
    intro d hd
    obtain ⟨c, -, rfl⟩ := List.mem_map.mp hd
    obtain ⟨m, hm⟩ := hobjects _ hd
    cases hm
  | _ => cases h

theorem sound_firstTrue {a b : Option Json} (ha : ∀ v ∈ a, Sound v) (hb : ∀ v ∈ b, Sound v) :
    Sound (Stream.firstTrue a b) := by
  unfold Stream.firstTrue
  cases ha' : a.filter truthy with
  | some v => exact ha v (Option.filter_eq_some_iff.mp ha').1
  | none =>
    cases hb' : b.filter truthy with
    | some v => exact hb v (Option.filter_eq_some_iff.mp hb').1
    | none => trivial

theorem sound_cameras (hreply : Sound reply) (h : cameras reply = .ok cams) :
    ∀ cam ∈ cams, SoundCamera cam := by
  obtain ⟨ms, hms, hrest⟩ := bind_ok.mp h
  obtain ⟨ps, hps, hrest⟩ := bind_ok.mp hrest
  obtain ⟨items, hitems, hcams⟩ := bind_ok.mp hrest
  rw [Stream.getattr_ok.mp hms] at hreply
  have hpayload : Sound (.obj ps) := by
    rw [← Stream.getattr_ok.mp hps]
    cases hp : get? ms (lit "payload") with
    | none => exact ⟨List.nodup_nil, trivial⟩
    | some p => exact sound_get? hreply hp
  have hlist := sound_firstTrue (fun v hv => @sound_get? v ps (lit "dev_list") hpayload hv)
    fun v hv => @sound_get? v ms (lit "dev_list") hreply hv
  exact sound_mapM (sound_iterate hlist hitems hcams) hcams

theorem sound_toJson (h : SoundCamera cam) : Sound cam.toJson := by
  have hkeys : [lit "channel", lit "name", lit "sn", lit "status", lit "dev_type"].Nodup ∧
      ∀ k ∈ [lit "channel", lit "name", lit "sn", lit "status", lit "dev_type"], Printable k := by
    decide
  exact sound_obj hkeys.1 hkeys.2 (by simp [h.channel, h.name, h.sn, h.status, h.devType])

theorem sound_manifest (hk : Sound k.stationSn) (hip : ∀ ip ∈ s.nvrIp, Unpaired ip)
    (hcams : ∀ cam ∈ cams, SoundCamera cam) : Sound (manifest k s cams) := by
  have hkeys : [lit "nvr_sn", lit "nvr_ip", lit "cameras"].Nodup ∧
      ∀ k ∈ [lit "nvr_sn", lit "nvr_ip", lit "cameras"], Printable k := by decide
  have hnvrIp : Sound (s.nvrIp.elim .null .str) := by
    cases h : s.nvrIp with
    | none => trivial
    | some ip => exact hip ip h
  have hlist : Sound (.arr (cams.map Camera.toJson)) :=
    soundItems_iff.mpr (List.forall_mem_map.mpr fun cam hcam => sound_toJson (hcams cam hcam))
  exact sound_obj hkeys.1 hkeys.2 (by simp [hk, hnvrIp, hlist])

/-- The file is read as the manifest that was written. -/
theorem loads_manifestText (hk : Sound k.stationSn) (hip : ∀ ip ∈ s.nvrIp, Unpaired ip)
    (hcams : ∀ cam ∈ cams, SoundCamera cam) :
    loads (manifestText (manifest k s cams)) = some (manifest k s cams) :=
  loads_dumps_self (sound_manifest hk hip hcams)

-- ---------------------------------------------------------------------------
-- The frame
-- ---------------------------------------------------------------------------

theorem onVideoFrame_manifest (f : Stream.VideoFrame) :
    (Stream.onVideoFrame e s f).manifest = none := by
  unfold Stream.onVideoFrame
  split
  · split <;> rfl
  · split <;> rfl

theorem onControl_manifest : (Stream.onControl I k s link buf).manifest =
    if Stream.isDevlist k s buf then (handleDevlist I k s (replyText buf)).manifest else none := by
  unfold Stream.onControl
  dsimp only
  split
  · split <;> rfl
  · split <;> rfl

theorem manifest_of_handleDevlist {text : Str} (h : (handleDevlist I k s text).manifest = some v) :
    ∃ reply cams, I.parse text = .ok reply ∧ cameras reply = .ok cams ∧ v = manifest k s cams := by
  unfold handleDevlist at h
  split at h
  · cases h
  · rename_i reply hparse
    split at h
    · cases h
    · rename_i cams hcams
      cases h
      exact ⟨reply, cams, hparse, hcams, rfl⟩

/-- A frame that writes a manifest is a reply with a device list. -/
theorem manifest_of_onFrame (h : (onFrame I k e s link buf).manifest = some v) :
    ∃ reply cams, I.parse (replyText buf) = .ok reply ∧ cameras reply = .ok cams ∧
      v = manifest k s cams := by
  unfold onFrame at h
  dsimp only at h
  split at h
  · rw [onVideoFrame_manifest] at h
    cases h
  · split at h
    · cases h
    · rw [onControl_manifest] at h
      split at h
      · obtain ⟨reply, cams, hparse, hcams, hv⟩ := manifest_of_handleDevlist h
        exact ⟨reply, cams, hparse, hcams, hv⟩
      · cases h

end EufyNvr.Discovery
