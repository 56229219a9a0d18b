import EufyNvr.Generator.Assign
import EufyNvr.Lib.Surrogates

/-!
# Distinct names

Two cameras of a manifest have two keys, where no serial holds a pair of
surrogates: `camera_key` writes such a pair as it writes the one character
that the pair stands for. With two keys they have two names, in whatever
order the manifest lists them.
-/

namespace EufyNvr.Generator

open Json

variable {m : Manifest} {r : Registry} {station sn : Str} {c d : Camera} {cs : List Camera}

-- ---------------------------------------------------------------------------
-- Keys
-- ---------------------------------------------------------------------------

theorem cameraKey_serial (h : c.truthySerial = some sn) : cameraKey station c =
    lbracket :: (quoted station ++ (lit ",\"serial\"," ++ (quoted sn ++ [rbracket]))) := by
  rw [cameraKey, h]
  simp only [dumps, dump, dumpItems, compact, List.nil_append, List.append_nil]
  rfl

theorem cameraKey_channel (h : c.truthySerial = none) : cameraKey station c =
    lbracket :: (quoted station ++ (lit ",\"channel\"," ++ (numeral c.channel ++ [rbracket]))) := by
  rw [cameraKey, h]
  simp only [dumps, dump, dumpItems, compact, List.nil_append, List.append_nil]
  rfl

/-- No serial holds a high surrogate right before a low one. -/
def Manifest.Unpaired (m : Manifest) : Prop :=
  ∀ c ∈ m.cameras, ∀ s ∈ c.truthySerial, Json.Unpaired s

instance (m : Manifest) : Decidable m.Unpaired :=
  inferInstanceAs (Decidable (∀ c ∈ m.cameras, ∀ s ∈ c.truthySerial, _))

theorem Manifest.serial_unique (m : Manifest) (hc : c ∈ m.cameras) (hd : d ∈ m.cameras)
    (hs : c.truthySerial = some sn) (ht : d.truthySerial = some sn) : c = d := by
  have hpair := List.pairwise_filterMap.mp m.serials_nodup
  have : Std.Symm fun c d : Camera =>
      ∀ s, c.truthySerial = some s → ∀ t, d.truthySerial = some t → s ≠ t :=
    ⟨fun _ _ h s hs t ht hst => h t ht s hs hst.symm⟩
  by_contra hne
  exact hpair.forall hc hd hne sn hs sn ht rfl

/-- A key tells which camera of the manifest it belongs to. -/
theorem cameraKey_injective (hm : m.Unpaired) (hc : c ∈ m.cameras) (hd : d ∈ m.cameras)
    (h : cameraKey station c = cameraKey station d) : c = d := by
  have hserial {s t : Str} (hs : c.truthySerial = some s) (ht : d.truthySerial = some t) :
      c = d := by
    rw [cameraKey_serial hs, cameraKey_serial ht, List.cons.injEq] at h
    have h := List.append_cancel_left (List.append_cancel_left h.2)
    obtain ⟨rfl, -⟩ := quoted_append_injective (hm c hc s hs) (hm d hd t ht) h
    exact m.serial_unique hc hd hs ht
  cases hs : c.truthySerial with
  | some s =>
    cases ht : d.truthySerial with
    | some t => exact hserial hs ht
    | none =>
      rw [cameraKey_serial hs, cameraKey_channel ht, List.cons.injEq] at h
      exact absurd (List.append_cancel_left h.2) (by simp [lit])
  | none =>
    cases ht : d.truthySerial with
    | some t =>
      rw [cameraKey_channel hs, cameraKey_serial ht, List.cons.injEq] at h
      exact absurd (List.append_cancel_left h.2) (by simp [lit])
    | none =>
      rw [cameraKey_channel hs, cameraKey_channel ht, List.cons.injEq] at h
      have h := List.append_cancel_right (List.append_cancel_left (List.append_cancel_left h.2))
      exact List.inj_on_of_nodup_map m.channels_nodup hc hd (Fin.ext (numeral_injective h))

-- ---------------------------------------------------------------------------
-- Serials
-- ---------------------------------------------------------------------------

theorem readText_str {v : Option Json} {message : String} {t : Option Str} {s : Str}
    (h : readText v message = .ok t) (hs : s ∈ t) : v = some (.str s) := by
  unfold readText at h
  split at h
  · cases h
    cases hs
  · cases h
    cases hs
  · cases h
    cases hs
    rfl
  · cases h

theorem readCamera_serial {item : Json} {channels : List (Fin 256)} {serials : List Str}
    (h : readCamera item channels serials = .ok c) : ∀ s ∈ c.serial, s ∈ strings item := by
  cases item with
  | obj ms =>
    simp only [readCamera] at h
    obtain ⟨channel, -, h⟩ := bind_ok.mp h
    split at h
    · cases h
    · obtain ⟨name, -, h⟩ := bind_ok.mp h
      obtain ⟨serial, hserial, h⟩ := bind_ok.mp h
      split at h
      · cases h
      · obtain ⟨status, -, h⟩ := bind_ok.mp h
        cases h
        intro s hs
        exact mem_stringsMembers.mpr ⟨(lit "sn", .str s), mem_of_lookup (readText_str hserial hs),
          .inr (by simp [strings])⟩
  | _ => cases h

theorem readCameras_serial {items : List Json} {channels : List (Fin 256)} {serials : List Str}
    (h : readCameras items channels serials = .ok cs) :
    ∀ c ∈ cs, ∀ s ∈ c.serial, s ∈ stringsItems items := by
  induction items generalizing channels serials cs with
  | nil =>
    cases h
    exact nofun
  | cons item items ih =>
    rw [readCameras] at h
    obtain ⟨c, hc, h⟩ := bind_ok.mp h
    obtain ⟨ds, hds, h⟩ := bind_ok.mp h
    cases h
    simp only [List.forall_mem_cons, stringsItems, List.mem_append]
    exact ⟨fun s hs => .inl (readCamera_serial hc s hs), fun d hd s hs => .inr (ih hds d hd s hs)⟩

/-- A serial is a string of what the manifest was read from. -/
theorem validateManifest_serial {v : Json} (h : validateManifest v = .ok m) :
    ∀ c ∈ m.cameras, ∀ s ∈ c.serial, s ∈ strings v := by
  unfold validateManifest at h
  split at h
  · rename_i ms
    split at h
    · rename_i items hitems
      split at h
      · split at h
        · rename_i cameras hcameras
          cases h
          intro c hc s hs
          exact mem_stringsMembers.mpr ⟨(lit "cameras", .arr items), mem_of_lookup hitems,
            .inr (readCameras_serial hcameras c hc s hs)⟩
        · cases h
      · cases h
    · cases h
  · cases h

-- ---------------------------------------------------------------------------
-- The loop
-- ---------------------------------------------------------------------------

/-- The names that `assign_names` tries for a new camera, in order. -/
def attempts (used : List Str) (c : Camera) : Nat → Str :=
  let base := slug c.name c.channel
  attempt (withCounter base c.channel) 2 (if base ∈ used then withChannel base c.channel else base)

/-- The search ends, at the first name that is free. -/
theorem newName_first (used : List Str) (c : Camera) : ∃ j, newName used c = attempts used c j ∧
    attempts used c j ∉ used ∧ ∀ i < j, attempts used c i ∈ used := by
  have hfree := newName_not_mem used c
  obtain ⟨j, -, heq, hused⟩ := firstFree_first hfree
  have hj : newName used c = attempts used c j := heq
  exact ⟨j, hj, hj ▸ hfree, hused⟩

/-- A camera's key, if the registry has no name for it yet. -/
theorem assignName_items (station : Str) (c : Camera) (r : Registry) :
    ∃ name, (assignName station c r).2.names.items = r.names.items ++
      if cameraKey station c ∈ r.names.keys then [] else [(cameraKey station c, name)] := by
  unfold assignName
  split
  · rename_i name h
    exact ⟨name, by rw [if_pos (Dict.mem_keys.mpr ⟨name, h⟩), List.append_nil]⟩
  · rename_i h
    have hkey := Dict.get?_eq_none.mp h
    exact ⟨_, by rw [if_neg hkey]; exact Dict.items_push hkey _⟩

theorem assignFrom_items (station : Str) {cs : List Camera}
    (hn : (cs.map (cameraKey station)).Nodup) (r : Registry) :
    ∃ new, (assignFrom station cs r).2.names.items = r.names.items ++ new ∧
      new.map Prod.fst = (cs.map (cameraKey station)).filter (· ∉ r.names.keys) := by
  induction cs generalizing r with
  | nil => exact ⟨[], (List.append_nil _).symm, rfl⟩
  | cons c cs ih =>
    rw [List.map_cons, List.nodup_cons] at hn
    obtain ⟨name, hname⟩ := assignName_items station c r
    obtain ⟨new, hnew, hkeys⟩ := ih hn.2 (assignName station c r).2
    -- No later camera has the key that is new.
    have hlater : ∀ key ∈ cs.map (cameraKey station),
        key ∈ (assignName station c r).2.names.keys ↔ key ∈ r.names.keys := by
      intro key hkey
      have hne : key ≠ cameraKey station c := fun h => hn.1 (h ▸ hkey)
      rw [Dict.keys, hname, List.map_append, List.mem_append]
      split <;> simp [hne, Dict.keys]
    have hfilter : (cs.map (cameraKey station)).filter
        (· ∉ (assignName station c r).2.names.keys) =
        (cs.map (cameraKey station)).filter (· ∉ r.names.keys) :=
      List.filter_congr fun key hkey => by simp only [hlater key hkey]
    refine ⟨_, by rw [assignFrom, hnew, hname, List.append_assoc], ?_⟩
    rw [List.map_append, hkeys, hfilter, List.map_cons, List.filter_cons]
    split <;> simp_all

theorem assignFrom_cameras (station : Str) (cs : List Camera) (r : Registry) :
    (assignFrom station cs r).1.map Prod.snd = cs := by
  induction cs generalizing r with
  | nil => rfl
  | cons c cs ih => rw [assignFrom, List.map_cons, ih]

-- ---------------------------------------------------------------------------
-- The cameras in order
-- ---------------------------------------------------------------------------

/-- The cameras in the order in which they get their names. -/
def Manifest.sorted (m : Manifest) : List Camera :=
  m.cameras.insertionSort fun a b => a.channel ≤ b.channel

theorem Manifest.sorted_perm (m : Manifest) : m.sorted.Perm m.cameras :=
  List.perm_insertionSort _ _

theorem Manifest.sorted_pairwise (m : Manifest) :
    m.sorted.Pairwise fun c d => c.channel < d.channel := by
  have hmap : m.sorted.map Camera.channel =
      (m.cameras.map Camera.channel).insertionSort (· ≤ ·) :=
    List.map_insertionSort _ _ _ _ fun _ _ _ _ => Iff.rfl
  have hle : (m.sorted.map Camera.channel).SortedLE := hmap ▸ List.sortedLE_insertionSort
  have hnodup : (m.sorted.map Camera.channel).Nodup :=
    ((m.sorted_perm.map _).nodup_iff).mpr m.channels_nodup
  exact List.pairwise_map.mp (hle.sortedLT_of_nodup hnodup).pairwise

/-- The order in which the manifest lists its cameras does not matter. -/
theorem Manifest.sorted_eq {m m' : Manifest} (h : m'.cameras.Perm m.cameras) :
    m'.sorted = m.sorted :=
  ((m'.sorted_perm.trans h).trans m.sorted_perm.symm).eq_of_pairwise
    (fun _ _ _ _ hlt hlt' => absurd hlt (lt_asymm hlt')) m'.sorted_pairwise m.sorted_pairwise

theorem keys_nodup (hm : m.Unpaired) : (m.sorted.map (cameraKey m.station)).Nodup := by
  have hmem (c : Camera) (hc : c ∈ m.sorted) : c ∈ m.cameras := m.sorted_perm.mem_iff.mp hc
  have hnodup : m.sorted.Nodup := m.sorted_pairwise.imp fun hlt heq => by
    rw [heq] at hlt
    exact lt_irrefl _ hlt
  exact hnodup.map_on fun c hc d hd h => cameraKey_injective hm (hmem c hc) (hmem d hd) h

theorem names_nodup (hm : m.Unpaired) : ((assignNames m r).1.map Prod.fst).Nodup := by
  have hcameras : (assignNames m r).1.map Prod.snd = m.sorted := assignFrom_cameras _ _ _
  have hkeys : ((assignNames m r).1.map fun p => cameraKey m.station p.2).Nodup := by
    have hn := keys_nodup hm
    rwa [← hcameras, List.map_map] at hn
  -- A name has one key only.
  refine List.pairwise_map.mpr ((List.pairwise_map.mp hkeys).imp_of_mem fun hp hq hne heq => hne ?_)
  exact (assignNames_bound hp).key_unique (heq ▸ assignNames_bound hq)

-- ---------------------------------------------------------------------------
-- What `assign_names` gives
-- ---------------------------------------------------------------------------

/-- `{"version": 1, "names": names}` -/
def registryValue (r : Registry) : Json :=
  .obj [(lit "version", .int 1), (lit "names", .obj (namesJson r.names.items))]

/-- Each search for a name ends. Every camera is listed once, by channel,
with a name of its own. The registry has grown by the keys that it did not
have, it is accepted again, and the order of the manifest does not matter. -/
theorem names_assigned (hm : m.Unpaired) (r : Registry) :
    (∀ used c, ∃ j, newName used c = attempts used c j ∧ attempts used c j ∉ used ∧
      ∀ i < j, attempts used c i ∈ used) ∧
    ((assignNames m r).1.map Prod.snd).Perm m.cameras ∧
    ((assignNames m r).1.Pairwise fun p q => p.2.channel < q.2.channel) ∧
    ((assignNames m r).1.map Prod.fst).Nodup ∧
    (∀ p ∈ (assignNames m r).1, isStreamName p.1 = true) ∧
    (∃ new, (assignNames m r).2.names.items = r.names.items ++ new ∧
      new.map Prod.fst = (m.sorted.map (cameraKey m.station)).filter (· ∉ r.names.keys)) ∧
    validateRegistry (registryValue (assignNames m r).2) = .ok (assignNames m r).2 ∧
    (∀ p ∈ (assignNames m r).1, (assignNames m r).2.Bound (cameraKey m.station p.2) p.1) ∧
    ∀ m' : Manifest, m'.station = m.station → m'.cameras.Perm m.cameras →
      assignNames m' r = assignNames m r := by
  have hcameras : (assignNames m r).1.map Prod.snd = m.sorted := assignFrom_cameras _ _ _
  have hpair := m.sorted_pairwise
  rw [← hcameras, List.pairwise_map] at hpair
  refine ⟨newName_first, hcameras ▸ m.sorted_perm, hpair, names_nodup hm, fun p hp => ?_,
    assignFrom_items m.station (keys_nodup hm) r, validateRegistry_entries _ rfl rfl, fun p hp => assignNames_bound hp, fun m' hs hp => ?_⟩
  · exact (assignNames m r).2.named _ (Dict.get?_eq_some.mp (assignNames_bound hp))
  · have hsorted : m'.sorted = m.sorted := Manifest.sorted_eq hp
    exact congrArg₂ (fun s cs => assignFrom s cs r) hs hsorted

/-- Two cameras and the serials that they are listed with. -/
def twoCameras (serial serial' : Str) : Json :=
  .obj [(lit "cameras", .arr [
    .obj [(lit "channel", .int 1), (lit "name", .str (lit "Gate")), (lit "sn", .str serial)],
    .obj [(lit "channel", .int 0), (lit "name", .str (lit "gate!")), (lit "sn", .str serial')]])]

/-- One serial is a character and the other the two surrogates that stand for
it: both cameras have one key, and one name. -/
theorem names_shared : ∃ m, validateManifest (twoCameras [0x1f600] [0xd83d, 0xde00]) = .ok m ∧
    (assignNames m .empty).1.map Prod.fst = [lit "eufy_gate", lit "eufy_gate"] :=
  ⟨_, rfl, by decide +kernel⟩

/-- The registry holds the name that both cameras would have. -/
theorem names_assigned_colliding : ∃ m r,
    validateManifest (twoCameras (lit "A") (lit "B")) = .ok m ∧ m.Unpaired ∧
    validateRegistry (.obj [(lit "version", .int 1),
      (lit "names", .obj [(lit "[\"\",\"serial\",\"C\"]", .str (lit "eufy_gate"))])]) = .ok r ∧
    (assignNames m r).1.map Prod.fst = [lit "eufy_gate_ch0", lit "eufy_gate_ch1"] ∧
    ((assignNames m r).1.map Prod.fst).Nodup := by
  obtain ⟨m, r, hm, hs, hr, hnames⟩ : ∃ m r,
      validateManifest (twoCameras (lit "A") (lit "B")) = .ok m ∧ m.Unpaired ∧
      validateRegistry (.obj [(lit "version", .int 1),
        (lit "names", .obj [(lit "[\"\",\"serial\",\"C\"]", .str (lit "eufy_gate"))])]) = .ok r ∧
      (assignNames m r).1.map Prod.fst = [lit "eufy_gate_ch0", lit "eufy_gate_ch1"] :=
    ⟨_, _, rfl, by decide +kernel, rfl, by decide +kernel⟩
  exact ⟨m, r, hm, hs, hr, hnames, (names_assigned hs r).2.2.2.1⟩

end EufyNvr.Generator
