import EufyNvr.Generator.Names
import EufyNvr.Lib.Except
import EufyNvr.Lib.JsonRoundTrip
import EufyNvr.Lib.Values

/-!
# The manifest and the registry

`validate_manifest` and `validate_registry` of `gen_go2rtc.py`. What they
accept carries what they have checked. The registry that is written is
accepted when it is read again.
-/

namespace EufyNvr.Generator

open Json

/-- Why a call of `generate` ends without a result. -/
inductive Failure
  | missing
  | notJson
  | invalid (message : String)
  | fault
  deriving DecidableEq

abbrev Checked (α : Type) := Except Failure α

def reject {α : Type} (message : String) : Checked α := .error (.invalid message)

-- ---------------------------------------------------------------------------
-- The manifest
-- ---------------------------------------------------------------------------

structure Manifest where
  station : Str
  cameras : List Camera
  channels_nodup : (cameras.map Camera.channel).Nodup
  serials_nodup : (cameras.filterMap Camera.truthySerial).Nodup

def readChannel (v : Option Json) : Checked (Fin 256) :=
  match v with
  | some (.int n) =>
    if h : 0 ≤ n ∧ n ≤ 255 then .ok ⟨n.toNat, by omega⟩
    else reject "camera channel must be an integer from 0 to 255"
  | _ => reject "camera channel must be an integer from 0 to 255"

def readText (v : Option Json) (message : String) : Checked (Option Str) :=
  match v with
  | none | some .null => .ok none
  | some (.str s) => .ok (some s)
  | _ => reject message

def readStatus (v : Option Json) : Checked (Option (Fin 2)) :=
  match v with
  | none | some .null => .ok none
  | some (.int n) =>
    if n = 0 then .ok (some 0) else if n = 1 then .ok (some 1)
    else reject "camera status must be 0, 1, or null"
  | some (.str s) =>
    if s = lit "0" then .ok (some 0) else if s = lit "1" then .ok (some 1)
    else reject "camera status must be 0, 1, or null"
  | _ => reject "camera status must be 0, 1, or null"

/-- One turn of the loop of `validate_manifest`. -/
def readCamera (item : Json) (channels : List (Fin 256)) (serials : List Str) : Checked Camera :=
  match item with
  | .obj ms => do
    let channel ← readChannel (get? ms (lit "channel"))
    if channel ∈ channels then reject "duplicate camera channel in discovery state"
    else
      let name ← readText (get? ms (lit "name")) "camera name must be a string or null"
      let serial ← readText (get? ms (lit "sn")) "camera serial must be a string or null"
      if (serial.filter fun s => !s.isEmpty).any (· ∈ serials) then
        reject "duplicate camera serial in discovery state"
      else
        let status ← readStatus (get? ms (lit "status"))
        return { channel, name, serial, status }
  | _ => reject "each camera must be an object"

def readCameras : List Json → List (Fin 256) → List Str → Checked (List Camera)
  | [], _, _ => .ok []
  | item :: items, channels, serials => do
    let c ← readCamera item channels serials
    let cs ← readCameras items (c.channel :: channels) (c.truthySerial.toList ++ serials)
    return c :: cs

theorem readCamera_new {item : Json} {channels : List (Fin 256)} {serials : List Str} {c : Camera}
    (h : readCamera item channels serials = .ok c) :
    c.channel ∉ channels ∧ ∀ s ∈ c.truthySerial, s ∉ serials := by
  cases item with
  | obj ms =>
    simp only [readCamera] at h
    obtain ⟨channel, -, h⟩ := bind_ok.mp h
    split at h
    · cases h
    · rename_i hc
      obtain ⟨name, -, h⟩ := bind_ok.mp h
      obtain ⟨serial, -, h⟩ := bind_ok.mp h
      split at h
      · cases h
      · rename_i hs
        obtain ⟨status, -, h⟩ := bind_ok.mp h
        cases h
        refine ⟨hc, fun s hs' hm => hs ?_⟩
        exact (Option.any_eq_true _ _).mpr ⟨s, hs', decide_eq_true hm⟩
  | _ => cases h

theorem readCameras_nodup {items : List Json} {channels : List (Fin 256)} {serials : List Str}
    {cs : List Camera} (h : readCameras items channels serials = .ok cs) :
    (cs.map Camera.channel).Nodup ∧ (∀ n ∈ cs.map Camera.channel, n ∉ channels) ∧
      (cs.filterMap Camera.truthySerial).Nodup ∧
      ∀ s ∈ cs.filterMap Camera.truthySerial, s ∉ serials := by
  induction items generalizing channels serials cs with
  | nil =>
    cases h
    simp
  | cons item items ih =>
    rw [readCameras] at h
    obtain ⟨c, hc, h⟩ := bind_ok.mp h
    obtain ⟨ds, hds, h⟩ := bind_ok.mp h
    cases h
    obtain ⟨hchan, hser⟩ := readCamera_new hc
    obtain ⟨hn, hnew, hsn, hsnew⟩ := ih hds
    refine ⟨?_, ?_, ?_, ?_⟩
    · rw [List.map_cons, List.nodup_cons]
      exact ⟨fun hm => hnew _ hm (by simp), hn⟩
    · rw [List.map_cons, List.forall_mem_cons]
      exact ⟨hchan, fun n hm hmem => hnew n hm (by simp [hmem])⟩
    · cases hs : c.truthySerial with
      | none => rwa [List.filterMap_cons_none hs]
      | some s =>
        rw [List.filterMap_cons_some hs, List.nodup_cons]
        exact ⟨fun hm => hsnew _ hm (by simp [hs]), hsn⟩
    · cases hs : c.truthySerial with
      | none =>
        rw [List.filterMap_cons_none hs]
        exact fun s hm hmem => hsnew s hm (by simp [hmem])
      | some s =>
        rw [List.filterMap_cons_some hs, List.forall_mem_cons]
        exact ⟨hser s hs, fun s hm hmem => hsnew s hm (by simp [hmem])⟩

def validateManifest (v : Json) : Checked Manifest :=
  match v with
  | .obj ms =>
    match get? ms (lit "cameras") with
    | some (.arr items) =>
      match (get? ms (lit "nvr_sn")).getD (.str []) with
      | .str station =>
        match h : readCameras items [] [] with
        | .ok cameras =>
          .ok ⟨station, cameras, (readCameras_nodup h).1, (readCameras_nodup h).2.2.1⟩
        | .error e => .error e
      | _ => reject "nvr_sn must be a string"
    | _ => reject "camera manifest must contain a cameras list"
  | _ => reject "camera manifest must contain a cameras list"

-- ---------------------------------------------------------------------------
-- The registry
-- ---------------------------------------------------------------------------

/-- Which name belongs to which camera key. -/
structure Registry where
  names : Dict Str Str
  named : ∀ e ∈ names.items, isStreamName e.2 = true
  distinct : (names.items.map Prod.snd).Nodup

namespace Registry

def empty : Registry := ⟨.empty, nofun, List.nodup_nil⟩

def used (r : Registry) : List Str := r.names.items.map Prod.snd

/-- A new key with a new name. -/
def add (r : Registry) (key name : Str) (hkey : key ∉ r.names.keys) (hname : isStreamName name = true)
    (hnew : name ∉ r.used) : Registry where
  names := r.names.push key name
  named e he := by
    rw [Dict.items_push hkey] at he
    rcases List.mem_append.mp he with he | he
    · exact r.named e he
    · rw [List.mem_singleton.mp he]
      exact hname
  distinct := by
    rw [Dict.items_push hkey, List.map_append]
    exact List.nodup_append.mpr ⟨r.distinct, List.nodup_singleton _, fun a ha b hb hab => by
      obtain rfl : b = name := by simpa using hb
      exact hnew (hab ▸ ha)⟩

end Registry

def stringEntry (e : Str × Json) : Option (Str × Str) :=
  match e.2 with
  | .str s => some (e.1, s)
  | _ => none

def validateRegistry (v : Json) : Checked Registry :=
  match v with
  | .obj ms =>
    if (get? ms (lit "version")).any (equals 1) then
      match get? ms (lit "names") with
      | some (.obj es) =>
        match es.mapM stringEntry with
        | some names =>
          if hn : ∀ e ∈ (Dict.ofList names).items, isStreamName e.2 = true then
            if hd : ((Dict.ofList names).items.map Prod.snd).Nodup then .ok ⟨.ofList names, hn, hd⟩
            else reject "duplicate stream names in registry"
          else reject "invalid entry in stream-name registry"
        | none => reject "invalid entry in stream-name registry"
      | _ => reject "stream-name registry must contain a names object"
    else reject "unsupported stream-name registry; restore a valid backup"
  | _ => reject "unsupported stream-name registry; restore a valid backup"

-- ---------------------------------------------------------------------------
-- The text of the registry
-- ---------------------------------------------------------------------------

def namesJson (es : List (Str × Str)) : List (Str × Json) := es.map fun e => (e.1, .str e.2)

/-- `json.dumps({"version": 1, "names": names}, indent=2, sort_keys=True) + "\n"` -/
def registryText (r : Registry) : Str :=
  dumps (indented 2) (sortKeys (.obj [(lit "version", .int 1),
    (lit "names", .obj (namesJson r.names.items))])) ++ [10]

/-- The entries of the registry in the order in which they are written. -/
def Registry.sorted (r : Registry) : List (Str × Str) :=
  r.names.items.insertionSort fun a b => a.1 ≤ b.1

theorem Registry.sorted_perm (r : Registry) : r.sorted.Perm r.names.items :=
  List.perm_insertionSort _ _

theorem sortKeysMembers_namesJson (es : List (Str × Str)) :
    sortKeysMembers (namesJson es) = namesJson es := by
  induction es with
  | nil => rfl
  | cons e es ih =>
    have hcons : namesJson (e :: es) = (e.1, .str e.2) :: namesJson es := rfl
    rw [hcons, sortKeysMembers, ih]
    rfl

theorem sortKeys_registry (r : Registry) :
    sortKeys (.obj [(lit "version", .int 1), (lit "names", .obj (namesJson r.names.items))]) =
      .obj [(lit "names", .obj (namesJson r.sorted)), (lit "version", .int 1)] := by
  have hmap : namesJson r.sorted = (namesJson r.names.items).insertionSort fun a b => a.1 ≤ b.1 :=
    List.map_insertionSort _ _ _ _ fun _ _ _ _ => Iff.rfl
  have hle : ¬ lit "version" ≤ lit "names" := by decide
  simp only [sortKeys, sortKeysMembers, sortKeysMembers_namesJson, hmap, List.insertionSort,
    List.foldr, List.orderedInsert, hle, if_false]

theorem plainMembers_namesJson {es : List (Str × Str)} (hk : ∀ e ∈ es, Printable e.1)
    (hv : ∀ e ∈ es, Printable e.2) : PlainMembers (namesJson es) := by
  induction es with
  | nil => trivial
  | cons e es ih =>
    have hcons : namesJson (e :: es) = (e.1, .str e.2) :: namesJson es := rfl
    rw [hcons, PlainMembers, Plain]
    exact ⟨hk e (by simp), hv e (by simp), ih (fun x hx => hk x (by simp [hx]))
      fun x hx => hv x (by simp [hx])⟩

theorem printable_of_isStreamName {s : Str} (h : isStreamName s = true) : Printable s := by
  obtain ⟨t, rfl, -, ht⟩ := isStreamName_iff.mp h
  refine Printable.append (by decide) fun c hc => ?_
  have hc := ht c hc
  simp only [isNameChar, isSlugChar, underscore, Bool.or_eq_true, decide_eq_true_eq,
    beq_iff_eq] at hc
  omega

theorem mapM_stringEntry (es : List (Str × Str)) : (namesJson es).mapM stringEntry = some es := by
  have h : es.mapM (fun e => (pure (id e) : Option (Str × Str))) = pure (es.map id) := List.mapM_pure
  rw [namesJson, List.mapM_map]
  rwa [List.map_id] at h

/-- What validation accepts when it is given the entries of a registry. -/
theorem validateRegistry_entries (r : Registry) {ms : List (Str × Json)}
    (hv : get? ms (lit "version") = some (.int 1))
    (hn : get? ms (lit "names") = some (.obj (namesJson r.names.items))) :
    validateRegistry (.obj ms) = .ok r := by
  simp only [validateRegistry, hv, hn, mapM_stringEntry, Dict.ofList_items, dif_pos r.named,
    dif_pos r.distinct]
  rfl

/-- The keys of the registry are printable. -/
def Registry.Legible (r : Registry) : Prop := ∀ e ∈ r.names.items, Printable e.1

/-- What is written is read back, with the entries in the order of the keys. -/
theorem registryText_accepted {r : Registry} (h : r.Legible) :
    ∃ v r', loads (registryText r) = some v ∧ validateRegistry v = .ok r' ∧
      r'.names.items = r.sorted := by
  have hmem : ∀ e ∈ r.sorted, e ∈ r.names.items := fun e he => r.sorted_perm.mem_iff.mp he
  have hk : (r.sorted.map Prod.fst).Nodup :=
    ((r.sorted_perm.map _).nodup_iff).mpr r.names.nodup
  have hn : ∀ e ∈ r.sorted, isStreamName e.2 = true := fun e he => r.named e (hmem e he)
  let r' : Registry := ⟨⟨r.sorted, hk⟩, hn, ((r.sorted_perm.map _).nodup_iff).mpr r.distinct⟩
  have hkeys : ((namesJson r.sorted).map Prod.fst).Nodup := by
    rwa [namesJson, List.map_map]
  have hmembers : PlainMembers (namesJson r.sorted) :=
    plainMembers_namesJson (fun e he => h e (hmem e he))
      fun e he => printable_of_isStreamName (hn e he)
  have hplain :
      Plain (.obj [(lit "names", .obj (namesJson r.sorted)), (lit "version", .int 1)]) := by
    simp only [Plain, PlainMembers]
    refine ⟨?_, by decide, ⟨hkeys, hmembers⟩, by decide, by decide, trivial⟩
    simp only [List.map_cons, List.map_nil]
    decide
  refine ⟨.obj [(lit "names", .obj (namesJson r.sorted)), (lit "version", .int 1)], r', ?_,
    validateRegistry_entries r' rfl rfl, rfl⟩
  rw [registryText, sortKeys_registry]
  exact loads_dumps hplain (by simp [White, isWhite])

end EufyNvr.Generator
