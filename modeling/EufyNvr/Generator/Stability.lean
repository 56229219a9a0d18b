import EufyNvr.Generator.Generate
import EufyNvr.Lib.Machine

/-!
# Names stay

Over any sequence of calls, ended anywhere: what the registry on disk binds
it binds for ever, no name goes to a second key, and a configuration that a
call has written publishes names of the registry on disk only.
-/

namespace EufyNvr.Generator

open Json Machine

variable {config₀ : Option Str} {d e : Disk} {r : Registry} {key name : Str} {call : Call}
  {fault : Option Fault} {ls : List (Call × Option Fault)}

-- ---------------------------------------------------------------------------
-- The registry on disk
-- ---------------------------------------------------------------------------

theorem readRegistry_written (h : r.Legible) : ∃ r', readRegistry (some (registryText r)) = .ok r' ∧
    r'.Legible ∧ ∀ key name, r'.Bound key name ↔ r.Bound key name := by
  obtain ⟨v, r', hv, hr', hitems⟩ := registryText_accepted h
  have hmem (entry : Str × Str) : entry ∈ r'.names.items ↔ entry ∈ r.names.items := by
    rw [hitems]
    exact r.sorted_perm.mem_iff
  refine ⟨r', ?_, fun entry he => h entry ((hmem entry).mp he), fun key name => ?_⟩
  · rw [readRegistry, parse, hv]
    exact hr'
  · rw [Registry.Bound, Registry.Bound, Dict.get?_eq_some, Dict.get?_eq_some, hmem]

theorem bound_iff (hd : d.registry = some (registryText r)) (h : r.Legible) :
    d.Bound key name ↔ r.Bound key name := by
  obtain ⟨r', hr', -, hiff⟩ := readRegistry_written h
  constructor
  · rintro ⟨text, r'', ht, hread, hb⟩
    rw [hd] at ht
    cases ht
    rw [hr'] at hread
    cases hread
    exact (hiff key name).mp hb
  · exact fun hb => ⟨_, r', hd, hr', (hiff key name).mpr hb⟩

/-- The registry is one that a call wrote, if there is one. -/
def Disk.Ours (d : Disk) : Prop :=
  d.registry = none ∨ ∃ r : Registry, d.registry = some (registryText r) ∧ r.Legible

theorem Disk.Ours.read (h : d.Ours) : ∃ r, readRegistry d.registry = .ok r ∧ r.Legible ∧
    ∀ key name, d.Bound key name → r.Bound key name := by
  rcases h with hd | ⟨r, hd, hleg⟩
  · refine ⟨.empty, by rw [hd]; rfl, nofun, ?_⟩
    rintro key name ⟨text, r, ht, -⟩
    rw [hd] at ht
    cases ht
  · obtain ⟨r', hr', hleg', hiff⟩ := readRegistry_written hleg
    exact ⟨r', hd ▸ hr', hleg', fun key name hb => (hiff key name).mpr ((bound_iff hd hleg).mp hb)⟩

/-- Where a call has written, the registry is one that it wrote, which binds
what was bound and the streams of the configuration that goes with it. -/
theorem Disk.Ours.prepare {p : Prepared} (h : d.Ours) (hp : prepare call d = .ok p)
    (he : e.registry = some p.registry) : e.Ours ∧ (∀ key name, d.Bound key name → e.Bound key name) ∧
      ∀ name ∈ configStreams p.config, ∃ key, e.Bound key name := by
  obtain ⟨m, previous, -, hread, henabled, hregistry, -⟩ := prepare_ok hp
  obtain ⟨previous', hread', hleg, hbound⟩ := h.read
  rw [hread] at hread'
  cases hread'
  rw [hregistry] at he
  have hleg' := assignNames_legible m hleg
  refine ⟨.inr ⟨_, he, hleg'⟩, fun key name hb => ?_, fun name hn => ?_⟩
  · exact (bound_iff he hleg').mpr (assignNames_extends m previous key name (hbound key name hb))
  · rw [prepare_streams hp, henabled] at hn
    obtain ⟨q, hq, rfl⟩ := List.mem_map.mp hn
    have hnamed := (List.mem_filter.mp (List.mem_filter.mp hq).1).1
    exact ⟨_, (bound_iff he hleg').mpr (assignNames_bound hnamed)⟩

/-- A call keeps what is bound. -/
theorem Disk.Ours.generate (h : d.Ours) : (generate call fault d).disk.Ours ∧
    ∀ key name, d.Bound key name → (Generator.generate call fault d).disk.Bound key name := by
  rcases generate_cases call fault d with ⟨hsame, -⟩ | ⟨p, hp, ⟨hdisk, -⟩ | ⟨hdisk, -⟩⟩
  · rw [hsame]
    exact ⟨h, fun _ _ hb => hb⟩
  · rw [hdisk]
    obtain ⟨hours, hbound, -⟩ := h.prepare hp (e := d.replace .registry p.registry) rfl
    exact ⟨hours, hbound⟩
  · rw [hdisk]
    obtain ⟨hours, hbound, -⟩ :=
      h.prepare hp (e := (d.replace .registry p.registry).replace .config p.config) rfl
    exact ⟨hours, hbound⟩

theorem bound_run (hd : d.Ours) (h : exec step d ls = some e) (hb : d.Bound key name) :
    e.Bound key name :=
  (relation (R := fun d e : Disk => ∀ key name, d.Bound key name → e.Bound key name)
    (fun _ _ _ hb => hb) (fun _ _ _ h h' key name hb => h' key name (h key name hb))
    (fun _ _ _ hw hs => by cases hs; exact (Disk.Ours.generate hw).1)
    (fun _ _ _ hw hs => by cases hs; exact (Disk.Ours.generate hw).2) hd h) key name hb

-- ---------------------------------------------------------------------------
-- The configuration on disk
-- ---------------------------------------------------------------------------

theorem writtenBy_snoc {l : Call × Option Fault} (h : exec step d ls = some e) :
    writtenBy d (ls ++ [l]) = writtenBy d ls ++ (generate l.1 l.2 e).written := by
  induction ls generalizing d with
  | nil =>
    cases h
    simp [writtenBy]
  | cons m ls ih =>
    obtain ⟨u, hu, h⟩ := exec_cons.mp h
    cases hu
    rw [List.cons_append, writtenBy, writtenBy, ih h, List.append_assoc]

/-- The configuration is the one that was there, until a call has written
one; then the registry has all of its streams. -/
structure ConfigBound (config₀ : Option Str) (files : List File) (d : Disk) : Prop where
  ours : d.Ours
  leftover : .config ∉ files → d.config = config₀
  bound : .config ∈ files → ∀ text, d.config = some text → ∀ name ∈ configStreams text,
    ∃ key, d.Bound key name

theorem ConfigBound.generate {files : List File} (h : ConfigBound config₀ files d) :
    ConfigBound config₀ (files ++ (generate call fault d).written) (generate call fault d).disk := by
  have hkeep : (Generator.generate call fault d).disk.Ours ∧ ∀ key name, d.Bound key name →
      (Generator.generate call fault d).disk.Bound key name := h.ours.generate
  refine ⟨hkeep.1, ?_, ?_⟩
  · intro hnot
    rcases generate_cases call fault d with ⟨hsame, hw⟩ | ⟨p, hp, ⟨hdisk, hw⟩ | ⟨hdisk, hw⟩⟩
    · rw [hsame]
      rw [hw, List.append_nil] at hnot
      exact h.leftover hnot
    · rw [hdisk]
      exact h.leftover fun hmem => hnot (List.mem_append_left _ hmem)
    · rw [hw] at hnot
      simp at hnot
  · intro hmem text ht name hn
    rcases generate_cases call fault d with ⟨hsame, hw⟩ | ⟨p, hp, ⟨hdisk, hw⟩ | ⟨hdisk, hw⟩⟩
    · rw [hw, List.append_nil] at hmem
      rw [hsame] at ht ⊢
      exact h.bound hmem text ht name hn
    · -- The configuration is that of an earlier call, and the registry has grown.
      have hmem' : .config ∈ files := by simpa [hw] using hmem
      obtain ⟨key, hb⟩ := h.bound hmem' text (by rw [hdisk] at ht; exact ht) name hn
      exact ⟨key, hkeep.2 key name hb⟩
    · rw [hdisk] at ht ⊢
      cases ht
      exact (h.ours.prepare hp rfl).2.2 name hn

theorem configBound_run (h : exec step ⟨none, config₀⟩ ls = some d) :
    ConfigBound config₀ (writtenBy ⟨none, config₀⟩ ls) d := by
  refine invariant_history (I := fun pre u => ConfigBound config₀ (writtenBy ⟨none, config₀⟩ pre) u)
    (fun pre l u v hu hp hl => ?_) ⟨.inl rfl, fun _ => rfl, by simp [writtenBy]⟩ h
  cases hl
  rw [writtenBy_snoc hu]
  exact hp.generate

theorem Disk.Bound.name_unique {name' : Str} (h : d.Bound key name) (h' : d.Bound key name') :
    name' = name := by
  obtain ⟨text, r, ht, hr, hb⟩ := h
  obtain ⟨text', r', ht', hr', hb'⟩ := h'
  rw [ht] at ht'
  cases ht'
  rw [hr] at hr'
  cases hr'
  exact Option.some.inj (hb'.symm.trans hb)

theorem Disk.Bound.key_unique {key' : Str} (h : d.Bound key name) (h' : d.Bound key' name) :
    key' = key := by
  obtain ⟨text, r, ht, hr, hb⟩ := h
  obtain ⟨text', r', ht', hr', hb'⟩ := h'
  rw [ht] at ht'
  cases ht'
  rw [hr] at hr'
  cases hr'
  exact hb'.key_unique hb

/-- In every sequence of calls on a disk with no registry, each ended
anywhere. A configuration that no call has written is the one that was there
before the first. -/
theorem names_stable (h : exec step ⟨none, config₀⟩ ls = some d) :
    (∀ text, d.registry = some text → ∃ v r, loads text = some v ∧ validateRegistry v = .ok r) ∧
    (∀ key name, d.Bound key name → ∀ ms e, exec step d ms = some e →
      e.Bound key name ∧ (∀ name', e.Bound key name' → name' = name) ∧
        ∀ key', e.Bound key' name → key' = key) ∧
    (.config ∈ writtenBy ⟨none, config₀⟩ ls → ∀ text, d.config = some text →
      ∀ name ∈ configStreams text, ∃ key, d.Bound key name) ∧
    (.config ∉ writtenBy ⟨none, config₀⟩ ls → d.config = config₀) ∧
    ∀ call fault, (generate call fault d).written = [] → (generate call fault d).disk = d := by
  have hp := configBound_run h
  refine ⟨fun text ht => ?_, fun key name hb ms e he => ?_, hp.bound, hp.leftover,
    fun call fault => generate_unwritten⟩
  · rcases hp.ours with hd | ⟨r, hd, hleg⟩
    · rw [hd] at ht
      cases ht
    · rw [hd] at ht
      cases ht
      obtain ⟨v, r', hv, hr', -⟩ := registryText_accepted hleg
      exact ⟨v, r', hv, hr'⟩
  · have hb' := bound_run hp.ours he hb
    exact ⟨hb', fun name' h' => hb'.name_unique h', fun key' h' => hb'.key_unique h'⟩

/-- A manifest with one camera called "Gate" on channel 0. -/
def gateManifest (serial : String) : Str :=
  lit "\x7b\"nvr_sn\": \"T8\", \"cameras\": [\x7b\"channel\": 0, \"name\": \"Gate\", \"sn\": \"" ++
    lit serial ++ lit "\"\x7d]\x7d"

def gateCall (serial : String) : Call where
  differentPaths := true
  manifest := some (gateManifest serial)
  username := lit "eufy"
  password := lit "0123456789abcdef"
  apiPort := 1984
  rtspPort := 8554
  webrtcPort := 8555
  startTimeout := 90
  disabledChannels := []

/-- A call ends between its writes, and then another camera has the channel. -/
theorem names_stable_replaced : ∃ d e, exec step ⟨none, none⟩ [(gateCall "A", some .between)] =
      some d ∧ exec step d [(gateCall "B", none)] = some e ∧
      e.Bound (lit "[\"T8\",\"serial\",\"A\"]") (lit "eufy_gate") ∧
      e.config.map configStreams = some [lit "eufy_gate_ch0"] := by
  obtain ⟨d, hd, hbound, hconfig⟩ : ∃ d, exec step ⟨none, none⟩ [(gateCall "A", some .between)] =
      some d ∧ (d.registry.any fun text => (readRegistry (some text)).toOption.any fun r =>
        r.names.get? (lit "[\"T8\",\"serial\",\"A\"]") = some (lit "eufy_gate")) = true ∧
      (generate (gateCall "B") none d).disk.config.map configStreams =
        some [lit "eufy_gate_ch0"] := by
    apply exec_of_check
    decide +kernel
  obtain ⟨text, htext, hread⟩ := (Option.any_eq_true _ _).mp hbound
  obtain ⟨r, hr, hget⟩ := (Option.any_eq_true _ _).mp hread
  rw [decide_eq_true_eq] at hget
  have hb : d.Bound (lit "[\"T8\",\"serial\",\"A\"]") (lit "eufy_gate") :=
    ⟨text, r, htext, ok_of_toOption hr, hget⟩
  have he : exec step d [(gateCall "B", none)] = some (generate (gateCall "B") none d).disk := rfl
  exact ⟨d, _, hd, he, ((names_stable hd).2.1 _ _ hb _ _ he).1, hconfig⟩

/-- The registry is gone and the configuration is still there, and a first
call finds no manifest. -/
theorem names_stable_leftover : ∃ text d,
    (generate (gateCall "A") none ⟨none, none⟩).disk.config = some text ∧
      exec step ⟨none, some text⟩ [({ gateCall "A" with manifest := none }, none)] = some d ∧
      d.config = some text ∧ lit "eufy_gate" ∈ configStreams text ∧
      ∀ key, ¬ d.Bound key (lit "eufy_gate") := by
  have hconfig : ((generate (gateCall "A") none ⟨none, none⟩).disk.config.any fun text =>
      decide (lit "eufy_gate" ∈ configStreams text)) = true := by
    decide +kernel
  obtain ⟨text, htext, hmem⟩ := (Option.any_eq_true _ _).mp hconfig
  have hrun : exec step ⟨none, some text⟩ [({ gateCall "A" with manifest := none }, none)] =
      some ⟨none, some text⟩ := rfl
  refine ⟨text, _, htext, hrun, rfl, of_decide_eq_true hmem, ?_⟩
  rintro key ⟨registry, r, hregistry, -⟩
  cases hregistry

end EufyNvr.Generator
