import EufyNvr.Snapshot.Entries
import EufyNvr.Snapshot.Refresh

/-!
# Discarding

`discard` and `clear` drop the entries and cancel the background refreshes.
What a later call returns and what is stored later then comes from captures
that began later, unless a foreground call was capturing at that moment: the
cache does not track foreground calls, and such a call stores its image
after the discard.
-/

namespace EufyNvr.Snapshot.World

open Machine (exec exec_append exec_cons)

variable {κ : Type} [DecidableEq κ] {cfg : Limits} {w v : World κ} {l : Label κ} {key : κ}
  {t : TaskId} {post : List (Label κ)}

/-- A step of `post`, a run from `v`, started the capture of `key` by `t`. -/
def StartedSince (cfg : Limits) (v : World κ) (post : List (Label κ)) (t : TaskId) (key : κ) :
    Prop :=
  ∃ pre mid x y, post = pre ++ .acquire t :: mid ∧ exec (step cfg) v pre = some x ∧
    step cfg x (.acquire t) = some y ∧ y.log = x.log ++ [.captureStarted t key x.now]

/-- `image` is the result of a capture of `key` that a step of `post` started. -/
def CapturedSince (cfg : Limits) (v : World κ) (post : List (Label κ)) (key : κ) (image : Bytes) :
    Prop :=
  ∃ t pre post', post = pre ++ .capture t (.image (some image)) :: post' ∧
    StartedSince cfg v pre t key

/-- No image of `key` in the cache, and no answer to a call that starts after
`v`, comes from a capture that had started before `v`, in any run from `v`. -/
def Final (cfg : Limits) (v : World κ) (key : κ) : Prop :=
  ∀ post w, exec (step cfg) v post = some w →
    (∀ e image, w.cache.get? key = some e → e.image = some image →
      CapturedSince cfg v post key image) ∧
    ∀ t image, v.tasks.length ≤ t → w.tasks[t]? = some ⟨.get, key, .returned (some image)⟩ →
      CapturedSince cfg v post key image

theorem StartedSince.append (h : StartedSince cfg v post t key) (ls : List (Label κ)) :
    StartedSince cfg v (post ++ ls) t key := by
  obtain ⟨pre, mid, x, y, rfl, hx, hy, hl⟩ := h
  exact ⟨pre, mid ++ ls, x, y, by simp, hx, hy, hl⟩

theorem CapturedSince.append {image : Bytes} (h : CapturedSince cfg v post key image)
    (ls : List (Label κ)) : CapturedSince cfg v (post ++ ls) key image := by
  obtain ⟨t, pre, post', rfl, hs⟩ := h
  exact ⟨t, pre, post' ++ ls, by simp, hs⟩

-- ---------------------------------------------------------------------------
-- The invariant
-- ---------------------------------------------------------------------------

/-- An image, if it is one, was captured since. -/
def ImageSince (cfg : Limits) (v : World κ) (post : List (Label κ)) (key : κ)
    (image : Option Bytes) : Prop := ∀ b, image = some b → CapturedSince cfg v post key b

theorem ImageSince.append {image : Option Bytes} (h : ImageSince cfg v post key image)
    (ls : List (Label κ)) : ImageSince cfg v (post ++ ls) key image :=
  fun b hb => (h b hb).append ls

/-- The state `w` after `post`, a run from `v`, holds nothing of `key` from
before `v`. -/
structure SinceOk (cfg : Limits) (v : World κ) (key : κ) (post : List (Label κ)) (w : World κ) :
    Prop where
  entry : ∀ {e}, w.cache.get? key = some e → ImageSince cfg v post key e.image
  capturing : ∀ {t : TaskId} {kind due now stale},
    w.tasks[t]? = some ⟨kind, key, .capturing due now stale⟩ → StartedSince cfg v post t key
  aside : ∀ {t : TaskId} {kind due now e},
    w.tasks[t]? = some ⟨kind, key, .capturing due now (some e)⟩ →
      ImageSince cfg v post key e.image
  answer : ∀ {t : TaskId} {image}, v.tasks.length ≤ t →
    w.tasks[t]? = some ⟨.get, key, .returned image⟩ → ImageSince cfg v post key image

theorem SinceOk.entry_step {x : World κ} {e : Entry} (h : SinceOk cfg v key post w)
    (hm : Move cfg w l x) (he : x.cache.get? key = some e) :
    ImageSince cfg v (post ++ [l]) key e.image := by
  cases hm.written he with
  | kept hk => exact (h.entry hk).append _
  | cooled _ _ hk => exact (h.entry hk).append _
  | retained ht => exact (h.aside ht).append _
  | remembered ht ho =>
    intro b hb
    rcases ho with ⟨-, rfl⟩ | rfl
    · cases hb
    · obtain rfl : _ = some b := hb
      exact ⟨_, post, [], rfl, h.capturing ht⟩

theorem SinceOk.step {x : World κ} (h : SinceOk cfg v key post w)
    (hw : exec (World.step cfg) v post = some w) (hs : World.step cfg w l = some x) :
    SinceOk cfg v key (post ++ [l]) x := by
  have hm := step_move hs
  constructor
  · exact fun he => h.entry_step hm he
  · intro t kind due now stale ht
    rcases hm.capturing ht with hold | hb
    · exact (h.capturing hold).append _
    · obtain rfl := hb.label
      exact ⟨post, [], w, x, rfl, hw, hs, hb.log⟩
  · intro t kind due now e ht
    rcases hm.capturing ht with hold | hb
    · exact (h.aside hold).append _
    · exact h.entry_step hm hb.aside.symm
  · intro t image hlen ht
    cases hm.returned ht with
    | before hold => exact (h.answer hlen hold).append _
    | hit he => exact (h.entry he).append _
    | fallback hold => exact (h.aside hold).append _
    | captured hold =>
      rintro b rfl
      exact ⟨t, post, [], rfl, h.capturing hold⟩

/-- A state with no entry for `key` and no capture of `key` in progress. -/
theorem SinceOk.start (hc : v.cache.get? key = none)
    (ht : ∀ (t : TaskId) (kind : Kind) (due now : Int) (stale : Option Entry),
      v.tasks[t]? ≠ some ⟨kind, key, .capturing due now stale⟩) : SinceOk cfg v key [] v where
  entry he := by rw [hc] at he; cases he
  capturing h := (ht _ _ _ _ _ h).elim
  aside h := (ht _ _ _ _ _ h).elim
  answer hlen h := by
    rw [List.getElem?_eq_none hlen] at h
    cases h

theorem final_of_start (hc : v.cache.get? key = none)
    (ht : ∀ (t : TaskId) (kind : Kind) (due now : Int) (stale : Option Entry),
      v.tasks[t]? ≠ some ⟨kind, key, .capturing due now stale⟩) : Final cfg v key := by
  intro post w h
  have hok : SinceOk cfg v key post w :=
    Machine.invariant_history (fun pre l x y hx hi hs => hi.step hx hs) (.start hc ht) h
  exact ⟨fun e image he hi => hok.entry he image hi,
    fun t image hlen ht => hok.answer hlen ht image rfl⟩

-- ---------------------------------------------------------------------------
-- The step that discards
-- ---------------------------------------------------------------------------

variable {u : World κ}

/-- Cancelling registered refreshes, that of `key` among them, leaves the
foreground captures of `key` and no others. -/
theorem capturing_of_cancel {c : TaskId → Prop} [DecidablePred c] (hr : RegistryOk u)
    (ht : ∀ t, v.tasks[t]? = if c t then u.tasks[t]?.map cancelled else u.tasks[t]?)
    (hc : ∀ t, c t → ∃ k, u.refreshTasks.get? k = some t)
    (hkey : ∀ t, u.refreshTasks.get? key = some t → c t) (t : TaskId) (kind : Kind)
    (due now : Int) (stale : Option Entry) :
    v.tasks[t]? = some ⟨kind, key, .capturing due now stale⟩ ↔
      kind = .get ∧ u.tasks[t]? = some ⟨.get, key, .capturing due now stale⟩ := by
  constructor
  · intro h
    have hu := task_of_cancelled (ht t) not_capturing_cancelled h
    cases kind with
    | get => exact ⟨rfl, hu⟩
    | refresh =>
      rw [ht, if_pos (hkey t (hr.live hu rfl)), hu] at h
      cases h
  · rintro ⟨rfl, hu⟩
    rw [ht, if_neg, hu]
    intro hct
    obtain ⟨k, hk⟩ := hc t hct
    obtain ⟨p, hp, -⟩ := hr.known hk
    rw [hu] at hp
    cases hp

theorem dropped (hr : RegistryOk u) (hl : l = .discard key ∨ l = .clear)
    (hs : World.step cfg u l = some v) :
    v.cache.get? key = none ∧ ∀ (t : TaskId) (kind : Kind) (due now : Int) (stale : Option Entry),
      v.tasks[t]? = some ⟨kind, key, .capturing due now stale⟩ ↔
        kind = .get ∧ u.tasks[t]? = some ⟨.get, key, .capturing due now stale⟩ := by
  rcases hl with rfl | rfl
  · cases hs
    constructor
    · rw [record_cache, (discard_frame u key).2.1, Dict.get?_erase, if_pos rfl]
    · exact capturing_of_cancel hr (tasks_discard u key) (fun t ht => ⟨key, ht⟩) fun t ht => ht
  · cases hs
    constructor
    · rw [record_cache, (clear_frame u).2.1, Dict.get?_empty]
    · refine capturing_of_cancel hr (tasks_clear u) (fun t ht => ?_) fun t ht => ?_
      · obtain ⟨⟨k, _⟩, hk, rfl⟩ := List.mem_map.mp ht
        exact ⟨k, Dict.get?_eq_some.mpr hk⟩
      · exact List.mem_map.mpr ⟨_, Dict.get?_eq_some.mp ht, rfl⟩

/-- A foreground call that is capturing can still store its image. -/
theorem not_final_of_capturing {due now : Int} {stale : Option Entry}
    (ht : v.tasks[t]? = some ⟨.get, key, .capturing due now stale⟩) : ¬ Final cfg v key := by
  intro hf
  have hs : World.step cfg v (.capture t (.image (some [0]))) =
      some ((remember cfg v.release t key (some [0])).giveBack t key (some [0]) v.now) := by
    simp [World.step, ht, settle]
  have he : ((remember cfg v.release t key (some [0])).giveBack t key (some [0]) v.now).cache.get?
      key = some (remembered cfg v.now (some [0])) := by
    rw [giveBack_cache]
    exact get?_remember_self cfg v.release t (some [0])
  have hrun : exec (World.step cfg) v [.capture t (.image (some [0]))] = some _ :=
    exec_cons.mpr ⟨_, hs, Machine.exec_nil⟩
  obtain ⟨_, pre, post', hpost, pre', mid, -, -, rfl, -⟩ := (hf _ _ hrun).1 _ [0] he rfl
  have hlen := congrArg List.length hpost
  simp only [List.length_append, List.length_cons, List.length_nil] at hlen
  omega

/-- A discard of a camera, or of all, is final for it exactly when no
foreground call is capturing it at that moment. -/
theorem discard_final {now : Int} {ls : List (Label κ)}
    (h : exec (World.step cfg) (init now) ls = some u) (hl : l = .discard key ∨ l = .clear)
    (hs : World.step cfg u l = some v) :
    Final cfg v key ↔ ∀ (t : TaskId) (due start : Int) (stale : Option Entry),
      u.tasks[t]? ≠ some ⟨.get, key, .capturing due start stale⟩ := by
  obtain ⟨hc, ht⟩ := dropped (registryOk_run h) hl hs
  constructor
  · intro hf t due start stale hu
    exact not_final_of_capturing ((ht t .get due start stale).mpr ⟨rfl, hu⟩) hf
  · intro hnone
    exact final_of_start hc fun t kind due start stale hv =>
      hnone t due start stale ((ht t kind due start stale).mp hv).2

/-- A background refresh is capturing when its camera is discarded. -/
theorem discard_final_refreshing :
    ∃ u v : World Nat, exec (World.step .default) (init 0)
        [.call 1, .acquire 0, .capture 0 (.image (some [7])), .tick (seconds 4), .call 1, .start 1,
          .acquire 1] = some u ∧
      World.step .default u (.discard 1) = some v ∧ u.holding 1 = true ∧ Final .default v 1 := by
  have hu : exec (World.step .default) (init (κ := Nat) 0)
    [.call 1, .acquire 0, .capture 0 (.image (some [7])), .tick (seconds 4), .call 1, .start 1,
      .acquire 1] = some _ := rfl
  refine ⟨_, _, hu, rfl, rfl, (discard_final hu (.inl rfl) rfl).mpr fun t due start stale ht => ?_⟩
  match t, ht with
  | 0, ht => cases ht
  | 1, ht => cases ht
  | 2, ht => cases ht
  | _ + 3, ht => cases ht

/-- A foreground call is capturing when its camera is discarded. It stores
its image afterwards, and a call that starts then gets that image. -/
theorem discard_undone :
    ∃ u v w : World Nat, exec (World.step .default) (init 0) [.call 1, .acquire 0] = some u ∧
      World.step .default u (.discard 1) = some v ∧
      exec (World.step .default) v [.capture 0 (.image (some [7])), .call 1] = some w ∧
      (w.cache.get? 1).map Entry.image = some (some [7]) ∧ v.tasks.length ≤ 1 ∧
      w.tasks[1]? = some ⟨.get, 1, .returned (some [7])⟩ ∧
      u.log = [.captureStarted 0 1 0] ∧ ¬ Final .default v 1 := by
  refine ⟨_, _, _, rfl, rfl, rfl, rfl, by decide, rfl, rfl, not_final_of_capturing (t := 0) rfl⟩

end EufyNvr.Snapshot.World
