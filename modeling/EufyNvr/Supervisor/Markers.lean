import EufyNvr.Lib.TextStream
import EufyNvr.Supervisor.Session

/-!
# Lines without a marker

What a few lines of the relayed log do to a session. They leave what it is
judged by as it was, in every session and at whatever times they are read,
if none of them has a marker, and only then: of the statuses of a call the
last one stays, and what else is recorded is never taken back.
-/

namespace EufyNvr.Supervisor

variable {now : Int} {line m : String} {s t : SessionState} {lines : List String}
  {ls : List (Int × String)} {text : Str}

def markers : List String :=
  [turnMarker, acceptedMarker, busyMarker, offerMarker, channelMarker, firstVideoMarker,
    videoProgressMarker, authorizationMarker]

/-- Lines with the times at which they are inspected. -/
def inspectLines (ls : List (Int × String)) (s : SessionState) : SessionState :=
  ls.foldl (fun s l => inspectLogLine l.1 l.2 s) s

/-- All that a session is judged by. -/
structure SessionState.Agrees (s t : SessionState) : Prop where
  turnPending : t.turnPending = s.turnPending
  sdpSeen : t.sdpSeen = s.sdpSeen
  datachannelSeen : t.datachannelSeen = s.datachannelSeen
  firstVideoAt : t.firstVideoAt = s.firstVideoAt
  lastVideoAt : t.lastVideoAt = s.lastVideoAt
  busyRejection : t.busyRejection = s.busyRejection
  authorizationRejection : t.authorizationRejection = s.authorizationRejection

/-- The lines leave every session as it is. -/
def Unmoved (lines : List String) : Prop :=
  ∀ (s : SessionState) (times : List Int), times.length = lines.length →
    s.Agrees (inspectLines (times.zip lines) s)

theorem inspectLines_append_singleton (l : Int × String) :
    inspectLines (ls ++ [l]) s = inspectLogLine l.1 l.2 (inspectLines ls s) := by
  rw [inspectLines, List.foldl_append]
  rfl

-- ---------------------------------------------------------------------------
-- Without a marker
-- ---------------------------------------------------------------------------

theorem inspectLogLine_quiet (h : ∀ m ∈ markers, mentions line m = false) :
    inspectLogLine now line s = s := by
  simp only [markers, List.forall_mem_cons, List.not_mem_nil, false_imp_iff, implies_true,
    and_true] at h
  obtain ⟨h₁, h₂, h₃, h₄, h₅, h₆, h₇, h₈⟩ := h
  simp [inspectLogLine, inspectStatus, inspectOffer, inspectChannel, inspectVideo,
    inspectAuthorization, h₁, h₂, h₃, h₄, h₅, h₆, h₇, h₈]

theorem inspectLines_quiet (h : ∀ l ∈ ls, ∀ m ∈ markers, mentions l.2 m = false) :
    inspectLines ls s = s := by
  induction ls with
  | nil => rfl
  | cons l ls ih =>
    obtain ⟨hl, hls⟩ := List.forall_mem_cons.mp h
    rw [inspectLines, List.foldl_cons, inspectLogLine_quiet hl]
    exact ih hls

-- ---------------------------------------------------------------------------
-- With a marker
-- ---------------------------------------------------------------------------

/-- What a line can only set. -/
theorem inspectLines_recorded (f : SessionState → Bool) (g : String → Bool)
    (h : ∀ now line s, f (inspectLogLine now line s) = (f s || g line)) :
    f (inspectLines ls s) = (f s || ls.any fun l => g l.2) := by
  induction ls using List.reverseRecOn with
  | nil => simp [inspectLines]
  | append_singleton ls l ih =>
    rw [inspectLines_append_singleton, h, ih, List.any_append, Bool.or_assoc]
    simp

theorem inspectLogLine_turnPending (now : Int) (line : String) (s : SessionState) :
    (inspectLogLine now line s).turnPending =
      if reportsStatus line then mentions line turnMarker else s.turnPending := by
  rw [inspectLogLine_eq]
  unfold inspectStatus reportsStatus
  cases mentions line turnMarker <;> cases mentions line acceptedMarker <;>
    cases mentions line busyMarker <;> rfl

/-- The last status decides, whatever was there before. -/
theorem inspectLines_turnPending (h : ∃ l ∈ ls, reportsStatus l.2 = true) :
    ∃ v, ∀ s, (inspectLines ls s).turnPending = v := by
  induction ls using List.reverseRecOn with
  | nil =>
    obtain ⟨l, hl, -⟩ := h
    cases hl
  | append_singleton ls l ih =>
    by_cases hl : reportsStatus l.2 = true
    · refine ⟨mentions l.2 turnMarker, fun s => ?_⟩
      rw [inspectLines_append_singleton, inspectLogLine_turnPending, if_pos hl]
    · have hls : ∃ l ∈ ls, reportsStatus l.2 = true := by
        obtain ⟨l', hl', hreports⟩ := h
        rcases List.mem_append.mp hl' with hl' | hl'
        · exact ⟨l', hl', hreports⟩
        · exact absurd (List.mem_singleton.mp hl' ▸ hreports) hl
      obtain ⟨v, hv⟩ := ih hls
      refine ⟨v, fun s => ?_⟩
      rw [inspectLines_append_singleton, inspectLogLine_turnPending, if_neg hl, hv]

/-- The lines, each at some time. -/
theorem Unmoved.timed (h : Unmoved lines) :
    ∃ ls : List (Int × String), ls.map Prod.snd = lines ∧
      ∀ s : SessionState, s.Agrees (inspectLines ls s) := by
  have hlen : (List.replicate lines.length (0 : Int)).length = lines.length := List.length_replicate
  exact ⟨_, List.map_snd_zip (by rw [hlen]), fun s => h s _ hlen⟩

/-- What can only be set is set by no line, since a new session has nothing of it. -/
theorem Unmoved.unset (h : Unmoved lines) (f : SessionState → Bool) (g : String → Bool)
    (hset : ∀ now line s, f (inspectLogLine now line s) = (f s || g line))
    (hkeep : ∀ s t, s.Agrees t → f t = f s) (hstart : f (.start 0) = false) :
    ∀ l ∈ lines, g l = false := by
  obtain ⟨ls, rfl, hagrees⟩ := h.timed
  have hnone := hkeep _ _ (hagrees (.start 0))
  rw [inspectLines_recorded f g hset, hstart, Bool.false_or, List.any_eq_false] at hnone
  intro l hl
  obtain ⟨p, hp, rfl⟩ := List.mem_map.mp hl
  simpa using hnone p hp

theorem Unmoved.unreported (h : Unmoved lines) : ∀ l ∈ lines, reportsStatus l = false := by
  obtain ⟨ls, rfl, hagrees⟩ := h.timed
  intro l hl
  by_contra hreports
  rw [Bool.not_eq_false] at hreports
  obtain ⟨p, hp, rfl⟩ := List.mem_map.mp hl
  obtain ⟨v, hv⟩ := inspectLines_turnPending ⟨p, hp, hreports⟩
  -- A session in which it was the other way round.
  have hpending := (hagrees { SessionState.start 0 with turnPending := !v }).turnPending
  rw [hv] at hpending
  cases v <;> cases hpending

theorem unmoved_iff : Unmoved lines ↔ ∀ l ∈ lines, ∀ m ∈ markers, mentions l m = false := by
  constructor
  · intro h
    have hoffer := h.unset (·.sdpSeen) (mentions · offerMarker)
      (fun now line s => by rw [inspectLogLine_eq]) (fun _ _ h => h.sdpSeen) rfl
    have hchannel := h.unset (·.datachannelSeen) (mentions · channelMarker)
      (fun now line s => by rw [inspectLogLine_eq]) (fun _ _ h => h.datachannelSeen) rfl
    have hauthorization := h.unset (·.authorizationRejection) (mentions · authorizationMarker)
      inspectLogLine_authorization (fun _ _ h => h.authorizationRejection) rfl
    have hvideo := h.unset (·.firstVideoAt.isSome) bearsVideo
      (fun now line s => by
        rw [inspectLogLine_eq]
        cases bearsVideo line <;> cases s.firstVideoAt <;> rfl)
      (fun _ _ h => by rw [h.firstVideoAt]) rfl
    intro l hl
    have hstatus := h.unreported l hl
    have hvideo := hvideo l hl
    simp only [reportsStatus, bearsVideo, Bool.or_eq_false_iff] at hstatus hvideo
    simp only [markers, List.forall_mem_cons, List.not_mem_nil, false_imp_iff, implies_true,
      and_true]
    exact ⟨hstatus.1.1, hstatus.1.2, hstatus.2, hoffer l hl, hchannel l hl, hvideo.1, hvideo.2,
      hauthorization l hl⟩
  · intro h s times hlen
    have hquiet : inspectLines (times.zip lines) s = s :=
      inspectLines_quiet fun l hl => h l.2 (List.of_mem_zip hl).2
    rw [hquiet]
    exact ⟨rfl, rfl, rfl, rfl, rfl, rfl, rfl⟩

-- ---------------------------------------------------------------------------
-- Lines of a stream
-- ---------------------------------------------------------------------------

/-- A text of characters. -/
def asString (text : Str) : String := String.ofList (text.map Char.ofNat)

theorem mentions_asString (h : Characters text) :
    mentions (asString text) m = decide (lit m <:+: text) := by
  have hmap (l : List Char) : (l.map Char.toNat).map Char.ofNat = l := by
    rw [List.map_map]
    exact (List.map_congr_left fun c _ => Char.ofNat_toNat c).trans (List.map_id l)
  have htext : (text.map Char.ofNat).map Char.toNat = text := by
    rw [List.map_map]
    refine (List.map_congr_left fun c hc => ?_).trans (List.map_id text)
    have hvalid : c.isValidChar := of_decide_eq_true (h c hc)
    rw [Function.comp_apply, Char.ofNat, dif_pos hvalid]
    rfl
  rw [mentions, asString, String.toList_ofList, decide_eq_decide]
  constructor
  · intro hm
    have hnat := hm.map Char.toNat
    rwa [htext] at hnat
  · intro hm
    have hchar := hm.map Char.ofNat
    rwa [lit, hmap] at hchar

/-- What is read of a text that has been written to the stream. -/
theorem unmoved_written (text : Str) :
    Unmoved ((TextStream.readLines (TextStream.written text)).map asString) ↔
      ∀ m ∈ markers, ¬ lit m <:+: text := by
  have hvisible : ∀ m ∈ markers, TextStream.Visible (lit m) := by decide
  rw [unmoved_iff]
  constructor
  · intro h m hm hin
    obtain ⟨l, hl, hml⟩ := (TextStream.infix_readLines (hvisible m hm)).mpr hin
    have hnot := h _ (List.mem_map_of_mem hl) m hm
    rw [mentions_asString (TextStream.characters_readLines hl)] at hnot
    exact of_decide_eq_false hnot hml
  · intro h line hline m hm
    obtain ⟨l, hl, rfl⟩ := List.mem_map.mp hline
    rw [mentions_asString (TextStream.characters_readLines hl)]
    exact decide_eq_false fun hml =>
      h m hm ((TextStream.infix_readLines (hvisible m hm)).mp ⟨l, hl, hml⟩)

end EufyNvr.Supervisor
