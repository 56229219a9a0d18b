import EufyNvr.Stream.Signaling

/-!
# Candidates

Every candidate that is received is passed to `add_cand` once, in the order of
arrival, and none before the remote description is set: those that arrive
before the first offer wait, and follow it in the handling of that offer.
-/

namespace EufyNvr.Stream.Signaling

open Machine (exec)

variable {peer : Peer} {s t : Session} {raw : Str} {o : Offer} {cands : List Json}
  {trace : List Event}

/-- The candidate of a message. -/
def candidateOf (raw : Str) : Option Json :=
  match parseMsg raw with
  | some (inner, d) =>
    match messageOf inner d with
    | .candidate value => value
    | _ => none
  | none => none

/-- The offer of a message. -/
def sdpOf (raw : Str) : Option OfferResult :=
  match parseMsg raw with
  | some (inner, d) =>
    match messageOf inner d with
    | .sdp (some value) => some (offerOf value)
    | .sdp none => some .raises
    | _ => none
  | none => none

/-- The calls of `add_cand`. -/
def added (trace : List Event) : List Json :=
  trace.filterMap fun
    | .addCand cand => some cand
    | _ => none

/-- The offers that were set as the remote description. -/
def described (trace : List Event) : List Offer :=
  trace.filterMap fun
    | .remoteDescription offer => some offer
    | _ => none

-- ---------------------------------------------------------------------------
-- The first offer
-- ---------------------------------------------------------------------------

theorem perform_ok {e : Event} (h : perform peer s e = .ok t) :
    t = { s with trace := s.trace ++ [e] } := by
  unfold perform at h
  split at h
  · cases h
  · cases h
    rfl

theorem sent_ok {cs : List Str}
    (h : cs.foldlM (fun s cand => perform peer s (.candidate cand)) s = .ok t) :
    t = { s with trace := s.trace ++ cs.map .candidate } := by
  induction cs generalizing s with
  | nil =>
    cases h
    simp
  | cons c cs ih =>
    rw [List.foldlM_cons] at h
    obtain ⟨u, hu, h⟩ := bind_ok.mp h
    rw [ih h, perform_ok hu]
    simp

theorem foldl_addCand (s : Session) (cands : List Json) :
    cands.foldl addCand s = { s with
      nvrIp := s.nvrIp.or (cands.findSome? lanHost), trace := s.trace ++ cands.map .addCand } := by
  induction cands generalizing s with
  | nil => simp
  | cons c cands ih =>
    rw [List.foldl_cons, ih]
    cases hc : lanHost c <;> cases hs : s.nvrIp <;> simp [addCand, hc, hs]

/-- The events of an answer, up to the candidates that wait. -/
def answering (peer : Peer) : List Event :=
  [.channels, .localDescription, .sdp] ++ peer.candidates.map .candidate

theorem answer_ok (h : answer peer s o = .ok t) : t = { s with
    answered := true
    remoteDescription := some o
    pending := []
    nvrIp := s.nvrIp.or (s.pending.findSome? lanHost)
    trace := s.trace ++ .remoteDescription o :: (answering peer ++ s.pending.map .addCand) } := by
  simp only [answer, bind_ok] at h
  obtain ⟨s₁, h₁, s₂, h₂, s₃, h₃, s₄, h₄, s₅, h₅, h⟩ := h
  cases h
  rw [foldl_addCand, sent_ok h₅, perform_ok h₄, perform_ok h₃, perform_ok h₂, perform_ok h₁]
  simp [answering]

theorem added_answering (peer : Peer) : added (answering peer) = [] := by
  simp [added, answering, List.filterMap_map]

theorem described_answering (peer : Peer) : described (answering peer) = [] := by
  simp [described, answering, List.filterMap_map]

theorem added_addCand (cands : List Json) : added (cands.map .addCand) = cands := by
  simp [added, List.filterMap_map]

theorem described_addCand (cands : List Json) : described (cands.map .addCand) = [] := by
  simp [described, List.filterMap_map]

-- ---------------------------------------------------------------------------
-- The outcomes of a step
-- ---------------------------------------------------------------------------

/-- What the loop makes of one message. -/
inductive Handled (peer : Peer) (s : Session) (raw : Str) : Session → Prop
  | same : candidateOf raw = none → sdpOf raw = none → Handled peer s raw s
  | raised : candidateOf raw = none → sdpOf raw = none → Handled peer s raw { s with ended := true }
  | sent {e : Event} : candidateOf raw = none → sdpOf raw = none → e = .call ∨ e = .ack →
      Handled peer s raw { s with trace := s.trace ++ [e] }
  | waits {c : Json} : candidateOf raw = some c → sdpOf raw = none →
      (!s.answered || s.remoteDescription.isNone) = true →
      Handled peer s raw { s with pending := s.pending ++ [c] }
  | passed {c : Json} : candidateOf raw = some c → sdpOf raw = none →
      (!s.answered || s.remoteDescription.isNone) = false → Handled peer s raw (addCand s c)
  | unreadable : candidateOf raw = none → sdpOf raw = some .raises →
      Handled peer s raw { s with ended := true }
  | refused {es : List Event} {reason : Option String} {ended : Bool} : candidateOf raw = none →
      sdpOf raw = some .invalid → es = [] ∨ es = [.closed] →
      Handled peer s raw { s with fatalReason := reason, trace := s.trace ++ es, ended }
  | later {offer : Offer} : candidateOf raw = none → sdpOf raw = some (.valid offer) →
      s.answered = true → Handled peer s raw s
  | answered {offer : Offer} {t : Session} : candidateOf raw = none →
      sdpOf raw = some (.valid offer) → s.answered = false → answer peer s offer = .ok t →
      Handled peer s raw t
  | failed {offer : Offer} {t : Session} : candidateOf raw = none →
      sdpOf raw = some (.valid offer) → s.answered = false → answer peer s offer = .error t →
      Handled peer s raw { t with ended := true }

theorem settle_perform (peer : Peer) (s : Session) (e : Event) :
    settle (perform peer s e) = { s with ended := true } ∨
      settle (perform peer s e) = { s with trace := s.trace ++ [e] } := by
  unfold perform
  split
  · exact .inl rfl
  · exact .inr rfl

/-- An await that is all of a branch. -/
theorem perform_handled {e : Event} (he : e = .call ∨ e = .ack) (hc : candidateOf raw = none)
    (hsdp : sdpOf raw = none) : Handled peer s raw (settle (perform peer s e)) := by
  rcases settle_perform peer s e with h | h
  · rw [h]
    exact .raised hc hsdp
  · rw [h]
    exact .sent hc hsdp he

theorem handleSdp_handled {value : Option Json} (hc : candidateOf raw = none)
    (hsdp : sdpOf raw = some ((value.map offerOf).getD .raises)) :
    Handled peer s raw (settle (handleSdp peer s value)) := by
  cases value with
  | none => exact .unreadable hc hsdp
  | some val =>
    rw [Option.map_some, Option.getD_some] at hsdp
    simp only [handleSdp]
    split
    · rename_i ho
      exact .unreadable hc (ho ▸ hsdp)
    · rename_i ho
      have hsdp := ho ▸ hsdp
      rcases settle_perform peer { s with fatalReason := some "invalid SDP offer" } .closed with
        h | h
      · rw [h]
        have hrefused := @Handled.refused peer s raw [] (some "invalid SDP offer") true hc hsdp
          (.inl rfl)
        rwa [List.append_nil] at hrefused
      · rw [h]
        exact .refused hc hsdp (.inr rfl)
    · rename_i offer ho
      have hsdp := ho ▸ hsdp
      split
      · rename_i ha
        exact .later hc hsdp ha
      · rename_i ha
        have ha := Bool.not_eq_true _ ▸ ha
        cases hans : answer peer s offer with
        | ok t => exact .answered hc hsdp ha hans
        | error t => exact .failed hc hsdp ha hans

theorem handleCandidate_handled {value : Option Json} (hc : candidateOf raw = value)
    (hsdp : sdpOf raw = none) : Handled peer s raw (settle (handleCandidate s value)) := by
  cases value with
  | none => exact .raised hc hsdp
  | some cand =>
    simp only [handleCandidate]
    split
    · exact .waits hc hsdp ‹_›
    · exact .passed hc hsdp (Bool.not_eq_true _ ▸ ‹_›)

theorem step_handled (h : step peer s raw = some t) : Handled peer s raw t := by
  obtain ⟨-, h⟩ := Option.ite_none_left_eq_some.mp h
  cases h
  unfold handle
  split
  · rename_i hp
    exact .raised (by simp [candidateOf, hp]) (by simp [sdpOf, hp])
  · rename_i inner d hp
    have hcand : candidateOf raw =
        match messageOf inner d with
        | .candidate value => value
        | _ => none := by simp [candidateOf, hp]
    have hsdp : sdpOf raw =
        match messageOf inner d with
        | .sdp (some value) => some (offerOf value)
        | .sdp none => some .raises
        | _ => none := by simp [sdpOf, hp]
    cases hm : messageOf inner d with
    | joinAck =>
      rw [hm] at hcand hsdp
      exact perform_handled (.inl rfl) hcand hsdp
    | status code =>
      rw [hm] at hcand hsdp
      simp only
      split
      · exact perform_handled (.inr rfl) hcand hsdp
      · exact .same hcand hsdp
    | sdp value =>
      rw [hm] at hcand hsdp
      refine handleSdp_handled hcand (hsdp.trans ?_)
      cases value <;> rfl
    | candidate value =>
      rw [hm] at hcand hsdp
      exact handleCandidate_handled hcand hsdp
    | other =>
      rw [hm] at hcand hsdp
      exact .same hcand hsdp

-- ---------------------------------------------------------------------------
-- Before the first offer and after it
-- ---------------------------------------------------------------------------

/-- No offer has come, and the candidates that have wait. -/
structure Waiting (cands : List Json) (s : Session) : Prop where
  answered : s.answered = false
  pending : s.pending = cands
  nvrIp : s.nvrIp = none
  added : added s.trace = []
  described : described s.trace = []

/-- The offer has been answered, and the candidates have been passed on since. -/
structure Connected (o : Offer) (cands : List Json) (s : Session) : Prop where
  answered : s.answered = true
  description : s.remoteDescription = some o
  pending : s.pending = []
  nvrIp : s.nvrIp = cands.findSome? lanHost
  trace : ∃ before after, s.trace = before ++ .remoteDescription o :: after ∧ added before = [] ∧
    described before = [] ∧ added after = cands ∧ described after = []

theorem waiting_init : Waiting [] init := ⟨rfl, rfl, rfl, rfl, rfl⟩

theorem added_append (xs ys : List Event) : added (xs ++ ys) = added xs ++ added ys :=
  List.filterMap_append

theorem described_append (xs ys : List Event) : described (xs ++ ys) = described xs ++ described ys :=
  List.filterMap_append

theorem append_none (cands : List Json) (hc : candidateOf raw = none) :
    cands ++ (candidateOf raw).toList = cands := by
  rw [hc, Option.toList_none, List.append_nil]

theorem Waiting.step (h : Waiting cands s) (hsdp : sdpOf raw = none)
    (hs : step peer s raw = some t) : Waiting (cands ++ (candidateOf raw).toList) t := by
  cases step_handled hs with
  | same hc =>
    rw [append_none cands hc]
    exact h
  | raised hc =>
    rw [append_none cands hc]
    exact ⟨h.answered, h.pending, h.nvrIp, h.added, h.described⟩
  | sent hc _ he =>
    rw [append_none cands hc]
    refine ⟨h.answered, h.pending, h.nvrIp, ?_, ?_⟩
    · rw [added_append, h.added]
      rcases he with rfl | rfl <;> rfl
    · rw [described_append, h.described]
      rcases he with rfl | rfl <;> rfl
  | waits hc =>
    rw [hc, Option.toList_some]
    exact ⟨h.answered, by rw [h.pending], h.nvrIp, h.added, h.described⟩
  | passed _ _ hw =>
    rw [h.answered] at hw
    cases hw
  -- the outcomes of an offer
  | unreadable _ hr | refused _ hr | later _ hr | answered _ hr | failed _ hr =>
    rw [hsdp] at hr
    cases hr

theorem Waiting.answer (h : Waiting cands s) (hans : answer peer s o = .ok t) :
    Connected o cands t := by
  rw [answer_ok hans]
  refine ⟨rfl, rfl, rfl, ?_, s.trace, _, rfl, h.added, h.described, ?_, ?_⟩
  · rw [h.nvrIp, h.pending, Option.none_or]
  · rw [added_append, added_answering, added_addCand, h.pending, List.nil_append]
  · rw [described_append, described_answering, described_addCand, List.nil_append]

/-- Events that neither set a remote description nor pass a candidate. -/
theorem Connected.extend {es : List Event} (h : Connected o cands s) (ht : t.answered = s.answered)
    (hd : t.remoteDescription = s.remoteDescription) (hp : t.pending = s.pending)
    (hn : t.nvrIp = s.nvrIp) (hes : t.trace = s.trace ++ es) (ha : added es = [])
    (hr : described es = []) : Connected o cands t := by
  obtain ⟨before, after, heq, hb, hbd, haft, haftd⟩ := h.trace
  refine ⟨ht.trans h.answered, hd.trans h.description, hp.trans h.pending, hn.trans h.nvrIp,
    before, after ++ es, ?_, hb, hbd, ?_, ?_⟩
  · rw [hes, heq, List.append_assoc, List.cons_append]
  · rw [added_append, haft, ha, List.append_nil]
  · rw [described_append, haftd, hr]
    rfl

theorem Connected.addCand (h : Connected o cands s) (c : Json) :
    Connected o (cands ++ [c]) (addCand s c) := by
  obtain ⟨before, after, heq, hb, hbd, haft, haftd⟩ := h.trace
  refine ⟨h.answered, h.description, h.pending, ?_, before, after ++ [.addCand c], ?_, hb, hbd,
    ?_, ?_⟩
  · simp only [Signaling.addCand, h.nvrIp, List.findSome?_append, List.findSome?_singleton]
  · simp only [Signaling.addCand, heq, List.append_assoc, List.cons_append]
  · rw [added_append, haft]
    rfl
  · rw [described_append, haftd]
    rfl

theorem Connected.step (h : Connected o cands s) (hs : step peer s raw = some t) :
    Connected o (cands ++ (candidateOf raw).toList) t := by
  cases step_handled hs with
  | same hc =>
    rw [append_none cands hc]
    exact h
  | raised hc =>
    rw [append_none cands hc]
    exact h.extend rfl rfl rfl rfl (List.append_nil _).symm rfl rfl
  | sent hc _ he =>
    rw [append_none cands hc]
    refine h.extend rfl rfl rfl rfl rfl ?_ ?_
    · rcases he with rfl | rfl <;> rfl
    · rcases he with rfl | rfl <;> rfl
  | waits _ _ hw =>
    rw [h.answered, h.description] at hw
    cases hw
  | passed hc =>
    rw [hc]
    exact h.addCand _
  | unreadable hc =>
    rw [append_none cands hc]
    exact h.extend rfl rfl rfl rfl (List.append_nil _).symm rfl rfl
  | refused hc _ hes =>
    rw [append_none cands hc]
    refine h.extend rfl rfl rfl rfl rfl ?_ ?_
    · rcases hes with rfl | rfl <;> rfl
    · rcases hes with rfl | rfl <;> rfl
  | later hc =>
    rw [append_none cands hc]
    exact h
  | answered _ _ ha | failed _ _ ha =>
    rw [h.answered] at ha
    cases ha

/-- An offer after the first one changes nothing. -/
theorem Connected.later (h : Connected o cands s) (hend : s.ended = false) {o' : Offer}
    (hsdp : sdpOf raw = some (.valid o')) : Signaling.step peer s raw = some s := by
  have hs : Signaling.step peer s raw = some (settle (handle peer s raw)) := by
    simp [Signaling.step, hend]
  have hhandled := step_handled hs
  rw [hs]
  generalize settle (handle peer s raw) = t at hhandled
  cases hhandled with
  | later => rfl
  | same => rfl
  | raised _ hr | sent _ hr | waits _ hr | passed _ hr | unreadable _ hr | refused _ hr =>
    rw [hsdp] at hr
    cases hr
  | answered _ _ ha | failed _ _ ha =>
    rw [h.answered] at ha
    cases ha

/-- The first offer, where nothing raises. -/
theorem Waiting.connected (h : Waiting cands s) (hoffer : sdpOf raw = some (.valid o))
    (hs : Signaling.step peer s raw = some t) (hok : t.ended = false) :
    candidateOf raw = none ∧ Connected o cands t := by
  cases step_handled hs with
  | answered hc hr _ hans =>
    rw [hoffer] at hr
    cases hr
    exact ⟨hc, h.answer hans⟩
  | failed => cases hok
  | later _ _ ha =>
    rw [h.answered] at ha
    cases ha
  | same _ hr | raised _ hr | sent _ hr | waits _ hr | passed _ hr | unreadable _ hr
  | refused _ hr =>
    rw [hoffer] at hr
    cases hr

-- ---------------------------------------------------------------------------
-- Whole runs
-- ---------------------------------------------------------------------------

theorem filterMap_snoc (ms : List Str) (raw : Str) : (ms ++ [raw]).filterMap candidateOf =
    ms.filterMap candidateOf ++ (candidateOf raw).toList := by
  rw [List.filterMap_append]
  cases h : candidateOf raw <;> simp [h]

theorem waiting_run {pre : List Str} (hpre : ∀ m ∈ pre, sdpOf m = none)
    (h : exec (step peer) init pre = some s) : Waiting (pre.filterMap candidateOf) s := by
  have hinv := Machine.invariant_history
    (I := fun ms s => (∀ m ∈ ms, sdpOf m = none) → Waiting (ms.filterMap candidateOf) s)
    (fun ms raw s t _ hi hs hall => ?_) (fun _ => waiting_init) h
  · exact hinv hpre
  · rw [filterMap_snoc]
    refine (hi fun m hm => hall m (List.mem_append_left _ hm)).step (hall raw ?_) hs
    exact List.mem_append_right _ (List.mem_singleton_self _)

theorem connected_run {post : List Str} (h : Connected o cands s)
    (ht : exec (step peer) s post = some t) :
    Connected o (cands ++ post.filterMap candidateOf) t := by
  refine Machine.invariant_history
    (I := fun ms t => Connected o (cands ++ ms.filterMap candidateOf) t)
    (fun ms raw u v _ hi hs => ?_) ?_ ht
  · rw [filterMap_snoc, ← List.append_assoc]
    exact hi.step hs
  · rw [List.filterMap_nil, List.append_nil]
    exact h

theorem candidates_kept {pre post : List Str}
    (hpre : ∀ m ∈ pre, sdpOf m = none) (hoffer : sdpOf raw = some (.valid o))
    (hs : exec (step peer) init (pre ++ [raw]) = some s) (hok : s.ended = false)
    (ht : exec (step peer) s post = some t) :
    (added t.trace = (pre ++ raw :: post).filterMap candidateOf) ∧
      (∃ before after, t.trace = before ++ .remoteDescription o :: after ∧ added before = [] ∧
        described before = [] ∧ described after = []) ∧
      (∀ later o', t.ended = false → sdpOf later = some (.valid o') →
        step peer t later = some t) ∧
      t.nvrIp = ((pre ++ raw :: post).filterMap candidateOf).findSome? lanHost := by
  obtain ⟨u, hu, hraw⟩ := Machine.exec_snoc.mp hs
  obtain ⟨hc, hconn⟩ := (waiting_run hpre hu).connected hoffer hraw hok
  have h := connected_run hconn ht
  have hall : (pre ++ raw :: post).filterMap candidateOf =
      pre.filterMap candidateOf ++ post.filterMap candidateOf := by
    rw [List.filterMap_append, List.filterMap_cons_none hc]
  rw [hall]
  obtain ⟨before, after, heq, hb, hbd, haft, haftd⟩ := h.trace
  refine ⟨?_, ⟨before, after, heq, hb, hbd, haftd⟩, fun later o' hend => h.later hend, h.nvrIp⟩
  rw [heq, added_append, hb, List.nil_append]
  exact haft

/-- A message of the NVR, with the given format and value. -/
def infoMessage (format value : String) : Str :=
  Json.dumps Json.compact <| .obj [(lit "data", .obj [(lit "action", .int 3),
    (lit "dataType", .str (lit "info")),
    (lit "data", .obj [(lit "format", .str (lit format)), (lit "value", .str (lit value))])])]

def relayed : Str := infoMessage "CANDIDATE" "candidate:1 1 udp 9 8.8.8.8 9 typ relay"

def hosted : Str := infoMessage "CANDIDATE" "candidate:2 1 udp 9 192.168.1.152 9 typ host"

def offered : Str := infoMessage "SDP" "v=0"

/-- A peer of which nothing raises. -/
def quietPeer : Peer := ⟨fun _ _ => false, []⟩

/-- A host candidate before the offer, and another candidate after it. -/
theorem candidates_kept_race : ∃ s t, exec (step quietPeer) init [hosted, offered] = some s ∧
    exec (step quietPeer) s [relayed] = some t ∧
      added t.trace = [hosted, offered, relayed].filterMap candidateOf ∧
        t.nvrIp = some (lit "192.168.1.152") := by
  obtain ⟨s, hs, hok, hnext⟩ : ∃ s, exec (step quietPeer) init [hosted, offered] = some s ∧
      s.ended = false ∧ (exec (step quietPeer) s [relayed]).isSome = true := by
    apply Machine.exec_of_check
    decide +kernel
  obtain ⟨t, ht⟩ := Option.isSome_iff_exists.mp hnext
  have hpre : ∀ m ∈ [hosted], sdpOf m = none := by decide +kernel
  have hoffer : sdpOf offered = some (.valid (.native (lit "v=0"))) := by decide +kernel
  have hkept := candidates_kept hpre hoffer hs hok ht
  refine ⟨s, t, hs, ht, hkept.1, hkept.2.2.2.trans ?_⟩
  decide +kernel

end EufyNvr.Stream.Signaling
