import EufyNvr.Stream.Signal

/-!
# A conversation

A run of the handler as the other end sees it: it reads a call for every
acknowledged join, an acknowledgement for every accepted call, and one answer with
the candidates of its description, for the first offer. An exception may cut it short
at any point, and nothing else is ever read.
-/

namespace EufyNvr.Stream.Signaling

open Json Machine Search

variable {U : Unicode} {md5 : Bytes → Bytes} {peer : Peer} {s t : Session} {raw value : Str}
  {msgs : List Str} {o : Offer} {es : List Event}

/-- What is sent, with the value that goes into the answer. -/
def requestOf (value : Str) : Event → Option Request
  | .call => some .call
  | .ack => some .ack
  | .sdp => some (.sdp value)
  | .candidate cand => some (.candidate cand)
  | _ => none

def requests (value : Str) (trace : List Event) : List Request := trace.filterMap (requestOf value)

def isOffer (raw : Str) : Bool :=
  match sdpOf raw with
  | some (.valid _) => true
  | _ => false

/-- What one message is answered with. -/
def repliesTo (value : Str) (candidates : List Str) (answered : Bool) (raw : Str) : List Request :=
  match parseMsg raw with
  | none => []
  | some (inner, d) =>
    match messageOf inner d with
    | .joinAck => [.call]
    | .status code => if equals 200 code then [.ack] else []
    | _ => if isOffer raw && !answered then .sdp value :: candidates.map .candidate else []

def replies (value : Str) (candidates : List Str) : Bool → List Str → List Request
  | _, [] => []
  | answered, raw :: msgs =>
    repliesTo value candidates answered raw ++
      replies value candidates (answered || isOffer raw) msgs

-- ---------------------------------------------------------------------------
-- What an exception leaves
-- ---------------------------------------------------------------------------

theorem perform_error {e : Event} (h : perform peer s e = .error t) : t = s := by
  unfold perform at h
  split at h
  · cases h
    rfl
  · cases h

theorem sent_error {cs : List Str}
    (h : cs.foldlM (fun s cand => perform peer s (.candidate cand)) s = .error t) :
    ∃ es, es <+: cs.map .candidate ∧ t.trace = s.trace ++ es := by
  induction cs generalizing s with
  | nil => cases h
  | cons c cs ih =>
    rw [List.foldlM_cons, bind_error] at h
    rcases h with h | ⟨u, hu, h⟩
    · rw [perform_error h]
      exact ⟨[], List.nil_prefix, (List.append_nil _).symm⟩
    · obtain ⟨es, hes, ht⟩ := ih h
      rw [perform_ok hu] at ht
      refine ⟨.candidate c :: es, List.cons_prefix_cons.mpr ⟨rfl, hes⟩, ?_⟩
      rw [ht, List.append_assoc, List.singleton_append]

/-- The answer has come as far as it has. -/
theorem answer_error (h : answer peer s o = .error t) :
    ∃ es, es <+: .remoteDescription o :: answering peer ∧ t.trace = s.trace ++ es := by
  simp only [answer, bind_error] at h
  rcases h with h | ⟨s₁, h₁, h | ⟨s₂, h₂, h | ⟨s₃, h₃, h | ⟨s₄, h₄, h | ⟨s₅, h₅, h⟩⟩⟩⟩⟩
  · rw [perform_error h]
    exact ⟨[], List.nil_prefix, by simp⟩
  · rw [perform_error h, perform_ok h₁]
    exact ⟨[.remoteDescription o], by simp, by simp⟩
  · rw [perform_error h, perform_ok h₂, perform_ok h₁]
    exact ⟨[.remoteDescription o, .channels], by simp [answering], by simp⟩
  · rw [perform_error h, perform_ok h₃, perform_ok h₂, perform_ok h₁]
    exact ⟨[.remoteDescription o, .channels, .localDescription], by simp [answering], by simp⟩
  · obtain ⟨es, hes, ht⟩ := sent_error h
    rw [perform_ok h₄, perform_ok h₃, perform_ok h₂, perform_ok h₁] at ht
    refine ⟨[.remoteDescription o, .channels, .localDescription, .sdp] ++ es, ?_, ?_⟩
    · simpa [answering] using hes
    · rw [ht]
      simp
  · cases h

-- ---------------------------------------------------------------------------
-- A step and a run
-- ---------------------------------------------------------------------------

/-- What the step has sent: the replies, or where it has ended the loop the first of them. -/
def Replied (value : Str) (peer : Peer) (s : Session) (raw : Str) (t : Session) : Prop :=
  ∃ es, t.trace = s.trace ++ es ∧
    requests value es <+: repliesTo value peer.candidates s.answered raw ∧
    (t.ended = false → requests value es = repliesTo value peer.candidates s.answered raw ∧
      t.answered = (s.answered || isOffer raw))

theorem Replied.cut (es : List Event) (htrace : t.trace = s.trace ++ es)
    (hreq : requests value es <+: repliesTo value peer.candidates s.answered raw)
    (h : t.ended = true) : Replied value peer s raw t :=
  ⟨es, htrace, hreq, fun hend => by rw [h] at hend; cases hend⟩

/-- An exception before anything is sent. -/
theorem Replied.raised (htrace : t.trace = s.trace) (h : t.ended = true) :
    Replied value peer s raw t :=
  .cut [] (by rw [htrace, List.append_nil]) List.nil_prefix h

theorem Replied.all (es : List Event) (htrace : t.trace = s.trace ++ es)
    (hreq : requests value es = repliesTo value peer.candidates s.answered raw)
    (h : t.answered = (s.answered || isOffer raw)) : Replied value peer s raw t :=
  ⟨es, htrace, hreq ▸ List.prefix_rfl, fun _ => ⟨hreq, h⟩⟩

theorem replied_perform {e : Event}
    (hreq : requests value [e] = repliesTo value peer.candidates s.answered raw)
    (h : isOffer raw = false) : Replied value peer s raw (settle (perform peer s e)) := by
  rcases settle_perform peer s e with hs | hs
  · rw [hs]
    exact .raised rfl rfl
  · rw [hs]
    exact .all [e] rfl hreq (by rw [h, Bool.or_false])

theorem requests_answering (value : Str) (peer : Peer) (o : Offer) :
    requests value (.remoteDescription o :: answering peer) =
      .sdp value :: peer.candidates.map .candidate := by
  have hcands (cs : List Str) : (cs.map Event.candidate).filterMap (requestOf value) =
      cs.map .candidate := by
    induction cs with
    | nil => rfl
    | cons c cs ih =>
      have hc : requestOf value (.candidate c) = some (.candidate c) := rfl
      rw [List.map_cons, List.filterMap_cons_some hc, ih, List.map_cons]
  exact congrArg (Request.sdp value :: ·) (hcands peer.candidates)

theorem replied_answer (hr : repliesTo value peer.candidates s.answered raw =
      .sdp value :: peer.candidates.map .candidate) (ho : isOffer raw = true) (o : Offer) :
    Replied value peer s raw (settle (answer peer s o)) := by
  cases h : answer peer s o with
  | ok t =>
    rw [answer_ok h]
    refine .all (.remoteDescription o :: (answering peer ++ s.pending.map .addCand)) rfl ?_ ?_
    · have hwaiting : (s.pending.map Event.addCand).filterMap (requestOf value) = [] := by
        simp [List.filterMap_eq_nil_iff, requestOf]
      rw [hr, ← requests_answering value peer o, requests, requests, ← List.cons_append,
        List.filterMap_append, hwaiting, List.append_nil]
    · rw [ho, Bool.or_true]
      rfl
  | error t =>
    obtain ⟨es, hes, ht⟩ := answer_error h
    refine .cut es ht ?_ rfl
    rw [hr, ← requests_answering value peer o]
    exact hes.filterMap (requestOf value)

theorem handleSdp_replied {v : Option Json} (hsdp : sdpOf raw = some ((v.map offerOf).getD .raises))
    (hr : repliesTo value peer.candidates s.answered raw =
      if isOffer raw && !s.answered then .sdp value :: peer.candidates.map .candidate else []) :
    Replied value peer s raw (settle (handleSdp peer s v)) := by
  cases v with
  | none => exact .raised rfl rfl
  | some val =>
    rw [Option.map_some, Option.getD_some] at hsdp
    simp only [handleSdp]
    split
    · exact .raised rfl rfl
    · rename_i ho
      have hoffer : isOffer raw = false := by simp [isOffer, hsdp, ho]
      rw [hoffer, Bool.false_and, if_neg Bool.false_ne_true] at hr
      rcases settle_perform peer { s with fatalReason := some "invalid SDP offer" } .closed with
        hs | hs
      · rw [hs]
        exact .raised rfl rfl
      · rw [hs]
        exact .all [.closed] rfl hr.symm (by rw [hoffer, Bool.or_false])
    · rename_i offer ho
      have hoffer : isOffer raw = true := by simp [isOffer, hsdp, ho]
      split
      · rename_i ha
        have hnone := hr.trans (by simp [ha] : _ = ([] : List Request))
        exact .all [] (List.append_nil _).symm hnone.symm (by rw [hoffer, Bool.or_true]; exact ha)
      · rename_i ha
        exact replied_answer (hr.trans (if_pos (by simp [hoffer, ha]))) hoffer offer

theorem handleCandidate_replied {v : Option Json} (hoffer : isOffer raw = false)
    (hr : repliesTo value peer.candidates s.answered raw = []) :
    Replied value peer s raw (settle (handleCandidate s v)) := by
  cases v with
  | none => exact .raised rfl rfl
  | some cand =>
    simp only [handleCandidate]
    split
    · exact .all [] (List.append_nil _).symm hr.symm (by rw [hoffer, Bool.or_false]; rfl)
    · exact .all [.addCand cand] rfl hr.symm (by rw [hoffer, Bool.or_false]; rfl)

theorem step_replied (value : Str) (h : step peer s raw = some t) :
    s.ended = false ∧ Replied value peer s raw t := by
  obtain ⟨hend, h⟩ := Option.ite_none_left_eq_some.mp h
  refine ⟨Bool.not_eq_true _ ▸ hend, ?_⟩
  cases h
  unfold handle
  split
  · exact .raised rfl rfl
  · rename_i inner d hp
    cases hm : messageOf inner d with
    | joinAck =>
      exact replied_perform (by simp [repliesTo, hp, hm, requests, requestOf])
        (by simp [isOffer, sdpOf, hp, hm])
    | status code =>
      have hoffer : isOffer raw = false := by simp [isOffer, sdpOf, hp, hm]
      simp only
      split
      · rename_i hok
        exact replied_perform (by simp [repliesTo, hp, hm, requests, requestOf, hok]) hoffer
      · rename_i hok
        exact .all [] (List.append_nil _).symm (by simp [repliesTo, hp, hm, requests, hok])
          (by simp [settle, hoffer])
    | sdp v =>
      have hsdp : sdpOf raw = some ((v.map offerOf).getD .raises) := by
        cases v <;> simp [sdpOf, hp, hm]
      have hr : repliesTo value peer.candidates s.answered raw =
          if isOffer raw && !s.answered then .sdp value :: peer.candidates.map .candidate else [] := by
        simp [repliesTo, hp, hm]
      exact handleSdp_replied hsdp hr
    | candidate v =>
      have hoffer : isOffer raw = false := by simp [isOffer, sdpOf, hp, hm]
      have hr : repliesTo value peer.candidates s.answered raw = [] := by
        simp [repliesTo, hp, hm, hoffer]
      exact handleCandidate_replied hoffer hr
    | other =>
      have hoffer : isOffer raw = false := by simp [isOffer, sdpOf, hp, hm]
      exact .all [] (List.append_nil _).symm (by simp [repliesTo, hp, hm, requests, hoffer])
        (by simp [settle, hoffer])

/-- Over a run, the replies in the order of what they reply to. -/
theorem exec_replied (value : Str) (h : exec (step peer) s msgs = some t) : ∃ es, t.trace = s.trace ++ es ∧
    requests value es <+: replies value peer.candidates s.answered msgs ∧
    (t.ended = false → requests value es = replies value peer.candidates s.answered msgs) := by
  induction msgs generalizing s with
  | nil =>
    cases h
    exact ⟨[], (List.append_nil _).symm, List.nil_prefix, fun _ => rfl⟩
  | cons raw msgs ih =>
    obtain ⟨u, hu, ht⟩ := exec_cons.mp h
    obtain ⟨-, es, htrace, hpre, hall⟩ := step_replied value hu
    cases hend : u.ended with
    | true =>
      -- The loop has been left: there is nothing more to handle.
      have hstuck (raw : Str) : step peer u raw = none := if_pos hend
      cases msgs with
      | nil =>
        cases ht
        exact ⟨es, htrace, hpre.trans (List.prefix_append _ _), fun hend' => by
          rw [hend] at hend'
          cases hend'⟩
      | cons raw' msgs =>
        obtain ⟨v, hv, -⟩ := exec_cons.mp ht
        rw [hstuck] at hv
        cases hv
    | false =>
      obtain ⟨hreq, hans⟩ := hall hend
      obtain ⟨fs, htrace', hpre', hall'⟩ := ih ht
      rw [hans] at hpre' hall'
      refine ⟨es ++ fs, ?_, ?_, fun hend' => ?_⟩
      · rw [htrace', htrace, List.append_assoc]
      · rw [requests, List.filterMap_append, replies, ← requests, ← requests, hreq]
        exact (List.prefix_append_right_inj _).mpr hpre'
      · rw [requests, List.filterMap_append, replies, ← requests, ← requests, hreq, hall' hend']

-- ---------------------------------------------------------------------------
-- What can be read
-- ---------------------------------------------------------------------------

theorem part_candidateAt {text cand : Str} (h : candidateAt text = some cand) : cand <:+: text := by
  unfold candidateAt at h
  split at h
  · rename_i hp
    obtain ⟨rest, rfl⟩ := hp
    have hdrop : (lit "a=candidate:" ++ rest).drop 12 = rest := rfl
    have hmark : lit "a=candidate:" ++ rest = lit "a=" ++ (lit "candidate:" ++ rest) := rfl
    rw [hdrop] at h
    cases rest with
    | nil => cases h
    | cons c cs =>
      simp only at h
      split at h
      · cases h
        rw [hmark]
        exact ((List.prefix_append_right_inj _).mpr
          (List.cons_prefix_cons.mpr ⟨rfl, List.takeWhile_prefix _⟩)).isInfix.trans
          (List.suffix_append _ _).isInfix
      · cases h
  · cases h

theorem part_findCandidates {k : Nat} {text cand : Str} (h : cand ∈ findCandidates k text) :
    cand <:+: text := by
  have hstep {c : Nat} {cs : Str} (h : cand <:+: cs) : cand <:+: c :: cs :=
    h.trans (List.suffix_cons c cs).isInfix
  fun_induction findCandidates k text with
  | case1 => cases h
  | case2 k c cs ih => exact hstep (ih h)
  | case3 c cs cand' hc ih =>
    rcases List.mem_cons.mp h with rfl | h
    · exact part_candidateAt hc
    · exact hstep (ih h)
  | case4 c cs hc ih => exact hstep (ih h)

theorem legible_replies {candidates : List Str} {answered : Bool} {r : Request}
    (hv : Unpaired value) (hc : ∀ c ∈ candidates, Unpaired c)
    (h : r ∈ replies value candidates answered msgs) : r.Legible := by
  induction msgs generalizing answered with
  | nil => cases h
  | cons raw msgs ih =>
    rcases List.mem_append.mp h with h | h
    · unfold repliesTo at h
      split at h
      · cases h
      · split at h
        · rw [List.mem_singleton.mp h]
          trivial
        · split at h
          · rw [List.mem_singleton.mp h]
            trivial
          · cases h
        · split at h
          · rcases List.mem_cons.mp h with rfl | h
            · exact hv
            · obtain ⟨c, hmem, rfl⟩ := List.mem_map.mp h
              exact hc c hmem
          · cases h
    · exact ih h

theorem unpaired_sdpValue (callType : Str) {sdp setup : Str} {own : LocalIce} (hsdp : Unpaired sdp)
    (hown : extractLocalIce sdp = some own) (hf : Unpaired (U.uppered own.fingerprint))
    (hs : Unpaired setup) : Unpaired (sdpValue U callType sdp own setup) := by
  obtain ⟨hu, hp, -, -⟩ := own_eq hown
  unfold sdpValue
  split
  · exact unpaired_dumps
      (sound_compactValue (unpaired_found hsdp hu) (unpaired_found hsdp hp) hf hs)
  · exact hsdp

/-- Over every run, the other end reads the join of the session, and then the replies in order,
all of them where nothing raised; each names the session, the station and the time, and has
the proof of the account for that time. -/
theorem conversation_read (U : Unicode) (md5 : Bytes → Bytes) (first : Moment) {signal : Signal}
    {sdp : Str} {own : LocalIce} {sent : List (Request × Moment)} (hsignal : signal.Legible)
    (hsdp : Unpaired sdp) (hown : extractLocalIce sdp = some own)
    (hf : Unpaired (U.uppered own.fingerprint)) (hpeer : peer.candidates = own.candidates)
    (h : exec (step peer) init msgs = some s) (hfirst : Sound (.int first.now))
    (hsent : sent.map Prod.fst =
      requests (sdpValue U signal.callType sdp own (lit "active")) s.trace)
    (hmoments : ∀ m ∈ sent, Unpaired (signal.authToken ++ lit "_" ++ m.2.uuid) ∧
      Sound (.int m.2.now)) :
    (∃ d, parseMsg (signal.join first) = some (signal.joinInner first, d)) ∧
    sent.map Prod.fst <+:
      replies (sdpValue U signal.callType sdp own (lit "active")) own.candidates false msgs ∧
    (s.ended = false → sent.map Prod.fst =
      replies (sdpValue U signal.callType sdp own (lit "active")) own.candidates false msgs) ∧
    ∀ m ∈ sent, ∀ text, signal.action3 md5 m.2 m.1 = some text → ∃ account,
      signalingAccount md5 signal.channel signal.userId m.2.now = some account ∧
      parseMsg text = some (signal.inner m.2 account m.1, Signal.data m.2 account m.1) := by
  obtain ⟨es, htrace, hpre, hall⟩ := exec_replied
    (sdpValue U signal.callType sdp own (lit "active")) h
  rw [hpeer] at hpre hall
  obtain rfl : s.trace = es := htrace
  rw [← hsent] at hpre hall
  refine ⟨parseMsg_join hsignal hfirst, hpre, hall, fun m hm text hw => ?_⟩
  have hvalue := unpaired_sdpValue signal.callType hsdp hown hf
    (.of_printable (by decide : Printable (lit "active")))
  have hcands : ∀ c ∈ own.candidates, Unpaired c := by
    intro c hc
    rw [(own_eq hown).2.2.2] at hc
    exact unpaired_part hsdp (part_findCandidates hc)
  have hlegible : m.1.Legible :=
    legible_replies hvalue hcands (hpre.subset (List.mem_map_of_mem hm))
  exact parseMsg_action3 hsignal (hmoments m hm).1 (hmoments m hm).2 hlegible hw

/-- The join is acknowledged, and the call is accepted. -/
def welcomed : List Str :=
  [dumps compact (.obj [(lit "data", .obj [(lit "action", .int 1)])]),
    dumps compact (.obj [(lit "data", .obj [(lit "action", .int 3),
      (lit "dataType", .str (lit "scall")), (lit "data", .obj [(lit "status", .int 200)])])])]

def ownIce : LocalIce :=
  ⟨lit "x1+/", lit "p2", lit "0Aff", [lit "candidate:1 1 udp 9 192.168.1.9 9 typ host"]⟩

def compactSignal : Signal := ⟨lit "s", lit "t", lit "admin", 0, lit "scall", lit "T8N00"⟩

def ownAnswer : Str := sdpValue .plain compactSignal.callType ownSdp ownIce (lit "active")

def ownRequests : List (Request × Moment) :=
  [.call, .ack, .sdp ownAnswer, .candidate (lit "candidate:1 1 udp 9 192.168.1.9 9 typ host")].map
    (·, ⟨1700000000, lit "u"⟩)

theorem conversation_read_compact : ∃ s,
    exec (step ⟨fun _ _ => false, ownIce.candidates⟩) init (welcomed ++ [offered]) = some s ∧
    ownRequests.map Prod.fst = replies ownAnswer ownIce.candidates false (welcomed ++ [offered]) ∧
    ∀ m ∈ ownRequests, ∀ text, compactSignal.action3 id m.2 m.1 = some text → ∃ account,
      signalingAccount id 0 (lit "admin") m.2.now = some account ∧
      parseMsg text = some (compactSignal.inner m.2 account m.1, Signal.data m.2 account m.1) := by
  obtain ⟨s, hs, hend, hsent⟩ : ∃ s,
      exec (step ⟨fun _ _ => false, ownIce.candidates⟩) init (welcomed ++ [offered]) = some s ∧
      s.ended = false ∧ ownRequests.map Prod.fst = requests ownAnswer s.trace := by
    apply Machine.exec_of_check
    decide +kernel
  have hlegible : compactSignal.Legible :=
    ⟨by decide +kernel, by decide +kernel, by decide +kernel, sound_int (by decide)⟩
  have hmoments : ∀ m ∈ ownRequests, Unpaired (compactSignal.authToken ++ lit "_" ++ m.2.uuid) ∧
      Sound (.int m.2.now) := by
    intro m hm
    obtain ⟨r, -, rfl⟩ := List.mem_map.mp hm
    have hmsgid : Unpaired (lit "t" ++ lit "_" ++ lit "u") := by decide +kernel
    have hnow : Sound (.int 1700000000) := sound_int (by decide)
    exact ⟨hmsgid, hnow⟩
  have hread := conversation_read .plain id ⟨1700000000, lit "u"⟩ hlegible
    (by decide +kernel : Unpaired ownSdp) (by decide +kernel : extractLocalIce ownSdp = some ownIce)
    (by decide +kernel) rfl hs (sound_int (by decide)) hsent hmoments
  exact ⟨s, hs, hread.2.2.1 hend, hread.2.2.2⟩

end EufyNvr.Stream.Signaling
