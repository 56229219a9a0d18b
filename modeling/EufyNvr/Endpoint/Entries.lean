import EufyNvr.Endpoint.Reauth
import EufyNvr.Lib.Machine

/-!
# Config entries

The flows of `config_flow.py` over the entries that there are, and the check
with which `async_setup_entry` begins. Between two submitted forms the
instances may answer anything. No two entries come to share an endpoint, and
what a flow has stored is in order.

The methods of Home Assistant's flows are taken at their documented effect:
`async_set_unique_id` aborts a flow whose id another flow has under way,
`_abort_if_unique_id_configured` one whose id an entry has, and
`async_create_entry` and `async_update_reload_and_abort` store what they are
given.
-/

namespace EufyNvr.Endpoint

open Json Machine

/-- The data of an entry. In entries of earlier versions some may be missing. -/
structure Data where
  host : Option Str
  apiPort : Option Int
  rtspPort : Option Int
  username : Option Str
  password : Option Str
  deriving DecidableEq

structure ConfigEntry where
  entryId : Nat
  uniqueId : Option Str
  title : Str
  data : Data
  deriving DecidableEq

inductive StepResult
  | form (error : Option String)
  | created
  | updated
  | aborted
  | raised
  deriving DecidableEq

/-- What a flow finds: the answers of the instances, the internal URL, and
whether another flow for an id is under way. -/
structure Around where
  answers : Instances
  internalUrl : Option Str
  inProgress : Str → Bool

/-- `f"{host}:{api_port}"` -/
def uniqueIdOf (host : Str) (port : Int) : Str := host ++ colon :: intText port

def titleOf (host : Str) : Str := lit "Eufy NVR (" ++ host ++ lit ")"

def Entry.data (input : Entry) (host : Str) : Data :=
  ⟨some host, some input.apiPort, some input.rtspPort, some input.username, some input.password⟩

def failed : FlowError → StepResult
  | .invalidEndpoint => .form (some "invalid_endpoint")
  | .cannotConnect => .form (some "cannot_connect")
  | .wrongInstance => .form (some "wrong_instance")
  | .noStreams => .form (some "no_streams")
  | .uncaught => .raised

section

variable (L : Libraries)

/-- The endpoint by which an entry is compared with others. -/
def ConfigEntry.endpoint (e : ConfigEntry) : Option (Str × Int) := do
  let host ← (normalizeHost L.mixed L.unicode (← e.data.host)).toOption
  let port ← (validatePort (← e.data.apiPort)).toOption
  return (host, port)

/-- `_endpoint_in_use` -/
def endpointInUse (entries : List ConfigEntry) (host : Str) (port : Int) (exclude : Option Nat) :
    Bool :=
  entries.any fun e => decide (some e.entryId ≠ exclude ∧ e.endpoint L = some (host, port))

/-- The checks that `async_step_user` and `async_step_reconfigure` make of
their input. -/
def checkForm (a : Around) (input : Entry) : Except FlowError Str :=
  match validatePort input.rtspPort with
  | .error _ => .error .invalidEndpoint
  | .ok _ => (validateGo2rtc L a.answers a.internalUrl input.host input.apiPort input.username
      input.password).2.map Prod.fst

def asyncStepUser (a : Around) (newId : Nat) (entries : List ConfigEntry) :
    Option Entry → List ConfigEntry × StepResult
  | none => (entries, .form none)
  | some input =>
    match checkForm L a input with
    | .error e => (entries, failed e)
    | .ok host =>
      if endpointInUse L entries host input.apiPort none then (entries, .aborted)
      -- `async_set_unique_id`, and `_abort_if_unique_id_configured`
      else if a.inProgress (uniqueIdOf host input.apiPort) then (entries, .aborted)
      else if entries.any fun e => decide (e.uniqueId = some (uniqueIdOf host input.apiPort)) then
        (entries, .aborted)
      else (entries ++ [⟨newId, some (uniqueIdOf host input.apiPort), titleOf host,
        input.data host⟩], .created)

/-- `async_update_reload_and_abort` -/
def updateEntry (entries : List ConfigEntry) (id : Nat) (f : ConfigEntry → ConfigEntry) :
    List ConfigEntry := entries.map fun e => if e.entryId = id then f e else e

def asyncStepReconfigure (a : Around) (entry : ConfigEntry) (entries : List ConfigEntry) :
    Option Entry → List ConfigEntry × StepResult
  | none => (entries, .form none)
  | some input =>
    match checkForm L a input with
    | .error e => (entries, failed e)
    | .ok host =>
      if endpointInUse L entries host input.apiPort (some entry.entryId) then (entries, .aborted)
      else if a.inProgress (uniqueIdOf host input.apiPort) then (entries, .aborted)
      else if entries.any fun e => decide (e.uniqueId = some (uniqueIdOf host input.apiPort) ∧
          e.entryId ≠ entry.entryId) then (entries, .aborted)
      else (updateEntry entries entry.entryId fun e =>
        ⟨e.entryId, some (uniqueIdOf host input.apiPort), titleOf host, input.data host⟩, .updated)

def ConfigEntry.withCredentials (username password : Str) (e : ConfigEntry) : ConfigEntry :=
  { e with data := { e.data with username := some username, password := some password } }

/-- A host or a port that is missing is a `KeyError`, which nothing catches. -/
def asyncStepReauthConfirm (a : Around) (entry : ConfigEntry) (entries : List ConfigEntry) :
    Option (Str × Str) → List ConfigEntry × StepResult
  | none => (entries, .form none)
  | some (username, password) =>
    match entry.data.host, entry.data.apiPort with
    | some host, some apiPort =>
      match (validateGo2rtc L a.answers a.internalUrl host apiPort username password).2 with
      | .error e => (entries, failed e)
      | .ok _ => (updateEntry entries entry.entryId (·.withCredentials username password), .updated)
    | _, _ => (entries, .raised)

/-- The credentials with which `async_setup_entry` asks for new ones. -/
def ConfigEntry.authFails (e : ConfigEntry) : Bool :=
  !(validateCredentials (e.data.username.getD []) (e.data.password.getD [])).isOk

/-- What is submitted, or that an entry is removed. -/
inductive Flow
  | user (newId : Nat) (input : Option Entry)
  | reconfigure (id : Nat) (input : Option Entry)
  | reauth (id : Nat) (input : Option (Str × Str))
  | remove (id : Nat)

/-- A flow is for an entry that there is, and a new entry has an id of its own. -/
def flowStep (entries : List ConfigEntry) (l : Around × Flow) : Option (List ConfigEntry) :=
  match l.2 with
  | .user newId input =>
    if entries.any (·.entryId = newId) then none
    else some (asyncStepUser L l.1 newId entries input).1
  | .reconfigure id input =>
    (entries.find? (·.entryId = id)).map fun e => (asyncStepReconfigure L l.1 e entries input).1
  | .reauth id input =>
    (entries.find? (·.entryId = id)).map fun e => (asyncStepReauthConfirm L l.1 e entries input).1
  | .remove id => some (entries.filter (·.entryId ≠ id))

-- ---------------------------------------------------------------------------
-- What is kept
-- ---------------------------------------------------------------------------

/-- Two entries that do not name the same thing. -/
structure Apart (e f : ConfigEntry) : Prop where
  entryId : e.entryId ≠ f.entryId
  uniqueId : ∀ u, e.uniqueId = some u → f.uniqueId ≠ some u
  endpoint : ∀ p, e.endpoint L = some p → f.endpoint L ≠ some p

def Distinct (entries : List ConfigEntry) : Prop := entries.Pairwise (Apart L)

/-- An entry as a flow leaves it. Its host is the canonical one. -/
structure Settled (e : ConfigEntry) : Prop where
  named : ∃ host port, e.endpoint L = some (host, port) ∧ e.data.host = some host ∧
    e.data.apiPort = some port ∧ e.uniqueId = some (uniqueIdOf host port) ∧ e.title = titleOf host
  rtspPort : ∃ port, e.data.rtspPort = some port ∧ validatePort port = .ok port
  credentials : e.authFails = false

/-- An entry that only a reauthentication may have changed. -/
structure Inherited (e₀ e : ConfigEntry) : Prop where
  entryId : e.entryId = e₀.entryId
  uniqueId : e.uniqueId = e₀.uniqueId
  title : e.title = e₀.title
  host : e.data.host = e₀.data.host
  apiPort : e.data.apiPort = e₀.data.apiPort
  rtspPort : e.data.rtspPort = e₀.data.rtspPort
  credentials : e.data = e₀.data ∨ e.authFails = false

end

variable {L : Libraries} {entries s start : List ConfigEntry} {e f e₀ : ConfigEntry} {a : Around}
  {input : Entry} {host username password : Str} {apiPort port : Int} {id : Nat}
  {exclude : Option Nat}

-- ---------------------------------------------------------------------------
-- The checks
-- ---------------------------------------------------------------------------

theorem probeAll_ok {answers : Instances} {k count : Nat} {error : Option FlowError}
    {hosts : List Str}
    (h : (probeAll L answers apiPort username password k error hosts).2 = .ok (host, count)) :
    ∃ candidate own, Client.init L candidate apiPort username password = .ok own ∧
      own.host = host := by
  induction hosts generalizing k error with
  | nil => cases h
  | cons candidate hosts ih =>
    cases hown : Client.init L candidate apiPort username password with
    | error _ =>
      rw [probeAll_uncaught hown] at h
      cases h
    | ok own =>
      cases hlists : (answers k own.request).listsEufy with
      | true =>
        obtain ⟨_, hprobe⟩ := probeAll_lists error hosts hown hlists
        rw [hprobe] at h
        cases h
        exact ⟨candidate, own, hown, rfl⟩
      | false =>
        obtain ⟨_, hprobe⟩ := probeAll_continues error hosts hown hlists
        rw [hprobe] at h
        exact ih h

theorem validatePort_eq {p : Int} (h : validatePort port = .ok p) : validatePort port = .ok port := by
  unfold validatePort at h ⊢
  split at h
  · rename_i hport
    exact if_pos hport
  · cases h

/-- What the probes leave of the input. -/
structure Checks (L : Libraries) (host : Str) (apiPort : Int) (username password : Str) : Prop where
  host : normalizeHost L.mixed L.unicode host = .ok host
  apiPort : validatePort apiPort = .ok apiPort
  credentials : (validateCredentials username password).isOk = true

theorem checks_of_validate {answers : Instances} {internalUrl : Option Str} {given : Str}
    {count : Nat} (h : (validateGo2rtc L answers internalUrl given apiPort username password).2 =
      .ok (host, count)) : Checks L host apiPort username password := by
  unfold validateGo2rtc at h
  split at h
  · cases h
  · obtain ⟨candidate, own, hown, rfl⟩ := probeAll_ok h
    have hmade := made_of_init hown
    obtain ⟨_, -, hrest⟩ := bind_ok.mp hmade.input
    obtain ⟨_, hport, hrest⟩ := bind_ok.mp hrest
    obtain ⟨_, hcredentials, -⟩ := bind_ok.mp hrest
    exact ⟨normalizeHost_of_form (normalizeHost_form hmade.normalized), validatePort_eq hport,
      by rw [hcredentials]; rfl⟩

theorem checks_of_checkForm (h : checkForm L a input = .ok host) :
    Checks L host input.apiPort input.username input.password ∧
      validatePort input.rtspPort = .ok input.rtspPort := by
  unfold checkForm at h
  split at h
  · cases h
  · rename_i hport
    cases hv : (validateGo2rtc L a.answers a.internalUrl input.host input.apiPort input.username
        input.password).2 with
    | error _ =>
      rw [hv] at h
      cases h
    | ok r =>
      rw [hv] at h
      cases h
      exact ⟨checks_of_validate hv, validatePort_eq hport⟩

theorem Checks.endpoint (h : Checks L host apiPort username password)
    (hhost : e.data.host = some host) (hport : e.data.apiPort = some apiPort) :
    e.endpoint L = some (host, apiPort) := by
  simp [ConfigEntry.endpoint, hhost, hport, h.host, h.apiPort, Except.toOption]

/-- What `async_step_user` stores, and `async_step_reconfigure`. -/
theorem settled_of_checkForm (h : checkForm L a input = .ok host) :
    Settled L ⟨id, some (uniqueIdOf host input.apiPort), titleOf host, input.data host⟩ := by
  obtain ⟨hchecks, hrtsp⟩ := checks_of_checkForm h
  exact ⟨⟨host, input.apiPort, hchecks.endpoint rfl rfl, rfl, rfl, rfl, rfl⟩,
    ⟨input.rtspPort, rfl, hrtsp⟩, by
      rw [ConfigEntry.authFails]
      exact congrArg not hchecks.credentials⟩

-- ---------------------------------------------------------------------------
-- Entries apart
-- ---------------------------------------------------------------------------

theorem Apart.symm (h : Apart L e f) : Apart L f e :=
  ⟨h.entryId.symm, fun u hf he => h.uniqueId u he hf, fun p hf he => h.endpoint p he hf⟩

/-- The searches of a flow have found nothing. -/
theorem apart_of_checks {data : Data} {newId : Nat}
    (hchecks : Checks L host apiPort username password) (hhost : data.host = some host)
    (hport : data.apiPort = some apiPort) (hid : e.entryId ≠ newId)
    (huse : e.endpoint L ≠ some (host, apiPort))
    (hunique : e.uniqueId ≠ some (uniqueIdOf host apiPort)) :
    Apart L e ⟨newId, some (uniqueIdOf host apiPort), titleOf host, data⟩ := by
  refine ⟨hid, fun u he hf => ?_, fun p he hf => ?_⟩
  · cases hf
    exact hunique he
  · rw [hchecks.endpoint hhost hport] at hf
    cases hf
    exact huse he

theorem endpoint_of_not_inUse (h : endpointInUse L entries host port exclude = false)
    (he : e ∈ entries) (hid : some e.entryId ≠ exclude) : e.endpoint L ≠ some (host, port) :=
  fun hp => by
    have := List.any_eq_false.mp h e he
    exact this (decide_eq_true ⟨hid, hp⟩)

theorem Distinct.snoc (h : Distinct L entries) (hf : ∀ e ∈ entries, Apart L e f) :
    Distinct L (entries ++ [f]) := by
  refine List.pairwise_append.mpr ⟨h, List.pairwise_singleton _ _, fun e he g hg => ?_⟩
  obtain rfl := List.mem_singleton.mp hg
  exact hf e he

theorem Distinct.update {g : ConfigEntry → ConfigEntry} (h : Distinct L entries)
    (hg : ∀ e, e.entryId = id → ∀ f ∈ entries, f.entryId ≠ id → Apart L f (g e)) :
    Distinct L (updateEntry entries id g) := by
  rw [Distinct, updateEntry, List.pairwise_map]
  refine List.Pairwise.imp_of_mem (fun {e f} he hf hap => ?_) h
  by_cases hid : e.entryId = id
  · have hid' : f.entryId ≠ id := fun hid' => hap.entryId (hid.trans hid'.symm)
    rw [if_pos hid, if_neg hid']
    exact (hg e hid f hf hid').symm
  · rw [if_neg hid]
    split
    · rename_i hid'
      exact hg f hid' e he hid
    · exact hap

-- ---------------------------------------------------------------------------
-- The steps
-- ---------------------------------------------------------------------------

theorem asyncStepUser_cases (L : Libraries) (a : Around) (newId : Nat)
    (entries : List ConfigEntry) (input : Option Entry) :
    (asyncStepUser L a newId entries input).1 = entries ∨
      ∃ given host, checkForm L a given = .ok host ∧
        endpointInUse L entries host given.apiPort none = false ∧
        (∀ e ∈ entries, e.uniqueId ≠ some (uniqueIdOf host given.apiPort)) ∧
        (asyncStepUser L a newId entries input).1 = entries ++
          [⟨newId, some (uniqueIdOf host given.apiPort), titleOf host, given.data host⟩] := by
  cases input with
  | none => exact .inl rfl
  | some given =>
    rw [asyncStepUser]
    cases hform : checkForm L a given with
    | error _ => exact .inl rfl
    | ok host =>
      dsimp only
      split
      · exact .inl rfl
      · rename_i huse
        split
        · exact .inl rfl
        · split
          · exact .inl rfl
          · rename_i hunique
            refine .inr ⟨given, host, hform, eq_false_of_ne_true huse, fun e he heq => ?_, rfl⟩
            exact hunique (List.any_eq_true.mpr ⟨e, he, decide_eq_true heq⟩)

theorem asyncStepReconfigure_cases (L : Libraries) (a : Around) (entry : ConfigEntry)
    (entries : List ConfigEntry) (input : Option Entry) :
    (asyncStepReconfigure L a entry entries input).1 = entries ∨
      ∃ given host, checkForm L a given = .ok host ∧
        endpointInUse L entries host given.apiPort (some entry.entryId) = false ∧
        (∀ e ∈ entries, e.entryId ≠ entry.entryId →
          e.uniqueId ≠ some (uniqueIdOf host given.apiPort)) ∧
        (asyncStepReconfigure L a entry entries input).1 = updateEntry entries entry.entryId
          fun e => ⟨e.entryId, some (uniqueIdOf host given.apiPort), titleOf host,
            given.data host⟩ := by
  cases input with
  | none => exact .inl rfl
  | some given =>
    rw [asyncStepReconfigure]
    cases hform : checkForm L a given with
    | error _ => exact .inl rfl
    | ok host =>
      dsimp only
      split
      · exact .inl rfl
      · rename_i huse
        split
        · exact .inl rfl
        · split
          · exact .inl rfl
          · rename_i hunique
            refine .inr ⟨given, host, hform, eq_false_of_ne_true huse, fun e he hid heq => ?_, rfl⟩
            exact hunique (List.any_eq_true.mpr ⟨e, he, decide_eq_true ⟨heq, hid⟩⟩)

theorem asyncStepReauthConfirm_cases (L : Libraries) (a : Around) (entry : ConfigEntry)
    (entries : List ConfigEntry) (input : Option (Str × Str)) :
    (asyncStepReauthConfirm L a entry entries input).1 = entries ∨
      ∃ username password, (validateCredentials username password).isOk = true ∧
        (asyncStepReauthConfirm L a entry entries input).1 =
          updateEntry entries entry.entryId (·.withCredentials username password) := by
  cases input with
  | none => exact .inl rfl
  | some given =>
    obtain ⟨username, password⟩ := given
    unfold asyncStepReauthConfirm
    dsimp only
    split
    · rename_i host apiPort _ _
      cases hv : (validateGo2rtc L a.answers a.internalUrl host apiPort username password).2 with
      | error _ => exact .inl rfl
      | ok r => exact .inr ⟨username, password, (checks_of_validate hv).credentials, rfl⟩
    · exact .inl rfl

/-- The new credentials are in order, and the rest is as it was. -/
theorem inherited_withCredentials (h : (validateCredentials username password).isOk = true)
    (he : Inherited e₀ e) : Inherited e₀ (e.withCredentials username password) :=
  ⟨he.entryId, he.uniqueId, he.title, he.host, he.apiPort, he.rtspPort, .inr (congrArg not h)⟩

theorem settled_withCredentials (h : (validateCredentials username password).isOk = true)
    (he : Settled L e) : Settled L (e.withCredentials username password) :=
  ⟨he.named, he.rtspPort, congrArg not h⟩

theorem Distinct.withCredentials (h : Distinct L entries) :
    Distinct L (updateEntry entries id (·.withCredentials username password)) := by
  rw [Distinct, updateEntry, List.pairwise_map]
  refine List.Pairwise.imp (fun {e f} hap => ?_) h
  split <;> split <;> exact ⟨hap.entryId, hap.uniqueId, hap.endpoint⟩

/-- What a step of a flow makes of the entries. -/
inductive FlowMove (L : Libraries) (entries : List ConfigEntry) : List ConfigEntry → Prop
  | unchanged : FlowMove L entries entries
  | added {newId : Nat} {a : Around} {given : Entry} {host : Str} :
      (∀ e ∈ entries, e.entryId ≠ newId) → checkForm L a given = .ok host →
      endpointInUse L entries host given.apiPort none = false →
      (∀ e ∈ entries, e.uniqueId ≠ some (uniqueIdOf host given.apiPort)) →
      FlowMove L entries (entries ++
        [⟨newId, some (uniqueIdOf host given.apiPort), titleOf host, given.data host⟩])
  | replaced {id : Nat} {a : Around} {given : Entry} {host : Str} :
      checkForm L a given = .ok host →
      endpointInUse L entries host given.apiPort (some id) = false →
      (∀ e ∈ entries, e.entryId ≠ id → e.uniqueId ≠ some (uniqueIdOf host given.apiPort)) →
      FlowMove L entries (updateEntry entries id fun e =>
        ⟨e.entryId, some (uniqueIdOf host given.apiPort), titleOf host, given.data host⟩)
  | renewed {id : Nat} {username password : Str} :
      (validateCredentials username password).isOk = true →
      FlowMove L entries (updateEntry entries id (·.withCredentials username password))
  | removed {id : Nat} : FlowMove L entries (entries.filter (·.entryId ≠ id))

theorem flowStep_move {l : Around × Flow} (h : flowStep L entries l = some s) :
    FlowMove L entries s := by
  obtain ⟨a, flow⟩ := l
  cases flow with
  | user newId input =>
    simp only [flowStep] at h
    split at h
    · cases h
    · rename_i hnew
      cases h
      obtain hsame | ⟨given, host, hform, huse, hunique, hs⟩ :=
        asyncStepUser_cases L a newId entries input
      · rw [hsame]
        exact .unchanged
      · rw [hs]
        exact .added (fun e he hid => hnew (List.any_eq_true.mpr ⟨e, he, decide_eq_true hid⟩)) hform
          huse hunique
  | reconfigure id input =>
    obtain ⟨entry, -, rfl⟩ := Option.map_eq_some_iff.mp h
    obtain hsame | ⟨given, host, hform, huse, hunique, hs⟩ :=
      asyncStepReconfigure_cases L a entry entries input
    · rw [hsame]
      exact .unchanged
    · rw [hs]
      exact .replaced hform huse hunique
  | reauth id input =>
    obtain ⟨entry, -, rfl⟩ := Option.map_eq_some_iff.mp h
    obtain hsame | ⟨username, password, hcredentials, hs⟩ :=
      asyncStepReauthConfirm_cases L a entry entries input
    · rw [hsame]
      exact .unchanged
    · rw [hs]
      exact .renewed hcredentials
  | remove id =>
    cases h
    exact .removed

theorem FlowMove.distinct (hm : FlowMove L entries s) (h : Distinct L entries) : Distinct L s := by
  cases hm with
  | unchanged => exact h
  | added hnew hform huse hunique =>
    refine h.snoc fun e he => ?_
    have hendpoint := endpoint_of_not_inUse huse he (Option.some_ne_none _)
    exact apart_of_checks (checks_of_checkForm hform).1 rfl rfl (hnew e he) hendpoint (hunique e he)
  | replaced hform huse hunique =>
    refine h.update fun e hid f hf hne => ?_
    have hendpoint := endpoint_of_not_inUse huse hf fun heq => hne (Option.some.inj heq)
    exact apart_of_checks (checks_of_checkForm hform).1 rfl rfl (hid ▸ hne) hendpoint
      (hunique f hf hne)
  | renewed => exact h.withCredentials
  | removed => exact List.Pairwise.filter _ h

/-- Every entry is as a flow leaves it, or was there at the start. -/
def Accounted (L : Libraries) (start entries : List ConfigEntry) : Prop :=
  ∀ e ∈ entries, Settled L e ∨ ∃ e₀ ∈ start, Inherited e₀ e

theorem Accounted.update (h : Accounted L start entries) {g : ConfigEntry → ConfigEntry}
    (hg : ∀ e ∈ entries, Settled L (g e) ∨ ∃ e₀ ∈ start, Inherited e₀ (g e)) :
    Accounted L start (updateEntry entries id g) := by
  intro e he
  obtain ⟨f, hf, rfl⟩ := List.mem_map.mp he
  split
  · exact hg f hf
  · exact h f hf

theorem FlowMove.accounted (hm : FlowMove L entries s) (h : Accounted L start entries) :
    Accounted L start s := by
  cases hm with
  | unchanged => exact h
  | added _ hform =>
    exact List.forall_mem_append.mpr ⟨h, List.forall_mem_singleton.mpr
      (.inl (settled_of_checkForm hform))⟩
  | replaced hform => exact h.update fun e _ => .inl (settled_of_checkForm hform)
  | renewed hcredentials =>
    refine h.update fun e he => ?_
    rcases h e he with hsettled | ⟨e₀, he₀, hinherited⟩
    · exact .inl (settled_withCredentials hcredentials hsettled)
    · exact .inr ⟨e₀, he₀, inherited_withCredentials hcredentials hinherited⟩
  | removed => exact fun e he => h e (List.mem_of_mem_filter he)

/-- Whatever entries there are at the start. -/
theorem entries_accounted {ls : List (Around × Flow)} (h : exec (flowStep L) start ls = some s) :
    Accounted L start s := by
  have hstart : Accounted L start start :=
    fun e he => .inr ⟨e, he, rfl, rfl, rfl, rfl, rfl, rfl, .inl rfl⟩
  exact invariant (fun _ _ _ hs hstep => (flowStep_move hstep).accounted hs) hstart h

/-- Whatever is submitted, and whatever the instances answer, no two entries
come to share an id or an endpoint. An entry is as a flow leaves it, or it has
been there from the start and at most its credentials are new. -/
theorem entries_consistent {ls : List (Around × Flow)} (hstart : Distinct L start)
    (h : exec (flowStep L) start ls = some s) :
    Distinct L s ∧ ∀ e ∈ s, Settled L e ∨ ∃ e₀ ∈ start, Inherited e₀ e :=
  ⟨invariant (fun _ _ _ hs hstep => (flowStep_move hstep).distinct hs) hstart h,
    entries_accounted h⟩

/-- An entry without credentials, under an id of its own. -/
def earlierEntry : ConfigEntry :=
  ⟨0, some (lit "nvr"), lit "NVR", some (lit "HomeAssistant.local."), some 1985, some 8556, none, none⟩

def listsOne : Around :=
  ⟨fun _ _ => .payload (.obj [(lit "eufy_ch0", .obj [])]), none, fun _ => false⟩

/-- The same instance is refused, another one is added, and the earlier entry
gets its credentials. -/
def addAndRenew : List (Around × Flow) :=
  [(listsOne, .user 1 (some ⟨lit "homeassistant.local", 1985, 8556, lit "eufy",
      lit "sixteen-or-more!"⟩)),
    (listsOne, .user 2 (some ⟨lit " NVR.example ", 1985, 8554, lit "eufy",
      lit "sixteen-or-more!"⟩)),
    (listsOne, .reauth 0 (some renewed))]

def addedEntry : ConfigEntry :=
  ⟨2, some (lit "nvr.example:1985"), lit "Eufy NVR (nvr.example)", some (lit "nvr.example"),
    some 1985, some 8554, some (lit "eufy"), some (lit "sixteen-or-more!")⟩

theorem entries_consistent_renewed :
    Distinct plainLibraries [earlierEntry.withCredentials renewed.1 renewed.2, addedEntry] ∧
      ∀ e ∈ [earlierEntry.withCredentials renewed.1 renewed.2, addedEntry],
        Settled plainLibraries e ∨ ∃ e₀ ∈ [earlierEntry], Inherited e₀ e := by
  have hrun : exec (flowStep plainLibraries) [earlierEntry] addAndRenew =
      some [earlierEntry.withCredentials renewed.1 renewed.2, addedEntry] := by decide +kernel
  exact entries_consistent (List.pairwise_singleton _ _) hrun

end EufyNvr.Endpoint
