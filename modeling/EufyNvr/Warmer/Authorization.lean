import EufyNvr.Endpoint.Host
import EufyNvr.Generator.Config
import EufyNvr.Lib.Base64

/-!
# The token of the warmer

The `Authorization` header of `AdaptiveWarmer`, and how a server reads it. A
server takes the user name to end at the first colon, and both checks of the
credentials accept a user name that has one.
-/

namespace EufyNvr.Warmer

open Json

variable {username password : Str}

/-- `AdaptiveWarmer.headers["Authorization"]`, unless the text cannot be encoded. -/
def authorization (username password : Str) : Option Str :=
  (Utf8.encode (username ++ colon :: password)).map fun b => lit "Basic " ++ Base64.encode b

/-- The credentials that a server finds in the header. -/
def readAuthorization (header : Str) : Option (Str × Str) :=
  if lit "Basic " <+: header then
    (Base64.decode (header.drop 6)).bind fun b => (Utf8.decode b).bind fun s =>
      let p := partition colon s
      if p.separator = [] then none else some (p.before, p.after)
  else none

theorem readAuthorization_authorization (h : Characters (username ++ colon :: password)) :
    (authorization username password).bind readAuthorization =
      let p := partition colon (username ++ colon :: password)
      if p.separator = [] then none else some (p.before, p.after) := by
  obtain ⟨b, hb⟩ := Utf8.encode_of_characters h
  have hbegins : lit "Basic " <+: lit "Basic " ++ Base64.encode b := List.prefix_append _ _
  have hdrop : (lit "Basic " ++ Base64.encode b).drop 6 = Base64.encode b := rfl
  rw [authorization, hb, Option.map_some, Option.bind_some, readAuthorization, if_pos hbegins,
    hdrop, Base64.decode_encode, Option.bind_some, Utf8.decode_encode hb, Option.bind_some]

theorem characters_append : Characters (username ++ colon :: password) ↔
    Characters username ∧ Characters password := by
  have hcolon : isCharacter colon = true := by decide
  simp only [Characters, List.mem_append, List.mem_cons]
  constructor
  · exact fun h => ⟨fun c hc => h c (.inl hc), fun c hc => h c (.inr (.inr hc))⟩
  · rintro ⟨hu, hp⟩ c (hc | rfl | hc)
    · exact hu c hc
    · exact hcolon
    · exact hp c hc

theorem validateCredentials_iff (username password : Str) :
    Generator.validateCredentials username password = .ok (username, password) ↔
      Endpoint.validateCredentials username password = .ok (username, password) := by
  have hcontrol : Generator.isControl = Endpoint.isControl := rfl
  unfold Generator.validateCredentials Endpoint.validateCredentials
  rw [hcontrol]
  split_ifs <;> simp [Generator.reject, Endpoint.reject]

/-- The first colon is the one that was put in, unless the user name has one. -/
theorem partition_credentials (username password : Str) :
    (let p := partition colon (username ++ colon :: password)
      if p.separator = [] then none else some (p.before, p.after)) = some (username, password) ↔
      colon ∉ username := by
  constructor
  · intro h hmem
    obtain ⟨a, b, rfl, ha⟩ := List.eq_append_cons_of_mem hmem
    rw [List.append_assoc, List.cons_append, partition_present ha] at h
    have hlen := congrArg (fun r => (r.getD ([], [])).1.length) h
    simp at hlen
  · intro h
    rw [partition_present h]
    rfl

/-- Both checks accept the same credentials. They authenticate exactly when
they can be encoded and the user name has no colon. -/
theorem credentials_authenticate (username password : Str) :
    (Generator.validateCredentials username password = .ok (username, password) ↔
      Endpoint.validateCredentials username password = .ok (username, password)) ∧
    ((authorization username password).bind readAuthorization = some (username, password) ↔
      colon ∉ username ∧ Characters username ∧ Characters password) := by
  refine ⟨validateCredentials_iff username password, ?_⟩
  by_cases hchars : Characters (username ++ colon :: password)
  · rw [readAuthorization_authorization hchars, partition_credentials]
    exact ⟨fun h => ⟨h, characters_append.mp hchars⟩, And.left⟩
  · have hnone : authorization username password = none := by
      rw [authorization, Utf8.encode_eq_none hchars]
      rfl
    rw [hnone, ← characters_append]
    exact ⟨nofun, fun h => absurd h.2 hchars⟩

/-- A user name with a colon is accepted, and read as a shorter one. -/
theorem credentials_cut :
    Generator.validateCredentials (lit "a:b") (lit "0123456789abcdef") =
      .ok (lit "a:b", lit "0123456789abcdef") ∧
    Endpoint.validateCredentials (lit "a:b") (lit "0123456789abcdef") =
      .ok (lit "a:b", lit "0123456789abcdef") ∧
    (authorization (lit "a:b") (lit "0123456789abcdef")).bind readAuthorization =
      some (lit "a", lit "b:0123456789abcdef") := by
  refine ⟨by decide, by decide, ?_⟩
  have hchars : Characters (lit "a:b" ++ colon :: lit "0123456789abcdef") := by decide
  rw [readAuthorization_authorization hchars]
  decide

end EufyNvr.Warmer
