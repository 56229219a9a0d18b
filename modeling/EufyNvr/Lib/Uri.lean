import EufyNvr.Lib.Percent
import EufyNvr.Lib.Url

/-!
# The generic syntax

A URL with user info, a host, a port and one path segment, split by the
generic syntax and then decoded part by part.
-/

namespace EufyNvr.Uri

open Json Url

variable {s t : Str} {c : Nat}

structure Parts where
  scheme : Str
  user : Str
  password : Str
  host : Str
  port : Int
  segment : Str
  deriving DecidableEq

def portNumber (s : Str) : Option Int :=
  if s ≠ [] ∧ s.all isDigit = true then some (digitsValue s : Int) else none

/-- The host, without its brackets, and the port. -/
def splitHost (s : Str) : Option (Str × Int) :=
  if s.head? = some lbracket then
    let p := partition rbracket s.tail
    if p.after.head? = some colon then (portNumber p.after.tail).map (p.before, ·) else none
  else
    let p := partition colon s
    (portNumber p.after).map (p.before, ·)

/-- What stands before the path, where there is user info. -/
def splitAuthority (s : Str) : Option (Str × Str × Str × Int) := do
  let info := rpartition atSign s
  let user := partition colon info.before
  if info.separator = [] ∨ user.separator = [] then none
  else
    let (host, port) ← splitHost info.after
    return (user.before, user.after, host, port)

def split (url : Str) : Option Parts := do
  let p := partition colon url
  if p.after.take 2 ≠ [slash, slash] then none
  else
    let (authority, path) := splitNetloc (p.after.drop 2)
    if path.head? ≠ some slash ∨ path.tail.any isDelimiter = true then none
    else
      let (user, password, host, port) ← splitAuthority authority
      return ⟨p.before, ← Percent.decode user, ← Percent.decode password, ← Percent.decode host,
        port, ← Percent.decode path.tail⟩

theorem portNumber_numeral (n : Nat) : portNumber (numeral n) = some (n : Int) := by
  have hne : numeral n ≠ [] := by
    obtain ⟨d, ds, h, -⟩ := numeral_cons n
    simp [h]
  have hall : (numeral n).all isDigit = true := List.all_eq_true.mpr fun c hc => isDigit_numeral hc
  rw [portNumber, if_pos ⟨hne, hall⟩, digitsValue_numeral]

theorem splitHost_plain {host port : Str} {n : Int} (hbracket : host.head? ≠ some lbracket)
    (hne : host ≠ []) (hcolon : colon ∉ host) (hport : portNumber port = some n) :
    splitHost (host ++ colon :: port) = some (host, n) := by
  have hhead : (host ++ colon :: port).head? ≠ some lbracket := by
    rwa [List.head?_append_of_ne_nil host hne]
  rw [splitHost, if_neg hhead, partition_present hcolon]
  simp [hport]

theorem splitHost_bracketed {host port : Str} {n : Int} (hbracket : rbracket ∉ host)
    (hport : portNumber port = some n) :
    splitHost (lbracket :: (host ++ rbracket :: colon :: port)) = some (host, n) := by
  rw [splitHost, List.head?_cons, if_pos rfl, List.tail_cons, partition_present hbracket]
  simp [hport]

theorem splitAuthority_append {user password hostport host : Str} {port : Int}
    (huser : colon ∉ user) (hat : atSign ∉ hostport)
    (hhost : splitHost hostport = some (host, port)) :
    splitAuthority (user ++ colon :: (password ++ atSign :: hostport)) =
      some (user, password, host, port) := by
  have hinfo : rpartition atSign (user ++ colon :: (password ++ atSign :: hostport)) =
      ⟨user ++ colon :: password, [atSign], hostport⟩ := by
    have happend : user ++ colon :: (password ++ atSign :: hostport) =
        (user ++ colon :: password) ++ atSign :: hostport := by simp
    rw [happend, rpartition_present hat]
  rw [splitAuthority, hinfo]
  simp [partition_present huser, hhost]

theorem split_append {scheme authority segment user password host stream : Str}
    {user' password' host' : Str} {port : Int} (hscheme : colon ∉ scheme)
    (hauthority : ∀ c ∈ authority, isDelimiter c = false)
    (hsegment : ∀ c ∈ segment, isDelimiter c = false)
    (hsplit : splitAuthority authority = some (user', password', host', port))
    (huser : Percent.decode user' = some user)
    (hpassword : Percent.decode password' = some password)
    (hhost : Percent.decode host' = some host) (hstream : Percent.decode segment = some stream) :
    split (scheme ++ colon :: ([slash, slash] ++ (authority ++ slash :: segment))) =
      some ⟨scheme, user, password, host, port, stream⟩ := by
  have hnetloc : splitNetloc (authority ++ slash :: segment) = (authority, slash :: segment) :=
    splitNetloc_append hauthority rfl
  have hany : segment.any isDelimiter = false :=
    List.any_eq_false.mpr fun c hc => by simp [hsegment c hc]
  rw [split, partition_present hscheme]
  simp [hnetloc, hany, hsplit, huser, hpassword, hhost, hstream]

end EufyNvr.Uri
