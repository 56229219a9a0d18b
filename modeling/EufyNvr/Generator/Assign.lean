import EufyNvr.Generator.Manifest
import EufyNvr.Lib.Fresh

/-!
# Assigning names

`assign_names` of `gen_go2rtc.py`: a camera whose key is in the registry has
its name there, any other gets the first free one of its slug, the slug with
the channel, and the slug with the channel and a counter. The registry only
grows.
-/

namespace EufyNvr.Generator

open Json

/-- `f"{base}_ch{channel}"` -/
def withChannel (base : Str) (channel : Nat) : Str := base ++ lit "_ch" ++ numeral channel

/-- `f"{base}_ch{channel}_{counter}"` -/
def withCounter (base : Str) (channel counter : Nat) : Str :=
  withChannel base channel ++ lit "_" ++ numeral counter

/-- The loop ends within one try more than there are names in use. -/
def newName (used : List Str) (c : Camera) : Str :=
  let base := slug c.name c.channel
  let candidate := if base ∈ used then withChannel base c.channel else base
  firstFree used (withCounter base c.channel) (used.length + 1) 2 candidate

theorem numeral_injective : Function.Injective numeral := fun m n h => by
  rw [← digitsValue_numeral m, h, digitsValue_numeral]

theorem newName_not_mem (used : List Str) (c : Camera) : newName used c ∉ used :=
  firstFree_not_mem (fun _ _ h => numeral_injective (List.append_cancel_left h))
    (Nat.lt_succ_self _)

theorem isStreamName_withChannel {base : Str} (h : isStreamName base = true) (channel : Nat) :
    isStreamName (withChannel base channel) = true :=
  isStreamName_append (isStreamName_append h (by decide)) fun _ hc => isNameChar_numeral hc

theorem isStreamName_newName (used : List Str) (c : Camera) :
    isStreamName (newName used c) = true := by
  have hslug := isStreamName_slug c.name c.channel
  refine firstFree_rule (P := fun s => isStreamName s = true) ?_ fun k => ?_
  · split
    · exact isStreamName_withChannel hslug _
    · exact hslug
  · exact isStreamName_append (isStreamName_append (isStreamName_withChannel hslug _) (by decide))
      fun _ hc => isNameChar_numeral hc

/-- One turn of the loop of `assign_names`: the name of a camera, and the
registry with it. -/
def assignName (station : Str) (c : Camera) (r : Registry) : Str × Registry :=
  match h : r.names.get? (cameraKey station c) with
  | some name => (name, r)
  | none =>
    (newName r.used c, r.add (cameraKey station c) (newName r.used c)
      (Dict.get?_eq_none.mp h) (isStreamName_newName _ _) (newName_not_mem _ _))

def assignFrom (station : Str) : List Camera → Registry → List (Str × Camera) × Registry
  | [], r => ([], r)
  | c :: cs, r =>
    let p := assignName station c r
    let q := assignFrom station cs p.2
    ((p.1, c) :: q.1, q.2)

def assignNames (m : Manifest) (previous : Registry) : List (Str × Camera) × Registry :=
  assignFrom m.station (m.cameras.insertionSort fun a b => a.channel ≤ b.channel) previous

-- ---------------------------------------------------------------------------
-- The registry grows
-- ---------------------------------------------------------------------------

def Registry.Bound (r : Registry) (key name : Str) : Prop := r.names.get? key = some name

/-- Every binding of `r` is one of `t`. -/
def Registry.Extends (r t : Registry) : Prop := ∀ key name, r.Bound key name → t.Bound key name

theorem Registry.Extends.refl (r : Registry) : r.Extends r := fun _ _ h => h

theorem Registry.Extends.trans {r t u : Registry} (h : r.Extends t) (h' : t.Extends u) :
    r.Extends u := fun key name hb => h' key name (h key name hb)

/-- No name belongs to two keys. -/
theorem Registry.Bound.key_unique {r : Registry} {k l name : Str} (h : r.Bound k name)
    (h' : r.Bound l name) : k = l := by
  have hk := Dict.get?_eq_some.mp h
  have hl := Dict.get?_eq_some.mp h'
  exact congrArg Prod.fst (List.inj_on_of_nodup_map r.distinct hk hl rfl)

theorem assignName_spec (station : Str) (c : Camera) (r : Registry) :
    (assignName station c r).2.Bound (cameraKey station c) (assignName station c r).1 ∧
      r.Extends (assignName station c r).2 ∧ (r.Legible → (assignName station c r).2.Legible) := by
  unfold assignName
  split
  · rename_i name h
    exact ⟨h, .refl r, id⟩
  · rename_i h
    have hkey := Dict.get?_eq_none.mp h
    refine ⟨?_, fun key name hb => ?_, fun hl e he => ?_⟩
    · simp [Registry.Bound, Registry.add, Dict.get?_push]
    · have hne : key ≠ cameraKey station c := by
        rintro rfl
        rw [Registry.Bound, h] at hb
        cases hb
      simpa [Registry.Bound, Registry.add, Dict.get?_push, hne] using hb
    · have he : e ∈ (r.names.push (cameraKey station c) (newName r.used c)).items := he
      rw [Dict.items_push hkey] at he
      rcases List.mem_append.mp he with he | he
      · exact hl e he
      · rw [List.mem_singleton.mp he]
        exact printable_cameraKey station c

theorem assignFrom_spec {station : Str} {cs : List Camera} {r : Registry} :
    r.Extends (assignFrom station cs r).2 ∧ (r.Legible → (assignFrom station cs r).2.Legible) ∧
      ∀ p ∈ (assignFrom station cs r).1,
        p.2 ∈ cs ∧ (assignFrom station cs r).2.Bound (cameraKey station p.2) p.1 := by
  induction cs generalizing r with
  | nil => exact ⟨.refl r, id, nofun⟩
  | cons c cs ih =>
    obtain ⟨hb, hext, hleg⟩ := assignName_spec station c r
    obtain ⟨hext', hleg', hmem⟩ := ih (r := (assignName station c r).2)
    refine ⟨hext.trans hext', hleg' ∘ hleg, fun p hp => ?_⟩
    rcases List.mem_cons.mp hp with rfl | hp
    · exact ⟨by simp, hext' _ _ hb⟩
    · obtain ⟨hc, hbound⟩ := hmem p hp
      exact ⟨by simp [hc], hbound⟩

theorem assignNames_extends (m : Manifest) (r : Registry) : r.Extends (assignNames m r).2 :=
  assignFrom_spec.1

theorem assignNames_legible (m : Manifest) {r : Registry} (h : r.Legible) :
    (assignNames m r).2.Legible := assignFrom_spec.2.1 h

/-- Every camera of the result has the name that its key has in the registry. -/
theorem assignNames_bound {m : Manifest} {r : Registry} {name : Str} {c : Camera}
    (h : (name, c) ∈ (assignNames m r).1) :
    (assignNames m r).2.Bound (cameraKey m.station c) name := (assignFrom_spec.2.2 _ h).2

end EufyNvr.Generator
