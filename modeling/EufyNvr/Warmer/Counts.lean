import EufyNvr.Generator.Names

/-!
# Viewers of the streams

`fetch_streams` after the response, `external_consumer_counts` and
`choose_stream` of `eufy_warm.py`, for every payload go2rtc may send. A count is
what the report lists less the controller's own consumer; the choice
is the held stream where it is viewed, else the most viewed one.
-/

namespace EufyNvr.Warmer

open Json
open Generator (lower)

/-- A report of one stream, by the formats of its consumers. -/
def listing (name : Str) (formats : List Str) : Json :=
  .obj [(name, .obj [(lit "consumers",
    .arr (formats.map fun format => .obj [(lit "format_name", .str format)]))])]

def snapshotFormats : List Str := [lit "keyframe", lit "jpeg", lit "mjpeg"]

/-- `name.startswith("eufy_")` -/
def isEufy (name : Str) : Bool := (lit "eufy_").isPrefixOf name

/-- The object of streams of a payload, `none` for the `ValueError`. -/
def streamsOf (payload : Json) : Option (Dict Str Json) :=
  match payload with
  | .obj ms =>
    match get? ms (lit "streams") with
    | some (.obj streams) => some (.ofList streams)
    | _ => some (.ofList ms)
  | _ => none

/-- `info.get("consumers")`, where it is a list. -/
def consumersOf : Json → List Json
  | .obj ms =>
    match get? ms (lit "consumers") with
    | some (.arr consumers) => consumers
    | _ => []
  | _ => []

/-- A consumer other than a snapshot. Only a string can have the text of a
snapshot format. -/
def isLive : Json → Bool
  | .obj ms =>
    match get? ms (lit "format_name") with
    | some (.str s) => s.flatMap lower ∉ snapshotFormats
    | _ => true
  | _ => true

def externalConsumerCounts (streams : Dict Str Json) (warmStream : Option Str)
    (warmerRunning : Bool) : Dict Str Nat :=
  (streams.filter fun e => isEufy e.1).mapValues fun name info =>
    let count := (consumersOf info).countP isLive
    if warmerRunning ∧ warmStream = some name ∧ count ≠ 0 then count - 1 else count

/-- The key `(-counts[name], name)` of the choice, with the order of the
counts reversed. -/
def demand (e : Str × Nat) : Lex (ℕᵒᵈ × Str) := toLex (OrderDual.toDual e.2, e.1)

def chooseStream (counts : Dict Str Nat) (current : Option Str) : Option Str :=
  match counts.items.filter (0 < ·.2) with
  | [] => none
  | active =>
    if current ∈ active.map fun e => some e.1 then current
    else (active.argmin demand).map Prod.fst

example : chooseStream (.ofList [(lit "eufy_shed", 1), (lit "eufy_gate", 2), (lit "eufy_front", 2)])
    none = some (lit "eufy_front") := by decide

-- ---------------------------------------------------------------------------
-- Counts
-- ---------------------------------------------------------------------------

theorem get?_counts {streams : Dict Str Json} {warm : Option Str} {running : Bool} {name : Str}
    {n : Nat} : (externalConsumerCounts streams warm running).get? name = some n ↔
      ∃ info, streams.get? name = some info ∧ isEufy name = true ∧
        (if running = true ∧ warm = some name ∧ (consumersOf info).countP isLive ≠ 0 then
          (consumersOf info).countP isLive - 1 else (consumersOf info).countP isLive) = n := by
  simp only [externalConsumerCounts, Dict.get?_mapValues, Dict.get?_filter, and_assoc]

-- ---------------------------------------------------------------------------
-- The choice
-- ---------------------------------------------------------------------------

variable {counts : Dict Str Nat} {current : Option Str} {name : Str}

/-- The report shows a viewer of the stream. -/
def Viewed (counts : Dict Str Nat) (name : Str) : Prop := ∃ n, counts.get? name = some n ∧ 0 < n

/-- The stream has the most viewers, and the least name among those. -/
def MostViewed (counts : Dict Str Nat) (name : Str) : Prop :=
  ∃ n, counts.get? name = some n ∧ 0 < n ∧
    ∀ other m, counts.get? other = some m → m < n ∨ m = n ∧ name ≤ other

theorem mem_active {e : Str × Nat} :
    e ∈ counts.items.filter (0 < ·.2) ↔ counts.get? e.1 = some e.2 ∧ 0 < e.2 := by
  rw [List.mem_filter, Dict.get?_eq_some, decide_eq_true_eq]

theorem viewed_iff : Viewed counts name ↔
    some name ∈ (counts.items.filter (0 < ·.2)).map fun e => some e.1 := by
  simp only [Viewed, List.mem_map, mem_active, Option.some.injEq]
  constructor
  · rintro ⟨n, hn, hpos⟩
    exact ⟨(name, n), ⟨hn, hpos⟩, rfl⟩
  · rintro ⟨⟨k, n⟩, ⟨hn, hpos⟩, rfl⟩
    exact ⟨n, hn, hpos⟩

theorem chooseStream_eq : chooseStream counts current =
    if current ∈ (counts.items.filter (0 < ·.2)).map fun e => some e.1 then current
    else ((counts.items.filter (0 < ·.2)).argmin demand).map Prod.fst := by
  unfold chooseStream
  split
  · rename_i h
    simp [h]
  · rfl

theorem chooseStream_none :
    chooseStream counts current = none ↔ ∀ name, ¬ Viewed counts name := by
  rw [chooseStream_eq]
  constructor
  · intro h name hv
    split at h
    · rename_i hm
      obtain ⟨e, -, he⟩ := List.mem_map.mp hm
      rw [← he] at h
      cases h
    · rw [Option.map_eq_none_iff, List.argmin_eq_none] at h
      rw [viewed_iff, h] at hv
      cases hv
  · intro h
    have hnil : counts.items.filter (0 < ·.2) = [] := by
      rw [List.eq_nil_iff_forall_not_mem]
      intro e he
      exact h e.1 ⟨e.2, (mem_active.mp he).1, (mem_active.mp he).2⟩
    simp [hnil]

theorem chooseStream_some (h : chooseStream counts current = some name) :
    current = some name ∧ Viewed counts name ∨
      (∀ held, current = some held → ¬ Viewed counts held) ∧ MostViewed counts name := by
  rw [chooseStream_eq] at h
  split at h
  · rename_i hm
    subst h
    exact .inl ⟨rfl, viewed_iff.mpr hm⟩
  · rename_i hm
    refine .inr ⟨fun held hheld hv => hm (hheld ▸ viewed_iff.mp hv), ?_⟩
    obtain ⟨⟨k, n⟩, hmin, rfl⟩ := Option.map_eq_some_iff.mp h
    obtain ⟨hn, hpos⟩ := mem_active.mp (List.argmin_mem hmin)
    refine ⟨n, hn, hpos, fun other m hother => ?_⟩
    rcases Nat.eq_zero_or_pos m with rfl | hm
    · exact .inl hpos
    · have hmem : (other, m) ∈ counts.items.filter (0 < ·.2) := mem_active.mpr ⟨hother, hm⟩
      rcases Prod.Lex.le_iff.mp (List.le_of_mem_argmin hmem hmin) with hlt | ⟨heq, hname⟩
      · exact .inl hlt
      · exact .inr ⟨heq.symm, hname⟩

end EufyNvr.Warmer
