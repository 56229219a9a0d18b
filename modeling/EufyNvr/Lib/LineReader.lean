import EufyNvr.Basic

/-!
# Lines within a limit

A stream that comes in chunks, and a reader that takes a line of it at a
time. A line over the limit is dropped: with its end where that has come, and
else what has come of it, so that its rest is a line later. However the
stream is cut up and whenever the reader looks, it takes the lines within
the limit, and besides them at most rests of the others.
-/

namespace EufyNvr.LineReader

variable {σ : Type*} {limit : Nat} {a b l t u : Bytes} {all lines : List Bytes}

inductive Taken
  | waits
  | line (b : Bytes)
  | overrun
  deriving DecidableEq

/-- The next line, without its end, and what is left of the buffer. -/
def readline (limit : Nat) (b : Bytes) : Taken × Bytes :=
  match b.span (· != 10) with
  | (_, []) => if limit < b.length then (.overrun, []) else (.waits, b)
  | (line, _ :: rest) => if limit < line.length then (.overrun, rest) else (.line line, rest)

/-- A chunk comes, the reader looks for a line, or something else happens to
the state of its consumer. -/
inductive Label (σ : Type*)
  | feed (chunk : Bytes)
  | read
  | other (f : σ → σ)

def Label.chunk : Label σ → Bytes
  | .feed chunk => chunk
  | _ => []

def Label.other? : Label σ → Option (σ → σ)
  | .other f => some f
  | _ => none

structure State (σ : Type*) where
  buffer : Bytes
  state : σ

section

variable (limit : Nat) (consume : σ → Bytes → σ)

def step (s : State σ) : Label σ → State σ
  | .feed chunk => { s with buffer := s.buffer ++ chunk }
  | .read =>
    match readline limit s.buffer with
    | (.line b, rest) => ⟨rest, consume s.state b⟩
    | (_, rest) => ⟨rest, s.state⟩
  | .other f => { s with state := f s.state }

def run (s : State σ) (labels : List (Label σ)) : State σ := labels.foldl (step limit consume) s

end

/-- What happens to the consumer. -/
inductive Act (σ : Type*)
  | line (b : Bytes)
  | other (f : σ → σ)

def Act.line? : Act σ → Option Bytes
  | .line b => some b
  | .other _ => none

def Act.other? : Act σ → Option (σ → σ)
  | .line _ => none
  | .other f => some f

def act (consume : σ → Bytes → σ) (s : σ) : Act σ → σ
  | .line b => consume s b
  | .other f => f s

def stream (lines : List Bytes) : Bytes := lines.flatMap (· ++ [10])

def within (limit : Nat) (line : Bytes) : Bool := line.length ≤ limit

/-- What is left of a line over the limit once some of it has been dropped. -/
def Rest (limit : Nat) (all : List Bytes) (t : Bytes) : Prop :=
  ∃ line ∈ all, limit < line.length ∧ t <:+ line ∧ t ≠ line

/-- What is to be read where these lines are still to be read. -/
inductive Left (limit : Nat) (all lines : List Bytes) : Bytes → Prop
  | whole : Left limit all lines (stream lines)
  | rest {t : Bytes} (h : Rest limit all t) : Left limit all lines (t ++ 10 :: stream lines)

-- ---------------------------------------------------------------------------
-- One line
-- ---------------------------------------------------------------------------

theorem span_line (h : 10 ∉ a) : (a ++ 10 :: u).span (· != 10) = (a, 10 :: u) := by
  have ha : ∀ c ∈ a, (c != 10) = true := fun c hc => by
    rw [bne_iff_ne]
    rintro rfl
    exact h hc
  rw [List.span_eq_takeWhile_dropWhile, List.takeWhile_append_of_pos ha,
    List.dropWhile_append_of_pos ha]
  simp

/-- The first line of a text. -/
theorem line_unique (ha : 10 ∉ a) (hb : 10 ∉ b) (h : a ++ 10 :: t = b ++ 10 :: u) :
    a = b ∧ t = u := by
  have hspan := span_line (u := t) ha
  rw [h, span_line hb] at hspan
  cases hspan
  exact ⟨rfl, rfl⟩

/-- Where the first line ends after the buffer. -/
theorem line_beyond (h : 10 ∉ b) (hsplit : b ++ u = l ++ 10 :: t) :
    ∃ r, l = b ++ r ∧ u = r ++ 10 :: t := by
  rcases List.append_eq_append_iff.mp hsplit with ⟨r, rfl, rfl⟩ | ⟨r, rfl, hr⟩
  · exact ⟨r, rfl, rfl⟩
  · cases r with
    | nil => exact ⟨[], by simp, by simpa using hr.symm⟩
    | cons c r =>
      rw [List.cons_append, List.cons.injEq] at hr
      exact absurd (List.mem_append_right l (hr.1 ▸ List.mem_cons_self)) h

theorem readline_cases (limit : Nat) (b : Bytes) :
    (10 ∉ b ∧ readline limit b = if limit < b.length then (.overrun, []) else (.waits, b)) ∨
      ∃ l r, b = l ++ 10 :: r ∧ 10 ∉ l ∧
        readline limit b = if limit < l.length then (.overrun, r) else (.line l, r) := by
  by_cases hb : 10 ∈ b
  · obtain ⟨l, r, rfl, hl⟩ := List.eq_append_cons_of_mem hb
    exact .inr ⟨l, r, rfl, hl, by rw [readline, span_line hl]⟩
  · refine .inl ⟨hb, ?_⟩
    have hall : ∀ c ∈ b, (c != 10) = true := fun c hc => by
      rw [bne_iff_ne]
      rintro rfl
      exact hb hc
    rw [readline, List.span_eq_takeWhile_dropWhile, List.dropWhile_eq_nil_iff.mpr hall]

-- ---------------------------------------------------------------------------
-- A look at the buffer
-- ---------------------------------------------------------------------------

theorem Rest.oneLine (h : Rest limit all t) (hall : ∀ line ∈ all, 10 ∉ line) : 10 ∉ t := by
  obtain ⟨line, hline, -, ht, -⟩ := h
  exact fun hm => hall line hline (ht.subset hm)

/-- The line that comes first is one of these, or the rest of a long one. -/
theorem Left.first (h : Left limit all lines (l ++ 10 :: t)) (hl : 10 ∉ l)
    (hall : ∀ line ∈ all, 10 ∉ line) (hlines : lines ⊆ all) :
    (∃ left, lines = l :: left ∧ t = stream left) ∨ t = stream lines ∧ Rest limit all l := by
  generalize htext : l ++ 10 :: t = text at h
  cases h with
  | whole =>
    cases lines with
    | nil => simp [stream] at htext
    | cons line left =>
      rw [stream, List.flatMap_cons, List.append_assoc, List.singleton_append] at htext
      obtain ⟨rfl, rfl⟩ := line_unique hl (hall line (hlines List.mem_cons_self)) htext
      exact .inl ⟨left, rfl, rfl⟩
  | rest h =>
    obtain ⟨rfl, rfl⟩ := line_unique hl (h.oneLine hall) htext
    exact .inr ⟨rfl, h⟩

theorem stream_cons (line : Bytes) (lines : List Bytes) :
    stream (line :: lines) = line ++ 10 :: stream lines := by
  rw [stream, List.flatMap_cons, List.append_assoc, List.singleton_append]
  rfl

/-- What is left after the beginning of a long line has been dropped. -/
theorem Left.dropped (h : Left limit all lines (b ++ u)) (hb : 10 ∉ b) (hlong : limit < b.length)
    (hlines : lines ⊆ all) :
    ∃ past left, lines = past ++ left ∧ past.filter (within limit) = [] ∧ Left limit all left u := by
  have hne {r : Bytes} : r ≠ b ++ r := fun heq => by
    have := congrArg List.length heq
    rw [List.length_append] at this
    omega
  generalize htext : b ++ u = text at h
  cases h with
  | whole =>
    cases lines with
    | nil =>
      rw [(List.append_eq_nil_iff.mp htext).1] at hlong
      cases hlong
    | cons line left =>
      rw [stream_cons] at htext
      obtain ⟨r, rfl, rfl⟩ := line_beyond hb htext
      have hover : limit < (b ++ r).length := by
        rw [List.length_append]
        omega
      refine ⟨[b ++ r], left, rfl, ?_, .rest ⟨b ++ r, hlines List.mem_cons_self, hover,
        List.suffix_append b r, hne⟩⟩
      simpa [within] using hover
  | rest h =>
    obtain ⟨r, rfl, rfl⟩ := line_beyond hb htext
    obtain ⟨line, hline, hover, hsuffix, -⟩ := h
    have hr : r <:+ line := (List.suffix_append b r).trans hsuffix
    refine ⟨[], lines, rfl, rfl, .rest ⟨line, hline, hover, hr, ?_⟩⟩
    rintro rfl
    have := hsuffix.length_le
    rw [List.length_append] at this
    omega

/-- A look at the buffer goes past some of the lines. -/
def Looks (limit : Nat) (all lines : List Bytes) (taken : Taken) (text : Bytes) : Prop :=
  ∃ past left, lines = past ++ left ∧ Left limit all left text ∧
    match taken with
    | .line l => past.filter (within limit) = [l] ∨
        past.filter (within limit) = [] ∧ Rest limit all l
    | _ => past.filter (within limit) = []

theorem Left.looks (h : Left limit all lines (b ++ u)) (hall : ∀ line ∈ all, 10 ∉ line)
    (hlines : lines ⊆ all) :
    Looks limit all lines (readline limit b).1 ((readline limit b).2 ++ u) := by
  rcases readline_cases limit b with ⟨hb, hread⟩ | ⟨l, r, rfl, hl, hread⟩
  · rw [hread]
    split
    · obtain ⟨past, left, hsplit, hnone, hleft⟩ := h.dropped hb ‹_› hlines
      exact ⟨past, left, hsplit, hleft, hnone⟩
    · exact ⟨[], lines, rfl, h, rfl⟩
  · rw [hread]
    rw [List.append_assoc, List.cons_append] at h
    rcases h.first hl hall hlines with ⟨left, rfl, hrest⟩ | ⟨hrest, hlong⟩
    · split
      · exact ⟨[l], left, rfl, hrest ▸ .whole, by simpa [within] using ‹_›⟩
      · exact ⟨[l], left, rfl, hrest ▸ .whole, .inl (by simpa [within] using Nat.le_of_not_lt ‹_›)⟩
    · split
      · exact ⟨[], lines, rfl, hrest ▸ .whole, rfl⟩
      · exact ⟨[], lines, rfl, hrest ▸ .whole, .inr ⟨rfl, hlong⟩⟩

-- ---------------------------------------------------------------------------
-- Runs
-- ---------------------------------------------------------------------------

variable {consume : σ → Bytes → σ} {labels : List (Label σ)} {s : State σ}

theorem run_append (labels labels' : List (Label σ)) : run limit consume s (labels ++ labels') =
    run limit consume (run limit consume s labels) labels' := List.foldl_append

/-- The consumer has taken what is within the limit of the lines that are
gone, and what else happened to it has happened in between. -/
structure Consumed (limit : Nat) (consume : σ → Bytes → σ) (past : List Bytes)
    (labels : List (Label σ)) (before after : σ) (acts : List (Act σ)) : Prop where
  state : after = acts.foldl (act consume) before
  lines : acts.filterMap Act.line? = past.filter (within limit)
  others : acts.filterMap Act.other? = labels.filterMap Label.other?

theorem run_consumes (hall : ∀ line ∈ all, 10 ∉ line)
    (hrests : ∀ t, Rest limit all t → ∀ s, consume s t = s) (hlines : lines ⊆ all)
    (h : Left limit all lines (s.buffer ++ (labels.flatMap Label.chunk ++ u))) :
    ∃ past left acts, lines = past ++ left ∧
      Left limit all left ((run limit consume s labels).buffer ++ u) ∧
      Consumed limit consume past labels s.state (run limit consume s labels).state acts := by
  induction labels generalizing s lines with
  | nil => exact ⟨[], lines, [], rfl, h, rfl, rfl, rfl⟩
  | cons label labels ih =>
    cases label with
    | feed chunk =>
      rw [List.flatMap_cons, Label.chunk, List.append_assoc, ← List.append_assoc] at h
      obtain ⟨past, left, acts, hsplit, hleft, hc⟩ :=
        ih (s := { s with buffer := s.buffer ++ chunk }) hlines h
      exact ⟨past, left, acts, hsplit, hleft, hc.state, hc.lines, hc.others⟩
    | other f =>
      obtain ⟨past, left, acts, hsplit, hleft, hc⟩ := ih (s := { s with state := f s.state }) hlines h
      exact ⟨past, left, .other f :: acts, hsplit, hleft, hc.state, hc.lines,
        congrArg (f :: ·) hc.others⟩
    | read =>
      obtain ⟨gone, rest, rfl, hrest, htaken⟩ := h.looks hall hlines
      have hsub : rest ⊆ all := fun line hl => hlines (List.mem_append_right gone hl)
      have hstep : run limit consume s (.read :: labels) =
          run limit consume (step limit consume s .read) labels := rfl
      rw [hstep]
      cases hread : readline limit s.buffer with
      | mk taken buffer =>
        rw [hread] at hrest htaken
        cases taken with
        | line l =>
          have hone : step limit consume s .read = ⟨buffer, consume s.state l⟩ := by rw [step, hread]
          rw [hone]
          obtain ⟨past, left, acts, rfl, hleft, hc⟩ :=
            ih (s := ⟨buffer, consume s.state l⟩) hsub hrest
          rcases htaken with hline | ⟨hnone, hlong⟩
          · refine ⟨gone ++ past, left, .line l :: acts, (List.append_assoc ..).symm, hleft,
              hc.state, ?_, hc.others⟩
            rw [List.filter_append, hline, ← hc.lines]
            rfl
          · rw [hrests l hlong] at hc hleft ⊢
            refine ⟨gone ++ past, left, acts, (List.append_assoc ..).symm, hleft, hc.state, ?_,
              hc.others⟩
            rw [List.filter_append, hnone, List.nil_append, hc.lines]
        | _ =>
          have hone : step limit consume s .read = ⟨buffer, s.state⟩ := by rw [step, hread]
          rw [hone]
          obtain ⟨past, left, acts, rfl, hleft, hc⟩ := ih (s := ⟨buffer, s.state⟩) hsub hrest
          refine ⟨gone ++ past, left, acts, (List.append_assoc ..).symm, hleft, hc.state, ?_,
            hc.others⟩
          rw [List.filter_append, htaken, List.nil_append, hc.lines]

/-- Where the whole stream has come and the reader waits, it is through. -/
theorem run_consumes_all (hall : ∀ line ∈ all, 10 ∉ line)
    (hrests : ∀ t, Rest limit all t → ∀ s, consume s t = s)
    (hfed : labels.flatMap Label.chunk = stream all) (before : σ)
    (hwaits : (readline limit (run limit consume ⟨[], before⟩ labels).buffer).1 = .waits) :
    ∃ acts, Consumed limit consume all labels before (run limit consume ⟨[], before⟩ labels).state
      acts := by
  have hstart : Left limit all all
      ((⟨[], before⟩ : State σ).buffer ++ (labels.flatMap Label.chunk ++ [])) := by
    rw [List.nil_append, List.append_nil, hfed]
    exact .whole
  obtain ⟨past, left, acts, hsplit, hleft, hc⟩ := run_consumes hall hrests (List.Subset.refl _) hstart
  rw [List.append_nil] at hleft
  obtain rfl : left = [] := by
    rcases readline_cases limit (run limit consume ⟨[], before⟩ labels).buffer with
      ⟨hnone, -⟩ | ⟨l, r, -, -, hread⟩
    · generalize (run limit consume ⟨[], before⟩ labels).buffer = buffer at hleft hnone
      cases hleft with
      | whole =>
        cases left with
        | nil => rfl
        | cons line left =>
          rw [stream_cons] at hnone
          exact absurd (List.mem_append_right line List.mem_cons_self) hnone
      | rest => exact absurd (List.mem_append_right _ List.mem_cons_self) hnone
    · rw [hread] at hwaits
      split at hwaits <;> cases hwaits
  rw [List.append_nil] at hsplit
  exact ⟨acts, hsplit ▸ hc⟩

/-- Each look takes something off the buffer until the reader waits. -/
theorem exists_waits (limit : Nat) (consume : σ → Bytes → σ) (s : State σ) : ∃ n,
    (readline limit (run limit consume s (List.replicate n .read)).buffer).1 = .waits := by
  induction hn : s.buffer.length using Nat.strong_induction_on generalizing s with
  | _ n ih =>
    have hstep : (step limit consume s .read).buffer = (readline limit s.buffer).2 := by
      rw [step]
      split <;> · rename_i heq; rw [heq]
    have hgo (h : (readline limit s.buffer).2.length < n) : ∃ n,
        (readline limit (run limit consume s (List.replicate n .read)).buffer).1 = .waits := by
      obtain ⟨m, hm⟩ := ih _ h (step limit consume s .read) (by rw [hstep])
      exact ⟨m + 1, hm⟩
    rcases readline_cases limit s.buffer with ⟨-, hread⟩ | ⟨l, r, hsplit, -, hread⟩
    · by_cases hlong : limit < s.buffer.length
      · exact hgo (by rw [hread, if_pos hlong, ← hn]; exact Nat.zero_lt_of_lt hlong)
      · refine ⟨0, ?_⟩
        have hwaits : (readline limit s.buffer).1 = .waits := by rw [hread, if_neg hlong]
        exact hwaits
    · refine hgo ?_
      have hlen := congrArg List.length hsplit
      rw [List.length_append, List.length_cons] at hlen
      rw [hread]
      split <;> · dsimp only; omega

end EufyNvr.LineReader
