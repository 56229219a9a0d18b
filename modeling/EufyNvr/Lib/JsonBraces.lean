import EufyNvr.Lib.Stringify

/-!
# Braces that nothing opens

A text that ends with a closing brace and has no opening one is no JSON
text: no token but the mark takes a brace off its end. So `loads` refuses
what is left of an object after its beginning has been lost.
-/

namespace EufyNvr.Json

variable {cs rest : Str} {c d : Nat}

/-- It ends with a closing brace, and none is opened. -/
structure Unopened (cs : Str) : Prop where
  last : cs.getLast? = some rbrace
  unopened : lbrace ∉ cs

theorem Unopened.ne_nil (h : Unopened cs) : cs ≠ [] := by
  rintro rfl
  cases h.last

theorem Unopened.tail (h : Unopened (c :: cs)) (hc : c ≠ rbrace) : Unopened cs := by
  refine ⟨?_, fun hm => h.unopened (List.mem_cons_of_mem c hm)⟩
  cases cs with
  | nil => exact absurd (Option.some.inj h.last) hc
  | cons d cs => exact (List.getLast?_cons_cons ..).symm.trans h.last

theorem Unopened.dropWhile {p : Nat → Bool} (h : Unopened cs) (hp : p rbrace = false) :
    Unopened (cs.dropWhile p) := by
  induction cs with
  | nil => exact h
  | cons c cs ih =>
    rw [List.dropWhile_cons]
    split
    · rename_i hc
      exact ih (h.tail (by rintro rfl; rw [hp] at hc; cases hc))
    · exact h

theorem Unopened.span {p : Nat → Bool} (h : Unopened cs) (hp : p rbrace = false) :
    Unopened (cs.span p).2 := by
  rw [List.span_eq_takeWhile_dropWhile]
  exact h.dropWhile hp

theorem Unopened.append {front : Str} (h : Unopened (front ++ rest)) (hf : rbrace ∉ front) :
    Unopened rest := by
  induction front with
  | nil => exact h
  | cons c front ih =>
    obtain ⟨hc, hfront⟩ := not_or.mp (mt List.mem_cons.mpr hf)
    exact ih (h.tail (Ne.symm hc)) hfront

theorem Unopened.skip (h : Unopened cs) : Unopened (skip cs) := h.dropWhile rfl

-- ---------------------------------------------------------------------------
-- Tokens
-- ---------------------------------------------------------------------------

theorem pieces_unopened {r : List Piece × Str} (h : pieces cs = some r) :
    ∃ front, cs = front ++ quote :: r.2 := by
  refine pieces_rec (Q := fun cs r => ∃ front, cs = front ++ quote :: r.2) ?close ?unit ?escaped
    ?plain h
  case close => exact fun cs => ⟨[], rfl⟩
  case unit =>
    rintro a b c d cs n r - ⟨front, rfl⟩
    exact ⟨backslash :: 117 :: a :: b :: c :: d :: front, rfl⟩
  case escaped =>
    rintro e cs n r - ⟨front, rfl⟩
    exact ⟨backslash :: e :: front, rfl⟩
  case plain =>
    rintro c cs r - ⟨front, rfl⟩
    exact ⟨c :: front, rfl⟩

/-- A string ends with a quote. -/
theorem Unopened.scanString {r : Str × Str} (h : Unopened cs) (hs : scanString cs = some r) :
    Unopened r.2 := by
  obtain ⟨f, hf, rfl⟩ := Option.map_eq_some_iff.mp hs
  obtain ⟨front, rfl⟩ := pieces_unopened hf
  refine ⟨?_, fun hm => h.unopened (List.mem_append_right _ (List.mem_cons_of_mem _ hm))⟩
  have hlast := h.last
  rw [List.getLast?_append_of_ne_nil _ (List.cons_ne_nil _ _)] at hlast
  cases hrest : f.2 with
  | nil =>
    rw [hrest] at hlast
    cases hlast
  | cons c cs =>
    rw [hrest] at hlast
    exact (List.getLast?_cons_cons ..).symm.trans hlast

theorem Unopened.whole {r : Str × Str} (h : Unopened cs) (hw : whole cs = some r) :
    Unopened r.2 := by
  unfold Json.whole at hw
  split at hw
  · cases hw
  · split at hw
    · rename_i hd
      cases hw
      exact h.tail (by rw [hd]; decide)
    · split at hw
      · cases hw
        exact h.span rfl
      · cases hw

theorem Unopened.fraction {r : Str × Str} (h : Unopened cs) (hf : fraction cs = some r) :
    Unopened r.2 := by
  unfold Json.fraction at hf
  split at hf
  · split at hf
    · cases hf
      exact (h.tail (by decide)).span rfl
    · cases hf
  · cases hf

theorem Unopened.exponentSign (h : Unopened cs) : Unopened (exponentSign cs).2 := by
  unfold Json.exponentSign
  split
  · exact h.tail (by decide)
  · exact h.tail (by decide)
  · exact h

theorem Unopened.exponent {r : Int × Str} (h : Unopened cs) (he : exponent cs = some r) :
    Unopened r.2 := by
  unfold Json.exponent at he
  split at he
  · split at he
    · rename_i hc
      dsimp only at he
      split at he
      · cases he
      · cases he
        exact (h.tail (by rintro rfl; cases hc <;> contradiction)).exponentSign.span rfl
    · cases he
  · cases he

theorem Unopened.unsignedNumber {negative : Bool} {r : Json × Str} (h : Unopened cs)
    (hn : unsignedNumber negative cs = some r) : Unopened r.2 := by
  obtain ⟨⟨ds, cs'⟩, hw, hn⟩ := Option.bind_eq_some_iff.mp hn
  have hwhole := h.whole hw
  dsimp only at hn
  split at hn
  · split at hn
    · cases hn
      exact hwhole
    · cases hn
  · rename_i e rest hf he
    cases hn
    rw [hf] at he
    exact hwhole.exponent he
  · rename_i fs rest hf he
    cases hn
    exact hwhole.fraction hf
  · rename_i fs rest e rest' hf he
    cases hn
    rw [hf] at he
    exact (hwhole.fraction hf).exponent he

theorem Unopened.number {r : Json × Str} (h : Unopened cs) (hn : number cs = some r) :
    Unopened r.2 := by
  unfold Json.number at hn
  split at hn
  · exact (h.tail (by decide)).unsignedNumber hn
  · exact h.unsignedNumber hn

theorem Unopened.word {r : Json × Str} (h : Unopened cs) (hw : word cs = some r) :
    Unopened r.2 := by
  obtain ⟨w, hmem, hw⟩ := List.exists_of_findSome?_eq_some hw
  have hall : ∀ w ∈ words, rbrace ∉ w.1 := by
    simp only [words, List.forall_mem_cons, List.not_mem_nil, false_imp_iff, implies_true, and_true]
    decide
  split at hw
  · rename_i hprefix
    cases hw
    obtain ⟨rest, rfl⟩ := List.isPrefixOf_iff_prefix.mp hprefix
    rw [List.drop_left]
    exact h.append (hall w hmem)
  · cases hw

-- ---------------------------------------------------------------------------
-- Values
-- ---------------------------------------------------------------------------

mutual

theorem Unopened.value : ∀ (fuel : Nat) {cs : Str} {r : Json × Str}, Unopened cs →
    value fuel cs = some r → Unopened r.2
  | 0, _, _, _, hv => by cases hv
  | fuel + 1, cs, r, h, hv => by
    rw [value.eq_def] at hv
    dsimp only at hv
    split at hv
    · obtain ⟨q, hq, rfl⟩ := Option.map_eq_some_iff.mp hv
      exact (h.tail (by decide)).scanString hq
    · have hskip := (h.tail (by decide)).skip
      split at hv
      · rename_i hrest
        cases hv
        rw [hrest] at hskip
        exact hskip.tail (by decide)
      · obtain ⟨q, hq, rfl⟩ := Option.map_eq_some_iff.mp hv
        exact Unopened.elements fuel hskip hq
    · exact absurd List.mem_cons_self h.unopened
    · rcases (Option.orElse_eq_some _ _ _).mp hv with hv | ⟨-, hv⟩
      · exact h.word hv
      · exact h.number hv

theorem Unopened.elements : ∀ (fuel : Nat) {cs : Str} {r : List Json × Str}, Unopened cs →
    elements fuel cs = some r → Unopened r.2
  | 0, _, _, _, he => by cases he
  | fuel + 1, cs, r, h, he => by
    rw [Json.elements] at he
    obtain ⟨v, hv, he⟩ := Option.bind_eq_some_iff.mp he
    obtain ⟨q, hq, rfl⟩ := Option.map_eq_some_iff.mp he
    have hrest : Unopened q.2 := Unopened.moreElements fuel (Unopened.value fuel h hv).skip hq
    exact hrest

theorem Unopened.moreElements : ∀ (fuel : Nat) {cs : Str} {r : List Json × Str}, Unopened cs →
    moreElements fuel cs = some r → Unopened r.2
  | 0, _, _, _, hm => by cases hm
  | fuel + 1, cs, r, h, hm => by
    rw [moreElements.eq_def] at hm
    dsimp only at hm
    split at hm
    · exact Unopened.elements fuel (h.tail (by decide)).skip hm
    · cases hm
      exact h.tail (by decide)
    · cases hm

end

theorem Unopened.loads (h : Unopened cs) : loads cs = none := by
  rw [Option.eq_none_iff_forall_ne_some]
  intro v hv
  obtain ⟨r, hr, hv⟩ := Option.bind_eq_some_iff.mp hv
  split at hv
  · exact (Unopened.value _ h.skip hr).skip.ne_nil ‹_›
  · cases hv

-- ---------------------------------------------------------------------------
-- The end of an object
-- ---------------------------------------------------------------------------

/-- A number, or a string without an opening brace. -/
def Flat : Json → Prop
  | .int _ => True
  | .str s => lbrace ∉ s
  | _ => False

theorem Flat.unspaced {v : Json} (h : Flat v) : lbrace ∉ unspaced v := by
  cases v with
  | int n =>
    intro hm
    rw [Json.unspaced, intText] at hm
    split at hm
    · rcases List.mem_cons.mp hm with hm | hm
      · cases hm
      · exact absurd (isDigit_numeral hm) (by decide)
    · exact absurd (isDigit_numeral hm) (by decide)
  | str s => exact fun hm => h (lbrace_mem_quotedFew hm)
  | _ => exact absurd h id

theorem lbrace_not_mem_members {ms : List (Str × Json)} (h : ∀ m ∈ ms, lbrace ∉ m.1 ∧ Flat m.2) :
    lbrace ∉ unspacedMembers ms := by
  induction ms with
  | nil => exact List.not_mem_nil
  | cons m ms ih =>
    obtain ⟨⟨hk, hv⟩, hms⟩ := List.forall_mem_cons.mp h
    rw [unspacedMembers]
    intro hm
    simp only [List.mem_cons, List.mem_append] at hm
    rcases hm with hm | hm | hm | hm | hm
    · cases hm
    · exact hk (lbrace_mem_quotedFew hm)
    · cases hm
    · exact hv.unspaced hm
    · exact ih hms hm

/-- A flat object without its beginning. -/
theorem unopened_of_suffix {m : Str × Json} {ms : List (Str × Json)} {t : Str}
    (h : ∀ n ∈ m :: ms, lbrace ∉ n.1 ∧ Flat n.2) (ht : t <:+ unspaced (.obj (m :: ms)))
    (hne : t ≠ unspaced (.obj (m :: ms))) : t = [] ∨ Unopened t := by
  obtain ⟨⟨hk, hv⟩, hms⟩ := List.forall_mem_cons.mp h
  let init := quotedFew m.1 ++ colon :: (unspaced m.2 ++ unspacedMembers ms)
  have htext : unspaced (.obj (m :: ms)) = lbrace :: (init ++ [rbrace]) := by
    rw [unspaced]
    simp only [init, List.append_assoc, List.cons_append]
  have hinit : lbrace ∉ init ++ [rbrace] := by
    intro hm
    simp only [init, List.mem_append, List.mem_cons, List.not_mem_nil, or_false] at hm
    rcases hm with (hm | hm | hm | hm) | hm
    · exact hk (lbrace_mem_quotedFew hm)
    · cases hm
    · exact hv.unspaced hm
    · exact lbrace_not_mem_members hms hm
    · cases hm
  rw [htext] at ht hne
  have hsuffix := (List.suffix_cons_iff.mp ht).resolve_left hne
  rcases List.eq_nil_or_concat t with rfl | ⟨t, c, rfl⟩
  · exact .inl rfl
  · refine .inr ⟨?_, fun hm => hinit (hsuffix.subset hm)⟩
    obtain ⟨front, hfront⟩ := hsuffix
    have hlast := congrArg List.getLast? hfront
    rw [List.concat_eq_append, ← List.append_assoc, List.getLast?_concat, List.getLast?_concat]
      at hlast
    rw [List.concat_eq_append, List.getLast?_concat, hlast]

end EufyNvr.Json
