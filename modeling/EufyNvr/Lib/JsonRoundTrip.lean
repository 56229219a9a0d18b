import EufyNvr.Lib.Surrogates

/-!
# What `dumps` writes `loads` reads

For sound values, which are those that `loads` makes: integers within the
limit of digits, the three special floats, no string with a pair of
surrogates, and no object with two entries of one key. The proof reads one
value with whatever follows it, and goes by the constructors of the value.
-/

namespace EufyNvr.Json

variable {cs ws rest s : Str} {c fuel level : Nat} {st : Style}

mutual

def Sound : Json → Prop
  | .null | .bool _ | .float (.finite _ _) => True
  | .int i => (numeral i.natAbs).length ≤ 4300
  | .float (.special text) => text ∈ [lit "NaN", lit "Infinity", lit "-Infinity"]
  | .str s => Unpaired s
  | .arr vs => SoundItems vs
  | .obj ms => (ms.map Prod.fst).Nodup ∧ SoundMembers ms

def SoundItems : List Json → Prop
  | [] => True
  | v :: vs => Sound v ∧ SoundItems vs

def SoundMembers : List (Str × Json) → Prop
  | [] => True
  | (k, v) :: ms => Unpaired k ∧ Sound v ∧ SoundMembers ms

end

theorem soundItems_iff {vs : List Json} : SoundItems vs ↔ ∀ v ∈ vs, Sound v := by
  induction vs with
  | nil => simp [SoundItems]
  | cons v vs ih => simp [SoundItems, ih]

theorem soundMembers_iff {ms : List (Str × Json)} :
    SoundMembers ms ↔ ∀ m ∈ ms, Unpaired m.1 ∧ Sound m.2 := by
  induction ms with
  | nil => simp [SoundMembers]
  | cons m ms ih => simp [SoundMembers, ih, and_assoc]

/-- A character that may begin a value. -/
def begins (c : Nat) : Bool := !isWhite c && c != rbracket

theorem begins_intText (h : isDigit c = true ∨ c = minus) : begins c = true := by
  rcases h with hdig | rfl
  · simp only [isDigit, decide_eq_true_eq] at hdig
    simp [begins, isWhite, rbracket]
    omega
  · decide

theorem dump_cons {v : Json} (h : Sound v) (st : Style) (level : Nat) :
    ∃ c cs, dump st level v = c :: cs ∧ begins c = true := by
  cases v with
  | null => exact ⟨_, _, rfl, by decide⟩
  | bool b => cases b <;> exact ⟨_, _, rfl, by decide⟩
  | int i =>
    obtain ⟨d, ds, hd, hcase, -⟩ := intText_cons i
    exact ⟨d, ds, hd, begins_intText hcase⟩
  | float f =>
    cases f with
    | finite m e =>
      obtain ⟨d, ds, hd, hcase, -⟩ := intText_cons m
      refine ⟨d, ds ++ (lit "e" ++ intText e), ?_, begins_intText hcase⟩
      rw [dump, floatText, hd, List.append_assoc, List.cons_append]
    | special text =>
      simp only [Sound, List.mem_cons, List.not_mem_nil, or_false] at h
      rcases h with rfl | rfl | rfl <;> exact ⟨_, _, rfl, by decide⟩
  | str s => exact ⟨quote, _, rfl, by decide⟩
  | arr vs => cases vs <;> exact ⟨_, _, rfl, by decide⟩
  | obj ms =>
    cases ms with
    | nil => exact ⟨_, _, rfl, by decide⟩
    | cons m ms => exact ⟨lbrace, _, rfl, by decide⟩

/-- A character that begins neither a string, an array nor an object. -/
theorem value_other (hq : c ≠ quote) (ha : c ≠ lbracket) (ho : c ≠ lbrace) :
    value (fuel + 1) (c :: cs) = (word (c :: cs) <|> number (c :: cs)) := by
  rw [value.eq_def]
  simp only
  split
  · rename_i h
    cases h
    exact absurd rfl hq
  · rename_i h
    cases h
    exact absurd rfl ha
  · rename_i h
    cases h
    exact absurd rfl ho
  · rfl

/-- A text that begins as a number does is a number. -/
theorem value_number {r : Json × Str} (i : Int) (h : number (intText i ++ rest) = some r) :
    value (fuel + 1) (intText i ++ rest) = some r := by
  obtain ⟨d, ds, hd, hcase, hw⟩ := intText_cons i
  rw [hd, List.cons_append] at h ⊢
  have hne : d ≠ quote ∧ d ≠ lbracket ∧ d ≠ lbrace := by
    rcases hcase with hdig | rfl
    · refine ⟨?_, ?_, ?_⟩ <;> · rintro rfl; cases hdig
    · decide
  rw [value_other hne.1 hne.2.1 hne.2.2, hw, h]
  rfl

theorem value_intText {i : Int} (h : Stops rest) (hi : (numeral i.natAbs).length ≤ 4300) :
    value (fuel + 1) (intText i ++ rest) = some (.int i, rest) :=
  value_number i (number_intText h hi)

theorem value_floatText {f : FloatLiteral} (hf : Sound (.float f)) (h : Stops rest) :
    value (fuel + 1) (floatText f ++ rest) = some (.float f, rest) := by
  cases f with
  | finite m e =>
    have hn := number_floatText m e h
    rw [floatText, List.append_assoc, List.append_assoc] at hn ⊢
    exact value_number m hn
  | special text =>
    simp only [Sound, List.mem_cons, List.not_mem_nil, or_false] at hf
    rcases hf with rfl | rfl | rfl <;> exact value_other (by decide) (by decide) (by decide)

theorem value_quoted (h : Unpaired s) :
    value (fuel + 1) (quoted s ++ rest) = some (.str s, rest) := by
  rw [quoted_append, value.eq_def]
  simp only [scanString_unpaired h, Option.map_some]

theorem begins_iff : begins c = true ↔ isWhite c = false ∧ c ≠ rbracket := by
  simp [begins]

theorem value_array (hw : White ws) (hc : begins c = true) :
    value (fuel + 1) (lbracket :: (ws ++ c :: cs)) =
      (elements fuel (c :: cs)).map fun r => (.arr r.1, r.2) := by
  obtain ⟨hwhite, hne⟩ := begins_iff.mp hc
  rw [value.eq_def]
  simp only [skip_white_cons hw hwhite]
  split
  · rename_i h
    cases h
    exact absurd rfl hne
  · rfl

theorem value_object (hw : White ws) :
    value (fuel + 1) (lbrace :: (ws ++ quote :: cs)) =
      (members fuel (quote :: cs)).map fun r => (.obj (Dict.ofList r.1).items, r.2) := by
  rw [value.eq_def]
  simp only [skip_white_cons hw (show isWhite quote = false from rfl)]

theorem stops_cons (h : isDigit c = false ∧ c ≠ point ∧ c ≠ 101 ∧ c ≠ 69) : Stops (c :: cs) := by
  rintro d hd
  cases hd
  exact h

theorem stops_white (hw : White ws) (h : Stops cs) : Stops (ws ++ cs) := by
  cases ws with
  | nil => exact h
  | cons c ws =>
    have hc := hw c (by simp)
    simp only [isWhite, Bool.or_eq_true, beq_iff_eq] at hc
    apply stops_cons
    rcases hc with ((rfl | rfl) | rfl) | rfl <;> decide

theorem stops_items (st : Style) (level : Nat) (vs : List Json) (rest : Str) (hw : White ws) :
    Stops (dumpItems st level vs ++ (ws ++ rbracket :: rest)) := by
  cases vs with
  | nil =>
    rw [dumpItems, List.nil_append]
    exact stops_white hw (stops_cons (by decide))
  | cons v vs => exact stops_cons (by decide)

theorem stops_members (st : Style) (level : Nat) (ms : List (Str × Json)) (rest : Str)
    (hw : White ws) : Stops (dumpMembers st level ms ++ (ws ++ rbrace :: rest)) := by
  cases ms with
  | nil =>
    rw [dumpMembers, List.nil_append]
    exact stops_white hw (stops_cons (by decide))
  | cons m ms => exact stops_cons (by decide)

/-- An item and what follows it in the array. -/
theorem elements_dump {v : Json} {vs : List Json} {text : Str}
    (hv : value fuel (dump st level v ++ text) = some (v, text))
    (hvs : moreElements fuel (skip text) = some (vs, rest)) :
    elements (fuel + 1) (dump st level v ++ text) = some (v :: vs, rest) := by
  rw [elements, hv, Option.bind_some, hvs]
  rfl

theorem members_dump {k : Str} {v : Json} {ms : List (Str × Json)} {text : Str} (hk : Unpaired k)
    (hp : Sound v) (hv : value fuel (dump st level v ++ text) = some (v, text))
    (hms : moreMembers fuel (skip text) = some (ms, rest)) :
    members (fuel + 1) (quoted k ++ colon :: (st.afterColon ++ (dump st level v ++ text))) =
      some ((k, v) :: ms, rest) := by
  obtain ⟨c, cs, hd, hc⟩ := dump_cons hp st level
  have hskip : skip (st.afterColon ++ (dump st level v ++ text)) = dump st level v ++ text := by
    rw [hd, List.cons_append]
    exact skip_white_cons st.afterColon_white (begins_iff.mp hc).1
  rw [quoted_append, members.eq_def]
  simp only [scanString_unpaired hk, Option.bind_some,
    skip_cons (show isWhite colon = false from rfl), hskip, hv, hms]
  rfl

mutual

theorem value_dump : ∀ (v : Json), Sound v → ∀ (level fuel : Nat) (rest : Str), Stops rest →
    (dump st level v).length ≤ fuel → value fuel (dump st level v ++ rest) = some (v, rest)
  | .null, _, _, 0, _, _, hf => by cases hf
  | .null, _, _, fuel + 1, _, _, _ => by
    rw [dump]
    rfl
  | .bool b, _, _, 0, _, _, hf => by cases b <;> cases hf
  | .bool b, _, _, fuel + 1, _, _, _ => by
    rw [dump]
    cases b <;> rfl
  | .int i, _, _, 0, _, _, hf => by
    obtain ⟨d, ds, hd, -⟩ := intText_cons i
    rw [dump, hd] at hf
    cases hf
  | .int i, h, _, fuel + 1, _, hr, _ => by
    rw [dump]
    exact value_intText hr (by simpa [Sound] using h)
  | .float (.finite m e), _, _, 0, _, _, hf => by
    obtain ⟨d, ds, hd, -⟩ := intText_cons m
    rw [dump, floatText, hd] at hf
    cases hf
  | .float (.special text), h, _, 0, _, _, hf => by
    simp only [Sound, List.mem_cons, List.not_mem_nil, or_false] at h
    rcases h with rfl | rfl | rfl <;> cases hf
  | .float f, h, _, fuel + 1, _, hr, _ => by
    rw [dump]
    exact value_floatText h hr
  | .str s, _, _, 0, _, _, hf => by
    rw [dump] at hf
    cases hf
  | .str s, h, _, fuel + 1, _, _, _ => by
    rw [dump]
    exact value_quoted (by simpa [Sound] using h)
  | .arr [], _, _, 0, _, _, hf => by cases hf
  | .arr [], _, _, fuel + 1, _, _, _ => by
    rw [dump]
    rfl
  | .arr (v :: vs), h, level, fuel, rest, hr, hf => by
    simp only [Sound, SoundItems] at h
    simp only [dump, List.length_cons, List.length_append] at hf
    obtain ⟨c, cs, hd, hc⟩ := dump_cons h.1 st (level + 1)
    obtain ⟨fuel, rfl⟩ : ∃ n, fuel = n + 2 := ⟨fuel - 2, by omega⟩
    have hlen : 1 ≤ (dump st (level + 1) v).length := by rw [hd]; simp
    have hv := value_dump v h.1 (level + 1) fuel _
      (stops_items st (level + 1) vs rest (st.newline_white level)) (by omega)
    have hvs := moreElements_dump vs h.2 (level + 1) fuel (st.newline level) rest
      (st.newline_white level) (by omega)
    have he := elements_dump hv hvs
    rw [dump, List.cons_append]
    simp only [List.append_assoc, List.singleton_append]
    rw [hd, List.cons_append] at he ⊢
    rw [value_array (st.newline_white _) hc, he]
    rfl
  | .obj [], _, _, 0, _, _, hf => by cases hf
  | .obj [], _, _, fuel + 1, _, _, _ => by
    rw [dump]
    rfl
  | .obj ((k, v) :: ms), h, level, fuel, rest, hr, hf => by
    simp only [Sound, SoundMembers] at h
    simp only [dump, List.length_cons, List.length_append] at hf
    obtain ⟨hnodup, hk, hp, hms⟩ := h
    obtain ⟨fuel, rfl⟩ : ∃ n, fuel = n + 2 := ⟨fuel - 2, by omega⟩
    have hv := value_dump v hp (level + 1) fuel _
      (stops_members st (level + 1) ms rest (st.newline_white level)) (by omega)
    have hmore := moreMembers_dump ms hms (level + 1) fuel (st.newline level) rest
      (st.newline_white level) (by omega)
    have hm := members_dump hk hp hv hmore
    rw [dump, List.cons_append]
    simp only [List.append_assoc, List.cons_append, List.nil_append]
    rw [quoted_append] at hm ⊢
    rw [value_object (st.newline_white _), hm, Option.map_some, Dict.items_ofList hnodup]

theorem moreElements_dump : ∀ (vs : List Json), SoundItems vs → ∀ (level fuel : Nat) (ws rest : Str),
    White ws → (dumpItems st level vs).length + 1 ≤ fuel →
    moreElements fuel (skip (dumpItems st level vs ++ (ws ++ rbracket :: rest))) = some (vs, rest)
  | [], _, level, fuel, ws, rest, hw, hf => by
    obtain ⟨fuel, rfl⟩ : ∃ n, fuel = n + 1 := ⟨fuel - 1, by omega⟩
    rw [dumpItems, List.nil_append, skip_white_cons hw rfl]
    rfl
  | v :: vs, h, level, fuel, ws, rest, hw, hf => by
    simp only [SoundItems] at h
    simp only [dumpItems, List.length_cons, List.length_append] at hf
    obtain ⟨c, cs, hd, hc⟩ := dump_cons h.1 st level
    obtain ⟨fuel, rfl⟩ : ∃ n, fuel = n + 2 := ⟨fuel - 2, by omega⟩
    have hlen : 1 ≤ (dump st level v).length := by rw [hd]; simp
    have hv := value_dump v h.1 level fuel _ (stops_items st level vs rest hw) (by omega)
    have hvs := moreElements_dump vs h.2 level fuel ws rest hw (by omega)
    have he := elements_dump hv hvs
    rw [dumpItems, List.cons_append, skip_cons rfl, moreElements.eq_def]
    simp only [List.append_assoc, skip_white st.afterComma_white, skip_white (st.newline_white _)]
    rw [hd, List.cons_append] at he ⊢
    rw [skip_cons (begins_iff.mp hc).1, he]

theorem moreMembers_dump : ∀ (ms : List (Str × Json)), SoundMembers ms →
    ∀ (level fuel : Nat) (ws rest : Str), White ws → (dumpMembers st level ms).length + 1 ≤ fuel →
    moreMembers fuel (skip (dumpMembers st level ms ++ (ws ++ rbrace :: rest))) = some (ms, rest)
  | [], _, level, fuel, ws, rest, hw, hf => by
    obtain ⟨fuel, rfl⟩ : ∃ n, fuel = n + 1 := ⟨fuel - 1, by omega⟩
    rw [dumpMembers, List.nil_append, skip_white_cons hw rfl]
    rfl
  | (k, v) :: ms, h, level, fuel, ws, rest, hw, hf => by
    simp only [SoundMembers] at h
    simp only [dumpMembers, List.length_cons, List.length_append] at hf
    obtain ⟨hk, hp, hms⟩ := h
    obtain ⟨fuel, rfl⟩ : ∃ n, fuel = n + 2 := ⟨fuel - 2, by omega⟩
    have hv := value_dump v hp level fuel _ (stops_members st level ms rest hw) (by omega)
    have hmore := moreMembers_dump ms hms level fuel ws rest hw (by omega)
    have hm := members_dump hk hp hv hmore
    rw [dumpMembers, List.cons_append, skip_cons rfl, moreMembers.eq_def]
    simp only [List.append_assoc, List.cons_append, skip_white st.afterComma_white,
      skip_white (st.newline_white _)]
    rw [quoted_append] at hm ⊢
    rw [skip_cons rfl, hm]

end

/-- What `dumps` writes, and white space after it. -/
theorem loads_dumps_sound {v : Json} (h : Sound v) (hw : White ws) :
    loads (dumps st v ++ ws) = some v := by
  obtain ⟨c, cs, hd, hc⟩ := dump_cons h st 0
  have hskip : skip (dumps st v ++ ws) = dumps st v ++ ws := by
    rw [dumps, hd, List.cons_append, skip_cons (begins_iff.mp hc).1]
  have hstops : Stops ws := by
    have hwhite : Stops (ws ++ []) := stops_white hw fun _ h => by cases h
    rwa [List.append_nil] at hwhite
  have hend : skip ws = [] := by
    have hwhite : skip (ws ++ []) = skip [] := skip_white hw
    rwa [List.append_nil] at hwhite
  have hv := @value_dump st v h 0 ((dumps st v ++ ws).length + 1) ws hstops
    (by rw [dumps, List.length_append]; omega)
  rw [loads, hskip]
  rw [dumps] at hv ⊢
  rw [hv, Option.bind_some, if_pos hend]

theorem loads_dumps_self {v : Json} (h : Sound v) : loads (dumps st v) = some v := by
  have hload : loads (dumps st v ++ []) = some v := loads_dumps_sound h nofun
  rwa [List.append_nil] at hload

-- ---------------------------------------------------------------------------
-- What `loads` reads
-- ---------------------------------------------------------------------------

theorem digitsValue_lt (h : ∀ c ∈ s, isDigit c = true) : digitsValue s < 10 ^ s.length := by
  induction s using List.reverseRecOn with
  | nil => decide
  | append_singleton s c ih =>
    obtain ⟨hs, hc⟩ := List.forall_mem_append.mp h
    have hlt := ih hs
    have hdigit := hc c (by simp)
    simp only [isDigit, decide_eq_true_eq] at hdigit
    rw [digitsValue] at hlt ⊢
    rw [List.foldl_append, List.foldl_cons, List.foldl_nil, List.length_append,
      List.length_singleton, pow_succ]
    omega

theorem whole_digits {r : Str × Str} (h : whole cs = some r) :
    r.1 ≠ [] ∧ ∀ c ∈ r.1, isDigit c = true := by
  unfold whole at h
  split at h
  · cases h
  · split at h
    · cases h
      exact ⟨List.cons_ne_nil _ _, List.forall_mem_singleton.mpr rfl⟩
    · split at h
      · rename_i hd
        cases h
        rw [List.span_eq_takeWhile_dropWhile]
        exact ⟨by simp [hd], fun c hc => List.mem_takeWhile_imp hc⟩
      · cases h

theorem number_sound {r : Json × Str} (h : number cs = some r) : Sound r.1 := by
  have hunsigned {negative : Bool} {cs : Str} (h : unsignedNumber negative cs = some r) :
      Sound r.1 := by
    obtain ⟨⟨ds, cs'⟩, hw, h⟩ := Option.bind_eq_some_iff.mp h
    obtain ⟨hne, hds⟩ := whole_digits hw
    dsimp only at h
    split at h
    · split at h
      · rename_i hlen
        cases h
        -- A value of so many digits has no more of them.
        have habs : (signed negative (digitsValue ds)).natAbs = digitsValue ds := by
          cases negative <;> simp [signed]
        rw [Sound, habs, numeral, List.length_map]
        exact ((Nat.length_toDigits_le_iff (by decide) (List.length_pos_iff.mpr hne)).mpr
          (digitsValue_lt hds)).trans hlen
      · cases h
    all_goals
      cases h
      trivial
  unfold number at h
  split at h
  · exact hunsigned h
  · exact hunsigned h

theorem word_sound {r : Json × Str} (h : word cs = some r) : Sound r.1 := by
  obtain ⟨w, hw, h⟩ := List.exists_of_findSome?_eq_some h
  have hall : ∀ w ∈ words, Sound w.2 := by
    simp only [words, List.forall_mem_cons, List.not_mem_nil, false_imp_iff, implies_true, Sound,
      and_true, true_and]
    decide
  split at h
  · cases h
    exact hall w hw
  · cases h

theorem keeps_sound : Keeps Characters Unpaired Sound where
  skip cs hcs := hcs.suffix (skip_takes cs).suffix
  mark c _ cs hcs := hcs.suffix (List.suffix_cons c cs)
  string _ _ h hcs := (scanString_ok h hcs).imp_right hcs.suffix
  number _ _ h hcs := ⟨number_sound h, hcs.suffix (number_takes h).suffix⟩
  word _ _ h hcs := ⟨word_sound h, hcs.suffix (word_takes h).suffix⟩
  str _ hs := hs
  arr _ hvs := soundItems_iff.mpr hvs
  obj ms hms := ⟨(Dict.ofList ms).nodup,
    soundMembers_iff.mpr fun m hm => hms m (Dict.mem_of_mem_ofList hm)⟩

/-- What `loads` reads in a text of characters `dumps` can write. -/
theorem sound_of_loads {v : Json} (h : loads cs = some v) (hcs : Characters cs) : Sound v :=
  (loads_keeps keeps_sound h hcs).1

mutual

theorem Sound.strings : ∀ {v : Json}, Sound v → ∀ s ∈ v.strings, Unpaired s
  | .str _, h, _, hs => List.mem_singleton.mp hs ▸ h
  | .arr _, h, s, hs => SoundItems.strings h s hs
  | .obj _, h, s, hs => SoundMembers.strings h.2 s hs
  | .null, _, _, hs | .bool _, _, _, hs | .int _, _, _, hs | .float _, _, _, hs => nomatch hs

theorem SoundItems.strings : ∀ {vs : List Json}, SoundItems vs → ∀ s ∈ stringsItems vs, Unpaired s
  | [], _, _, hs => nomatch hs
  | _ :: _, h, s, hs => (List.mem_append.mp hs).elim (h.1.strings s) (SoundItems.strings h.2 s)

theorem SoundMembers.strings : ∀ {ms : List (Str × Json)}, SoundMembers ms →
    ∀ s ∈ stringsMembers ms, Unpaired s
  | [], _, _, hs => nomatch hs
  | (_, _) :: _, ⟨hk, hv, hms⟩, s, hs => by
    rcases List.mem_cons.mp hs with rfl | hs
    · exact hk
    · exact (List.mem_append.mp hs).elim (hv.strings s) (SoundMembers.strings hms s)

end

/-- No string of a text of characters holds a pair of surrogates. -/
theorem loads_unpaired {v : Json} (h : loads cs = some v) (hcs : Characters cs) :
    ∀ s ∈ strings v, Unpaired s := (sound_of_loads h hcs).strings

-- ---------------------------------------------------------------------------
-- Values on one line
-- ---------------------------------------------------------------------------

/-- The style writes no line breaks. -/
structure Style.OneLine (st : Style) : Prop where
  newline : ∀ n, Printable (st.newline n)
  afterComma : Printable st.afterComma
  afterColon : Printable st.afterColon

theorem spaced_oneLine : spaced.OneLine := ⟨fun _ => nofun, by decide, by decide⟩

theorem printable_floatText {f : FloatLiteral} (h : Sound (.float f)) : Printable (floatText f) := by
  cases f with
  | finite m e => exact ((printable_intText m).append (by decide)).append (printable_intText e)
  | special text =>
    simp only [Sound, List.mem_cons, List.not_mem_nil, or_false] at h
    rcases h with rfl | rfl | rfl <;> decide

/-- Everything that a value is written with has the property. -/
structure Style.Writes (st : Style) (P : Nat → Prop) : Prop where
  printable : ∀ s, Printable s → ∀ c ∈ s, P c
  newline : ∀ n, ∀ c ∈ st.newline n, P c
  afterComma : ∀ c ∈ st.afterComma, P c
  afterColon : ∀ c ∈ st.afterColon, P c

section

variable {P : Nat → Prop}

theorem Style.Writes.mark (hst : st.Writes P) (hc : 32 ≤ c ∧ c ≤ 126) (hs : ∀ d ∈ s, P d) :
    ∀ d ∈ c :: s, P d :=
  List.forall_mem_cons.mpr ⟨hst.printable [c] (by simpa [Printable] using hc) c (by simp), hs⟩

theorem all_append {t : Str} (hs : ∀ c ∈ s, P c) (ht : ∀ c ∈ t, P c) : ∀ c ∈ s ++ t, P c :=
  List.forall_mem_append.mpr ⟨hs, ht⟩

mutual

theorem all_dump (hst : st.Writes P) : ∀ (v : Json) (level : Nat), Sound v →
    ∀ c ∈ dump st level v, P c
  | .null, _, _ => by
    rw [dump]
    exact hst.printable _ (by decide)
  | .bool b, _, _ => by
    rw [dump]
    exact hst.printable _ (by cases b <;> decide)
  | .int i, _, _ => by
    rw [dump]
    exact hst.printable _ (printable_intText i)
  | .float f, _, h => by
    rw [dump]
    exact hst.printable _ (printable_floatText h)
  | .str s, _, _ => by
    rw [dump]
    exact hst.printable _ (printable_quoted s)
  | .arr [], _, _ => by
    rw [dump]
    exact hst.printable _ (by decide)
  | .arr (v :: vs), level, h => by
    simp only [Sound, SoundItems] at h
    rw [dump]
    exact hst.mark (by decide) (all_append (hst.newline _) (all_append (all_dump hst v _ h.1)
      (all_append (all_dumpItems hst vs _ h.2) (all_append (hst.newline _)
        (hst.printable _ (by decide))))))
  | .obj [], _, _ => by
    rw [dump]
    exact hst.printable _ (by decide)
  | .obj ((k, v) :: ms), level, h => by
    simp only [Sound, SoundMembers] at h
    rw [dump]
    exact hst.mark (by decide) (all_append (hst.newline _) (all_append
      (hst.printable _ (printable_quoted k)) (hst.mark (by decide) (all_append hst.afterColon
        (all_append (all_dump hst v _ h.2.2.1) (all_append (all_dumpMembers hst ms _ h.2.2.2)
          (all_append (hst.newline _) (hst.printable _ (by decide)))))))))

theorem all_dumpItems (hst : st.Writes P) : ∀ (vs : List Json) (level : Nat), SoundItems vs →
    ∀ c ∈ dumpItems st level vs, P c
  | [], _, _ => by
    rw [dumpItems]
    exact List.forall_mem_nil _
  | v :: vs, level, h => by
    simp only [SoundItems] at h
    rw [dumpItems]
    exact hst.mark (by decide) (all_append hst.afterComma (all_append (hst.newline _)
      (all_append (all_dump hst v _ h.1) (all_dumpItems hst vs _ h.2))))

theorem all_dumpMembers (hst : st.Writes P) : ∀ (ms : List (Str × Json)) (level : Nat),
    SoundMembers ms → ∀ c ∈ dumpMembers st level ms, P c
  | [], _, _ => by
    rw [dumpMembers]
    exact List.forall_mem_nil _
  | (k, v) :: ms, level, h => by
    simp only [SoundMembers] at h
    rw [dumpMembers]
    exact hst.mark (by decide) (all_append hst.afterComma (all_append (hst.newline _)
      (all_append (hst.printable _ (printable_quoted k)) (hst.mark (by decide)
        (all_append hst.afterColon (all_append (all_dump hst v _ h.2.1)
          (all_dumpMembers hst ms _ h.2.2)))))))

end

end

theorem printable_dump (hst : st.OneLine) (v : Json) (level : Nat) (h : Sound v) :
    Printable (dump st level v) :=
  all_dump ⟨fun _ hs => hs, hst.newline, hst.afterComma, hst.afterColon⟩ v level h

theorem Printable.ascii (h : Printable s) : Ascii s := fun c hc => by
  have := h c hc
  simp only [isAscii, decide_eq_true_eq]
  omega

theorem White.ascii (h : White ws) : Ascii ws := fun c hc => by
  have hw := h c hc
  simp only [isWhite, Bool.or_eq_true, beq_iff_eq] at hw
  simp only [isAscii, decide_eq_true_eq]
  omega

/-- In any style. -/
theorem ascii_dump (v : Json) (level : Nat) (h : Sound v) : Ascii (dump st level v) :=
  all_dump ⟨fun _ hs => Printable.ascii hs, fun n => (st.newline_white n).ascii,
    st.afterComma_white.ascii, st.afterColon_white.ascii⟩ v level h

/-- What is read from a text of characters. -/
def Loaded (v : Json) : Prop := ∃ text, Characters text ∧ loads text = some v

theorem loaded_iff {v : Json} : Loaded v ↔ Sound v := by
  constructor
  · rintro ⟨text, htext, h⟩
    exact sound_of_loads h htext
  · intro h
    have hprint := printable_dump spaced_oneLine v 0 h
    have hchars : Characters (dumps spaced v) := .of_ascii hprint.ascii
    exact ⟨_, hchars, loads_dumps_self h⟩

-- ---------------------------------------------------------------------------
-- Plain values
-- ---------------------------------------------------------------------------

mutual

def Plain : Json → Prop
  | .null | .bool _ => True
  | .int i => (numeral i.natAbs).length ≤ 4300
  | .float _ => False
  | .str s => Printable s
  | .arr vs => PlainItems vs
  | .obj ms => (ms.map Prod.fst).Nodup ∧ PlainMembers ms

def PlainItems : List Json → Prop
  | [] => True
  | v :: vs => Plain v ∧ PlainItems vs

def PlainMembers : List (Str × Json) → Prop
  | [] => True
  | (k, v) :: ms => Printable k ∧ Plain v ∧ PlainMembers ms

end

theorem Unpaired.of_printable (h : Printable s) : Unpaired s :=
  .of_no_high fun c hc => by
    have := h c hc
    simp only [isHigh, decide_eq_false_iff_not]
    omega

/-- An object whose keys are plain texts. -/
theorem sound_obj {ms : List (Str × Json)} (hnodup : (ms.map Prod.fst).Nodup)
    (hkeys : ∀ k ∈ ms.map Prod.fst, Printable k) (hvalues : ∀ m ∈ ms, Sound m.2) : Sound (.obj ms) :=
  ⟨hnodup, soundMembers_iff.mpr fun m hm =>
    ⟨.of_printable (hkeys m.1 (List.mem_map_of_mem hm)), hvalues m hm⟩⟩

mutual

theorem Plain.sound : ∀ {v : Json}, Plain v → Sound v
  | .null, _ | .bool _, _ => trivial
  | .int _, h => h
  | .str _, h => Unpaired.of_printable h
  | .arr _, h => PlainItems.sound h
  | .obj _, h => ⟨h.1, PlainMembers.sound h.2⟩

theorem PlainItems.sound : ∀ {vs : List Json}, PlainItems vs → SoundItems vs
  | [], _ => trivial
  | _ :: _, h => ⟨h.1.sound, PlainItems.sound h.2⟩

theorem PlainMembers.sound : ∀ {ms : List (Str × Json)}, PlainMembers ms → SoundMembers ms
  | [], _ => trivial
  | (_, _) :: _, h => ⟨.of_printable h.1, h.2.1.sound, PlainMembers.sound h.2.2⟩

end

theorem loads_dumps {v : Json} (h : Plain v) (hw : White ws) :
    loads (dumps st v ++ ws) = some v := loads_dumps_sound h.sound hw

end EufyNvr.Json
