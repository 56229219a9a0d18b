import EufyNvr.Lib.Ipv6
import EufyNvr.Lib.Partition

/-!
# Addresses are read as they were written

An address of eight parts, each below 2^16, is read back from its text, with
or without a run of zeros left out. So the text of whatever was read is its
own text.
-/

namespace EufyNvr

open Json

theorem Ipv4.parse_char {c : Nat} {s : Str} {os : List Nat} (h : Ipv4.parse s = some os)
    (hc : c ∈ s) : isDigit c = true ∨ c = point := by
  unfold Ipv4.parse at h
  split at h
  · have hjoin : [point].intercalate (s.splitOn point) = s := List.intercalate_splitOn point
    rw [← hjoin] at hc
    rcases mem_intercalate hc with rfl | ⟨l, hl, hc⟩
    · exact .inr rfl
    · obtain ⟨o, -, hoctet⟩ := mapM_mem h hl
      unfold Ipv4.octet at hoctet
      split at hoctet
      · rename_i hdigits
        exact .inl (List.all_eq_true.mp hdigits.2.1 c hc)
      · cases hoctet
  · cases h

theorem Ipv4.text_char {c : Nat} {os : List Nat} (h : c ∈ Ipv4.text os) :
    isDigit c = true ∨ c = point := by
  rcases mem_intercalate h with rfl | ⟨l, hl, hc⟩
  · exact .inr rfl
  · obtain ⟨o, -, rfl⟩ := List.mem_map.mp hl
    exact .inl (isDigit_numeral hc)

namespace Ipv6

variable {n : Nat} {s t : Str} {hs : List Nat} {mixed : Bool}

-- ---------------------------------------------------------------------------
-- A skipped run
-- ---------------------------------------------------------------------------

theorem skips_eq_nil {ps : List Str} (h : ∀ p ∈ ps, p ≠ []) : skips ps = [] := by
  refine List.filter_eq_nil_iff.mpr fun i _ hi => ?_
  exact h [] (List.mem_of_getElem? (beq_iff_eq.mp hi)) rfl

/-- The one empty part inside. -/
theorem skips_eq_singleton {xs ys : List Str} (hx : xs ≠ []) (hy : ys ≠ [])
    (hxs : ∀ p ∈ xs.tail, p ≠ []) (hys : ∀ p ∈ ys.dropLast, p ≠ []) :
    skips (xs ++ [] :: ys) = [xs.length] := by
  have hxpos := List.length_pos_iff.mpr hx
  have hypos := List.length_pos_iff.mpr hy
  have hlen : (xs ++ [] :: ys).length - 2 = xs.length + ys.length - 1 := by
    rw [List.length_append, List.length_cons]
    omega
  have hmem : xs.length ∈ (List.range (xs.length + ys.length - 1)).map (· + 1) :=
    List.mem_map.mpr ⟨xs.length - 1, List.mem_range.mpr (by omega), by omega⟩
  have hnodup : ((List.range (xs.length + ys.length - 1)).map (· + 1)).Nodup :=
    List.nodup_range.map fun i j hij => Nat.succ_injective hij
  have hcongr : ∀ i ∈ (List.range (xs.length + ys.length - 1)).map (· + 1),
      ((xs ++ [] :: ys)[i]? == some []) = (i == xs.length) := by
    intro i hi
    obtain ⟨j, hj, rfl⟩ := List.mem_map.mp hi
    have hj := List.mem_range.mp hj
    rcases lt_trichotomy (j + 1) xs.length with hlt | heq | hgt
    · have hne : xs[j + 1]? ≠ some [] := fun h =>
        hxs [] (List.mem_of_getElem? (by rwa [List.getElem?_tail])) rfl
      rw [List.getElem?_append_left hlt]
      simp [hne, hlt.ne]
    · rw [heq, List.getElem?_append_right le_rfl]
      simp
    · obtain ⟨k, hk⟩ : ∃ k, j + 1 = xs.length + (k + 1) := ⟨j - xs.length, by omega⟩
      have hne : ys[k]? ≠ some [] := fun h => by
        refine hys [] (List.mem_of_getElem? (i := k) ?_) rfl
        rw [List.getElem?_dropLast, if_pos (by omega), h]
      rw [hk, List.getElem?_append_right (by omega), Nat.add_sub_cancel_left,
        List.getElem?_cons_succ]
      simp [hne]
  rw [skips, hlen, List.filter_congr hcongr, List.filter_beq,
    List.count_eq_one_of_mem hnodup hmem, List.replicate_one]

/-- The parts of a text before or after the skipped run. -/
def edge (ps : List Str) : List Str := if ps = [] then [[]] else ps

theorem edge_ne_nil (ps : List Str) : edge ps ≠ [] := by
  unfold edge
  split
  · simp
  · assumption

theorem before_edge {ps : List Str} (h : ∀ p ∈ ps, p ≠ []) : before (edge ps) = some ps := by
  cases ps with
  | nil => rfl
  | cons p ps =>
    rw [edge, if_neg (by simp), before, List.head?_cons, if_neg]
    simpa using h p (by simp)

theorem after_edge {ps : List Str} (h : ∀ p ∈ ps, p ≠ []) : after (edge ps) = some ps := by
  by_cases hps : ps = []
  · rw [hps]
    rfl
  · rw [edge, if_neg hps, after, if_neg]
    exact fun hlast => h [] (List.mem_of_getLast? hlast) rfl

theorem tail_edge {ps : List Str} (h : ∀ p ∈ ps, p ≠ []) : ∀ p ∈ (edge ps).tail, p ≠ [] := by
  unfold edge
  split
  · simp
  · exact fun p hp => h p (List.mem_of_mem_tail hp)

theorem dropLast_edge {ps : List Str} (h : ∀ p ∈ ps, p ≠ []) :
    ∀ p ∈ (edge ps).dropLast, p ≠ [] := by
  unfold edge
  split
  · simp
  · exact fun p hp => h p (List.mem_of_mem_dropLast hp)

theorem map_ne_nil (hs : List Nat) : ∀ p ∈ hs.map hextetText, p ≠ [] := by
  intro p hp
  obtain ⟨n, -, rfl⟩ := List.mem_map.mp hp
  exact hextetText_ne_nil n

theorem join_skipped {as bs : List Nat} (ha : ∀ h ∈ as, h < 65536) (hb : ∀ h ∈ bs, h < 65536)
    (hlen : as.length + n + bs.length = 8) (hn : 0 < n) :
    join (edge (as.map hextetText) ++ [] :: edge (bs.map hextetText)) =
      some (as ++ List.replicate n 0 ++ bs) := by
  have has := map_ne_nil as
  have hbs := map_ne_nil bs
  have hskips := skips_eq_singleton (edge_ne_nil (as.map hextetText))
    (edge_ne_nil (bs.map hextetText)) (tail_edge has) (dropLast_edge hbs)
  have hdrop : (edge (as.map hextetText) ++ [] :: edge (bs.map hextetText)).drop
      ((edge (as.map hextetText)).length + 1) = edge (bs.map hextetText) := by
    rw [List.drop_length_add_append]
    rfl
  have hzeros : 8 - (as.length + bs.length) = n := by omega
  rw [join, hskips]
  simp only [List.take_left, hdrop, before_edge has, after_edge hbs, Option.bind_eq_bind,
    Option.bind_some, List.length_map, mapM_hextet ha, mapM_hextet hb, Option.pure_def, hzeros]
  rw [if_pos (by omega)]

theorem join_whole (hlen : hs.length = 8) (h : ∀ n ∈ hs, n < 65536) :
    join (hs.map hextetText) = some hs := by
  rw [join, skips_eq_nil (map_ne_nil hs)]
  simp only [List.length_map, hlen, if_true, mapM_hextet h]


-- ---------------------------------------------------------------------------
-- Reading what was written
-- ---------------------------------------------------------------------------

theorem before_skipped (hs : List Nat) :
    (if hs.length = 0 then [[]] else []) ++ hs.map hextetText = edge (hs.map hextetText) := by
  cases hs with
  | nil => rfl
  | cons n hs => rfl

theorem after_skipped (hs : List Nat) :
    hs.map hextetText ++ (if hs.length = 0 then [[]] else []) = edge (hs.map hextetText) := by
  cases hs with
  | nil => rfl
  | cons n hs => exact List.append_nil _

/-- The parts are all there, or a run of zeros is skipped. -/
theorem parts_cases (hs : List Nat) : parts hs = hs.map hextetText ∨
    ∃ a n b, 0 < n ∧ hs = a ++ List.replicate n 0 ++ b ∧
      parts hs = edge (a.map hextetText) ++ [] :: edge (b.map hextetText) := by
  obtain ⟨a, b, hhs, hstart⟩ := (runs_ok hs).best
  unfold parts
  dsimp only
  split
  · rename_i hlong
    have hstart := hstart (by omega)
    generalize (runs hs).bestLength = n at hhs hlong
    generalize (runs hs).bestStart = start at hstart
    subst hstart hhs
    have hlen : (a ++ List.replicate n 0).length = a.length + n := by simp
    have hdrop : (a ++ List.replicate n 0 ++ b).drop (a.length + n) = b := by
      rw [← hlen, List.drop_left]
    have htake : (a ++ List.replicate n 0 ++ b).take a.length = a := by
      rw [List.append_assoc, List.take_left]
    have hend : (a.length + n = (a ++ List.replicate n 0 ++ b).length) = (b.length = 0) := by
      rw [List.length_append, hlen, left_eq_add]
    refine .inr ⟨a, n, b, by omega, rfl, ?_⟩
    simp only [hdrop, htake, hend, before_skipped]
    rw [List.append_assoc, List.append_assoc, after_skipped]
    rfl
  · exact .inl rfl

/-- A text of parts, where none of them is an IPv4 address. -/
theorem parse_parts {ps : List Str} (hcolon : ∀ p ∈ ps, colon ∉ p) (hpoint : ∀ p ∈ ps, point ∉ p)
    (hmin : 3 ≤ ps.length) (hmax : ps.length ≤ 9) : parse ([colon].intercalate ps) = join ps := by
  have hne : ps ≠ [] := List.ne_nil_of_length_pos (by omega)
  have hsplit := List.splitOn_intercalate colon hcolon hne
  have hs : [colon].intercalate ps ≠ [] := by
    intro hs
    rw [hs, List.splitOn_nil] at hsplit
    rw [← hsplit] at hmin
    exact absurd hmin (by decide)
  have hlast : point ∉ ps.getLast?.getD [] := by
    rw [List.getLast?_eq_some_getLast hne]
    exact hpoint _ (List.getLast_mem hne)
  rw [parse, if_neg hs, hsplit, if_neg (by omega), expand, if_neg hlast, Option.bind_some,
    if_pos hmax]

theorem parts_plain {c : Nat} {p : Str} (hp : p ∈ parts hs) (hc : c ∈ p) :
    isDigit c = true ∨ 97 ≤ c ∧ c ≤ 102 := by
  have hmap (ns : List Nat) (h : p ∈ ns.map hextetText) : isDigit c = true ∨ 97 ≤ c ∧ c ≤ 102 := by
    obtain ⟨n, -, rfl⟩ := List.mem_map.mp h
    exact hextetText_char hc
  have hedge (ns : List Nat) (h : p ∈ edge (ns.map hextetText)) :
      isDigit c = true ∨ 97 ≤ c ∧ c ≤ 102 := by
    unfold edge at h
    split at h
    · rw [List.mem_singleton.mp h] at hc
      cases hc
    · exact hmap ns h
  rcases parts_cases hs with hparts | ⟨a, n, b, -, -, hparts⟩
  · exact hmap hs (hparts ▸ hp)
  · rw [hparts, List.mem_append, List.mem_cons] at hp
    rcases hp with hp | rfl | hp
    · exact hedge a hp
    · cases hc
    · exact hedge b hp

theorem edge_length (hs : List Nat) : (edge (hs.map hextetText)).length = max 1 hs.length := by
  cases hs with
  | nil => rfl
  | cons n hs => simp [edge]

theorem parts_length (hlen : hs.length = 8) : 3 ≤ (parts hs).length ∧ (parts hs).length ≤ 9 := by
  rcases parts_cases hs with hparts | ⟨a, n, b, hn, hhs, hparts⟩
  · rw [hparts, List.length_map]
    omega
  · rw [hhs, List.length_append, List.length_append, List.length_replicate] at hlen
    rw [hparts, List.length_append, List.length_cons, edge_length, edge_length]
    omega

theorem join_parts (hlen : hs.length = 8) (h : ∀ n ∈ hs, n < 65536) :
    join (parts hs) = some hs := by
  rcases parts_cases hs with hparts | ⟨a, n, b, hn, rfl, hparts⟩
  · rw [hparts, join_whole hlen h]
  · rw [hparts]
    refine join_skipped (fun x hx => h x (by simp [hx])) (fun x hx => h x (by simp [hx])) ?_ hn
    simpa [Nat.add_assoc] using hlen

theorem parse_unmixed (hlen : hs.length = 8) (h : ∀ n ∈ hs, n < 65536) :
    parse ([colon].intercalate (parts hs)) = some hs := by
  have hcolon : ∀ p ∈ parts hs, colon ∉ p := fun p hp hc => by
    have := parts_plain hp hc
    revert this
    decide
  have hpoint : ∀ p ∈ parts hs, point ∉ p := fun p hp hc => by
    have := parts_plain hp hc
    revert this
    decide
  obtain ⟨hmin, hmax⟩ := parts_length hlen
  rw [parse_parts hcolon hpoint hmin hmax, join_parts hlen h]

theorem parse_mapped {h l : Nat} (hh : h < 65536) (hl : l < 65536) :
    parse (lit "::ffff:" ++ Ipv4.text [h / 256, h % 256, l / 256, l % 256]) =
      some [0, 0, 0, 0, 0, 0xffff, h, l] := by
  have htext : lit "::ffff:" ++ Ipv4.text [h / 256, h % 256, l / 256, l % 256] =
      [colon].intercalate [[], [], lit "ffff", Ipv4.text [h / 256, h % 256, l / 256, l % 256]] := by
    simp only [List.intercalate_cons_cons, List.intercalate_singleton, List.nil_append]
    rfl
  have hoctets : ∀ o ∈ [h / 256, h % 256, l / 256, l % 256], o ≤ 255 := by
    simp only [List.mem_cons, List.not_mem_nil, or_false, forall_eq_or_imp, forall_eq]
    omega
  have hcolon : ∀ p ∈ [[], [], lit "ffff", Ipv4.text [h / 256, h % 256, l / 256, l % 256]],
      colon ∉ p := by
    simp only [List.mem_cons, List.not_mem_nil, or_false, forall_eq_or_imp, forall_eq]
    refine ⟨id, id, by decide, fun hc => ?_⟩
    have := Ipv4.text_char hc
    revert this
    decide
  have hpoint : point ∈ Ipv4.text [h / 256, h % 256, l / 256, l % 256] := by
    simp [Ipv4.text]
  have hhigh : 256 * (h / 256) + h % 256 = h := Nat.div_add_mod h 256
  have hlow : 256 * (l / 256) + l % 256 = l := Nat.div_add_mod l 256
  have hjoin : join (edge ([].map hextetText) ++ [] :: edge ([0xffff, h, l].map hextetText)) =
      some ([] ++ List.replicate 5 0 ++ [0xffff, h, l]) :=
    join_skipped (List.forall_mem_nil _) (by simp [hh, hl]) rfl (by decide)
  rw [parse, htext, List.splitOn_intercalate colon hcolon (by simp), if_neg (by simp),
    if_neg (by simp), expand]
  simp only [List.getLast?_cons_cons, List.getLast?_singleton, Option.getD_some, if_pos hpoint,
    Ipv4.parse_text rfl hoctets, hhigh, hlow, Option.bind_some]
  exact hjoin

/-- An address is read back from its text. -/
theorem parse_text (hlen : hs.length = 8) (h : ∀ n ∈ hs, n < 65536) :
    parse (text mixed hs) = some hs := by
  unfold text
  split
  · rename_i high low hmapped hdrop
    have hhs : hs = [0, 0, 0, 0, 0, 0xffff, high, low] := by
      rw [← List.take_append_drop 6 hs, hdrop, beq_iff_eq.mp hmapped]
      rfl
    rw [hhs, parse_mapped (h high (by simp [hhs])) (h low (by simp [hhs]))]
  · exact parse_unmixed hlen h

-- ---------------------------------------------------------------------------
-- What is read
-- ---------------------------------------------------------------------------

theorem foldl_hex_lt {ds : List Nat} {n : Nat} (h : ∀ d ∈ ds, d < 16) :
    ds.foldl (fun n d => 16 * n + d) n < (n + 1) * 16 ^ ds.length := by
  induction ds generalizing n with
  | nil => simp
  | cons d ds ih =>
    have hd := h d (by simp)
    calc (d :: ds).foldl (fun n d => 16 * n + d) n
        < (16 * n + d + 1) * 16 ^ ds.length := ih fun x hx => h x (by simp [hx])
      _ ≤ (16 * (n + 1)) * 16 ^ ds.length := Nat.mul_le_mul_right _ (by omega)
      _ = (n + 1) * 16 ^ (d :: ds).length := by rw [List.length_cons, Nat.pow_succ]; ring

theorem hextet_lt {p : Str} (h : hextet p = some n) : n < 65536 := by
  unfold hextet at h
  split at h
  · rename_i hp
    obtain ⟨ds, hds, rfl⟩ := Option.map_eq_some_iff.mp h
    have hlen := mapM_length hds
    have hdigit : ∀ d ∈ ds, d < 16 := fun d hd => by
      obtain ⟨c, -, hc⟩ := mem_of_mapM hds hd
      exact hexValue_lt hc
    calc ds.foldl (fun n d => 16 * n + d) 0 < (0 + 1) * 16 ^ ds.length := foldl_hex_lt hdigit
      _ ≤ (0 + 1) * 16 ^ 4 := Nat.mul_le_mul_left _ (Nat.pow_le_pow_right (by decide) (by omega))
  · cases h

theorem mapM_hextet_lt {ps : List Str} (h : ps.mapM hextet = some hs) :
    hs.length = ps.length ∧ ∀ n ∈ hs, n < 65536 := by
  refine ⟨mapM_length h, fun n hn => ?_⟩
  obtain ⟨p, -, hp⟩ := mem_of_mapM h hn
  exact hextet_lt hp

theorem join_ok {ps : List Str} (h : join ps = some hs) : hs.length = 8 ∧ ∀ n ∈ hs, n < 65536 := by
  unfold join at h
  split at h
  · split at h
    · rename_i hlen
      obtain ⟨hlen', hall⟩ := mapM_hextet_lt h
      exact ⟨hlen'.trans hlen, hall⟩
    · cases h
  · obtain ⟨high, -, h⟩ := Option.bind_eq_some_iff.mp h
    obtain ⟨low, -, h⟩ := Option.bind_eq_some_iff.mp h
    split at h
    · obtain ⟨as, has, h⟩ := Option.bind_eq_some_iff.mp h
      obtain ⟨bs, hbs, h⟩ := Option.bind_eq_some_iff.mp h
      cases h
      obtain ⟨hlen, hall⟩ := mapM_hextet_lt has
      obtain ⟨hlen', hall'⟩ := mapM_hextet_lt hbs
      refine ⟨by simp only [List.length_append, List.length_replicate]; omega, fun n hn => ?_⟩
      simp only [List.mem_append, List.mem_replicate] at hn
      rcases hn with (hn | ⟨-, rfl⟩) | hn
      · exact hall n hn
      · decide
      · exact hall' n hn
    · cases h
  · cases h

theorem parse_ok (h : parse s = some hs) :
    3 ≤ (s.splitOn colon).length ∧ hs.length = 8 ∧ ∀ n ∈ hs, n < 65536 := by
  unfold parse at h
  split at h
  · cases h
  · split at h
    · cases h
    · obtain ⟨ps, -, h⟩ := Option.bind_eq_some_iff.mp h
      split at h
      · exact ⟨by omega, join_ok h⟩
      · cases h

theorem count_colon (h : parse s = some hs) : 2 ≤ s.count colon := by
  have := (parse_ok h).1
  rw [length_splitOn] at this
  omega

/-- `IPv6Address.compressed` of what it wrote. -/
theorem compressed_compressed (h : compressed mixed s = some t) :
    compressed mixed t = some t := by
  obtain ⟨hs, hparse, rfl⟩ := Option.map_eq_some_iff.mp h
  obtain ⟨-, hlen, hall⟩ := parse_ok hparse
  rw [compressed, parse_text hlen hall, Option.map_some]

theorem text_char {c : Nat} (h : c ∈ text mixed hs) : isAddressChar c = true := by
  have hplain (h : isDigit c = true ∨ 97 ≤ c ∧ c ≤ 102) : isAddressChar c = true := by
    rcases h with h | h <;> simp [isAddressChar, h]
  unfold text at h
  split at h
  · rcases List.mem_append.mp h with h | h
    · have hall : ∀ c ∈ lit "::ffff:", isAddressChar c = true := by decide
      exact hall c h
    · rcases Ipv4.text_char h with h | rfl
      · exact hplain (.inl h)
      · decide
  · rcases mem_intercalate h with rfl | ⟨p, hp, hc⟩
    · decide
    · exact hplain (parts_plain hp hc)

end Ipv6

end EufyNvr
