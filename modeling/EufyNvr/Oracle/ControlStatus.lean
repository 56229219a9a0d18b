import EufyNvr.Lib.JsonScan
import EufyNvr.Lib.Utf8Bytes
import EufyNvr.Stream.Acknowledgement

/-!
# Statuses among the frames

Which frames `fixedControlStatus` takes for a status: a header, four bytes
that are not all printable, and zeros.
-/

namespace EufyNvr.Oracle

open Json
open EufyNvr.Stream (readInt32LE magic commandId fixedControlStatus)

variable {frame header status pad text : Bytes} {s : Int}

/-- The four bytes of a signed number, the lowest first. -/
def int32LE (s : Int) : Bytes :=
  let n := (s % 4294967296).toNat
  [UInt8.ofNat n, UInt8.ofNat (n / 256), UInt8.ofNat (n / 65536), UInt8.ofNat (n / 16777216)]

/-- A printable ASCII character. -/
def isPrintable (b : UInt8) : Bool := 0x20 ≤ b && b ≤ 0x7e

/-- The header of a control reply: any command but 1032. -/
structure Header (header : Bytes) : Prop where
  length : header.length = 16
  xzyh : magic header = [88, 90, 89, 72]
  command : commandId header ≠ some 1032

/-- A control reply that is the status `s` and nothing else. -/
structure StatusReply (frame : Bytes) (s : Int) : Prop where
  bounds : -2147483648 ≤ s ∧ s < 2147483648
  binary : ∃ b ∈ int32LE s, isPrintable b = false
  parts : ∃ header pad, Header header ∧ frame = header ++ (int32LE s ++ pad) ∧ ∀ b ∈ pad, b = 0

-- ---------------------------------------------------------------------------
-- Numbers of four bytes
-- ---------------------------------------------------------------------------

theorem readInt32LE_int32LE (h : -2147483648 ≤ s ∧ s < 2147483648) (rest : Bytes) :
    readInt32LE (int32LE s ++ rest) = s := by
  have hn : (s % 4294967296).toNat < 4294967296 := by omega
  have hs : ((s % 4294967296).toNat : Int) = s ∨ ((s % 4294967296).toNat : Int) = s + 4294967296 :=
    by omega
  simp only [int32LE, List.cons_append, List.nil_append, readInt32LE, UInt8.toNat_ofNat']
  generalize (s % 4294967296).toNat = n at hn hs
  split <;> omega

theorem int32LE_readInt32LE (a b c d : UInt8) (rest : Bytes) :
    int32LE (readInt32LE (a :: b :: c :: d :: rest)) = [a, b, c, d] := by
  have ha := a.toNat_lt
  have hb := b.toNat_lt
  have hc := c.toNat_lt
  have hd := d.toNat_lt
  have hn : (readInt32LE (a :: b :: c :: d :: rest) % 4294967296).toNat =
      a.toNat + 256 * b.toNat + 65536 * c.toNat + 16777216 * d.toNat := by
    simp only [readInt32LE]
    split <;> omega
  simp only [int32LE, hn, ← UInt8.toNat_inj, List.cons.injEq, and_true, UInt8.toNat_ofNat']
  omega

theorem readInt32LE_bounds (b : Bytes) :
    -2147483648 ≤ readInt32LE b ∧ readInt32LE b < 2147483648 := by
  unfold readInt32LE
  split
  · rename_i a b c d rest
    have ha := a.toNat_lt
    have hb := b.toNat_lt
    have hc := c.toNat_lt
    have hd := d.toNat_lt
    dsimp only
    split <;> omega
  · decide

/-- A number of at most three bytes has 0 or 255 for its highest. -/
theorem int32LE_binary (h : -16777216 < s ∧ s < 16777216) :
    ∃ b ∈ int32LE s, isPrintable b = false := by
  refine ⟨UInt8.ofNat ((s % 4294967296).toNat / 16777216), by simp [int32LE], ?_⟩
  have hn : (s % 4294967296).toNat / 16777216 = 0 ∨ (s % 4294967296).toNat / 16777216 = 255 := by
    omega
  rcases hn with hn | hn <;> · rw [hn]; decide

-- ---------------------------------------------------------------------------
-- The classifier
-- ---------------------------------------------------------------------------

theorem Header.split (h : Header header) (payload : Bytes) :
    (header ++ payload).drop 16 = payload ∧ magic (header ++ payload) = [88, 90, 89, 72] ∧
      commandId (header ++ payload) ≠ some 1032 := by
  obtain ⟨hlen, hxzyh, hcommand⟩ := h
  refine ⟨List.drop_left' hlen, ?_, ?_⟩
  · rw [magic, List.take_append_of_le_length (by omega)]
    exact hxzyh
  · match header, hlen with
    | _ :: _ :: _ :: _ :: _ :: _ :: _, _ => exact hcommand

theorem fixedControlStatus_reply (h : StatusReply frame s) : fixedControlStatus frame = some s := by
  obtain ⟨hbounds, ⟨b, hb, hbinary⟩, header, pad, hheader, rfl, hpad⟩ := h
  obtain ⟨hdrop, hmagic, hcommand⟩ := hheader.split (int32LE s ++ pad)
  have hlen : ¬ (header ++ (int32LE s ++ pad)).length < 20 := by
    rw [List.length_append, List.length_append, hheader.length]
    simp only [int32LE, List.length_cons, List.length_nil]
    omega
  have hfour : (int32LE s).length = 4 := rfl
  have hrest : ((int32LE s ++ pad).drop 4).any (· ≠ 0) = false := by
    rw [List.drop_left' hfour]
    simpa using hpad
  have hprefix : ((int32LE s ++ pad).take 4).any (fun b => b < 0x20 || b > 0x7e) = true := by
    rw [List.take_left' hfour]
    refine List.any_eq_true.mpr ⟨b, hb, ?_⟩
    simp only [isPrintable, Bool.and_eq_false_iff, decide_eq_false_iff_not, UInt8.not_le] at hbinary
    simpa using hbinary
  unfold fixedControlStatus
  simp only [hdrop]
  rw [if_neg (not_or.mpr ⟨hlen, not_not.mpr hmagic⟩), if_neg hcommand,
    if_neg (Bool.eq_false_iff.mp hrest), if_pos hprefix, readInt32LE_int32LE hbounds]

theorem statusReply_of (h : fixedControlStatus frame = some s) : StatusReply frame s := by
  unfold fixedControlStatus at h
  dsimp only at h
  obtain ⟨hhead, h⟩ := Option.ite_none_left_eq_some.mp h
  obtain ⟨hcommand, h⟩ := Option.ite_none_left_eq_some.mp h
  obtain ⟨hrest, h⟩ := Option.ite_none_left_eq_some.mp h
  obtain ⟨hbinary, h⟩ := Option.ite_none_right_eq_some.mp h
  obtain ⟨hlen, hmagic⟩ := not_or.mp hhead
  have hsplit : frame = frame.take 16 ++ frame.drop 16 := (List.take_append_drop 16 frame).symm
  obtain ⟨a, b, c, d, pad, hpayload⟩ : ∃ a b c d pad, frame.drop 16 = a :: b :: c :: d :: pad := by
    have hdrop : 4 ≤ (frame.drop 16).length := by
      rw [List.length_drop]
      omega
    match hp : frame.drop 16, hdrop with
    | a :: b :: c :: d :: pad, _ => exact ⟨a, b, c, d, pad, rfl⟩
  rw [hpayload] at hrest hbinary h
  have hs : readInt32LE (a :: b :: c :: d :: pad) = s := Option.some.inj h
  have hbytes : int32LE s = [a, b, c, d] := by rw [← hs, int32LE_readInt32LE]
  have hheader : Header (frame.take 16) := by
    refine ⟨by rw [List.length_take]; omega, ?_, ?_⟩
    · rw [magic, List.take_take]
      exact not_not.mp hmagic
    · rw [hsplit] at hcommand
      match h16 : frame.take 16, (show (frame.take 16).length = 16 by rw [List.length_take]; omega)
        with
      | _ :: _ :: _ :: _ :: _ :: _ :: _, _ =>
        rw [h16] at hcommand
        exact hcommand
  refine ⟨hs ▸ readInt32LE_bounds _, ?_, frame.take 16, pad, hheader, ?_, by simpa using hrest⟩
  · rw [hbytes]
    obtain ⟨x, hx, hprefix⟩ := List.any_eq_true.mp hbinary
    refine ⟨x, hx, ?_⟩
    simp only [isPrintable, Bool.and_eq_false_iff, decide_eq_false_iff_not, UInt8.not_le]
    simpa using hprefix
  · rw [hbytes]
    exact hsplit.trans (by rw [hpayload]; rfl)

/-- A text of more than four bytes is no status, with NULs after it or
without. -/
theorem fixedControlStatus_text (hlen : header.length = 16) (htext : 4 < text.length)
    (hnul : 0 ∉ text) : fixedControlStatus (header ++ (text ++ pad)) = none := by
  have hany : ((text ++ pad).drop 4).any (· ≠ 0) = true := by
    match text, htext with
    | _ :: _ :: _ :: _ :: b :: rest, _ =>
      have hb : b ≠ 0 := fun hb => hnul (by simp [hb])
      simp [hb]
  unfold fixedControlStatus
  dsimp only
  rw [List.drop_left' hlen]
  simp only [hany, if_true]
  split
  · rfl
  · split <;> rfl

/-- A frame is taken for a status exactly where it is one; a status of at
most three bytes always is, and a JSON text of more than four bytes never. -/
theorem fixed_status :
    (∀ frame s, fixedControlStatus frame = some s ↔ StatusReply frame s) ∧
    (∀ header pad s, Header header → (∀ b ∈ pad, b = 0) → -2 ^ 24 < s → s < 2 ^ 24 →
      fixedControlStatus (header ++ (int32LE s ++ pad)) = some s) ∧
    ∀ header pad t v text, header.length = 16 → loads t = some v → Utf8.encode t = some text →
      4 < text.length → fixedControlStatus (header ++ (text ++ pad)) = none := by
  refine ⟨fun frame s => ⟨statusReply_of, fixedControlStatus_reply⟩, ?_, ?_⟩
  · intro header pad s hheader hpad hlow hhigh
    refine fixedControlStatus_reply ⟨by omega, ?_, header, pad, hheader, rfl, hpad⟩
    exact int32LE_binary (by omega)
  · intro header pad t v text hlen hloads hencode htext
    have hnul : 0 ∉ text := Utf8.zero_not_mem_encode hencode (nul_not_mem_of_loads hloads)
    exact fixedControlStatus_text hlen htext hnul

/-- The header of a reply to command 1350. -/
def replyHeader : Bytes := [88, 90, 89, 72, 70, 5, 4, 0, 0, 0, 0, 0, 255, 0, 1, 2]

/-- The rejection of an account, and the beginning of a device list. -/
theorem fixed_status_rejection :
    fixedControlStatus (replyHeader ++ (int32LE (-104) ++ [0, 0, 0, 0])) = some (-104) ∧
      fixedControlStatus (replyHeader ++ ((lit "\x7b\"cmd\":9100\x7d").map UInt8.ofNat ++ [0])) =
        none := by
  have hjson : loads (lit "\x7b\"cmd\":9100\x7d") = some (.obj [(lit "cmd", .int 9100)]) := by
    decide +kernel
  have hascii : Ascii (lit "\x7b\"cmd\":9100\x7d") := by decide
  have hheader : Header replyHeader := ⟨rfl, rfl, by decide⟩
  exact ⟨fixed_status.2.1 replyHeader [0, 0, 0, 0] (-104) hheader (by simp) (by norm_num)
    (by norm_num), fixed_status.2.2 replyHeader [0] _ _ _ rfl hjson (Utf8.encode_ascii hascii)
    (by decide)⟩

end EufyNvr.Oracle
