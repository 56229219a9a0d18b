import EufyNvr.Basic

/-!
# Block ciphers

Cipher block chaining with padding, over any cipher for blocks of `n` bytes.
What is sealed under a key and an initial block is opened under them again,
whatever the cipher computes.
-/

namespace EufyNvr.Block

variable {n k : Nat} {b iv : Bytes}

/-- A cipher under one key. -/
structure Cipher (n : Nat) where
  encrypt : Bytes → Bytes
  decrypt : Bytes → Bytes
  length_encrypt : ∀ b, b.length = n → (encrypt b).length = n
  decrypt_encrypt : ∀ b, b.length = n → decrypt (encrypt b) = b

-- ---------------------------------------------------------------------------
-- Blocks
-- ---------------------------------------------------------------------------

/-- The first `k` blocks. -/
def cut (n : Nat) : Nat → Bytes → List Bytes
  | 0, _ => []
  | k + 1, b => b.take n :: cut n k (b.drop n)

/-- All blocks, where no byte is left over. -/
def blocks (n : Nat) (b : Bytes) : Option (List Bytes) :=
  if b.length % n = 0 then some (cut n (b.length / n) b) else none

def Blocks (n : Nat) (bs : List Bytes) : Prop := ∀ b ∈ bs, b.length = n

theorem cut_spec (h : b.length = n * k) :
    Blocks n (cut n k b) ∧ (cut n k b).flatten = b := by
  induction k generalizing b with
  | zero =>
    obtain rfl := List.eq_nil_of_length_eq_zero (h.trans (Nat.mul_zero n))
    exact ⟨List.forall_mem_nil _, rfl⟩
  | succ k ih =>
    have hle : n ≤ b.length := by
      rw [h]
      exact Nat.le_mul_of_pos_right n k.succ_pos
    have hdrop : (b.drop n).length = n * k := by
      rw [List.length_drop, h, Nat.mul_succ, Nat.add_sub_cancel]
    obtain ⟨hblocks, hflatten⟩ := ih hdrop
    refine ⟨List.forall_mem_cons.mpr ⟨List.length_take_of_le hle, hblocks⟩, ?_⟩
    rw [cut, List.flatten_cons, hflatten, List.take_append_drop]

theorem cut_flatten {bs : List Bytes} (h : Blocks n bs) : cut n bs.length bs.flatten = bs := by
  induction bs with
  | nil => rfl
  | cons b bs ih =>
    obtain ⟨rfl, hbs⟩ := List.forall_mem_cons.mp h
    rw [List.length_cons, List.flatten_cons, cut, List.take_left, List.drop_left, ih hbs]

theorem length_flatten {bs : List Bytes} (h : Blocks n bs) : bs.flatten.length = n * bs.length := by
  induction bs with
  | nil => rfl
  | cons b bs ih =>
    obtain ⟨rfl, hbs⟩ := List.forall_mem_cons.mp h
    rw [List.flatten_cons, List.length_append, ih hbs, List.length_cons, Nat.mul_succ, Nat.add_comm]

theorem blocks_flatten {bs : List Bytes} (hn : 0 < n) (h : Blocks n bs) :
    blocks n bs.flatten = some bs := by
  rw [blocks, length_flatten h, Nat.mul_mod_right, if_pos rfl, Nat.mul_div_cancel_left _ hn,
    cut_flatten h]

-- ---------------------------------------------------------------------------
-- Padding
-- ---------------------------------------------------------------------------

/-- How many bytes are missing to a whole number of blocks, and a block where
none is. -/
def padding (n : Nat) (b : Bytes) : Nat := n - b.length % n

/-- Every byte that is added says how many they are. -/
def pad (n : Nat) (b : Bytes) : Bytes :=
  b ++ List.replicate (padding n b) (UInt8.ofNat (padding n b))

def unpad (n : Nat) (b : Bytes) : Option Bytes := do
  let last ← b.getLast?
  if b.length % n = 0 ∧ 1 ≤ last.toNat ∧ last.toNat ≤ n ∧
      (b.drop (b.length - last.toNat)).all (· == last) then
    return b.take (b.length - last.toNat)
  else none

theorem padding_bounds (hn : 0 < n) (b : Bytes) : 1 ≤ padding n b ∧ padding n b ≤ n := by
  have := Nat.mod_lt b.length hn
  unfold padding
  omega

theorem length_pad (n : Nat) (b : Bytes) : (pad n b).length = b.length + padding n b := by
  rw [pad, List.length_append, List.length_replicate]

theorem length_pad_mod (hn : 0 < n) (b : Bytes) : (pad n b).length % n = 0 := by
  have hlt := Nat.mod_lt b.length hn
  have hdiv := Nat.div_add_mod b.length n
  have hlen : (pad n b).length = n * (b.length / n + 1) := by
    rw [length_pad, padding, Nat.mul_succ]
    omega
  rw [hlen, Nat.mul_mod_right]

/-- The last byte of a padded text is the number of bytes that were added. -/
theorem getLast?_pad (hn : 0 < n) (b : Bytes) :
    (pad n b).getLast? = some (UInt8.ofNat (padding n b)) := by
  obtain ⟨k, hk⟩ := Nat.exists_eq_succ_of_ne_zero (Nat.one_le_iff_ne_zero.mp (padding_bounds hn b).1)
  rw [pad, hk, List.replicate_succ', ← List.append_assoc, List.getLast?_concat]

theorem toNat_padding (hn : 0 < n) (h256 : n < 256) (b : Bytes) :
    (UInt8.ofNat (padding n b)).toNat = padding n b := by
  have := (padding_bounds hn b).2
  exact Nat.mod_eq_of_lt (by omega)

theorem unpad_pad (hn : 0 < n) (h256 : n < 256) (b : Bytes) : unpad n (pad n b) = some b := by
  have hbounds := padding_bounds hn b
  have hsub : (pad n b).length - padding n b = b.length := by
    rw [length_pad, Nat.add_sub_cancel]
  have hdrop : (pad n b).drop b.length =
      List.replicate (padding n b) (UInt8.ofNat (padding n b)) := List.drop_left
  have htake : (pad n b).take b.length = b := List.take_left
  rw [unpad, getLast?_pad hn, Option.bind_eq_bind, Option.bind_some, toNat_padding hn h256, hsub,
    hdrop, htake, if_pos]
  · rfl
  · exact ⟨length_pad_mod hn b, hbounds.1, hbounds.2, by simp⟩

-- ---------------------------------------------------------------------------
-- Chaining
-- ---------------------------------------------------------------------------

def mix (a b : Bytes) : Bytes := List.zipWith (· ^^^ ·) a b

theorem length_mix {a b : Bytes} (h : a.length = b.length) : (mix a b).length = a.length := by
  rw [mix, List.length_zipWith, h, Nat.min_self]

theorem mix_mix {a b : Bytes} (h : a.length = b.length) : mix (mix a b) b = a := by
  induction a generalizing b with
  | nil => rfl
  | cons x a ih =>
    cases b with
    | nil => cases h
    | cons y b =>
      have hx : x ^^^ y ^^^ y = x := by rw [UInt8.xor_assoc, UInt8.xor_self, UInt8.xor_zero]
      have hcons : mix (mix (x :: a) (y :: b)) (y :: b) = (x ^^^ y ^^^ y) :: mix (mix a b) b := rfl
      rw [hcons, hx, ih (Nat.succ.inj h)]

namespace Cipher

variable (C : Cipher n)

/-- Every block is combined with the cipher text of the one before it. -/
def chain : Bytes → List Bytes → List Bytes
  | _, [] => []
  | iv, b :: bs => C.encrypt (mix b iv) :: chain (C.encrypt (mix b iv)) bs

def unchain : Bytes → List Bytes → List Bytes
  | _, [] => []
  | iv, c :: cs => mix (C.decrypt c) iv :: unchain c cs

theorem chain_spec {bs : List Bytes} (hiv : iv.length = n) (h : Blocks n bs) :
    Blocks n (C.chain iv bs) ∧ C.unchain iv (C.chain iv bs) = bs := by
  induction bs generalizing iv with
  | nil => exact ⟨List.forall_mem_nil _, rfl⟩
  | cons b bs ih =>
    obtain ⟨hb, hbs⟩ := List.forall_mem_cons.mp h
    have hsame : b.length = iv.length := hb.trans hiv.symm
    have hxor : (mix b iv).length = n := (length_mix hsame).trans hb
    obtain ⟨hblocks, hback⟩ := ih (C.length_encrypt _ hxor) hbs
    refine ⟨List.forall_mem_cons.mpr ⟨C.length_encrypt _ hxor, hblocks⟩, ?_⟩
    rw [chain, unchain, C.decrypt_encrypt _ hxor, mix_mix hsame, hback]

/-- The cipher text of whole blocks. -/
def encryptChain (iv b : Bytes) : Option Bytes := (blocks n b).map fun bs => (C.chain iv bs).flatten

def decryptChain (iv c : Bytes) : Option Bytes := (blocks n c).map fun cs => (C.unchain iv cs).flatten

/-- The cipher text of any bytes, with their padding. -/
def encryptPadded (iv b : Bytes) : Option Bytes := C.encryptChain iv (pad n b)

def decryptPadded (iv c : Bytes) : Option Bytes := C.decryptChain iv c >>= unpad n

theorem decryptChain_encryptChain (hn : 0 < n) (hiv : iv.length = n) (h : b.length % n = 0) :
    ∃ c, C.encryptChain iv b = some c ∧ C.decryptChain iv c = some b := by
  obtain ⟨hblocks, hflatten⟩ := cut_spec (n := n) (k := b.length / n)
    (Nat.mul_div_cancel' (Nat.dvd_of_mod_eq_zero h)).symm
  obtain ⟨hchain, hback⟩ := C.chain_spec hiv hblocks
  refine ⟨(C.chain iv (cut n (b.length / n) b)).flatten, ?_, ?_⟩
  · rw [encryptChain, blocks, if_pos h, Option.map_some]
  · rw [decryptChain, blocks_flatten hn hchain, Option.map_some, hback, hflatten]

theorem decryptPadded_encryptPadded (hn : 0 < n) (h256 : n < 256) (hiv : iv.length = n)
    (b : Bytes) : ∃ c, C.encryptPadded iv b = some c ∧ C.decryptPadded iv c = some b := by
  obtain ⟨c, hc, hback⟩ := C.decryptChain_encryptChain hn hiv (length_pad_mod hn b)
  refine ⟨c, hc, ?_⟩
  rw [decryptPadded, hback, Option.bind_eq_bind, Option.bind_some, unpad_pad hn h256]

end Cipher

end EufyNvr.Block
