import EufyNvr.Basic

/-!
# Little-endian numbers

The bytes of a number with the lowest first, and the number of some bytes.
-/

namespace EufyNvr

/-- The lowest `k` bytes. -/
def littleEndian : Nat → Nat → Bytes
  | 0, _ => []
  | k + 1, n => UInt8.ofNat n :: littleEndian k (n / 256)

def fromLittleEndian (b : Bytes) : Nat := b.foldr (fun x n => x.toNat + 256 * n) 0

theorem fromLittleEndian_littleEndian (k n : Nat) :
    fromLittleEndian (littleEndian k n) = n % 256 ^ k := by
  induction k generalizing n with
  | zero => simp [littleEndian, fromLittleEndian, Nat.mod_one]
  | succ k ih =>
    have hrest : fromLittleEndian (littleEndian (k + 1) n) =
        n % 256 + 256 * fromLittleEndian (littleEndian k (n / 256)) := by
      simp [littleEndian, fromLittleEndian]
    rw [hrest, ih, pow_succ', Nat.mod_mul]

theorem fromLittleEndian_of_lt {k n : Nat} (h : n < 256 ^ k) :
    fromLittleEndian (littleEndian k n) = n := by
  rw [fromLittleEndian_littleEndian, Nat.mod_eq_of_lt h]

end EufyNvr
