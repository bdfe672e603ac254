import Mathlib

/-!
# Numbers written in bytes, most significant byte first

A byte in front counts for as much as fits into the bytes behind it (`bigEndian_cons`), so the size
of a number in bits can be read off its first byte that is not zero (`size_bigEndian_cons`).
-/

namespace Encoding

/-- The number that the bytes stand for, most significant byte first. -/
def bigEndian (bytes : List (Fin 256)) : ℕ := Nat.ofDigits 256 (bytes.reverse.map Fin.val)

variable {byte : Fin 256} {bytes : List (Fin 256)}

theorem two_pow_bits (n : ℕ) : 2 ^ (8 * n) = 256 ^ n := pow_mul 2 8 n

theorem bigEndian_cons (byte : Fin 256) (bytes : List (Fin 256)) :
    bigEndian (byte :: bytes) = byte.val * 2 ^ (8 * bytes.length) + bigEndian bytes := by
  rw [bigEndian, List.reverse_cons, List.map_append, Nat.ofDigits_append, List.length_map,
    List.length_reverse, List.map_singleton, Nat.ofDigits_singleton, two_pow_bits, mul_comm,
    add_comm, bigEndian]

theorem bigEndian_lt (bytes : List (Fin 256)) : bigEndian bytes < 2 ^ (8 * bytes.length) := by
  have hdigits : ∀ d ∈ bytes.reverse.map Fin.val, d < 256 :=
    List.forall_mem_map.mpr fun byte _ => byte.isLt
  have hlt := Nat.ofDigits_lt_base_pow_length (by norm_num) hdigits
  rwa [List.length_map, List.length_reverse, ← two_pow_bits] at hlt

theorem bigEndian_cons_of_zero (h : byte.val = 0) : bigEndian (byte :: bytes) = bigEndian bytes := by
  rw [bigEndian_cons, h, Nat.zero_mul, Nat.zero_add]

theorem size_bigEndian_le (bytes : List (Fin 256)) :
    Nat.size (bigEndian bytes) ≤ 8 * bytes.length := Nat.size_le.mpr (bigEndian_lt bytes)

/-- The bytes behind the first one add their width. -/
theorem size_bigEndian_cons (hbyte : byte.val ≠ 0) :
    Nat.size (bigEndian (byte :: bytes)) = Nat.size byte.val + 8 * bytes.length := by
  rw [bigEndian_cons]
  refine le_antisymm (Nat.size_le.mpr ?_) ?_
  · calc byte.val * 2 ^ (8 * bytes.length) + bigEndian bytes
        < byte.val * 2 ^ (8 * bytes.length) + 2 ^ (8 * bytes.length) :=
          Nat.add_lt_add_left (bigEndian_lt bytes) _
      _ = (byte.val + 1) * 2 ^ (8 * bytes.length) := (Nat.succ_mul _ _).symm
      _ ≤ 2 ^ Nat.size byte.val * 2 ^ (8 * bytes.length) :=
          Nat.mul_le_mul_right _ (Nat.lt_size_self _)
      _ = 2 ^ (Nat.size byte.val + 8 * bytes.length) := (pow_add _ _ _).symm
  · rw [← Nat.size_shiftLeft hbyte, Nat.shiftLeft_eq]
    exact Nat.size_le_size (Nat.le_add_right _ _)

end Encoding
