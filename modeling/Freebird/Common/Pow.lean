import Freebird.Common.Cell
import Freebird.Encoding.BigEndian

/-!
# What a stamp is worth

The bits that a stamp clears are the leading zeros of its hash, counted byte by byte up to the first
byte that is not zero. They are what the big-endian number of the hash leaves of its width
(`leadingZeroBits_eq`), so a bar of `b` bits is an upper bound on that number, and a stamp that
clears a bar clears every lower one (`leadingZeroBits_measure`).
-/

namespace Freebird

open Encoding

variable {Cert : Type} {C : Crypto Cert} {bytes : List U8}

theorem size_byte_le (byte : U8) : Nat.size byte.val ≤ 8 := Nat.size_le.mpr byte.isLt

theorem leadingZeroBits_eq (bytes : List U8) :
    leadingZeroBits bytes = 8 * bytes.length - Nat.size (bigEndian bytes) := by
  induction bytes with
  | nil => rfl
  | cons byte bytes ih =>
    have hsize := size_bigEndian_le bytes
    rw [leadingZeroBits, List.length_cons]
    split
    · rename_i hzero
      rw [bigEndian_cons_of_zero (congrArg Fin.val hzero), ih]
      omega
    · rename_i hbyte
      have hle := size_byte_le byte
      rw [leadingZeros, size_bigEndian_cons (Fin.val_ne_of_ne hbyte)]
      omega

/-- A bar of `b` bits is a bound on the number. -/
theorem le_leadingZeroBits_iff (hb : b ≤ 8 * bytes.length) :
    b ≤ leadingZeroBits bytes ↔ bigEndian bytes < 2 ^ (8 * bytes.length - b) := by
  have hsize := size_bigEndian_le bytes
  rw [leadingZeroBits_eq, ← Nat.size_le]
  omega

/-- A stamp that clears the latched bits clears the compiled floor. -/
theorem meetsDirectory_floor (h : meetsDirectory C author nonce (difficultyBits C record) = true) :
    meetsDirectory C author nonce powFloorBits = true :=
  meets_mono (floor_le_difficultyBits record) h

/-- **Leading zeros measure the hash**: a bar is an upper bound on the number of the hash, so lower
bars are met as well, and the floor under whatever record an entry was admitted. -/
theorem leadingZeroBits_measure (C : Crypto Cert) :
    (∀ (h : Bytes 32) (b : Nat), b ≤ 256 →
      (b ≤ leadingZeroBits h.toList ↔ bigEndian h.toList < 2 ^ (256 - b))) ∧
    (∀ (domain : List U8) (key : Bytes 32) (binding : List U8) (nonce : U64) (bits bits' : Nat),
      bits ≤ bits' → meets C domain key binding nonce bits' = true →
        meets C domain key binding nonce bits = true) ∧
    ∀ (record : Option SignedCellV1) (owner replier : Bytes 32) (nonce : U64),
      (meetsInbox C owner replier nonce (difficultyBits C record) = true →
        meetsInbox C owner replier nonce powFloorBits = true) ∧
      (meetsDirectory C replier nonce (difficultyBits C record) = true →
        meetsDirectory C replier nonce powFloorBits = true) := by
  refine ⟨fun h b hb => ?_, fun _ _ _ _ _ _ hle hm => meets_mono hle hm,
    fun _ _ _ _ => ⟨meetsInbox_floor, meetsDirectory_floor⟩⟩
  have hlength : 8 * h.toList.length = 256 := by rw [Bytes.length_toList]
  rw [le_leadingZeroBits_iff (hlength ▸ hb), hlength]

open Sample in
/-- The hash of the nonce 1 starts with 63 zeros. -/
theorem leadingZeroBits_measure_stamp :
    bigEndian (powHash crypto powDomainInbox (Sample.bytes 32 1) [] 1).toList < 2 ^ (256 - 63) ∧
    meets crypto powDomainInbox (Sample.bytes 32 1) [] 1 20 = true := by
  obtain ⟨hmeasure, hmono, -⟩ := leadingZeroBits_measure crypto
  exact ⟨(hmeasure _ 63 (by decide)).mp (by decide +kernel),
    hmono _ _ _ _ 20 63 (by decide) (by decide +kernel)⟩

end Freebird
