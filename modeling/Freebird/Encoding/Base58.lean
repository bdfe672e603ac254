import Freebird.Encoding.Digits

/-!
# Base 58

A byte string is written as a number in base 58, most significant digit first, with one first letter
of the alphabet for each leading zero byte. The digits give the number back, the leading letters the
number of leading zeros, so no two byte strings are written alike (`encode_injective`). Decoding
accepts exactly what the encoding writes, and as what it was written for (`decode_eq_some_iff`).
-/

namespace Base58

open Digits

def alphabet : List Char := "123456789ABCDEFGHJKLMNPQRSTUVWXYZabcdefghijkmnopqrstuvwxyz".toList

def letter (d : ℕ) : Char := alphabet.getD d '1'

/-- The number that a byte string stands for, most significant byte first. -/
def value (bytes : List (Fin 256)) : ℕ := Nat.ofDigits 256 (bytes.reverse.map Fin.val)

def leadingZeros (bytes : List (Fin 256)) : ℕ := (bytes.takeWhile fun b => b.val = 0).length

/-- The digits of a number, most significant digit first. -/
def digits (n : ℕ) : List ℕ := (Nat.digits 58 n).reverse

def encode (bytes : List (Fin 256)) : String :=
  String.ofList (((List.replicate (leadingZeros bytes) 0) ++ digits (value bytes)).map letter)

def byte (d : ℕ) : Fin 256 := ⟨d % 256, Nat.mod_lt d (by norm_num)⟩

def decode (s : String) : Option (List (Fin 256)) :=
  if s.toList.all (· ∈ alphabet) then
    let ds := s.toList.map alphabet.idxOf
    some ((padded 256 (zeros ds) (number 58 ds)).map byte)
  else none

variable {d : ℕ} {c : Char} {s : String} {bytes x y : List (Fin 256)}

/-! ## Letters -/

theorem idxOf_letter : ∀ d < 58, alphabet.idxOf (letter d) = d := by decide +kernel

theorem length_alphabet : alphabet.length = 58 := by decide +kernel

theorem letter_mem (h : d < 58) : letter d ∈ alphabet := by
  rw [letter, List.getD_eq_getElem _ _ (length_alphabet ▸ h)]
  exact List.getElem_mem _

theorem idxOf_lt (h : c ∈ alphabet) : alphabet.idxOf c < 58 :=
  length_alphabet ▸ List.idxOf_lt_length_iff.mpr h

theorem letter_idxOf (h : c ∈ alphabet) : letter (alphabet.idxOf c) = c := by
  rw [letter, List.getD_eq_getElem _ _ (List.idxOf_lt_length_iff.mpr h)]
  exact List.getElem_idxOf _

/-! ## The encoding -/

theorem zeros_map_val (bytes : List (Fin 256)) :
    zeros (bytes.map Fin.val) = leadingZeros bytes := by
  rw [zeros, List.takeWhile_map, List.length_map]
  rfl

theorem number_map_val (bytes : List (Fin 256)) : number 256 (bytes.map Fin.val) = value bytes := by
  rw [number, ← List.map_reverse, value]

/-- A byte string is its leading zeros and the bytes of its value. -/
theorem map_val_eq (bytes : List (Fin 256)) :
    bytes.map Fin.val = padded 256 (leadingZeros bytes) (value bytes) := by
  rw [← zeros_map_val, ← number_map_val]
  exact (padded_eq (by norm_num) (List.forall_mem_map.mpr fun b _ => b.isLt)).symm

theorem encode_eq (bytes : List (Fin 256)) : encode bytes =
    String.ofList ((padded 58 (leadingZeros bytes) (value bytes)).map letter) := rfl

theorem map_idxOf_encode (bytes : List (Fin 256)) : (encode bytes).toList.map alphabet.idxOf =
    padded 58 (leadingZeros bytes) (value bytes) := by
  rw [encode_eq, String.toList_ofList, List.map_map]
  conv_rhs => rw [← List.map_id (padded _ _ _)]
  exact List.map_congr_left fun d hd => idxOf_letter d (padded_lt (by norm_num) hd)

theorem mem_alphabet_of_mem_encode (h : c ∈ (encode bytes).toList) : c ∈ alphabet := by
  rw [encode_eq, String.toList_ofList] at h
  obtain ⟨d, hd, rfl⟩ := List.mem_map.mp h
  exact letter_mem (padded_lt (by norm_num) hd)

theorem separator_not_mem (bytes : List (Fin 256)) : ':' ∉ (encode bytes).toList :=
  fun h => absurd (mem_alphabet_of_mem_encode h) (by decide)

/-! ## The decoding -/

theorem decode_encode (bytes : List (Fin 256)) : decode (encode bytes) = some bytes := by
  have hletters : (encode bytes).toList.all (· ∈ alphabet) :=
    List.all_eq_true.mpr fun c hc => decide_eq_true (mem_alphabet_of_mem_encode hc)
  rw [decode, if_pos hletters]
  simp only [map_idxOf_encode, zeros_padded, number_padded, ← map_val_eq, List.map_map]
  exact congrArg some (List.map_id'' (fun d => Fin.ext (Nat.mod_eq_of_lt d.isLt)) bytes)

/-- **No two byte strings are written alike.** -/
theorem encode_injective : Function.Injective encode := by
  intro x y h
  have hsome := decode_encode x
  rw [h, decode_encode y] at hsome
  exact (Option.some.inj hsome).symm

/-- **Decoding accepts what the encoding writes, and nothing else.** -/
theorem decode_eq_some_iff : decode s = some bytes ↔ encode bytes = s := by
  refine ⟨fun h => ?_, fun h => h ▸ decode_encode bytes⟩
  rw [decode] at h
  split at h
  · rename_i hletters
    have hmem (c : Char) (hc : c ∈ s.toList) : c ∈ alphabet :=
      of_decide_eq_true (List.all_eq_true.mp hletters c hc)
    set ds := s.toList.map alphabet.idxOf with hds
    have hval : bytes.map Fin.val = padded 256 (zeros ds) (number 58 ds) := by
      rw [← Option.some.inj h, List.map_map]
      conv_rhs => rw [← List.map_id (padded _ _ _)]
      exact List.map_congr_left fun d hd => Nat.mod_eq_of_lt (padded_lt (by norm_num) hd)
    have hzeros : leadingZeros bytes = zeros ds := by
      rw [← zeros_map_val, hval, zeros_padded]
    have hvalue : value bytes = number 58 ds := by
      rw [← number_map_val, hval, number_padded]
    have hlt : ∀ d ∈ ds, d < 58 := List.forall_mem_map.mpr fun c hc => idxOf_lt (hmem c hc)
    have hid : s.toList.map (letter ∘ alphabet.idxOf) = s.toList := by
      conv_rhs => rw [← List.map_id s.toList]
      exact List.map_congr_left fun c hc => letter_idxOf (hmem c hc)
    rw [encode_eq, hzeros, hvalue, padded_eq (by norm_num) hlt, hds, List.map_map, hid,
      String.ofList_toList]
  · cases h

end Base58
