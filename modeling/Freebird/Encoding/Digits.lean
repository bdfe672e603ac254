import Mathlib

/-!
# Digits with leading zeros

A list of digits is the zeros it starts with and a number. Both can be read off the list, and the
list is what they are written as (`padded_eq`), so a change of base that keeps them loses nothing.
-/

namespace Digits

variable {b n z d : ℕ} {ds : List ℕ}

/-- The zeros that a list of digits starts with. -/
def zeros (ds : List ℕ) : ℕ := (ds.takeWhile fun d => d = 0).length

/-- The number that digits stand for, most significant digit first. -/
def number (b : ℕ) (ds : List ℕ) : ℕ := Nat.ofDigits b ds.reverse

/-- Zeros, and after them the digits of a number. -/
def padded (b z n : ℕ) : List ℕ := List.replicate z 0 ++ (Nat.digits b n).reverse

theorem zeros_padded : zeros (padded b z n) = z := by
  have hdigits : ((Nat.digits b n).reverse.takeWhile fun d => d = 0) = [] := by
    refine List.takeWhile_eq_nil_iff.mpr fun hlen hzero => ?_
    have hn : n ≠ 0 := by
      rintro rfl
      simp at hlen
    refine Nat.getLast_digit_ne_zero b hn ?_
    rw [← List.head_reverse (List.length_pos_iff.mp hlen), List.head_eq_getElem]
    exact of_decide_eq_true hzero
  rw [zeros, padded, List.takeWhile_append_of_pos, hdigits, List.append_nil, List.length_replicate]
  intro d hd
  exact decide_eq_true (List.eq_of_mem_replicate hd)

theorem number_padded : number b (padded b z n) = n := by
  rw [number, padded, List.reverse_append, List.reverse_reverse, List.reverse_replicate,
    Nat.ofDigits_append_replicate_zero, Nat.ofDigits_digits]

theorem padded_lt (hb : 1 < b) (h : d ∈ padded b z n) : d < b := by
  rcases List.mem_append.mp h with h | h
  · rw [List.eq_of_mem_replicate h]
    omega
  · exact Nat.digits_lt_base hb (List.mem_reverse.mp h)

/-- **Digits are their leading zeros and their number.** -/
theorem padded_eq (hb : 1 < b) (hds : ∀ d ∈ ds, d < b) :
    padded b (zeros ds) (number b ds) = ds := by
  set rest := ds.dropWhile fun d => d = 0 with hrest
  have hzeros : (ds.takeWhile fun d => d = 0) = List.replicate (zeros ds) 0 :=
    List.eq_replicate_iff.mpr ⟨rfl, fun d hd => by simpa using List.mem_takeWhile_imp hd⟩
  have hsplit : ds = List.replicate (zeros ds) 0 ++ rest := by
    rw [← hzeros, List.takeWhile_append_dropWhile]
  have hnumber : number b ds = Nat.ofDigits b rest.reverse := by
    rw [number, hsplit, List.reverse_append, List.reverse_replicate]
    exact Nat.ofDigits_append_replicate_zero _
  have hdigits : Nat.digits b (number b ds) = rest.reverse := by
    rw [hnumber]
    refine Nat.digits_ofDigits b hb _ (fun d hd => ?_) fun hne hz => ?_
    · exact hds d ((List.dropWhile_sublist _).subset (List.mem_reverse.mp hd))
    · -- The last digit is the first one that is not zero.
      rw [List.getLast_reverse] at hz
      have hrestne : rest ≠ [] := by simpa using hne
      have hhead := List.head_dropWhile_not (fun d : ℕ => decide (d = 0)) hrestne
      exact of_decide_eq_false hhead hz
  rw [padded, hdigits, List.reverse_reverse]
  exact hsplit.symm

end Digits
