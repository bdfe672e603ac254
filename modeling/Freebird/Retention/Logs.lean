import Freebird.Retention.Lists
import Freebird.Retention.Tiers

/-!
# Capped logs

A log that is sorted by key, rid of neighbours with one name and cut down to its last `n` entries
(`cappedLog`). The cut is the choice of the highest `n` keys (`toFinset_drop`). Where a name is
given to one entry only, the log holds every entry it was given that is among the highest
(`toFinset_cappedLog`), and an entry it drops lies below all it keeps.
-/

universe u v w

namespace Retention

variable {α : Type u} {κ : Type v} {ι : Type w} [LinearOrder κ] [DecidableEq ι]

/-- The last `n` entries of a sorted log without neighbours of one name. -/
def cappedLog (key : α → κ) (name : α → ι) (n : ℕ) (xs : List α) : List α :=
  let deduped := (xs.insertionSort fun x y => key x ≤ key y).destutter fun x y => name x ≠ name y
  deduped.drop (deduped.length - n)

variable {key : α → κ} {name : α → ι} {n : ℕ} {xs ys : List α} {x : α}

/-! ## Neighbours -/

theorem exists_mem_destutter (name : α → ι) (hx : x ∈ xs) :
    ∃ y ∈ xs.destutter (fun x y => name x ≠ name y), name y = name x := by
  have hgo (a x : α) (xs : List α) (hx : x ∈ a :: xs) :
      ∃ y ∈ List.destutter' (fun x y => name x ≠ name y) a xs, name y = name x := by
    induction xs generalizing a x with
    | nil => exact ⟨a, List.mem_cons_self, congrArg name (List.mem_singleton.mp hx).symm⟩
    | cons b xs ih =>
      by_cases hab : name a = name b
      · rw [List.destutter'_cons_neg xs (by simpa using hab)]
        rcases List.mem_cons.mp hx with rfl | hx
        · exact ih x x List.mem_cons_self
        · rcases List.mem_cons.mp hx with rfl | hx
          · obtain ⟨y, hy, he⟩ := ih a a List.mem_cons_self
            exact ⟨y, hy, he.trans hab⟩
          · exact ih a x (List.mem_cons_of_mem a hx)
      · rw [List.destutter'_cons_pos xs hab]
        rcases List.mem_cons.mp hx with rfl | hx
        · exact ⟨x, List.mem_cons_self, rfl⟩
        · obtain ⟨y, hy, he⟩ := ih b x hx
          exact ⟨y, List.mem_cons_of_mem a hy, he⟩
  cases xs with
  | nil => cases hx
  | cons a xs => exact hgo a x xs hx

omit [DecidableEq ι] in
/-- Neighbours of two names have two keys, where the key contains the name. -/
theorem ascending_of_isChain (hname : ∀ x y, key x = key y → name x = name y)
    (hle : xs.Pairwise fun x y => key x ≤ key y) (hne : xs.IsChain fun x y => name x ≠ name y) :
    Ascending key xs := by
  have : IsTrans α fun x y => key x < key y := ⟨fun _ _ _ => lt_trans⟩
  refine List.isChain_iff_pairwise.mp ?_
  induction xs with
  | nil => exact .nil
  | cons a xs ih =>
    cases xs with
    | nil => exact .singleton a
    | cons b xs =>
      rw [List.isChain_cons_cons] at hne ⊢
      obtain ⟨ha, hle⟩ := List.pairwise_cons.mp hle
      refine ⟨lt_of_le_of_ne (ha b List.mem_cons_self) fun he => ?_, ih hle hne.2⟩
      exact hne.1 (hname a b he)

/-! ## The cut -/

/-- The last entries of an ascending log are the highest. -/
theorem toFinset_drop [DecidableEq α] (h : Ascending key xs) (n : ℕ) :
    (xs.drop (xs.length - n)).toFinset = highest key n xs.toFinset := by
  have hdrop (k : ℕ) (xs : List α) : xs.drop k = dropFirst (fun _ => true) k xs := by
    induction xs generalizing k with
    | nil => simp [dropFirst]
    | cons a xs ih =>
      cases k with
      | zero => rw [dropFirst_zero, List.drop_zero]
      | succ k => rw [List.drop_succ_cons, ih, dropFirst, if_pos (by simp), Nat.add_sub_cancel]
  have habove (x : α) : (above key xs.toFinset x).card = xs.countP fun y => key x < key y := by
    rw [above, card_filter_toFinset h.nodup]
  rw [← highest_min_card, List.toFinset_card_of_nodup h.nodup]
  ext x
  rw [List.mem_toFinset, hdrop, mem_dropFirst h, mem_highest, List.mem_toFinset, habove]
  simp only [true_and, List.countP_true, forall_const]
  refine and_congr_right fun _ => ?_
  omega

section
variable (hname : ∀ x y, key x = key y → name x = name y)
include hname

theorem ascending_cappedLog (xs : List α) : Ascending key (cappedLog key name n xs) := by
  refine (ascending_of_isChain hname ?_ (List.isChain_destutter _ _)).sublist (List.drop_sublist _ _)
  exact (List.pairwise_insertionSort _ xs).sublist (List.destutter_sublist _ _)

omit hname in
theorem length_cappedLog_le (xs : List α) : (cappedLog key name n xs).length ≤ n := by
  rw [cappedLog, List.length_drop]
  omega

omit hname in
theorem mem_of_mem_cappedLog (hx : x ∈ cappedLog key name n xs) : x ∈ xs := by
  have hx := (List.destutter_sublist _ _).subset (List.mem_of_mem_drop hx)
  exact (List.mem_insertionSort _).mp hx

omit hname in
/-- A log in canonical form. -/
theorem cappedLog_eq_self (h : Ascending key xs) (hne : xs.IsChain fun x y => name x ≠ name y)
    (hlen : xs.length ≤ n) : cappedLog key name n xs = xs := by
  have hsort : (xs.insertionSort fun x y => key x ≤ key y) = xs :=
    List.Pairwise.insertionSort_eq (h.imp fun hlt => hlt.le)
  rw [cappedLog, hsort, List.destutter_of_isChain _ _ hne, Nat.sub_eq_zero_of_le hlen, List.drop_zero]

theorem cappedLog_cappedLog (xs : List α) :
    cappedLog key name n (cappedLog key name n xs) = cappedLog key name n xs :=
  cappedLog_eq_self (ascending_cappedLog hname xs) ((List.isChain_destutter _ _).drop _)
    (length_cappedLog_le xs)

/-- **What a capped log keeps**: the highest keys, where a name is given to one entry only. -/
theorem toFinset_cappedLog [DecidableEq α] (h : ∀ x ∈ xs, ∀ y ∈ xs, name x = name y → x = y) :
    (cappedLog key name n xs).toFinset = highest key n xs.toFinset := by
  have hsorted := (List.pairwise_insertionSort (fun x y => key x ≤ key y) xs).sublist
    (List.destutter_sublist (fun x y => name x ≠ name y) _)
  rw [cappedLog, toFinset_drop (ascending_of_isChain hname hsorted (List.isChain_destutter _ _))]
  congr 1; ext x
  rw [List.mem_toFinset, List.mem_toFinset]
  constructor
  · intro hx
    exact (List.mem_insertionSort _).mp ((List.destutter_sublist _ _).subset hx)
  · intro hx
    obtain ⟨y, hy, he⟩ := exists_mem_destutter name
      ((List.mem_insertionSort fun x y => key x ≤ key y).mpr hx)
    have hyx := (List.mem_insertionSort _).mp ((List.destutter_sublist _ _).subset hy)
    rwa [h y hyx x hx he] at hy

/-- An entry that a capped log drops lies below all it keeps, of which there are as many as fit. -/
theorem lt_of_notMem_cappedLog [DecidableEq α]
    (h : ∀ x ∈ xs, ∀ y ∈ xs, name x = name y → x = y) (hx : x ∈ xs)
    (hnot : x ∉ cappedLog key name n xs) :
    (cappedLog key name n xs).length = n ∧ ∀ y ∈ cappedLog key name n xs, key x < key y := by
  have hkept := toFinset_cappedLog (n := n) hname h
  have hcrowded : n ≤ (above key xs.toFinset x).card := by
    rw [← List.mem_toFinset, hkept, mem_highest, List.mem_toFinset] at hnot
    exact not_lt.mp fun hlt => hnot ⟨hx, hlt⟩
  have hdistinct : Distinct key xs.toFinset := fun a ha b hb he => by
    rw [Finset.mem_coe, List.mem_toFinset] at ha hb
    exact h a ha b hb (hname a b he)
  constructor
  · rw [← List.toFinset_card_of_nodup (ascending_cappedLog hname xs).nodup, hkept,
      card_highest hdistinct]
    exact min_eq_left (hcrowded.trans (Finset.card_le_card above_subset))
  · intro y hy
    rw [← List.mem_toFinset, hkept, mem_highest] at hy
    by_contra hle
    refine (hcrowded.trans (Finset.card_le_card fun z hz => ?_)).not_gt hy.2
    obtain ⟨hz, hlt⟩ := mem_above.mp hz
    exact mem_above.mpr ⟨hz, (not_lt.mp hle).trans_lt hlt⟩

end

/-! ## As a policy -/

section
variable [DecidableEq α]

/-- The policy that keeps the highest `n` keys. -/
def highestPolicy (key : α → κ) (n : ℕ) : Retention α :=
  nested key [totalLayer n] (List.pairwise_singleton _ _)

@[simp] theorem keep_highestPolicy (A : Finset α) :
    (highestPolicy key n).keep A = highest key n A := by
  change Layer.keep key (totalLayer n) A = _
  rw [Layer.keep, highest]
  refine Finset.filter_congr fun x _ => ?_
  have h : Layer.rivals key (totalLayer n) A x = above key A x :=
    Finset.filter_congr fun y _ => and_iff_right rfl
  rw [h]
  rfl

end

end Retention
