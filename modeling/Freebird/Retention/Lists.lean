import Freebird.Retention.Layers

/-!
# Cutting down sorted logs

A log sorted by age is cut down by walking over it. `newest` keeps the entries that have fewer
entries of their group behind them than the cap allows, and is the layer's choice on the set of
entries (`toFinset_newest`); `dropFirst` drops the first entries that satisfy a predicate.
-/

universe u v

namespace Retention

variable {α : Type u} {κ : Type v} [LinearOrder κ]

/-- A log in strictly ascending order of `key`. -/
def Ascending (key : α → κ) (xs : List α) : Prop := xs.Pairwise fun x y => key x < key y

/-- The entries of each group with fewer than its cap of the same group behind them. -/
def newest (l : Layer α) : List α → List α
  | [] => []
  | x :: xs =>
    if xs.countP (fun y => l.group y = l.group x) < l.cap (l.group x) then x :: newest l xs
    else newest l xs

/-- The log without the first `k` entries that satisfy `p`. -/
def dropFirst (p : α → Bool) : ℕ → List α → List α
  | _, [] => []
  | k, x :: xs => if 0 < k ∧ p x then dropFirst p (k - 1) xs else x :: dropFirst p k xs

variable {key : α → κ} {xs ys : List α} {x y : α}

namespace Ascending

theorem nodup (h : Ascending key xs) : xs.Nodup := h.imp fun hlt he => by simp [he] at hlt

theorem sublist (h : Ascending key xs) (hs : ys.Sublist xs) : Ascending key ys :=
  List.Pairwise.sublist hs h

theorem distinct [DecidableEq α] (h : Ascending key xs) : Distinct key xs.toFinset := by
  have hmap : (xs.map key).Nodup :=
    List.pairwise_map.mpr (h.imp fun hlt he => by simp [he] at hlt)
  intro x hx y hy hxy
  rw [Finset.mem_coe, List.mem_toFinset] at hx hy
  exact List.inj_on_of_nodup_map hmap hx hy hxy

/-- A log in ascending order is determined by its entries. -/
theorem ext (hx : Ascending key xs) (hy : Ascending key ys) (h : ∀ z, z ∈ xs ↔ z ∈ ys) :
    xs = ys := by
  have : Std.Antisymm fun x y : α => key x < key y := ⟨fun _ _ h h' => (lt_asymm h h').elim⟩
  have : Std.Irrefl fun x y : α => key x < key y := ⟨fun _ => lt_irrefl _⟩
  exact List.Pairwise.eq_of_mem_iff hx hy h

theorem head_lt (h : Ascending key (x :: xs)) (hy : y ∈ xs) : key x < key y :=
  (List.pairwise_cons.mp h).1 y hy

end Ascending

theorem card_filter_toFinset [DecidableEq α] (h : xs.Nodup) (q : α → Prop) [DecidablePred q] :
    (xs.toFinset.filter q).card = xs.countP fun x => q x := by
  have heq : xs.toFinset.filter q = (xs.filter fun x => q x).toFinset := by ext; simp
  rw [heq, List.toFinset_card_of_nodup (h.filter _), List.countP_eq_length_filter]

theorem newest_sublist (l : Layer α) : ∀ xs : List α, (newest l xs).Sublist xs
  | [] => .slnil
  | x :: xs => by
    rw [newest]
    split
    · exact (newest_sublist l xs).cons_cons x
    · exact (newest_sublist l xs).cons x

/-- On a log whose groups are each in ascending order of priority, walking over the log makes the
choice of the layer. -/
theorem toFinset_newest [DecidableEq α] {prio : α → κ} (l : Layer α) (hn : xs.Nodup)
    (h : xs.Pairwise fun x y => l.group x = l.group y → prio x < prio y) :
    (newest l xs).toFinset = l.keep prio xs.toFinset := by
  induction xs with
  | nil => rfl
  | cons a xs ih =>
    obtain ⟨ha, hx⟩ := List.pairwise_cons.mp h
    obtain ⟨hna, hnx⟩ := List.nodup_cons.mp hn
    have head : (l.rivals prio (insert a xs.toFinset) a).card =
        xs.countP fun y => l.group y = l.group a := by
      rw [← card_filter_toFinset hnx]
      congr 1; ext y
      simp only [Layer.mem_rivals, Finset.mem_insert, List.mem_toFinset, Finset.mem_filter]
      constructor
      · rintro ⟨rfl | hy, hg, hlt⟩
        · exact (lt_irrefl _ hlt).elim
        · exact ⟨hy, hg⟩
      · rintro ⟨hy, hg⟩
        exact ⟨.inr hy, hg, ha y hy hg.symm⟩
    have tail : ∀ z ∈ xs, l.rivals prio (insert a xs.toFinset) z = l.rivals prio xs.toFinset z := by
      intro z hz
      ext y
      simp only [Layer.mem_rivals, Finset.mem_insert, List.mem_toFinset]
      constructor
      · rintro ⟨rfl | hy, hg, hlt⟩
        · exact (lt_asymm hlt (ha z hz hg)).elim
        · exact ⟨hy, hg, hlt⟩
      · rintro ⟨hy, h⟩
        exact ⟨.inr hy, h⟩
    have hrest : ∀ z, z ∈ newest l xs ↔
        z ∈ xs ∧ (l.rivals prio xs.toFinset z).card < l.cap (l.group z) := fun z => by
      rw [← List.mem_toFinset, ih hnx hx, Layer.mem_keep, List.mem_toFinset]
    ext z
    rw [List.toFinset_cons, Layer.mem_keep, Finset.mem_insert, List.mem_toFinset,
      List.mem_toFinset, newest]
    by_cases hza : z = a
    · subst hza
      rw [head]
      split <;> simp_all
    · simp only [hza, false_or]
      have hz : z ∈ newest l (a :: xs) ↔ z ∈ newest l xs := by
        rw [newest]; split <;> simp [hza]
      rw [newest] at hz
      rw [hz, hrest]
      exact and_congr_right fun h => by rw [tail z h]

/-! ## Dropping from the front -/

variable {p : α → Bool}

theorem dropFirst_sublist (p : α → Bool) : ∀ (k : ℕ) (xs : List α), (dropFirst p k xs).Sublist xs
  | _, [] => .slnil
  | k, x :: xs => by
    rw [dropFirst]
    split
    · exact (dropFirst_sublist p _ xs).cons x
    · exact (dropFirst_sublist p _ xs).cons_cons x

@[simp] theorem dropFirst_zero (xs : List α) : dropFirst p 0 xs = xs := by
  induction xs with
  | nil => rfl
  | cons x xs ih => simp [dropFirst, ih]

theorem dropFirst_dropFirst (j k : ℕ) (xs : List α) :
    dropFirst p k (dropFirst p j xs) = dropFirst p (j + k) xs := by
  induction xs generalizing j k with
  | nil => simp [dropFirst]
  | cons x xs ih =>
    by_cases hp : p x
    · rcases j with _ | j
      · simp
      · simp only [dropFirst, hp, and_true, Nat.succ_pos, if_true, Nat.add_sub_cancel, ih]
        rw [if_pos (by omega)]
        congr 1; omega
    · simp [dropFirst, hp, ih]

theorem countP_dropFirst (k : ℕ) (xs : List α) :
    (dropFirst p k xs).countP p = xs.countP p - k := by
  induction xs generalizing k with
  | nil => simp [dropFirst]
  | cons x xs ih =>
    rw [dropFirst]
    by_cases hp : p x
    · rw [List.countP_cons_of_pos hp]
      split
      · rw [ih]; omega
      · rw [List.countP_cons_of_pos hp, ih]; simp_all
    · simp [hp, ih]

/-- Dropping the entries of one kind leaves the others alone. -/
theorem countP_dropFirst_of_not {q : α → Bool} (h : ∀ x, q x = true → p x = false) (k : ℕ)
    (xs : List α) : (dropFirst p k xs).countP q = xs.countP q := by
  induction xs generalizing k with
  | nil => rfl
  | cons x xs ih =>
    rw [dropFirst]
    split
    · rename_i hp
      have hq : ¬ q x = true := fun hq => by simp [h x hq] at hp
      rw [ih, List.countP_cons_of_neg hq]
    · rw [List.countP_cons, List.countP_cons, ih]

theorem countP_above_lt (key : α → κ) (hx : x ∈ xs) (hp : p x) :
    xs.countP (fun y => p y ∧ key x < key y) < xs.countP p := by
  obtain ⟨as, bs, rfl⟩ := List.append_of_mem hx
  have h (l : List α) : l.countP (fun y => p y ∧ key x < key y) ≤ l.countP p :=
    List.countP_mono_left fun y _ hy => by simp_all
  have hx' : (x :: bs).countP (fun y => p y ∧ key x < key y) < (x :: bs).countP p := by
    rw [List.countP_cons_of_neg (by simp), List.countP_cons_of_pos hp]
    exact Nat.lt_succ_of_le (h bs)
  rw [List.countP_append, List.countP_append]
  exact add_lt_add_of_le_of_lt (h as) hx'

/-- Of the entries that satisfy `p`, the last ones survive. -/
theorem mem_dropFirst (h : Ascending key xs) (k : ℕ) :
    x ∈ dropFirst p k xs ↔
      x ∈ xs ∧ (p x → xs.countP (fun y => p y ∧ key x < key y) < xs.countP p - k) := by
  induction xs generalizing k with
  | nil => simp [dropFirst]
  | cons a xs ih =>
    have ha : a ∉ xs := (List.nodup_cons.mp h.nodup).1
    have hxs : Ascending key xs := (List.pairwise_cons.mp h).2
    have head : (a :: xs).countP (fun y => p y ∧ key a < key y) = xs.countP p := by
      rw [List.countP_cons_of_neg (by simp)]
      exact List.countP_congr fun y hy => by simp [h.head_lt hy]
    have tail (hx : x ∈ xs) : (a :: xs).countP (fun y => p y ∧ key x < key y) =
        xs.countP (fun y => p y ∧ key x < key y) :=
      List.countP_cons_of_neg (by simp [(h.head_lt hx).le])
    rw [dropFirst]
    by_cases hxa : x = a
    · subst hxa
      rw [head]
      by_cases hp : p x
      · rw [List.countP_cons_of_pos hp]
        split
        · have := (dropFirst_sublist p (k - 1) xs).subset.mt ha
          simp_all; omega
        · simp_all
      · simp [hp]
    · have hmem : x ∈ a :: xs ↔ x ∈ xs := by simp [hxa]
      by_cases hp : 0 < k ∧ p a
      · rw [if_pos hp, ih hxs, hmem, List.countP_cons_of_pos hp.2]
        refine and_congr_right fun hx => ?_
        rw [tail hx]
        refine forall_congr' fun _ => ?_
        omega
      · rw [if_neg hp, List.mem_cons, or_iff_right hxa, ih hxs, hmem]
        refine and_congr_right fun hx => ?_
        rw [tail hx, List.countP_cons]
        split
        · rename_i hpa
          obtain rfl : k = 0 := by simpa [hpa] using hp
          refine forall_congr' fun hpx => iff_of_true ?_ ?_
          all_goals have := countP_above_lt key hx hpx
          all_goals omega
        · rfl

end Retention
