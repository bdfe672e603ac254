import Freebird.Retention.Lists
import Freebird.Retention.Tiers

/-!
# The loops that cut a log down

Code cuts a log down with counters: a scan from the end that counts what it keeps of each group
(`capScan`), and a loop that drops one entry a turn, the first of low standing if there is one
(`evictFirst`). Both are walks over the log (`capScan_spec`, `evictFirst_eq`). What they leave
respects the cap, and an entry stays whose group fits under the cap.

A log that is first cut down to the share of its low tier and then to the cap on everything
(`cutShare`) holds what the two tiers choose (`toFinset_cutShare`).
-/

universe u v

namespace Retention

variable {α : Type u} {Γ : Type} [DecidableEq Γ] {x : α} {xs : List α} {n : ℕ}

/-! ## Counting by group -/

section
variable (cmp : Γ → Γ → Ordering) [Std.TransCmp cmp] (group : α → Γ) (cap : Γ → ℕ)

/-- The scan from the last entry to the first, with the number kept of each group. -/
def capScan : List α → List α × Std.ExtTreeMap Γ ℕ cmp
  | [] => ([], ∅)
  | x :: xs =>
    let (kept, counts) := capScan xs
    let c := counts.getD (group x) 0
    if c < cap (group x) then (x :: kept, counts.insert (group x) (c + 1))
    else (kept, counts.insert (group x) c)

/-- The layer that a scan makes the choice of. -/
def scanLayer : Layer α := ⟨Γ, group, cap⟩

theorem capScan_spec [Std.LawfulEqCmp cmp] (xs : List α) :
    (capScan cmp group cap xs).1 = newest (scanLayer group cap) xs ∧
      ∀ g, (capScan cmp group cap xs).2.getD g 0 = min (cap g) (xs.countP fun x => group x = g) := by
  induction xs with
  | nil => exact ⟨rfl, fun g => by simp [capScan]⟩
  | cons x xs ih =>
    obtain ⟨hkept, hcount⟩ := ih
    have hiff : min (cap (group x)) (xs.countP fun y => group y = group x) < cap (group x) ↔
        (xs.countP fun y => group y = group x) < cap (group x) := by omega
    have hnewest : newest (scanLayer group cap) (x :: xs) =
        if (xs.countP fun y => group y = group x) < cap (group x)
        then x :: newest (scanLayer group cap) xs else newest (scanLayer group cap) xs := rfl
    constructor
    · simp only [capScan, hcount, hiff, hnewest]
      split <;> simp [hkept]
    · intro g
      simp only [capScan, hcount]
      by_cases hg : g = group x
      · subst hg
        split <;> simp <;> omega
      · have hne : group x ≠ g := Ne.symm hg
        split <;> simp [Std.ExtTreeMap.getD_insert, hne, hcount]

end

variable {l : Layer α}

theorem countP_newest_le (g : l.Group) :
    (newest l xs).countP (fun x => l.group x = g) ≤ l.cap g := by
  suffices ((newest l xs).countP fun x => l.group x = g) ≤
      min (l.cap g) (xs.countP fun x => l.group x = g) from this.trans (min_le_left _ _)
  induction xs with
  | nil => exact Nat.zero_le _
  | cons x xs ih =>
    rw [newest]
    by_cases hx : l.group x = g
    · subst hx
      rw [List.countP_cons_of_pos (by simp)]
      split
      · rw [List.countP_cons_of_pos (by simp)]
        omega
      · omega
    · rw [List.countP_cons_of_neg (by simpa using hx)]
      split
      · rwa [List.countP_cons_of_neg (by simpa using hx)]
      · exact ih

theorem mem_newest_of_countP_le (hx : x ∈ xs)
    (h : xs.countP (fun y => l.group y = l.group x) ≤ l.cap (l.group x)) : x ∈ newest l xs := by
  induction xs with
  | nil => cases hx
  | cons a xs ih =>
    rw [newest]
    rcases List.mem_cons.mp hx with rfl | hx
    · rw [List.countP_cons_of_pos (by simp)] at h
      rw [if_pos (Nat.lt_of_succ_le h)]
      exact List.mem_cons_self
    · have hmem := ih hx (((List.sublist_cons_self a xs).countP_le).trans h)
      split
      · exact List.mem_cons_of_mem a hmem
      · exact hmem

/-! ## Dropping the entries of low standing first -/

variable {low : α → Bool}

theorem mem_dropFirst_of_not (hx : x ∈ xs) (hlow : low x = false) (n : ℕ) :
    x ∈ dropFirst low n xs := by
  induction xs generalizing n with
  | nil => cases hx
  | cons a xs ih =>
    rw [dropFirst]
    rcases List.mem_cons.mp hx with rfl | hx
    · rw [if_neg (by simp [hlow])]
      exact List.mem_cons_self
    · split
      · exact ih hx _
      · exact List.mem_cons_of_mem a (ih hx n)

/-- Where there is nothing to drop, nothing is. -/
theorem dropFirst_eq_self (h : xs.countP low = 0) (n : ℕ) : dropFirst low n xs = xs := by
  have hnot : ∀ x ∈ xs, low x = false := by simpa using h
  clear h
  induction xs with
  | nil => rfl
  | cons x xs ih =>
    obtain ⟨hx, hxs⟩ := List.forall_mem_cons.mp hnot
    rw [dropFirst, if_neg (by simp [hx]), ih hxs]

theorem length_eq_countP_add (low : α → Bool) (xs : List α) :
    xs.length = xs.countP low + xs.countP fun x => !low x := by
  rw [List.length_eq_countP_add_countP low]
  simp only [Bool.not_eq_true, Bool.decide_eq_false]

/-- `n` turns of a loop that drops the first entry of low standing, or else the first entry. -/
def evictFirst (low : α → Bool) : ℕ → List α → List α
  | 0, xs => xs
  | n + 1, xs => evictFirst low n (xs.eraseIdx ((xs.findIdx? low).getD 0))

theorem eraseIdx_findIdx? (xs : List α) : xs.eraseIdx ((xs.findIdx? low).getD 0) =
    if xs.countP low = 0 then dropFirst (fun x => !low x) 1 xs else dropFirst low 1 xs := by
  have hfirst (xs : List α) (h : xs.countP low ≠ 0) :
      xs.eraseIdx ((xs.findIdx? low).getD 0) = dropFirst low 1 xs := by
    induction xs with
    | nil => simp at h
    | cons x xs ih =>
      by_cases hx : low x
      · simp [List.findIdx?_cons, dropFirst, hx]
      · have hxs : xs.countP low ≠ 0 := by simpa [hx] using h
        obtain ⟨i, hi⟩ : ∃ i, xs.findIdx? low = some i := by
          rw [← Option.isSome_iff_exists, List.findIdx?_isSome]
          simpa using hxs
        have := ih hxs
        simp only [hi, Option.getD_some] at this
        simp [List.findIdx?_cons, hx, hi, dropFirst, this]
  split
  · rename_i h
    have hno : ∀ x ∈ xs, low x = false := by simpa using h
    cases xs with
    | nil => rfl
    | cons x xs =>
      have : List.findIdx? low (x :: xs) = none := List.findIdx?_eq_none_iff.mpr hno
      simp [this, dropFirst, hno x]
  · exact hfirst xs ‹_›

/-- First the entries of low standing go, then the others. -/
theorem evictFirst_eq (n : ℕ) (xs : List α) : evictFirst low n xs =
    dropFirst (fun x => !low x) (n - xs.countP low) (dropFirst low n xs) := by
  induction n generalizing xs with
  | zero => simp [evictFirst]
  | succ n ih =>
    rw [evictFirst, ih, eraseIdx_findIdx?]
    split
    · rename_i h
      have h' : (dropFirst (fun x => !low x) 1 xs).countP low = 0 := by
        rw [countP_dropFirst_of_not (fun x hx => by simp [hx]), h]
      rw [dropFirst_eq_self h', dropFirst_eq_self h, h', h, dropFirst_dropFirst]
      congr 1; omega
    · rw [dropFirst_dropFirst, countP_dropFirst, Nat.add_comm 1 n]
      congr 1; omega

theorem length_evictFirst (n : ℕ) (xs : List α) :
    (evictFirst low n xs).length = xs.length - n := by
  have hlow : (evictFirst low n xs).countP low = xs.countP low - n := by
    rw [evictFirst_eq, countP_dropFirst_of_not (fun x hx => by simp [hx]), countP_dropFirst]
  have hhigh : (evictFirst low n xs).countP (fun x => !low x) =
      xs.countP (fun x => !low x) - (n - xs.countP low) := by
    rw [evictFirst_eq, countP_dropFirst,
      countP_dropFirst_of_not fun x hx => by simpa using hx]
  rw [length_eq_countP_add low, hlow, hhigh, length_eq_countP_add low xs]
  omega

theorem evictFirst_sublist (n : ℕ) (xs : List α) : (evictFirst low n xs).Sublist xs := by
  rw [evictFirst_eq]
  exact (dropFirst_sublist _ _ _).trans (dropFirst_sublist _ _ _)

/-! ## The share of the low tier -/

/-- The log cut down to `m` entries of low standing and then to `n` entries. -/
def cutShare (low : α → Bool) (m n : ℕ) (xs : List α) : List α :=
  let shared := dropFirst low (xs.countP low - m) xs
  evictFirst low (shared.length - n) shared

variable {m : ℕ}

theorem cutShare_eq (xs : List α) : cutShare low m n xs =
    dropFirst (fun x => !low x) ((xs.countP fun x => !low x) - n)
      (dropFirst low (xs.countP low - m +
        (min m (xs.countP low) + (xs.countP fun x => !low x) - n)) xs) := by
  have hlow : (dropFirst low (xs.countP low - m) xs).countP low = min m (xs.countP low) := by
    rw [countP_dropFirst]
    omega
  have hhigh : (dropFirst low (xs.countP low - m) xs).countP (fun x => !low x) =
      xs.countP fun x => !low x :=
    countP_dropFirst_of_not (fun x hx => by simpa using hx) _ _
  rw [cutShare, evictFirst_eq, dropFirst_dropFirst, length_eq_countP_add low, hlow, hhigh]
  congr 1
  omega

theorem cutShare_sublist (xs : List α) : (cutShare low m n xs).Sublist xs := by
  rw [cutShare_eq]
  exact (dropFirst_sublist _ _ _).trans (dropFirst_sublist _ _ _)

theorem countP_cutShare_le (xs : List α) : (cutShare low m n xs).countP low ≤ m := by
  refine (evictFirst_sublist _ _).countP_le.trans ?_
  rw [countP_dropFirst]
  omega

theorem length_cutShare_le (xs : List α) : (cutShare low m n xs).length ≤ n := by
  rw [cutShare, length_evictFirst]
  omega

/-- Entries of high standing stay if they all fit. -/
theorem mem_cutShare_of_not (hx : x ∈ xs) (hlow : low x = false)
    (hn : (xs.countP fun x => !low x) ≤ n) : x ∈ cutShare low m n xs := by
  rw [cutShare_eq, Nat.sub_eq_zero_of_le hn, dropFirst_zero]
  exact mem_dropFirst_of_not hx hlow _

section
variable {κ : Type v} [LinearOrder κ] {key : α → κ}

/-- An entry of low standing stays among the last ones of the share that the high tier leaves. -/
theorem mem_cutShare_low (h : Ascending key xs) (hlow : low x = true) :
    x ∈ cutShare low m n xs ↔ x ∈ xs ∧
      xs.countP (fun y => low y ∧ key x < key y) < min m (n - xs.countP fun y => !low y) := by
  rw [cutShare_eq, mem_dropFirst (h.sublist (dropFirst_sublist _ _ _)), mem_dropFirst h]
  simp only [hlow, Bool.not_true, Bool.false_eq_true, false_implies, and_true, forall_const]
  refine and_congr_right fun hx => ?_
  have := countP_above_lt key hx hlow
  omega

/-- An entry of high standing stays among the last ones that fit. -/
theorem mem_cutShare_high (h : Ascending key xs) (hlow : low x = false) :
    x ∈ cutShare low m n xs ↔
      x ∈ xs ∧ xs.countP (fun y => !low y ∧ key x < key y) < n := by
  have hhigh (q : α → Bool) (hq : ∀ y, q y = true → low y = false) (k : ℕ) :
      (dropFirst low k xs).countP q = xs.countP q := countP_dropFirst_of_not hq k xs
  rw [cutShare_eq, mem_dropFirst (h.sublist (dropFirst_sublist _ _ _)), mem_dropFirst h,
    hhigh (fun y => !low y) (fun y hy => by simpa using hy),
    hhigh (fun y => !low y ∧ key x < key y) (fun y hy => by simp_all)]
  simp only [hlow, Bool.false_eq_true, false_implies, and_true, Bool.not_false, forall_const]
  refine and_congr_right fun hx => ?_
  have := countP_above_lt key (p := fun y => !low y) hx (by rw [hlow, Bool.not_false])
  omega

variable [DecidableEq α]

theorem card_rivals_share (h : Ascending key xs) :
    ((shareLayer low m n).rivals (standing low key) xs.toFinset x).card =
      xs.countP fun y => low y = low x ∧ key x < key y := by
  rw [← card_filter_toFinset h.nodup]
  congr 1; ext y
  rw [Finset.mem_filter]
  exact mem_rivals_share

theorem card_high (h : Ascending key xs) :
    (xs.toFinset.filter fun x => low x = false).card = xs.countP fun x => !low x := by
  rw [card_filter_toFinset h.nodup]
  exact List.countP_congr fun x _ => by simp

/-- **The two cuts make the choice of the two tiers.** -/
theorem toFinset_cutShare (h : Ascending key xs) : (cutShare low m n xs).toFinset =
    (totalLayer n).keep (standing low key)
      ((shareLayer low m n).keep (standing low key) xs.toFinset) := by
  ext x
  rw [List.mem_toFinset, mem_keep_tiers h.distinct.standing, card_rivals_share h, card_high h,
    List.mem_toFinset]
  cases hx : low x with
  | true =>
    rw [mem_cutShare_low h hx, if_pos rfl]
  | false =>
    rw [mem_cutShare_high h hx, if_neg Bool.false_ne_true]
    simp only [Bool.not_eq_true']

end

end Retention
