import Freebird.Retention.Tiers

/-!
# Maps that are cut down

A bounded map stores each entry under a key of its own (`Indexed`) and is cut down by a loop that
looks for a victim and erases it while some count is above a cap (`evictWhile`). Where the count is
that of a part of the entries, and the victim is the least of that part, the loop leaves the highest
of the part and all others (`Indexed.entries_evictWhile`). A loop over the entries of low standing
and one over all entries, which takes those of low standing first, make the choice of the two tiers
(`keep_tiers_eq`).
-/

universe u v w

namespace Retention

variable {κ : Type u} {α : Type v} {cmp : κ → κ → Ordering}

section
variable [Std.TransCmp cmp] [DecidableEq α]

/-- The values of a map. -/
def entries (m : Std.ExtTreeMap κ α cmp) : Finset α := (m.toList.map Prod.snd).toFinset

/-- Every value is stored under its own key. -/
def Indexed (key : α → κ) (m : Std.ExtTreeMap κ α cmp) : Prop :=
  ∀ (k : κ) (x : α), m[k]? = some x → key x = k

/-- A loop that erases a victim while there are too many, for `fuel` turns at most. -/
def evictWhile (count : Std.ExtTreeMap κ α cmp → ℕ) (victim : Std.ExtTreeMap κ α cmp → Option κ)
    (n : ℕ) : ℕ → Std.ExtTreeMap κ α cmp → Std.ExtTreeMap κ α cmp
  | 0, m => m
  | fuel + 1, m =>
    if n < count m then
      match victim m with
      | none => m
      | some k => evictWhile count victim n fuel (m.erase k)
    else m

end

variable {key : α → κ} {m : Std.ExtTreeMap κ α cmp} {x y : α} {k : κ}

/-! ## Entries -/

section
variable [Std.TransCmp cmp]

theorem Indexed.erase (hm : Indexed key m) (k : κ) : Indexed key (m.erase k) := by
  intro k' x hx
  rw [Std.ExtTreeMap.getElem?_erase] at hx
  split at hx
  · cases hx
  · exact hm k' x hx

variable [Std.LawfulEqCmp cmp]

theorem Indexed.insert (hm : Indexed key m) (x : α) : Indexed key (m.insert (key x) x) := by
  intro k y hy
  rw [Std.ExtTreeMap.getElem?_insert] at hy
  split at hy
  · rename_i hk
    rw [← Option.some.inj hy]
    exact Std.LawfulEqCmp.compare_eq_iff_eq.mp hk
  · exact hm k y hy

variable [DecidableEq α]

theorem mem_entries : x ∈ entries m ↔ ∃ k : κ, m[k]? = some x := by
  simp [entries, Std.ExtTreeMap.mem_toList_iff_getElem?_eq_some]

theorem Indexed.mem_entries (hm : Indexed key m) : x ∈ entries m ↔ m[key x]? = some x := by
  rw [Retention.mem_entries]
  constructor
  · rintro ⟨k, hk⟩
    rwa [hm k x hk]
  · exact fun h => ⟨_, h⟩

/-- An indexed map is determined by its entries. -/
theorem Indexed.ext {m' : Std.ExtTreeMap κ α cmp} (hm : Indexed key m) (hm' : Indexed key m')
    (h : entries m = entries m') : m = m' := by
  refine Std.ExtTreeMap.ext_getElem? fun k => Option.ext fun x => ?_
  constructor
  · intro hx
    obtain rfl := hm k x hx
    exact hm'.mem_entries.mp (h ▸ hm.mem_entries.mpr hx)
  · intro hx
    obtain rfl := hm' k x hx
    exact hm.mem_entries.mp (h ▸ hm'.mem_entries.mpr hx)

/-- The entry that is stored under a key is the only one of that key. -/
theorem Indexed.injOn (hm : Indexed key m) : Set.InjOn key (entries m) := by
  intro x hx y hy he
  have hx := hm.mem_entries.mp hx
  rw [he, hm.mem_entries.mp hy] at hx
  exact (Option.some.inj hx).symm

theorem Indexed.entries_erase (hm : Indexed key m) (hx : x ∈ entries m) :
    entries (m.erase (key x)) = (entries m).erase x := by
  ext y
  rw [(hm.erase _).mem_entries, Finset.mem_erase, hm.mem_entries, Std.ExtTreeMap.getElem?_erase]
  split
  · rename_i he
    have he : key x = key y := Std.LawfulEqCmp.compare_eq_iff_eq.mp he
    refine iff_of_false (Option.some_ne_none y).symm fun ⟨hne, hy⟩ => hne ?_
    exact hm.injOn (hm.mem_entries.mpr hy) hx he.symm
  · rename_i he
    refine ⟨fun h => ⟨?_, h⟩, And.right⟩
    rintro rfl
    exact he Std.ReflCmp.compare_self

omit [DecidableEq α] in
theorem Indexed.nodup_values (hm : Indexed key m) : (m.toList.map Prod.snd).Nodup := by
  have hkeys : (m.toList.map Prod.fst).Nodup := by
    rw [Std.ExtTreeMap.map_fst_toList_eq_keys]
    exact Std.ExtTreeMap.nodup_keys
  refine (List.nodup_map_iff_inj_on hkeys.of_map).mpr ?_
  rintro ⟨k, x⟩ hx ⟨k', x'⟩ hx' rfl
  rw [Std.ExtTreeMap.mem_toList_iff_getElem?_eq_some] at hx hx'
  rw [← hm k x hx, ← hm k' x hx']

/-- Counting the values is counting the entries. -/
theorem Indexed.countP_values (hm : Indexed key m) (p : α → Bool) :
    (m.toList.map Prod.snd).countP p = ((entries m).filter fun x => p x = true).card := by
  rw [entries, ← List.toFinset_filter, List.toFinset_card_of_nodup (hm.nodup_values.filter p),
    List.countP_eq_length_filter]

theorem Indexed.card_entries (hm : Indexed key m) : (entries m).card = m.size := by
  rw [entries, List.toFinset_card_of_nodup hm.nodup_values, List.length_map,
    Std.ExtTreeMap.length_toList]

/-! ## Eviction -/

variable {π : Type w} [LinearOrder π] {prio : α → π} {n fuel : ℕ}
  {count : Std.ExtTreeMap κ α cmp → ℕ} {victim : Std.ExtTreeMap κ α cmp → Option κ}

omit [Std.LawfulEqCmp cmp] [DecidableEq α] in
theorem evictWhile_of_le (h : count m ≤ n) : evictWhile count victim n fuel m = m := by
  cases fuel with
  | zero => rfl
  | succ fuel => rw [evictWhile, if_neg (not_lt.mpr h)]

omit [Std.LawfulEqCmp cmp] [DecidableEq α] in
/-- Eviction only removes. -/
theorem getElem?_of_evictWhile (h : (evictWhile count victim n fuel m)[k]? = some x) :
    m[k]? = some x := by
  induction fuel generalizing m with
  | zero => exact h
  | succ fuel ih =>
    rw [evictWhile] at h
    split at h
    · split at h
      · exact h
      · have h := ih h
        rw [Std.ExtTreeMap.getElem?_erase] at h
        split at h
        · cases h
        · exact h
    · exact h

omit [Std.LawfulEqCmp cmp] [DecidableEq α] in
theorem Indexed.evictWhile (hm : Indexed key m) : Indexed key (evictWhile count victim n fuel m) :=
  fun k x hx => hm k x (getElem?_of_evictWhile hx)

variable (key prio) in
/-- The count is that of the entries in a part, and the victim is the least entry of the part. -/
structure Evicts (part : α → Bool) (count : Std.ExtTreeMap κ α cmp → ℕ)
    (victim : Std.ExtTreeMap κ α cmp → Option κ) : Prop where
  count : ∀ m, Indexed key m → count m = ((entries m).filter fun x => part x = true).card
  victim : ∀ m, Indexed key m → ∀ x ∈ entries m, part x = true →
    ∃ y ∈ entries m, part y = true ∧ victim m = some (key y) ∧
      ∀ z ∈ entries m, part z = true → z ≠ y → prio y < prio z

/-- **The loop leaves the highest entries of its part**, and all others. -/
theorem Indexed.entries_evictWhile {part : α → Bool} (h : Evicts key prio part count victim)
    (hm : Indexed key m) (hfuel : count m ≤ fuel) :
    entries (Retention.evictWhile count victim n fuel m) =
      (entries m).filter (fun x => part x = false) ∪
        highest prio n ((entries m).filter fun x => part x = true) := by
  induction fuel generalizing m with
  | zero =>
    have hempty : ((entries m).filter fun x => part x = true) = ∅ := by
      rw [← Finset.card_eq_zero, ← h.count m hm]
      exact Nat.le_zero.mp hfuel
    have hall : (entries m).filter (fun x => part x = false) = entries m := by
      refine Finset.filter_true_of_mem fun x hx => Bool.eq_false_iff.mpr fun hpart => ?_
      exact Finset.notMem_empty x (hempty ▸ Finset.mem_filter.mpr ⟨hx, hpart⟩)
    rw [Retention.evictWhile, hempty, hall]
    exact (Finset.union_empty _).symm
  | succ fuel ih =>
    rw [Retention.evictWhile]
    split
    · rename_i hlt
      rw [h.count m hm] at hlt
      obtain ⟨x, hx⟩ := Finset.card_pos.mp (Nat.zero_lt_of_lt hlt)
      obtain ⟨hx, hpart⟩ := Finset.mem_filter.mp hx
      obtain ⟨y, hy, hypart, hvictim, hleast⟩ := h.victim m hm x hx hpart
      have hmem : y ∈ (entries m).filter fun x => part x = true :=
        Finset.mem_filter.mpr ⟨hy, hypart⟩
      have hrest : (entries (m.erase (key y))).filter (fun x => part x = false) =
          (entries m).filter fun x => part x = false := by
        rw [hm.entries_erase hy, Finset.filter_erase, Finset.erase_eq_of_notMem]
        exact fun hmem => Bool.false_ne_true ((Finset.mem_filter.mp hmem).2.symm.trans hypart)
      have hpart : (entries (m.erase (key y))).filter (fun x => part x = true) =
          ((entries m).filter fun x => part x = true).erase y := by
        rw [hm.entries_erase hy, Finset.filter_erase]
      have hcount : count (m.erase (key y)) ≤ fuel := by
        rw [h.count m hm] at hfuel
        rw [h.count _ (hm.erase _), hpart, Finset.card_erase_of_mem hmem]
        omega
      simp only [hvictim]
      rw [ih (hm.erase _) hcount, hrest, hpart, highest_erase hmem ?_ hlt]
      intro z hz hne
      obtain ⟨hz, hzpart⟩ := Finset.mem_filter.mp hz
      exact hleast z hz hzpart hne
    · rename_i hle
      rw [h.count m hm] at hle
      have hhigh : highest prio n ((entries m).filter fun x => part x = true) =
          (entries m).filter fun x => part x = true :=
        Finset.filter_eq_self.mpr fun x hx => (card_above_lt hx).trans_le (not_lt.mp hle)
      rw [hhigh, Finset.union_comm]
      ext x
      rw [Finset.mem_union, Finset.mem_filter, Finset.mem_filter, ← and_or_left]
      cases part x <;> simp

end

/-! ## Two loops for two tiers -/

section
variable [DecidableEq α] {π : Type w} [LinearOrder π] {order : α → π} {low : α → Bool} {m n : ℕ}
  {A : Finset α}

omit [DecidableEq α] in
theorem keep_total (prio : α → π) (n : ℕ) (A : Finset α) :
    (totalLayer n).keep prio A = highest prio n A := by
  have hrivals (x : α) : (totalLayer n).rivals prio A x = above prio A x :=
    Finset.filter_congr fun y _ => and_iff_right rfl
  simp only [Layer.keep, highest, hrivals]
  rfl

/-- The share of the low tier and then the cap on everything, low standing first, make the choice of
the two tiers. -/
theorem keep_tiers_eq (hA : Distinct (standing low order) A) :
    highest (standing low order) n (A.filter (fun x => low x = false) ∪
        highest order m (A.filter fun x => low x = true)) =
      (totalLayer n).keep (standing low order) ((shareLayer low m n).keep (standing low order) A) := by
  set B := A.filter (fun x => low x = false) ∪ highest order m (A.filter fun x => low x = true)
  set T := (shareLayer low m n).keep (standing low order) A
  have hB (x : α) : x ∈ B ↔ x ∈ A ∧
      (low x = true → ((shareLayer low m n).rivals (standing low order) A x).card < m) := by
    rw [Finset.mem_union, Finset.mem_filter, mem_highest, Finset.mem_filter, and_assoc,
      ← and_or_left]
    refine and_congr_right fun _ => ?_
    have hrivals (hx : low x = true) : (shareLayer low m n).rivals (standing low order) A x =
        above order (A.filter fun x => low x = true) x := by
      ext y
      rw [mem_rivals_share, mem_above, Finset.mem_filter, hx, and_assoc]
    cases hx : low x with
    | false => simp
    | true => simp [hrivals hx]
  have hT (x : α) : x ∈ T ↔ x ∈ A ∧
      ((shareLayer low m n).rivals (standing low order) A x).card < if low x then m else n :=
    Layer.mem_keep
  have hTB : T ⊆ B := by
    intro x hx
    obtain ⟨hx, hlt⟩ := (hT x).mp hx
    exact (hB x).mpr ⟨hx, fun hlow => by rwa [if_pos hlow] at hlt⟩
  have hcrowd : ∀ x ∈ B, x ∉ T → n ≤ (above (standing low order) T x).card := by
    intro x hx hnot
    obtain ⟨hx, hlt⟩ := (hB x).mp hx
    have hlow : low x = false := by
      refine Bool.eq_false_iff.mpr fun hlow => hnot ((hT x).mpr ⟨hx, ?_⟩)
      rw [if_pos hlow]
      exact hlt hlow
    have hfull : (shareLayer low m n).cap ((shareLayer low m n).group x) ≤
        ((shareLayer low m n).rivals (standing low order) A x).card := by
      refine not_lt.mp fun hlt => hnot ((hT x).mpr ⟨hx, hlt⟩)
    have hcap : (shareLayer low m n).cap ((shareLayer low m n).group x) = n := by
      change (if low x then m else n) = n
      rw [hlow]
      rfl
    have hle := Layer.le_card_rivals_keep hA hfull
    rw [hcap] at hle
    refine hle.trans (Finset.card_le_card fun y hy => ?_)
    obtain ⟨hy, -, hlt⟩ := Layer.mem_rivals.mp hy
    exact mem_above.mpr ⟨hy, hlt⟩
  rw [← highest_of_crowded hTB hcrowd, keep_total]

end

end Retention
