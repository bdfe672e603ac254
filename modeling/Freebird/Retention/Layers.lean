import Freebird.Retention.Basic

/-!
# Nested caps

A layer sorts entries into groups and caps each group; it keeps the entries with the highest
priorities of every group. Layers applied one after the other, each coarser than the ones before
it, make a lawful retention policy (`nested`). The proof never looks at two layers at once: the
entries of a layer above a given entry are chosen from the entries above it (`keepAll_newer`), and
the number kept of a group grows with what is offered (`card_keepAll_mono`).
-/

universe u v

namespace Retention

/-- A grouping of the entries with a cap on each group. -/
structure Layer (α : Type u) where
  Group : Type
  [decEq : DecidableEq Group]
  group : α → Group
  cap : Group → ℕ

attribute [instance] Layer.decEq

variable {α : Type u} {κ : Type v} [LinearOrder κ] {prio : α → κ} {A B S : Finset α} {x y : α}

section
variable (prio)

/-- The entries of `A` with a higher priority than `x`. -/
def above (A : Finset α) (x : α) : Finset α := A.filter fun y => prio x < prio y

namespace Layer

/-- The entries of `A` in the group of `x` with a higher priority than `x`. -/
def rivals (l : Layer α) (A : Finset α) (x : α) : Finset α :=
  A.filter fun y => l.group y = l.group x ∧ prio x < prio y

/-- Every group cut down to its highest priorities. -/
def keep (l : Layer α) (A : Finset α) : Finset α :=
  A.filter fun x => (l.rivals prio A x).card < l.cap (l.group x)

end Layer

/-- The layers applied in turn, the first of the list last. -/
def keepAll : List (Layer α) → Finset α → Finset α
  | [], A => A
  | l :: ls, A => l.keep prio (keepAll ls A)

end

/-- Priorities tell the entries of `A` apart. -/
def Distinct (prio : α → κ) (A : Finset α) : Prop := Set.InjOn prio A

/-- Each layer is coarser than the ones after it. -/
def Nested (ls : List (Layer α)) : Prop :=
  ls.Pairwise fun l m => ∀ x y, m.group x = m.group y → l.group x = l.group y

omit [LinearOrder κ] in
theorem Distinct.mono (hA : A ⊆ B) (hB : Distinct prio B) : Distinct prio A :=
  Set.InjOn.mono (Finset.coe_subset.mpr hA) hB

@[simp] theorem mem_above : y ∈ above prio A x ↔ y ∈ A ∧ prio x < prio y := Finset.mem_filter

theorem above_subset : above prio A x ⊆ A := Finset.filter_subset _ _

namespace Layer

variable {l : Layer α}

@[simp] theorem mem_rivals :
    y ∈ l.rivals prio A x ↔ y ∈ A ∧ l.group y = l.group x ∧ prio x < prio y := Finset.mem_filter

@[simp] theorem mem_keep :
    x ∈ l.keep prio A ↔ x ∈ A ∧ (l.rivals prio A x).card < l.cap (l.group x) := Finset.mem_filter

theorem rivals_mono (h : A ⊆ B) : l.rivals prio A x ⊆ l.rivals prio B x :=
  Finset.filter_subset_filter _ h

theorem rivals_above : l.rivals prio (above prio A x) x = l.rivals prio A x := by
  ext y; simp only [mem_rivals, mem_above]; tauto

theorem rivals_anti (hg : l.group y = l.group x) (h : prio x ≤ prio y) :
    l.rivals prio A y ⊆ l.rivals prio A x := fun z hz => by
  obtain ⟨hzA, hzg, hzy⟩ := mem_rivals.mp hz
  exact mem_rivals.mpr ⟨hzA, hzg.trans hg, h.trans_lt hzy⟩

/-- The rivals of a kept entry are all kept. -/
theorem rivals_keep (hx : x ∈ l.keep prio A) : l.rivals prio (l.keep prio A) x = l.rivals prio A x := by
  refine (rivals_mono (Finset.filter_subset _ _)).antisymm fun y hy => ?_
  obtain ⟨hyA, hg, hlt⟩ := mem_rivals.mp hy
  refine mem_rivals.mpr ⟨mem_keep.mpr ⟨hyA, hg ▸ ?_⟩, hg, hlt⟩
  exact (Finset.card_le_card (rivals_anti hg hlt.le)).trans_lt (mem_keep.mp hx).2

end Layer

theorem keepAll_subset : ∀ (ls : List (Layer α)) (A : Finset α), keepAll prio ls A ⊆ A
  | [], _ => Finset.Subset.rfl
  | _ :: ls, A => (Finset.filter_subset _ _).trans (keepAll_subset ls A)

section
variable (prio)

/-- The entries with the highest `n` priorities. -/
def highest (n : ℕ) (A : Finset α) : Finset α := A.filter fun x => (above prio A x).card < n

end

@[simp] theorem mem_highest {n : ℕ} :
    x ∈ highest prio n A ↔ x ∈ A ∧ (above prio A x).card < n := Finset.mem_filter

theorem card_above_lt (hx : x ∈ A) : (above prio A x).card < A.card :=
  Finset.card_lt_card (Finset.filter_ssubset.mpr ⟨x, hx, lt_irrefl _⟩)

/-- Places in excess of the entries stay empty. -/
theorem highest_min_card (n : ℕ) : highest prio (min A.card n) A = highest prio n A :=
  Finset.filter_congr fun _ hx => by rw [lt_min_iff, and_iff_right (card_above_lt hx)]

/-- Giving up the last place gives up the lowest entry. -/
theorem highest_erase [DecidableEq α] {n : ℕ} (hx : x ∈ A) (hmin : ∀ y ∈ A, y ≠ x → prio x < prio y)
    (hn : n < A.card) : highest prio n (A.erase x) = highest prio n A := by
  have habove (y : α) (hy : y ∈ A) : above prio (A.erase x) y = above prio A y := by
    ext z
    simp only [mem_above, Finset.mem_erase]
    refine ⟨fun h => ⟨h.1.2, h.2⟩, fun h => ⟨⟨?_, h.1⟩, h.2⟩⟩
    rintro rfl
    rcases eq_or_ne y z with rfl | hne
    · exact lt_irrefl _ h.2
    · exact lt_asymm h.2 (hmin y hy hne)
  have hself : above prio A x = A.erase x := by
    ext y
    rw [mem_above, Finset.mem_erase]
    exact ⟨fun h => ⟨fun he => lt_irrefl _ (he ▸ h.2), h.1⟩, fun h => ⟨h.2, hmin y h.2 h.1⟩⟩
  ext y
  rw [mem_highest, mem_highest, Finset.mem_erase, and_assoc]
  constructor
  · rintro ⟨-, hy, hlt⟩
    exact ⟨hy, habove y hy ▸ hlt⟩
  · rintro ⟨hy, hlt⟩
    refine ⟨?_, hy, habove y hy ▸ hlt⟩
    rintro rfl
    rw [hself, Finset.card_erase_of_mem hx] at hlt
    omega

/-- The highest `n` priorities of a finite set are `n` entries, or all of them. -/
theorem card_highest (hA : Distinct prio A) (n : ℕ) :
    (highest prio n A).card = min n A.card := by
  classical
  unfold highest
  induction A using Finset.induction_on_min_value prio with
  | empty => simp
  | insert a A ha hmin ih =>
    have hA' : Distinct prio A := hA.mono (Finset.subset_insert a A)
    have hlt : ∀ x ∈ A, prio a < prio x := fun x hx =>
      lt_of_le_of_ne (hmin x hx) fun h =>
        ha (hA (Finset.mem_insert_self a A) (Finset.mem_insert_of_mem hx) h ▸ hx)
    have habove : ∀ x ∈ A, above prio (insert a A) x = above prio A x := fun x hx => by
      rw [above, Finset.filter_insert, if_neg (hlt x hx).not_gt, above]
    have ha' : above prio (insert a A) a = A := by
      rw [above, Finset.filter_insert, if_neg (lt_irrefl _), Finset.filter_eq_self.mpr hlt]
    have hrest : (A.filter fun x => (above prio (insert a A) x).card < n) =
        A.filter fun x => (above prio A x).card < n :=
      Finset.filter_congr fun x hx => by rw [habove x hx]
    rw [Finset.filter_insert, ha', hrest, Finset.card_insert_of_notMem ha]
    split
    · rw [Finset.card_insert_of_notMem (fun h => ha (Finset.mem_of_mem_filter _ h)), ih hA']
      omega
    · rw [ih hA']
      omega

/-- What a cut to `n` leaves above an entry: as much as fits. -/
theorem card_above_highest (hA : Distinct prio A) (n : ℕ) :
    (above prio (highest prio n A) x).card = min n (above prio A x).card := by
  rw [← card_highest (hA.mono above_subset)]
  congr 1; ext y
  simp only [mem_above, mem_highest]
  have habove (hxy : prio x < prio y) : above prio (above prio A x) y = above prio A y := by
    ext z
    simp only [mem_above]
    exact ⟨fun h => ⟨h.1.1, h.2⟩, fun h => ⟨⟨h.1, hxy.trans h.2⟩, h.2⟩⟩
  constructor
  · rintro ⟨⟨hy, hlt⟩, hxy⟩
    exact ⟨⟨hy, hxy⟩, by rwa [habove hxy]⟩
  · rintro ⟨⟨hy, hxy⟩, hlt⟩
    exact ⟨⟨hy, by rwa [habove hxy] at hlt⟩, hxy⟩

theorem above_subset_above (h : prio x ≤ prio y) : above prio A y ⊆ above prio A x := fun z hz => by
  obtain ⟨hz, hlt⟩ := mem_above.mp hz
  exact mem_above.mpr ⟨hz, h.trans_lt hlt⟩

/-- Entries that find every place above them taken leave no trace on the cut. -/
theorem highest_of_crowded {n : ℕ} (hAB : A ⊆ B)
    (h : ∀ x ∈ B, x ∉ A → n ≤ (above prio A x).card) : highest prio n A = highest prio n B := by
  ext x
  rw [mem_highest, mem_highest]
  have hsub : above prio A x ⊆ above prio B x := Finset.filter_subset_filter _ hAB
  constructor
  · rintro ⟨hx, hlt⟩
    refine ⟨hAB hx, (Finset.card_le_card fun y hy => ?_).trans_lt hlt⟩
    obtain ⟨hy, hxy⟩ := mem_above.mp hy
    refine mem_above.mpr ⟨?_, hxy⟩
    -- What is missing above `x` finds `n` entries above it, hence above `x`.
    by_contra hyA
    exact absurd hlt (not_lt.mpr ((h y hy hyA).trans
      (Finset.card_le_card (above_subset_above hxy.le))))
  · rintro ⟨hx, hlt⟩
    have hlt : (above prio A x).card < n := (Finset.card_le_card hsub).trans_lt hlt
    refine ⟨?_, hlt⟩
    by_contra hxA
    exact absurd hlt (not_lt.mpr (h x hx hxA))

section
variable {β : Type v} [DecidableEq β] {f : α → β} {X Y : Finset α} {n : ℕ}

/-- A store that lacks an entry of another one only for want of room lacks none, if the other one
can say the same of it. -/
theorem image_subset_of_full (hX : Set.InjOn f X) (hY : Set.InjOn f Y) (hXn : X.card ≤ n)
    (hYn : Y.card ≤ n) (hXY : ∀ x ∈ X, f x ∈ Y.image f ∨ n ≤ (above prio Y x).card)
    (hYX : ∀ y ∈ Y, f y ∈ X.image f ∨ n ≤ (above prio X y).card) : X.image f ⊆ Y.image f := by
  have all {A : Finset α} {z : α} (hA : A.card ≤ n) (h : n ≤ (above prio A z).card) :
      ∀ w ∈ A, prio z < prio w := by
    have heq : above prio A z = A := Finset.eq_of_subset_of_card_le above_subset (hA.trans h)
    exact fun w hw => (mem_above.mp (heq ▸ hw)).2
  by_contra hsub
  obtain ⟨k, hk, hkY⟩ := Finset.not_subset.mp hsub
  obtain ⟨x, hx, rfl⟩ := Finset.mem_image.mp hk
  have hfull := (hXY x hx).resolve_left hkY
  -- `Y` is full above `x`, so `X` lacks some `y` of it, which `X` in turn is full above.
  obtain ⟨y, hy, hyX⟩ : ∃ y ∈ Y, f y ∉ X.image f := by
    by_contra hall
    push Not at hall
    have hYX' : Y.image f ⊆ X.image f := Finset.image_subset_iff.mpr hall
    refine hkY (Finset.eq_of_subset_of_card_le hYX' ?_ ▸ hk)
    rw [Finset.card_image_of_injOn hX, Finset.card_image_of_injOn hY]
    exact hXn.trans (hfull.trans (Finset.card_le_card above_subset))
  have hyx := all hXn ((hYX y hy).resolve_left hyX) x hx
  exact lt_asymm hyx (all hYn hfull y hy)

theorem image_eq_of_full (hX : Set.InjOn f X) (hY : Set.InjOn f Y) (hXn : X.card ≤ n)
    (hYn : Y.card ≤ n) (hXY : ∀ x ∈ X, f x ∈ Y.image f ∨ n ≤ (above prio Y x).card)
    (hYX : ∀ y ∈ Y, f y ∈ X.image f ∨ n ≤ (above prio X y).card) : X.image f = Y.image f :=
  (image_subset_of_full hX hY hXn hYn hXY hYX).antisymm
    (image_subset_of_full hY hX hYn hXn hYX hXY)

end

/-- What a layer keeps of a group: as much as the cap allows. -/
theorem Layer.card_keep_group (l : Layer α) (hA : Distinct prio A) (c : l.Group) :
    ((l.keep prio A).filter fun x => l.group x = c).card =
      min (l.cap c) (A.filter fun x => l.group x = c).card := by
  have hc : Distinct prio (A.filter fun x => l.group x = c) := hA.mono (Finset.filter_subset _ _)
  rw [← card_highest hc]
  congr 1
  ext x
  simp only [Finset.mem_filter, mem_keep, mem_highest]
  constructor
  · rintro ⟨⟨hx, hlt⟩, rfl⟩
    refine ⟨⟨hx, rfl⟩, lt_of_eq_of_lt ?_ hlt⟩
    congr 1; ext y; simp [and_assoc]
  · rintro ⟨⟨hx, rfl⟩, hlt⟩
    refine ⟨⟨hx, lt_of_eq_of_lt ?_ hlt⟩, rfl⟩
    congr 1; ext y; simp [and_assoc]

/-- A group that is full above `x` is still full above `x` after the cut. -/
theorem Layer.le_card_rivals_keep {l : Layer α} (hA : Distinct prio A)
    (h : l.cap (l.group x) ≤ (l.rivals prio A x).card) :
    l.cap (l.group x) ≤ (l.rivals prio (l.keep prio A) x).card := by
  have hR : Distinct prio (l.rivals prio A x) := hA.mono (Finset.filter_subset _ _)
  rw [← min_eq_left h, ← card_highest hR]
  refine Finset.card_le_card fun z hz => ?_
  obtain ⟨hzR, hlt⟩ := mem_highest.mp hz
  obtain ⟨hzA, hzg, hxz⟩ := mem_rivals.mp hzR
  refine mem_rivals.mpr ⟨mem_keep.mpr ⟨hzA, hzg ▸ lt_of_eq_of_lt ?_ hlt⟩, hzg, hxz⟩
  congr 1; ext w
  simp only [mem_rivals, mem_above, hzg]
  exact ⟨fun h => ⟨⟨h.1, h.2.1, hxz.trans h.2.2⟩, h.2.2⟩, fun h => ⟨h.1.1, h.1.2.1, h.2⟩⟩

theorem keepAll_above (x : α) :
    ∀ ls : List (Layer α), above prio (keepAll prio ls A) x = keepAll prio ls (above prio A x)
  | [] => rfl
  | l :: ls => by
    ext y
    simp only [keepAll, mem_above, Layer.mem_keep, ← keepAll_above x ls]
    have h (hy : prio x < prio y) : l.rivals prio (above prio (keepAll prio ls A) x) y =
        l.rivals prio (keepAll prio ls A) y := by
      ext z; simp only [Layer.mem_rivals, mem_above]
      exact ⟨fun h => ⟨h.1.1, h.2⟩, fun h => ⟨⟨h.1, hy.trans h.2.2⟩, h.2⟩⟩
    constructor
    · rintro ⟨⟨hm, hlt⟩, hy⟩
      exact ⟨⟨hm, hy⟩, by rwa [h hy]⟩
    · rintro ⟨⟨hm, hy⟩, hlt⟩
      exact ⟨⟨hm, by rwa [h hy] at hlt⟩, hy⟩

theorem Layer.rivals_keepAll (l : Layer α) (ls : List (Layer α)) :
    l.rivals prio (keepAll prio ls A) x = l.rivals prio (keepAll prio ls (above prio A x)) x := by
  rw [← keepAll_above, rivals_above]

/-- The more is offered, the more is kept of each group of a coarser layer. -/
theorem card_keepAll_mono {l : Layer α} {ls : List (Layer α)} (hn : Nested (l :: ls))
    (hB : Distinct prio B) (hAB : A ⊆ B) (c : l.Group) :
    ((keepAll prio ls A).filter fun x => l.group x = c).card ≤
      ((keepAll prio ls B).filter fun x => l.group x = c).card := by
  induction ls generalizing l with
  | nil => exact Finset.card_le_card (Finset.filter_subset_filter _ hAB)
  | cons m ms ih =>
    obtain ⟨hl, hm⟩ := List.pairwise_cons.mp hn
    have hlm := hl m List.mem_cons_self
    -- The groups of `m` under `c` are counted one at a time.
    have maps (C : Finset α) (hC : C ⊆ B) : ∀ x ∈ (keepAll prio (m :: ms) C).filter
        (fun x => l.group x = c), m.group x ∈ B.image m.group := fun x hx =>
      Finset.mem_image_of_mem _ (hC (keepAll_subset _ _ (Finset.mem_of_mem_filter x hx)))
    rw [Finset.card_eq_sum_card_fiberwise (maps A hAB),
      Finset.card_eq_sum_card_fiberwise (maps B Finset.Subset.rfl)]
    refine Finset.sum_le_sum fun d _ => ?_
    by_cases hd : ∃ z, m.group z = d ∧ l.group z = c
    · obtain ⟨z, rfl, rfl⟩ := hd
      have fiber (C : Finset α) : ((keepAll prio (m :: ms) C).filter
          (fun x => l.group x = l.group z)).filter (fun x => m.group x = m.group z) =
          (m.keep prio (keepAll prio ms C)).filter fun x => m.group x = m.group z := by
        rw [keepAll, Finset.filter_filter]
        exact Finset.filter_congr fun x _ => ⟨And.right, fun h => ⟨hlm _ _ h, h⟩⟩
      rw [fiber, fiber, m.card_keep_group ((hB.mono hAB).mono (keepAll_subset ms A)),
        m.card_keep_group (hB.mono (keepAll_subset ms B))]
      exact min_le_min le_rfl (ih hm _)
    · have hempty : ((keepAll prio (m :: ms) A).filter
          (fun x => l.group x = c)).filter (fun x => m.group x = d) = ∅ := by
        refine Finset.filter_eq_empty_iff.mpr fun x hx hxd => hd ⟨x, hxd, ?_⟩
        exact (Finset.mem_filter.mp hx).2
      simp [hempty]

/-- An entry kept out of many is kept out of fewer. -/
theorem keepAll_heritage {ls : List (Layer α)} (hn : Nested ls) (hB : Distinct prio B)
    (hAB : A ⊆ B) (hx : x ∈ A) (hk : x ∈ keepAll prio ls B) : x ∈ keepAll prio ls A := by
  induction ls with
  | nil => exact hx
  | cons l ls ih =>
    obtain ⟨hkB, hlt⟩ := Layer.mem_keep.mp hk
    refine Layer.mem_keep.mpr ⟨ih (List.pairwise_cons.mp hn).2 hkB, lt_of_le_of_lt ?_ hlt⟩
    rw [l.rivals_keepAll (A := A), l.rivals_keepAll (A := B)]
    have habove : above prio A x ⊆ above prio B x := Finset.filter_subset_filter _ hAB
    have hmono := card_keepAll_mono hn (hB.mono above_subset) habove (l.group x)
    have rivals (C : Finset α) : l.rivals prio (keepAll prio ls (above prio C x)) x =
        (keepAll prio ls (above prio C x)).filter fun y => l.group y = l.group x := by
      refine Finset.filter_congr fun y hy => ⟨And.left, fun h => ⟨h, ?_⟩⟩
      exact (mem_above.mp (keepAll_subset _ _ hy)).2
    rwa [rivals, rivals]

/-- What nested layers keep is the one subset whose members, and no other entries, have fewer
rivals in it than every layer allows. -/
theorem mem_keepAll_iff {ls : List (Layer α)} (hn : Nested ls) (hB : Distinct prio B)
    (hx : x ∈ B) : x ∈ keepAll prio ls B ↔
      ∀ l ∈ ls, (l.rivals prio (keepAll prio ls B) x).card < l.cap (l.group x) := by
  induction ls generalizing x with
  | nil => simpa [keepAll] using hx
  | cons l ls ih =>
    obtain ⟨hl, hls⟩ := List.pairwise_cons.mp hn
    set T := keepAll prio ls B with hT
    have hTB : Distinct prio T := hB.mono (keepAll_subset ls B)
    constructor
    · intro hk m hm
      obtain ⟨hxT, hlt⟩ := Layer.mem_keep.mp hk
      have hsub : m.rivals prio (keepAll prio (l :: ls) B) x ⊆ m.rivals prio T x :=
        Layer.rivals_mono (Finset.filter_subset _ _)
      refine lt_of_le_of_lt (Finset.card_le_card hsub) ?_
      rcases List.mem_cons.mp hm with rfl | hm
      · exact hlt
      · exact (ih hls hx).mp hxT m hm
    · intro h
      -- Nothing of the group of `x` that lies above `x` is lost to the last layer.
      have free : ∀ y, l.group y = l.group x → prio x ≤ prio y →
          (l.rivals prio T y).card < l.cap (l.group y) := by
        intro y hyx hle
        by_contra hge
        have hfull := (Layer.le_card_rivals_keep hTB (not_lt.mp hge)).trans
          (Finset.card_le_card (Layer.rivals_anti hyx hle))
        rw [hyx] at hfull
        exact absurd (h l List.mem_cons_self) (not_lt.mpr hfull)
      refine Layer.mem_keep.mpr ⟨(ih hls hx).mpr fun m hm => ?_, free x rfl le_rfl⟩
      refine lt_of_le_of_lt (Finset.card_le_card fun z hz => ?_) (h m (List.mem_cons_of_mem _ hm))
      obtain ⟨hzT, hzg, hxz⟩ := Layer.mem_rivals.mp hz
      exact Layer.mem_rivals.mpr
        ⟨Layer.mem_keep.mpr ⟨hzT, free z (hl m hm z x hzg) hxz.le⟩, hzg, hxz⟩

/-- The characterisation of `mem_keepAll_iff` has one solution. -/
theorem eq_keepAll {ls : List (Layer α)} (hn : Nested ls) (hB : Distinct prio B) (hS : S ⊆ B)
    (h : ∀ x ∈ B, x ∈ S ↔ ∀ l ∈ ls, (l.rivals prio S x).card < l.cap (l.group x)) :
    S = keepAll prio ls B := by
  -- Two solutions agree above an entry, hence at it.
  have agree : ∀ n, ∀ x ∈ B, (above prio B x).card = n → (x ∈ S ↔ x ∈ keepAll prio ls B) := by
    intro n
    induction n using Nat.strong_induction_on with
    | _ n ih =>
      intro x hx hn'
      have hsame (l : Layer α) :
          l.rivals prio S x = l.rivals prio (keepAll prio ls B) x := by
        ext y
        simp only [Layer.mem_rivals]
        refine and_congr_left fun hy => ?_
        by_cases hyB : y ∈ B
        · refine ih _ (hn' ▸ Finset.card_lt_card ?_) y hyB rfl
          refine Finset.ssubset_iff_subset_ne.mpr ⟨fun z hz => ?_, fun he => ?_⟩
          · obtain ⟨hzB, hyz⟩ := mem_above.mp hz
            exact mem_above.mpr ⟨hzB, hy.2.trans hyz⟩
          · have : y ∈ above prio B y := he ▸ mem_above.mpr ⟨hyB, hy.2⟩
            exact lt_irrefl _ (mem_above.mp this).2
        · exact iff_of_false (fun h => hyB (hS h)) fun h => hyB (keepAll_subset _ _ h)
      rw [h x hx, mem_keepAll_iff hn hB hx]
      exact forall₂_congr fun l _ => by rw [hsame l]
  ext x
  by_cases hx : x ∈ B
  · exact agree _ x hx rfl
  · exact iff_of_false (fun h => hx (hS h)) fun h => hx (keepAll_subset _ _ h)

/-- What is kept respects every cap. -/
theorem card_keepAll_le (hB : Distinct prio B) {ls : List (Layer α)} {l : Layer α} (hl : l ∈ ls)
    (c : l.Group) :
    ((keepAll prio ls B).filter fun x => l.group x = c).card ≤ l.cap c := by
  induction ls with
  | nil => cases hl
  | cons m ms ih =>
    rcases List.mem_cons.mp hl with rfl | hl
    · rw [keepAll, l.card_keep_group (hB.mono (keepAll_subset ms B))]
      exact min_le_left _ _
    · refine (Finset.card_le_card ?_).trans (ih hl)
      exact Finset.filter_subset_filter _ (Finset.filter_subset _ _)

/-- The more is offered, the more is kept. -/
theorem card_keepAll_le_card {ls : List (Layer α)} (hn : Nested ls) (hB : Distinct prio B) (hAB : A ⊆ B) :
    (keepAll prio ls A).card ≤ (keepAll prio ls B).card := by
  -- All entries are one group of a layer coarser than any other.
  let whole : Layer α := { Group := Unit, group := fun _ => (), cap := fun _ => 0 }
  have hwhole : Nested (whole :: ls) := List.pairwise_cons.mpr ⟨fun _ _ _ _ _ => rfl, hn⟩
  have hmono := card_keepAll_mono hwhole hB hAB ()
  have hall (C : Finset α) : C.filter (fun x => whole.group x = ()) = C :=
    Finset.filter_true_of_mem fun _ _ => rfl
  rwa [hall, hall] at hmono

section
variable [DecidableEq α]

/-- **Nested layers are a retention policy.** -/
def nested (prio : α → κ) (ls : List (Layer α)) (hn : Nested ls) : Retention α where
  keep := keepAll prio ls
  Coherent := Distinct prio
  keep_subset := keepAll_subset ls
  coherent_mono := Distinct.mono
  heritage := keepAll_heritage hn
  outcast hB hsub hAB := by
    refine (eq_keepAll hn (hB.mono hAB) hsub fun x hx => ?_).symm
    exact mem_keepAll_iff hn hB (hAB hx)

variable {ls : List (Layer α)} (hn : Nested ls)

/-- A store within every cap is left alone. -/
theorem stable_of_card_le (hS : Distinct prio S)
    (h : ∀ l ∈ ls, ∀ x ∈ S, (S.filter fun y => l.group y = l.group x).card ≤ l.cap (l.group x)) :
    (nested prio ls hn).Stable S := by
  refine (eq_keepAll hn hS Finset.Subset.rfl fun x hx => iff_of_true hx fun l hl => ?_).symm
  refine lt_of_lt_of_le (Finset.card_lt_card ?_) (h l hl x hx)
  refine Finset.ssubset_iff_subset_ne.mpr ⟨fun y hy => ?_, fun he => ?_⟩
  · obtain ⟨hyS, hg, -⟩ := Layer.mem_rivals.mp hy
    exact Finset.mem_filter.mpr ⟨hyS, hg⟩
  · have : x ∈ l.rivals prio S x := he ▸ Finset.mem_filter.mpr ⟨hx, rfl⟩
    exact lt_irrefl _ (Layer.mem_rivals.mp this).2.2

/-- An entry of a stable store that has only entries of that store above it is kept. -/
theorem mem_keepAll_of_above (hA : Distinct prio A) (hS : (nested prio ls hn).Stable S)
    (hSd : Distinct prio S) (hx : x ∈ A) (hxS : x ∈ S) (h : above prio A x ⊆ S) :
    x ∈ keepAll prio ls A := by
  have hself : keepAll prio ls S = S := hS
  have hall := (mem_keepAll_iff hn hSd hxS).mp (hself.symm ▸ hxS)
  rw [hself] at hall
  refine (mem_keepAll_iff hn hA hx).mpr fun l hl => (Finset.card_le_card ?_).trans_lt (hall l hl)
  rw [← Layer.rivals_above]
  refine Layer.rivals_mono (Finset.Subset.trans ?_ h)
  exact Finset.filter_subset_filter _ (keepAll_subset ls A)

/-- A newcomer is kept by a stable store exactly when no group it joins is full above it. -/
theorem mem_keep_insert (hS : (nested prio ls hn).Stable S) (hd : Distinct prio (insert x S)) :
    x ∈ keepAll prio ls (insert x S) ↔ ∀ l ∈ ls, (l.rivals prio S x).card < l.cap (l.group x) := by
  rw [mem_keepAll_iff hn hd (Finset.mem_insert_self x S)]
  have habove : above prio (keepAll prio ls (insert x S)) x = above prio S x := by
    have h : above prio (insert x S) x = above prio S x := by
      rw [above, Finset.filter_insert, if_neg (lt_irrefl _), above]
    rw [keepAll_above, h]
    exact hS.mono (hd.mono (Finset.subset_insert x S)) above_subset
  refine forall₂_congr fun l _ => ?_
  rw [← Layer.rivals_above, habove, Layer.rivals_above]

/-- **Fairness**: newcomers of one group cost the other groups no more entries than their own group
gains. -/
theorem card_crowded_out_le {l : Layer α} (hS : (nested prio ls hn).Stable S)
    (hd : Distinct prio (S ∪ B)) (hl : l ∈ ls) {c : l.Group} (hB : ∀ x ∈ B, l.group x = c) :
    (S.filter fun x => l.group x ≠ c ∧ x ∉ keepAll prio ls (S ∪ B)).card +
      (S.filter fun x => l.group x = c).card ≤ l.cap c := by
  set K := keepAll prio ls (S ∪ B) with hK
  have hself : keepAll prio ls S = S := hS
  have hmono : S.card ≤ K.card := by
    have h := card_keepAll_le_card hn hd (Finset.subset_union_left : S ⊆ S ∪ B)
    rwa [hself] at h
  have hcap : (K.filter fun x => l.group x = c).card ≤ l.cap c := card_keepAll_le hd hl c
  -- What is kept of the other groups was there before.
  have hrest : K.filter (fun x => ¬ l.group x = c) ⊆
      S.filter fun x => l.group x ≠ c ∧ x ∈ K := by
    intro x hx
    obtain ⟨hx, hc⟩ := Finset.mem_filter.mp hx
    have hxS := (Finset.mem_union.mp (keepAll_subset ls _ hx)).resolve_right fun h => hc (hB x h)
    exact Finset.mem_filter.mpr ⟨hxS, hc, hx⟩
  have hrest := Finset.card_le_card hrest
  have hsplitK := Finset.card_filter_add_card_filter_not (s := K) fun x => l.group x = c
  have hsplitS := Finset.card_filter_add_card_filter_not (s := S) fun x => l.group x = c
  have hlost : (S.filter fun x => l.group x ≠ c ∧ x ∈ K).card +
      (S.filter fun x => l.group x ≠ c ∧ x ∉ K).card = (S.filter fun x => ¬ l.group x = c).card := by
    rw [← Finset.filter_filter, ← Finset.filter_filter]
    exact Finset.card_filter_add_card_filter_not _
  omega

end

end Retention
