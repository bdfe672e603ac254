import Mathlib

/-!
# Retention policies

A bounded store keeps some of the entries it is given and forgets the rest. Whether replicas that
are given the same entries in different orders and batches end with the same store depends only on
two properties of the choice: an entry kept out of many is kept out of fewer (`heritage`), and
forgetting entries that lose anyway changes nothing (`outcast`). Together they give path
independence (`Retention.keep_union`), and with it the run lemma `Retention.foldl_keep`.

The laws are asked only of *coherent* sets, the sets on which the priorities of the policy tell the
entries apart.
-/

universe u

/-- A choice of the entries worth keeping, lawful on a hereditary family of coherent sets. -/
structure Retention (α : Type u) [DecidableEq α] where
  keep : Finset α → Finset α
  Coherent : Finset α → Prop
  keep_subset : ∀ A, keep A ⊆ A
  coherent_mono : ∀ {A B}, A ⊆ B → Coherent B → Coherent A
  heritage : ∀ {A B x}, Coherent B → A ⊆ B → x ∈ A → x ∈ keep B → x ∈ keep A
  outcast : ∀ {A B}, Coherent B → keep B ⊆ A → A ⊆ B → keep A = keep B

namespace Retention

variable {α : Type u} [DecidableEq α] (R : Retention α) {A B S : Finset α} {x : α}

/-- A store the policy leaves alone. -/
def Stable (S : Finset α) : Prop := R.keep S = S

theorem keep_stable (hB : R.Coherent B) : R.Stable (R.keep B) :=
  R.outcast hB Finset.Subset.rfl (R.keep_subset B)

variable {R}

theorem Stable.mono (hS : R.Stable S) (hc : R.Coherent S) (hA : A ⊆ S) : R.Stable A :=
  (R.keep_subset A).antisymm fun _ hx =>
    R.heritage hc hA hx (by rw [hS]; exact hA hx)

/-- Path independence: what was forgotten earlier does not matter later. -/
theorem keep_union (hc : R.Coherent (A ∪ B)) : R.keep (R.keep A ∪ B) = R.keep (A ∪ B) := by
  refine R.outcast hc (fun x hx => ?_) (Finset.union_subset_union_left (R.keep_subset A))
  rcases Finset.mem_union.mp (R.keep_subset _ hx) with hA | hB
  · exact Finset.mem_union_left _ (R.heritage hc Finset.subset_union_left hA hx)
  · exact Finset.mem_union_right _ hB

/-- Where the entries outside `S` would each lose against it, the choice is one from `S`. -/
theorem keep_of_losing (hc : R.Coherent A) (hS : S ⊆ A)
    (h : ∀ x ∈ A, x ∉ S → x ∉ R.keep (insert x S)) : R.keep A = R.keep S := by
  refine (R.outcast hc (fun x hx => ?_) hS).symm
  by_contra hxS
  have hxA := R.keep_subset A hx
  exact h x hxA hxS (R.heritage hc (Finset.insert_subset hxA hS) (Finset.mem_insert_self x S) hx)

/-- Entries that would each lose against a stable store lose against it together. -/
theorem keep_union_of_losing (hS : R.Stable S) (hc : R.Coherent (S ∪ B))
    (hB : ∀ x ∈ B, x ∉ S → x ∉ R.keep (insert x S)) : R.keep (S ∪ B) = S := by
  refine (keep_of_losing hc Finset.subset_union_left fun x hx hxS => ?_).trans hS
  exact hB x ((Finset.mem_union.mp hx).resolve_left hxS) hxS

/-- Two stable stores that would each keep nothing of the other are equal. -/
theorem Stable.eq_of_losing {T : Finset α} (hS : R.Stable S) (hT : R.Stable T)
    (hc : R.Coherent (S ∪ T)) (hlS : ∀ x ∈ S, x ∉ T → x ∉ R.keep (insert x T))
    (hlT : ∀ x ∈ T, x ∉ S → x ∉ R.keep (insert x S)) : S = T := by
  rw [← keep_union_of_losing hS hc hlT, Finset.union_comm]
  exact keep_union_of_losing hT (Finset.union_comm S T ▸ hc) hlS

/-- Where the entries that are to leave crowd out nothing, they may leave after the choice. -/
theorem filter_keep {L X : Finset α} {p : α → Prop} [DecidablePred p] (hB : R.Coherent B)
    (hXB : X ⊆ B) (hLB : L ⊆ B) (hL : ∀ x ∈ L, p x) (hX : ∀ x ∈ X, p x → x ∈ L)
    (hsub : R.keep L ⊆ X) (hroom : R.keep L ⊆ R.keep B) : (R.keep X).filter p = R.keep L := by
  have hout : R.keep (X ∩ L) = R.keep L := by
    refine R.outcast (R.coherent_mono hLB hB) ?_ Finset.inter_subset_right
    exact Finset.subset_inter hsub (R.keep_subset L)
  refine Finset.Subset.antisymm (fun x hx => ?_) fun x hx => ?_
  · obtain ⟨hx, hp⟩ := Finset.mem_filter.mp hx
    have hxX := R.keep_subset X hx
    rw [← hout]
    exact R.heritage (R.coherent_mono hXB hB) Finset.inter_subset_left
      (Finset.mem_inter.mpr ⟨hxX, hX x hxX hp⟩) hx
  · have hxX := R.heritage hB hXB (hsub hx) (hroom hx)
    exact Finset.mem_filter.mpr ⟨hxX, hL x (R.keep_subset L hx)⟩

/-- What loses in the choice loses against what was chosen. -/
theorem mem_of_mem_keep_insert (hc : R.Coherent A) (hx : x ∈ A)
    (h : x ∈ R.keep (insert x (R.keep A))) : x ∈ R.keep A := by
  rwa [R.outcast hc (Finset.subset_insert _ _)
    (Finset.insert_subset hx (R.keep_subset A))] at h

/-- A store takes from `F` what it would keep of it, as far as it is live and passes a bar, and then
drops what is not live. It ends with the choice from all that is live exactly if the bar holds back
nothing of that choice and what is to leave crowds out none of it. -/
theorem filter_keep_iff {F taken : Finset α} {live bar : α → Prop} [DecidablePred live]
    (hc : R.Coherent (S ∪ F)) (htaken : ∀ x, x ∈ taken ↔
      x ∈ F ∧ live x ∧ bar x ∧ x ∈ R.keep (insert x S)) :
    (R.keep (S ∪ taken)).filter live = R.keep ((S ∪ F).filter live) ↔
      (∀ x ∈ R.keep ((S ∪ F).filter live), x ∉ S → bar x) ∧
        R.keep ((S ∪ F).filter live) ⊆ R.keep ((S ∪ F).filter live ∪ S) := by
  set L := (S ∪ F).filter live with hL
  have hLS : L ∪ S ⊆ S ∪ F :=
    Finset.union_subset (Finset.filter_subset _ _) Finset.subset_union_left
  have hcL : R.Coherent (L ∪ S) := R.coherent_mono hLS hc
  have htakenL : taken ⊆ L := fun x hx => by
    obtain ⟨hF, hlive, -⟩ := (htaken x).mp hx
    exact Finset.mem_filter.mpr ⟨Finset.mem_union_right _ hF, hlive⟩
  have hsub : S ∪ taken ⊆ L ∪ S :=
    Finset.union_subset Finset.subset_union_right (htakenL.trans Finset.subset_union_left)
  constructor
  · intro h
    have hkept : R.keep L ⊆ S ∪ taken := fun x hx =>
      R.keep_subset _ (Finset.mem_filter.mp (h ▸ hx)).1
    refine ⟨fun x hx hxS => ?_, fun x hx => ?_⟩
    · exact ((htaken x).mp ((Finset.mem_union.mp (hkept hx)).resolve_left hxS)).2.2.1
    · have hout : R.keep (S ∪ taken) = R.keep (L ∪ S) := by
        refine R.outcast hcL (fun y hy => ?_) hsub
        rcases Finset.mem_union.mp (R.keep_subset _ hy) with hyL | hyS
        · exact hkept (R.heritage hcL Finset.subset_union_left hyL hy)
        · exact Finset.mem_union_left _ hyS
      rw [← hout]
      exact (Finset.mem_filter.mp (h ▸ hx)).1
  · rintro ⟨hbar, hroom⟩
    refine filter_keep hcL hsub Finset.subset_union_left (fun x hx => (Finset.mem_filter.mp hx).2)
      (fun x hx hlive => ?_) (fun x hx => ?_) hroom
    · rcases Finset.mem_union.mp hx with hx | hx
      · exact Finset.mem_filter.mpr ⟨Finset.mem_union_left _ hx, hlive⟩
      · exact htakenL hx
    · by_cases hxS : x ∈ S
      · exact Finset.mem_union_left _ hxS
      · have hxL := R.keep_subset _ hx
        obtain ⟨hSF, hlive⟩ := Finset.mem_filter.mp hxL
        refine Finset.mem_union_right _ ((htaken x).mpr
          ⟨(Finset.mem_union.mp hSF).resolve_left hxS, hlive, hbar x hx hxS, ?_⟩)
        refine R.heritage hcL ?_ (Finset.mem_insert_self _ _) (hroom hx)
        exact Finset.insert_subset (Finset.mem_union_left _ hxL) Finset.subset_union_right

/-- A store of some of the entries that is stable and is not their choice lacks one that it would
keep. -/
theorem exists_lost {T : Finset α} (hc : R.Coherent A) (hT : R.Stable T) (hTA : T ⊆ A)
    (h : T ≠ R.keep A) : ∃ x ∈ R.keep A, x ∉ T ∧ x ∈ R.keep (insert x T) := by
  by_contra! hno
  refine h (Eq.trans (Eq.symm hT) (R.outcast hc (fun x hx => ?_) hTA))
  by_contra hxT
  refine hno x hx hxT (R.heritage hc ?_ (Finset.mem_insert_self x T) hx)
  exact Finset.insert_subset (R.keep_subset A hx) hTA

/-- The part of a choice that has a property is `S` exactly if `S` is kept next to the entries without
the property, and no other entry with it is. -/
theorem filter_keep_eq_iff {p : α → Prop} [DecidablePred p] (hc : R.Coherent A)
    (hp : ∀ x ∈ S, p x) : (R.keep A).filter p = S ↔
      S ⊆ A ∧ S ⊆ R.keep (S ∪ A.filter fun x => ¬p x) ∧
        ∀ y ∈ A, p y → y ∉ S → y ∉ R.keep (insert y (S ∪ A.filter fun x => ¬p x)) := by
  set Z := A.filter fun x => ¬p x with hZ
  have hZA : Z ⊆ A := Finset.filter_subset _ _
  constructor
  · rintro rfl
    have hsub : (R.keep A).filter p ⊆ A := (Finset.filter_subset _ _).trans (R.keep_subset A)
    have hkept : R.keep A ⊆ (R.keep A).filter p ∪ Z := fun x hx => by
      by_cases hpx : p x
      · exact Finset.mem_union_left _ (Finset.mem_filter.mpr ⟨hx, hpx⟩)
      · exact Finset.mem_union_right _ (Finset.mem_filter.mpr ⟨R.keep_subset A hx, hpx⟩)
    refine ⟨hsub, fun x hx => ?_, fun y hy hpy hnot hkeep => hnot ?_⟩
    · rw [R.outcast hc hkept (Finset.union_subset hsub hZA)]
      exact (Finset.mem_filter.mp hx).1
    · rw [R.outcast hc (hkept.trans (Finset.subset_insert _ _))
        (Finset.insert_subset hy (Finset.union_subset hsub hZA))] at hkeep
      exact Finset.mem_filter.mpr ⟨hkeep, hpy⟩
  · rintro ⟨hSA, hroom, honly⟩
    have hkeep : R.keep A = R.keep (S ∪ Z) := by
      refine keep_of_losing hc (Finset.union_subset hSA hZA) fun y hy hnot => ?_
      rw [Finset.mem_union, not_or] at hnot
      refine honly y hy ?_ hnot.1
      by_contra hpy
      exact hnot.2 (Finset.mem_filter.mpr ⟨hy, hpy⟩)
    rw [hkeep]
    refine Finset.Subset.antisymm (fun x hx => ?_) fun x hx =>
      Finset.mem_filter.mpr ⟨hroom hx, hp x hx⟩
    obtain ⟨hx, hpx⟩ := Finset.mem_filter.mp hx
    refine (Finset.mem_union.mp (R.keep_subset _ hx)).resolve_right fun hxZ => ?_
    exact (Finset.mem_filter.mp hxZ).2 hpx

/-- The store after a run of batches, each merged and cut down in turn. -/
def run (R : Retention α) (S : Finset α) (batches : List (Finset α)) : Finset α :=
  batches.foldl (fun S B => R.keep (S ∪ B)) S

/-- A run from a stable store ends in the choice from everything that was ever offered: neither
the order of the batches nor the grouping into batches leaves a trace. -/
theorem run_eq_keep (hS : R.Stable S) {U : Finset α} (hU : R.Coherent U) (hSU : S ⊆ U) :
    ∀ {batches : List (Finset α)}, (∀ B ∈ batches, B ⊆ U) →
      R.run S batches = R.keep (batches.foldl (· ∪ ·) S) := by
  intro batches hb
  suffices ∀ T ⊆ U, R.run (R.keep T) batches = R.keep (batches.foldl (· ∪ ·) T) by
    have h := this S hSU
    rwa [show R.keep S = S from hS] at h
  induction batches with
  | nil => exact fun _ _ => rfl
  | cons B batches ih =>
    intro T hT
    have hTB : T ∪ B ⊆ U := Finset.union_subset hT (hb B List.mem_cons_self)
    rw [run, List.foldl_cons, keep_union (R.coherent_mono hTB hU)]
    exact ih (fun C hC => hb C (List.mem_cons_of_mem _ hC)) (T ∪ B) hTB

theorem mem_foldl_union {batches : List (Finset α)} :
    x ∈ batches.foldl (· ∪ ·) S ↔ x ∈ S ∨ ∃ B ∈ batches, x ∈ B := by
  induction batches generalizing S with
  | nil => simp
  | cons B batches ih => simp [ih, or_assoc]

/-- Two runs from one stable store that are offered the same entries end in the same store. -/
theorem run_congr (hS : R.Stable S) {U : Finset α} (hU : R.Coherent U) (hSU : S ⊆ U)
    {bs cs : List (Finset α)} (hb : ∀ B ∈ bs, B ⊆ U) (hcs : ∀ C ∈ cs, C ⊆ U)
    (h : ∀ x, (∃ B ∈ bs, x ∈ B) ↔ ∃ C ∈ cs, x ∈ C) : R.run S bs = R.run S cs := by
  rw [run_eq_keep hS hU hSU hb, run_eq_keep hS hU hSU hcs]
  congr 1
  ext x
  rw [mem_foldl_union, mem_foldl_union, h]

end Retention
