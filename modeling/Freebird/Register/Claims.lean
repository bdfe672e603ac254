import Mathlib

/-!
# First claim wins

A map that is written one entry at a time never changes what was written exactly if the entries for
one key agree, with each other and with what was there before (`isChain_claims_iff`).
-/

universe u v

namespace Register

variable {κ : Type u} {υ : Type v} {cmp : κ → κ → Ordering} [Std.TransCmp cmp]

/-- Every entry of the first map is one of the second. -/
def Keeps (m m' : Std.ExtTreeMap κ υ cmp) : Prop :=
  ∀ (k : κ) (v : υ), m[k]? = some v → m'[k]? = some v

/-- An entry is written. -/
def claim (m : Std.ExtTreeMap κ υ cmp) (c : κ × υ) : Std.ExtTreeMap κ υ cmp := m.insert c.1 c.2

variable {m m' m'' : Std.ExtTreeMap κ υ cmp} {c d : κ × υ} {cs ds : List (κ × υ)}

theorem Keeps.refl (m : Std.ExtTreeMap κ υ cmp) : Keeps m m := fun _ _ h => h

theorem Keeps.trans (h : Keeps m m') (h' : Keeps m' m'') : Keeps m m'' :=
  fun k v hv => h' k v (h k v hv)

theorem isChain_keeps {ms : List (Std.ExtTreeMap κ υ cmp)} : ms.IsChain Keeps ↔ ms.Pairwise Keeps :=
  have : IsTrans (Std.ExtTreeMap κ υ cmp) Keeps := ⟨fun _ _ _ => Keeps.trans⟩
  List.isChain_iff_pairwise

/-- The maps along a list of claims go on where a first part of it ends. -/
theorem isChain_claims_append : ((cs ++ ds).scanl claim m).IsChain Keeps ↔
    (cs.scanl claim m).IsChain Keeps ∧ (ds.scanl claim (cs.foldl claim m)).IsChain Keeps := by
  induction cs generalizing m with
  | nil =>
    rw [List.nil_append, List.scanl_nil, List.foldl_nil, and_iff_right (List.isChain_singleton m)]
  | cons c cs ih =>
    rw [List.cons_append, List.scanl_cons, List.scanl_cons, List.foldl_cons, List.isChain_cons,
      List.isChain_cons, List.head?_scanl, List.head?_scanl, ih, and_assoc]

variable [Std.LawfulEqCmp cmp] [DecidableEq κ]

theorem getElem?_claim (k : κ) : (claim m c)[k]? = if c.1 = k then some c.2 else m[k]? := by
  rw [claim, Std.ExtTreeMap.getElem?_insert]
  simp only [Std.LawfulEqCmp.compare_eq_iff_eq]

theorem keeps_claim_iff : Keeps m (claim m c) ↔ ∀ v, m[c.1]? = some v → v = c.2 := by
  constructor
  · intro h v hv
    have hc := h c.1 v hv
    rw [getElem?_claim, if_pos rfl] at hc
    exact (Option.some.inj hc).symm
  · intro h k v hv
    rw [getElem?_claim]
    split
    · rename_i hk
      subst hk
      rw [h v hv]
    · exact hv

/-- Claims agree with the map after the first one if they agree with the map and with that one. -/
theorem agree_claim_iff (hc : ∀ v, m[c.1]? = some v → v = c.2) :
    (∀ v, (claim m c)[d.1]? = some v → v = d.2) ↔
      (∀ v, m[d.1]? = some v → v = d.2) ∧ (c.1 = d.1 → c.2 = d.2) := by
  rw [getElem?_claim]
  by_cases hd : c.1 = d.1
  · rw [if_pos hd]
    simp only [Option.some.injEq, forall_eq', hd, forall_const]
    refine ⟨fun he => ⟨fun v hv => ?_, he⟩, And.right⟩
    rw [hc v (hd ▸ hv), he]
  · rw [if_neg hd]
    simp only [hd, false_implies, and_true]

/-- **No entry is ever changed** exactly if the claims for one key agree. -/
theorem isChain_claims_iff : (cs.scanl claim m).IsChain Keeps ↔
    (∀ c ∈ cs, ∀ v, m[c.1]? = some v → v = c.2) ∧ cs.Pairwise fun c d => c.1 = d.1 → c.2 = d.2 := by
  induction cs generalizing m with
  | nil => simp
  | cons c cs ih =>
    rw [List.scanl_cons, List.isChain_cons, List.head?_scanl, ih, List.forall_mem_cons,
      List.pairwise_cons]
    simp only [Option.mem_def, Option.some.injEq, forall_eq', keeps_claim_iff]
    rw [and_assoc]
    refine and_congr_right fun hc => ?_
    rw [← and_assoc, ← forall₂_and]
    refine and_congr_left fun _ => forall₂_congr fun d _ => ?_
    exact agree_claim_iff hc

/-- On keys that are free, the claims need only agree with each other. -/
theorem isChain_claims_iff_of_free (hfree : ∀ c ∈ cs, m[c.1]? = none) :
    (cs.scanl claim m).IsChain Keeps ↔ cs.Pairwise fun c d => c.1 = d.1 → c.2 = d.2 := by
  rw [isChain_claims_iff]
  refine and_iff_right fun c hc v hv => ?_
  rw [hfree c hc] at hv
  cases hv

/-- Claims for other keys do not touch the entry of a key. -/
theorem getElem?_claims_of_ne {k : κ} (hk : ∀ c ∈ cs, c.1 ≠ k) :
    (cs.foldl claim m)[k]? = m[k]? := by
  induction cs generalizing m with
  | nil => rfl
  | cons c cs ih =>
    obtain ⟨hc, hcs⟩ := List.forall_mem_cons.mp hk
    rw [List.foldl_cons, ih hcs, getElem?_claim, if_neg hc]

theorem keeps_claims (hfree : ∀ c ∈ cs, m[c.1]? = none) : Keeps m (cs.foldl claim m) := by
  intro k v hv
  rw [getElem?_claims_of_ne, hv]
  rintro c hc rfl
  rw [hfree c hc] at hv
  cases hv

end Register
