import Freebird.Retention.Layers

/-!
# Two tiers

A store with room for `n` entries gives its entries of low standing at most `m` slots, and evicts
them before any other. As layers: a cap on each tier under a cap on everything, with standing the
first component of the priority. Which entries are kept is a matter of counting within their tier
(`mem_keep_tiers`).
-/

universe u v

namespace Retention

variable {α : Type u} {κ : Type v} [LinearOrder κ]

/-- High standing before low standing, then by key. -/
def standing (low : α → Bool) (key : α → κ) (x : α) : Bool ×ₗ κ := toLex (!low x, key x)

/-- The cap on everything. -/
def totalLayer (n : ℕ) : Layer α where
  Group := Unit
  group _ := ()
  cap _ := n

/-- The share of the low tier; the high tier may take every slot. -/
def shareLayer (low : α → Bool) (m n : ℕ) : Layer α where
  Group := Bool
  group := low
  cap b := if b then m else n

variable {low : α → Bool} {key : α → κ} {m n : ℕ} {A : Finset α} {x y : α}

theorem standing_lt_iff : standing low key x < standing low key y ↔
    (low x = true ∧ low y = false) ∨ low x = low y ∧ key x < key y := by
  rw [standing, standing, Prod.Lex.lt_iff]
  cases low x <;> cases low y <;> simp

omit [LinearOrder κ] in
theorem Distinct.standing (h : Distinct key A) : Distinct (standing low key) A :=
  fun _ hx _ hy he => h hx hy (congrArg (fun k => (ofLex k).2) he)

theorem mem_rivals_share : y ∈ (shareLayer low m n).rivals (standing low key) A x ↔
    y ∈ A ∧ low y = low x ∧ key x < key y := by
  rw [Layer.mem_rivals]
  refine and_congr_right fun _ => and_congr_right fun hxy => ?_
  have hxy : low y = low x := hxy
  rw [standing_lt_iff, hxy]
  cases low x <;> simp

/-- An entry of low standing has the high tier and its rivals in its own tier above it, one of high
standing only the latter. -/
theorem card_rivals_total : ((totalLayer n).rivals (standing low key) A x).card =
    (if low x then (A.filter fun y => low y = false).card else 0) +
      ((shareLayer low m n).rivals (standing low key) A x).card := by
  classical
  have hmem {y} : y ∈ (totalLayer n).rivals (standing low key) A x ↔ y ∈ A ∧
      ((low x = true ∧ low y = false) ∨ y ∈ (shareLayer low m n).rivals (standing low key) A x) := by
    rw [mem_rivals_share, Layer.mem_rivals, standing_lt_iff]
    simp only [totalLayer, true_and, eq_comm (a := low y)]
    tauto
  by_cases hx : low x
  · have hdisj : Disjoint (A.filter fun y => low y = false)
        ((shareLayer low m n).rivals (standing low key) A x) := by
      refine Finset.disjoint_left.mpr fun y hy hy' => ?_
      have hlow := (mem_rivals_share.mp hy').2.1
      simp [(Finset.mem_filter.mp hy).2, hx] at hlow
    rw [if_pos hx, ← Finset.card_union_of_disjoint hdisj]
    congr 1; ext y
    rw [hmem, Finset.mem_union, Finset.mem_filter]
    simp only [hx, true_and]
    exact ⟨fun ⟨hy, h⟩ => h.imp_left (⟨hy, ·⟩),
      fun h => h.elim (fun h => ⟨h.1, .inl h.2⟩) fun h => ⟨(Layer.mem_rivals.mp h).1, .inr h⟩⟩
  · rw [if_neg hx, Nat.zero_add]
    congr 1; ext y
    rw [hmem]
    simp only [hx, Bool.false_eq_true, false_and, false_or]
    exact ⟨And.right, fun h => ⟨(Layer.mem_rivals.mp h).1, h⟩⟩

/-- **The two tiers**: an entry of low standing stays among the best of the share that the high tier
leaves, one of high standing among the best that fit. -/
theorem mem_keep_tiers (hA : Distinct (standing low key) A) :
    x ∈ (totalLayer n).keep (standing low key) ((shareLayer low m n).keep (standing low key) A) ↔
      x ∈ A ∧ ((shareLayer low m n).rivals (standing low key) A x).card <
        if low x then min m (n - (A.filter fun y => low y = false).card) else n := by
  set T := (shareLayer low m n).keep (standing low key) A with hT
  have hhigh : (T.filter fun y => low y = false).card =
      min n (A.filter fun y => low y = false).card :=
    (shareLayer low m n).card_keep_group hA false
  have hmemT : x ∈ T ↔ x ∈ A ∧
      ((shareLayer low m n).rivals (standing low key) A x).card < if low x then m else n :=
    Layer.mem_keep
  have count (hx : x ∈ T) : ((totalLayer n).rivals (standing low key) T x).card =
      (if low x then min n (A.filter fun y => low y = false).card else 0) +
        ((shareLayer low m n).rivals (standing low key) A x).card := by
    rw [card_rivals_total (m := m), hhigh, Layer.rivals_keep hx]
  rw [Layer.mem_keep]
  change _ ∧ _ < n ↔ _
  constructor
  · rintro ⟨hxT, hlt⟩
    obtain ⟨hx, hshare⟩ := hmemT.mp hxT
    rw [count hxT] at hlt
    refine ⟨hx, ?_⟩
    split at hlt <;> simp_all
    omega
  · rintro ⟨hx, hlt⟩
    have hxT : x ∈ T := hmemT.mpr ⟨hx, by split at hlt <;> simp_all⟩
    rw [count hxT]
    refine ⟨hxT, ?_⟩
    split at hlt <;> simp_all
    omega

end Retention
