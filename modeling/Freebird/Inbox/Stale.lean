import Freebird.Inbox.Canonical

/-!
# Pointers that leave no trace

The pointers of an anonymous fingerprint are dropped once their key is attested. Until then they take
part in `canonicalize`, where they compete for reply posts and for slots. What is left without them
is the same as if they had not been there exactly if they cost nobody a place and make none free
(`toFinset_filter_canonicalize_iff`); pointers that come after the others are left out exactly if they
lose against what they do not precede (`toFinset_canonicalize_append_iff`).
-/

namespace Freebird

open Retention

namespace PointersV3

open AuthorizedReplyPointerV3

variable {fp : String} {ps ks qs : List AuthorizedReplyPointerV3}
  {X : Finset AuthorizedReplyPointerV3}

/-! ## Pointers that join others -/

section
variable (A : Finset AuthorizedReplyPointerV3) (ks : List AuthorizedReplyPointerV3)

/-- The pointers of `A` that none of `ks` precedes for their reply post. -/
def spared : Finset AuthorizedReplyPointerV3 :=
  A.filter fun p => ∀ k ∈ ks, k.ptr.replyPost = p.ptr.replyPost → p.orderKey ≤ k.orderKey

/-- The pointers of `ks` that come first for their reply post. -/
def leading : Finset AuthorizedReplyPointerV3 :=
  (dedup ks).toFinset.filter fun k =>
    ∀ p ∈ A, p.ptr.replyPost = k.ptr.replyPost → k.orderKey < p.orderKey

/-- The pointers that come first for their reply post when `ks` joins `A`. -/
def firsts : Finset AuthorizedReplyPointerV3 := spared A ks ∪ leading A ks

end

theorem toFinset_dedup_append (hps : UniquePosts ps) :
    (dedup (ps ++ ks)).toFinset = firsts ps.toFinset ks := by
  ext p
  simp only [firsts, spared, leading, Finset.mem_union, Finset.mem_filter, List.mem_toFinset]
  by_cases hp : p ∈ ps
  · have hno : ¬(p ∈ dedup ks ∧ ∀ q ∈ ps, q.ptr.replyPost = p.ptr.replyPost →
        p.orderKey < q.orderKey) := fun h => lt_irrefl _ (h.2 p hp rfl)
    rw [mem_dedup_append hps hp, or_iff_left hno, and_iff_right hp]
  · rw [mem_dedup_append_right hp, or_iff_right fun h => hp h.1]

theorem toFinset_canonicalize_append (hps : UniquePosts ps) :
    (canonicalize ⟨ps ++ ks⟩).pointers.toFinset = capped (firsts ps.toFinset ks) := by
  rw [toFinset_canonicalize, toFinset_dedup_append hps]

theorem mem_canonicalize_append (hps : UniquePosts ps) {p : AuthorizedReplyPointerV3} :
    p ∈ (canonicalize ⟨ps ++ ks⟩).pointers ↔ p ∈ capped (firsts ps.toFinset ks) := by
  rw [← toFinset_canonicalize_append hps, List.mem_toFinset]

theorem mem_of_mem_firsts {A : Finset AuthorizedReplyPointerV3} {p : AuthorizedReplyPointerV3}
    (hp : p ∈ firsts A ks) : p ∈ A ∨ p ∈ ks := by
  refine (Finset.mem_union.mp hp).imp (fun hp => (Finset.mem_filter.mp hp).1) fun hp => ?_
  exact dedup_subset (List.mem_toFinset.mp (Finset.mem_filter.mp hp).1)

theorem distinct_firsts (hps : UniquePosts ps) : Distinct prio (firsts ps.toFinset ks) := by
  rw [← toFinset_dedup_append hps]
  exact distinct_prio (dedup_sorted _).distinct

/-! ## Pointers that are about to leave -/

section
variable (fp : String) (A : Finset AuthorizedReplyPointerV3) (qs : List AuthorizedReplyPointerV3)
  (X : Finset AuthorizedReplyPointerV3)

/-- The pointers of a fingerprint that come first for their reply post. -/
def stale : Finset AuthorizedReplyPointerV3 := (firsts A qs).filter fun p => p.ptr.fingerprint = fp

/-- When `qs` joins `A`, the pointers `X` of other fingerprints get their places next to the stale
ones, and no more of the others do. -/
structure Traceless : Prop where
  first : X ⊆ firsts A qs
  room : X ⊆ capped (X ∪ stale fp A qs)
  only : ∀ y ∈ firsts A qs, y.ptr.fingerprint ≠ fp → y ∉ X → y ∉ capped (insert y (X ∪ stale fp A qs))

end

/-- **What is left without the stale pointers**, exactly. -/
theorem toFinset_filter_canonicalize_iff (hps : UniquePosts ps)
    (hX : ∀ x ∈ X, x.ptr.fingerprint ≠ fp) :
    ((canonicalize ⟨ps ++ qs⟩).pointers.filter fun p => p.ptr.fingerprint ≠ fp).toFinset = X ↔
      Traceless fp ps.toFinset qs X := by
  have hstale : (firsts ps.toFinset qs).filter (fun x => ¬x.ptr.fingerprint ≠ fp) =
      stale fp ps.toFinset qs := Finset.filter_congr fun x _ => not_not
  have hd : Distinct prio (firsts ps.toFinset qs) := distinct_firsts hps
  rw [List.toFinset_filter, toFinset_canonicalize_append hps]
  have h := filter_keep_eq_iff (R := retention) (p := fun x => x.ptr.fingerprint ≠ fp) hd hX
  rw [hstale] at h
  simp only [decide_eq_true_eq]
  exact h.trans ⟨fun h => ⟨h.1, h.2.1, h.2.2⟩, fun h => ⟨h.first, h.room, h.only⟩⟩

/-! ## Pointers that come late -/

/-- None of `ks` is kept next to what it does not precede. -/
def Ignored (A : Finset AuthorizedReplyPointerV3) (ks : List AuthorizedReplyPointerV3) : Prop :=
  ∀ k ∈ leading A ks, k ∉ capped (insert k (spared A ks))

/-- **What is left after pointers that come late**, exactly, if it is to be none of them. -/
theorem toFinset_canonicalize_append_iff (hps : Settled ps) (hX : ∀ k ∈ ks, k ∉ X) :
    (canonicalize ⟨ps ++ ks⟩).pointers.toFinset = X ↔
      Ignored ps.toFinset ks ∧ spared ps.toFinset ks = X := by
  have hd : Distinct prio (spared ps.toFinset ks ∪ leading ps.toFinset ks) :=
    distinct_firsts hps.unique
  have hstable : retention.Stable (spared ps.toFinset ks) :=
    hps.stable.mono hps.distinct (Finset.filter_subset _ _)
  have hlead : ∀ k ∈ leading ps.toFinset ks, k ∈ ks := fun k hk =>
    dedup_subset (List.mem_toFinset.mp (Finset.mem_filter.mp hk).1)
  rw [toFinset_canonicalize_append hps.unique, firsts]
  constructor
  · rintro rfl
    have hsub : capped (spared ps.toFinset ks ∪ leading ps.toFinset ks) ⊆ spared ps.toFinset ks :=
      fun x hx => (Finset.mem_union.mp (keepAll_subset _ _ hx)).resolve_right fun hl =>
        hX x (hlead x hl) hx
    refine ⟨fun k hk hkeep => hX k (hlead k hk) ?_, ?_⟩
    · have hout : capped (insert k (spared ps.toFinset ks)) =
          capped (spared ps.toFinset ks ∪ leading ps.toFinset ks) :=
        retention.outcast hd (hsub.trans (Finset.subset_insert _ _))
          (Finset.insert_subset (Finset.mem_union_right _ hk) Finset.subset_union_left)
      exact hout ▸ hkeep
    · exact hstable.symm.trans (retention.outcast hd hsub Finset.subset_union_left)
  · rintro ⟨hign, rfl⟩
    exact keep_union_of_losing hstable hd fun k hk _ => hign k hk

end PointersV3

end Freebird
