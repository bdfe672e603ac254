import Freebird.Inbox.Canonical

/-!
# Horizons offer what would be kept

A summary says of each tier and of each full fingerprint from which order key on a pointer would be
retained. For a log in canonical form this is exact: a pointer with a new reply post is offered
exactly when the holder of the log would keep it (`retained_iff`).
-/

namespace Freebird

open Retention

namespace PointersV3

open AuthorizedReplyPointerV3

variable {ps qs : List AuthorizedReplyPointerV3} {p q : AuthorizedReplyPointerV3}

/-- The order keys of the pointers of one fingerprint. -/
def fpKeys (ps : List AuthorizedReplyPointerV3) (fp : String) : List PointerOrderKey :=
  (ps.filter fun p => p.ptr.fingerprint = fp).map orderKey

theorem groups_getD (ps : List AuthorizedReplyPointerV3) (fp : String) :
    (groups ⟨ps⟩).getD fp [] = fpKeys ps fp := by
  induction ps using List.reverseRecOn with
  | nil => simp [groups, fpKeys]
  | append_singleton ps p ih =>
    simp only [groups, fpKeys] at ih ⊢
    rw [List.foldl_concat, Std.ExtTreeMap.getD_insert]
    by_cases hp : p.ptr.fingerprint = fp
    · subst hp
      simp [ih]
    · simp [hp, ih]

theorem fpHorizons_getElem? (ps : List AuthorizedReplyPointerV3) (fp : String) :
    (fpHorizons ⟨ps⟩)[fp]? =
      if fpCap fp ≤ (fpKeys ps fp).length then (fpKeys ps fp).min? else none := by
  rw [fpHorizons, Std.ExtTreeMap.getElem?_filterMap', ← groups_getD,
    Std.ExtTreeMap.getD_eq_getD_getElem?]
  cases (groups ⟨ps⟩)[fp]? with
  | none => simp
  | some keys => rfl

theorem orderKey_not_mem (hp : ∀ q ∈ ps, q.ptr.replyPost ≠ p.ptr.replyPost)
    (f : AuthorizedReplyPointerV3 → Bool) : p.orderKey ∉ (ps.filter f).map orderKey := by
  intro hk
  obtain ⟨q, hq, he⟩ := List.mem_map.mp hk
  exact hp q (List.mem_of_mem_filter hq) (replyPost_of_orderKey he)

/-- The horizon of some of the pointers of a log. -/
theorem horizon_filter_iff (hp : ∀ q ∈ ps, q.ptr.replyPost ≠ p.ptr.replyPost)
    (f : AuthorizedReplyPointerV3 → Bool) {cap : Nat} (hcap : ps.countP f ≤ cap) :
    (horizon cap ((ps.filter f).map orderKey)).admits p.orderKey = true ↔
      ps.countP (fun q => f q ∧ p.orderKey < q.orderKey) < cap := by
  rw [horizon_admits_iff (orderKey_not_mem hp f)
    (by simpa [List.countP_eq_length_filter] using hcap), List.countP_map, List.countP_filter]
  refine iff_of_eq (congrArg (· < cap) (List.countP_congr fun q _ => ?_))
  simp [and_comm]

/-- The keys of a sorted log are in ascending order, so the first is the oldest. -/
theorem Sorted.min?_eq_head? (h : Sorted ps) (f : AuthorizedReplyPointerV3 → Bool) :
    ((ps.filter f).map orderKey).min? = ((ps.filter f).map orderKey).head? :=
  Retention.min?_eq_head?
    (List.pairwise_map.mpr (List.Pairwise.sublist List.filter_sublist h))

/-- The slots the attested pointers leave to anonymous ones. -/
def anonShare (ps : List AuthorizedReplyPointerV3) : Nat :=
  min anonPointerSlots (maxPointers - ps.countP fun q => !q.isAnon)

theorem tierHorizons_eq (h : Sorted ps) : tierHorizons ⟨ps⟩ =
    (horizon maxPointers ((ps.filter fun q => !q.isAnon).map orderKey),
      horizon (anonShare ps) ((ps.filter isAnon).map orderKey)) := by
  have hlen : ((ps.filter fun q => !q.isAnon).map orderKey).length =
      ps.countP fun q => !q.isAnon := by simp [List.countP_eq_length_filter]
  simp only [tierHorizons, horizon, h.min?_eq_head?, hlen]
  refine Prod.ext ?_ ?_
  · cases (ps.filter fun q => !q.isAnon).map orderKey <;> rfl
  · change (if anonShare ps = 0 then _ else _) = _
    cases (ps.filter isAnon).map orderKey <;> rfl

/-! ## The three horizons -/

theorem above_fpHorizon_iff (h : Settled ps) (hp : ∀ q ∈ ps, q.ptr.replyPost ≠ p.ptr.replyPost) :
    (∀ oldest, (fpHorizons ⟨ps⟩)[p.ptr.fingerprint]? = some oldest → oldest < p.orderKey) ↔
      (fpLayer.rivals prio ps.toFinset p).card < fpCap p.ptr.fingerprint := by
  have hcard : (fpLayer.rivals prio ps.toFinset p).card = ps.countP fun q =>
      decide (q.ptr.fingerprint = p.ptr.fingerprint) ∧ p.orderKey < q.orderKey := by
    rw [← card_filter_toFinset h.sorted.nodup]
    congr 1; ext q
    simp only [Layer.mem_rivals, Finset.mem_filter, fpLayer, decide_eq_true_eq]
    refine and_congr_right fun _ => and_congr_right fun hfp => ?_
    simp [prio_lt_iff, isAnon_of_fingerprint hfp]
  have hpos : fpCap p.ptr.fingerprint ≠ 0 := by
    unfold fpCap
    split <;> decide
  rw [hcard, ← horizon_filter_iff hp _ (h.fp_le _), fpHorizons_getElem?, ← fpKeys, horizon,
    if_neg hpos]
  cases (fpKeys ps p.ptr.fingerprint).min? with
  | none => simp [TierHorizon.admits]
  | some oldest => split <;> simp [TierHorizon.admits]

theorem countP_newer (b : Bool) (f : AuthorizedReplyPointerV3 → Bool) (hp : p.isAnon = b)
    (hf : ∀ q, f q = true ↔ q.isAnon = b) :
    ps.countP (fun q => f q ∧ p.orderKey < q.orderKey) = newerInTier ps p :=
  List.countP_congr fun q _ => by simp [hf, hp]

theorem attestedHorizon_admits_iff (h : Settled ps)
    (hp : ∀ q ∈ ps, q.ptr.replyPost ≠ p.ptr.replyPost) (hpa : p.isAnon = false) :
    (tierHorizons ⟨ps⟩).1.admits p.orderKey ↔ newerInTier ps p < maxPointers := by
  have hle : ps.countP (fun q => !q.isAnon) ≤ maxPointers := List.countP_le_length.trans h.length_le
  rw [tierHorizons_eq h.sorted, horizon_filter_iff hp _ hle, countP_newer false _ hpa (by simp)]

theorem anonHorizon_admits_iff (h : Settled ps)
    (hp : ∀ q ∈ ps, q.ptr.replyPost ≠ p.ptr.replyPost) (hpa : p.isAnon = true) :
    (tierHorizons ⟨ps⟩).2.admits p.orderKey ↔ newerInTier ps p < anonShare ps := by
  have hle : ps.countP isAnon ≤ anonShare ps := by
    have := List.length_eq_countP_add_countP isAnon (l := ps)
    have := h.length_le
    have := h.anon_le
    simp only [anonShare, Bool.not_eq_true, Bool.decide_eq_false] at *
    omega
  rw [tierHorizons_eq h.sorted, horizon_filter_iff hp _ hle,
    countP_newer true _ hpa fun _ => Iff.rfl]

theorem union_singleton (ps : List AuthorizedReplyPointerV3) :
    ps.toFinset ∪ [p].toFinset = insert p ps.toFinset := by
  rw [Finset.union_comm]
  rfl

/-- **A summary's horizons are exact**: a pointer with a new reply post passes them exactly when the
holder would keep it. -/
theorem retained_iff (h : Settled ps) (hp : ∀ q ∈ ps, q.ptr.replyPost ≠ p.ptr.replyPost) :
    retained (summarize ⟨ps⟩) p = true ↔ p ∈ capped (insert p ps.toFinset) := by
  have hd : Distinct prio (insert p ps.toFinset) := by
    have hagree : Agree (ps ++ [p]) := h.agree_append (List.pairwise_singleton _ _)
      fun q hq => List.mem_singleton.mp hq ▸ hp
    rw [← union_singleton, ← List.toFinset_append]
    exact hagree.distinct
  have htier : (if p.isAnon then (tierHorizons ⟨ps⟩).2 else (tierHorizons ⟨ps⟩).1).admits
      p.orderKey = true ↔ (tierLayer.rivals prio ps.toFinset p).card < tierLayer.cap p.isAnon ∧
        (globalLayer.rivals prio ps.toFinset p).card < maxPointers := by
    have hglobal : (globalLayer.rivals prio ps.toFinset p).card =
        (if p.isAnon then ps.countP fun q => !q.isAnon else 0) + newerInTier ps p := by
      rw [← card_attested h.sorted, ← card_tier_rivals h.sorted]
      exact card_rivals_total
    have hcap : tierLayer.cap p.isAnon =
        if p.isAnon then anonPointerSlots else maxPointers := rfl
    rw [hglobal, card_tier_rivals h.sorted, hcap]
    by_cases hpa : p.isAnon
    · rw [if_pos hpa, anonHorizon_admits_iff h hp hpa, if_pos hpa, if_pos hpa, anonShare]
      omega
    · rw [Bool.not_eq_true] at hpa
      simp [hpa, attestedHorizon_admits_iff h hp hpa]
  rw [mem_keep_insert nested_caps h.stable hd]
  simp only [caps, List.mem_cons, List.not_mem_nil, or_false, forall_eq_or_imp, forall_eq]
  rw [retained, Bool.and_eq_true]
  have hfp := above_fpHorizon_iff h hp
  constructor
  · rintro ⟨h1, h2⟩
    refine ⟨(htier.mp h1).2, (htier.mp h1).1, hfp.mp fun oldest ho => ?_⟩
    simpa [summarize, ho] using h2
  · rintro ⟨h1, h2, h3⟩
    refine ⟨htier.mpr ⟨h2, h1⟩, ?_⟩
    have := hfp.mpr h3
    simp only [summarize]
    split <;> simp_all

end PointersV3

end Freebird
