import Freebird.Inbox.Exchange

/-!
# Eviction over time

A log is extended by a chunk of pointers and cut down again. However the pointers are ordered and
cut into chunks, the log ends the same (`foldl_extend_eq`); a summary of it asks for one more
pointer exactly if the log would keep it (`delta_singleton_iff`); and the pointers of one
fingerprint, however many they are, evict no more of the others than they are allowed to add
(`flood_bound`).
-/

namespace Freebird

open Retention

namespace PointersV3

open AuthorizedReplyPointerV3

variable {s : PointersV3} {ps qs L B chunk : List AuthorizedReplyPointerV3}
  {chunks : List (List AuthorizedReplyPointerV3)} {p q : AuthorizedReplyPointerV3} {F : String}

/-- The log is extended by a chunk and cut down. -/
def extend (s : PointersV3) (chunk : List AuthorizedReplyPointerV3) : PointersV3 :=
  canonicalize ⟨s.pointers ++ chunk⟩

theorem eq_of_pointers {t : PointersV3} (h : s.pointers = t.pointers) : s = t := by
  cases s
  cases t
  exact congrArg PointersV3.mk h

theorem settled_extend (s : PointersV3) (chunk : List AuthorizedReplyPointerV3) :
    Settled (s.extend chunk).pointers := settled_canonicalize _

theorem toFinset_extend (h : Agree (s.pointers ++ chunk)) :
    (s.extend chunk).pointers.toFinset = capped (s.pointers.toFinset ∪ chunk.toFinset) := by
  rw [extend, h.toFinset_canonicalize, List.toFinset_append]

theorem mem_extend (h : Agree (s.pointers ++ chunk)) : p ∈ (s.extend chunk).pointers ↔
    p ∈ capped (s.pointers.toFinset ∪ chunk.toFinset) := by
  rw [← toFinset_extend h, List.mem_toFinset]

/-! ## Independence of history -/

/-- Chunks that agree on their reply posts are a run of the retention policy. -/
theorem toFinset_foldl_extend (h : Agree (s.pointers ++ chunks.flatten)) :
    (chunks.foldl extend s).pointers.toFinset =
      retention.run s.pointers.toFinset (chunks.map List.toFinset) := by
  induction chunks generalizing s with
  | nil => rfl
  | cons chunk chunks ih =>
    rw [List.flatten_cons, ← List.append_assoc] at h
    have hfirst : Agree (s.pointers ++ chunk) := h.subset (List.subset_append_left _ _)
    have hrest : Agree ((s.extend chunk).pointers ++ chunks.flatten) := by
      refine h.subset fun p hp => ?_
      rcases List.mem_append.mp hp with hp | hp
      · exact List.mem_append_left _ (mem_of_mem_canonicalize hp)
      · exact List.mem_append_right _ hp
    rw [List.foldl_cons, ih hrest, toFinset_extend hfirst, List.map_cons, Retention.run,
      Retention.run, List.foldl_cons]
    rfl

theorem settled_foldl_extend (hs : Settled s.pointers) :
    Settled (chunks.foldl extend s).pointers := by
  induction chunks generalizing s with
  | nil => exact hs
  | cons chunk chunks ih =>
    rw [List.foldl_cons]
    exact ih (settled_extend s chunk)

/-- **Eviction is independent of history**: whatever the order, the repetitions and the chunks, the
log ends as if all the pointers had come at once. -/
theorem foldl_extend_eq (hL : Agree L) (h : ∀ p, p ∈ chunks.flatten ↔ p ∈ L) :
    chunks.foldl extend ⟨[]⟩ = canonicalize ⟨L⟩ := by
  have hflat : Agree chunks.flatten := hL.subset fun p hp => (h p).mp hp
  have hset : (chunks.foldl extend ⟨[]⟩).pointers.toFinset =
      (canonicalize ⟨L⟩).pointers.toFinset := by
    have hchunks : ∀ A ∈ chunks.map List.toFinset, A ⊆ L.toFinset := by
      intro A hA p hp
      obtain ⟨chunk, hchunk, rfl⟩ := List.mem_map.mp hA
      rw [List.mem_toFinset] at hp ⊢
      exact (h p).mp (List.mem_flatten_of_mem hchunk hp)
    have hall : (chunks.map List.toFinset).foldl (· ∪ ·) ∅ = L.toFinset := by
      ext p
      rw [mem_foldl_union, List.mem_toFinset, ← h p, List.mem_flatten]
      simp
    have hrun := run_eq_keep Settled.nil.stable hL.distinct (Finset.empty_subset _) hchunks
    rw [toFinset_foldl_extend (s := ⟨[]⟩) hflat, hL.toFinset_canonicalize]
    exact hrun.trans (congrArg retention.keep hall)
  have hnil : Settled (⟨[]⟩ : PointersV3).pointers := .nil
  exact eq_of_pointers ((settled_foldl_extend hnil).ext (settled_canonicalize _) hset)

section
open Sample

/-- Four anonymous pointers of one key and an attested one, in chunks that pass the cap of three: the
oldest is out, whatever came when. -/
theorem foldl_extend_eq_two :
    let p (post : U8) (time : U64) := pointer (anonymous 2) post time 0
    let q := pointer (attested 1 7 1) 3 10 0
    let s := [[p 5 5, q], [p 4 4, p 7 7], [p 6 6, p 4 4], [q]].foldl extend ⟨[]⟩
    s = canonicalize ⟨[p 4 4, p 5 5, p 6 6, p 7 7, q]⟩ ∧ p 4 4 ∉ s.pointers := by
  refine ⟨?_, by decide +kernel⟩
  refine foldl_extend_eq (by unfold Agree; decide +kernel) fun x => ?_
  simp only [List.flatten_cons, List.flatten_nil, List.append_nil, List.mem_append,
    List.mem_cons, List.not_mem_nil, or_false]
  tauto

end

/-! ## Horizons -/

theorem settled_of_fixed (hs : s.canonicalize = s) : Settled s.pointers :=
  hs ▸ settled_canonicalize s

theorem delta_singleton {old : PointersV3Summary} :
    delta ⟨[p]⟩ old = some [p] ↔ p ∈ offers ⟨[p]⟩ old := by
  constructor
  · intro h
    rw [← delta_getD, h]
    exact List.mem_singleton_self p
  · intro h
    obtain ⟨h, hretained⟩ := List.mem_filter.mp h
    obtain ⟨-, hnew⟩ := List.mem_filter.mp h
    have hall : offers ⟨[p]⟩ old = [p] := by
      rw [offers, List.filter_filter, List.filter_eq_self]
      intro q hq
      rw [List.mem_singleton.mp hq, hretained, hnew]
      rfl
    change (if (offers ⟨[p]⟩ old).isEmpty then none else some (offers ⟨[p]⟩ old)) = some [p]
    rw [hall]
    rfl

/-- **Horizons are exact**: a pointer with a new reply post is offered exactly if the log keeps it,
and a pointer that is not offered changes nothing. -/
theorem delta_singleton_iff (hs : s.canonicalize = s)
    (hp : ∀ q ∈ s.pointers, q.ptr.replyPost ≠ p.ptr.replyPost) :
    (delta ⟨[p]⟩ s.summarize = some [p] ↔ p ∈ (s.extend [p]).pointers) ∧
      (delta ⟨[p]⟩ s.summarize ≠ some [p] → s.extend [p] = s) := by
  obtain ⟨ps⟩ := s
  have hsettled : Settled ps := settled_of_fixed hs
  have hagree : Agree (ps ++ [p]) := hsettled.agree_append (List.pairwise_singleton _ _)
    fun q hq => List.mem_singleton.mp hq ▸ hp
  have hoffered : delta ⟨[p]⟩ (summarize ⟨ps⟩) = some [p] ↔ p ∈ capped (insert p ps.toFinset) := by
    rw [delta_singleton, mem_offers hsettled]
    exact ⟨fun h => h.2.2, fun h => ⟨List.mem_singleton_self p, hp, h⟩⟩
  rw [ne_eq, hoffered, mem_extend hagree, union_singleton]
  refine ⟨Iff.rfl, fun hlose => eq_of_pointers ((settled_extend _ _).ext hsettled ?_)⟩
  have hstable : retention.Stable ps.toFinset := hsettled.stable
  have hd : Distinct prio (ps.toFinset ∪ [p].toFinset) := by
    rw [← List.toFinset_append]
    exact hagree.distinct
  rw [toFinset_extend hagree]
  refine keep_union_of_losing hstable hd fun x hx _ => ?_
  rw [List.mem_toFinset, List.mem_singleton] at hx
  exact hx ▸ hlose

section
open Sample

/-- A key that holds its three anonymous pointers is not asked for an older fourth one, and loses
nothing by it. -/
theorem delta_singleton_iff_seated :
    let p (post : U8) (time : U64) := pointer (anonymous 2) post time 0
    let s : PointersV3 := ⟨[p 5 5, p 6 6, p 7 7]⟩
    delta ⟨[p 4 4]⟩ s.summarize ≠ some [p 4 4] ∧ p 4 4 ∉ (s.extend [p 4 4]).pointers ∧
      s.extend [p 4 4] = s := by
  intro p s
  have h := delta_singleton_iff (s := s) (p := p 4 4) (by decide +kernel) (by decide +kernel)
  have hlose : delta ⟨[p 4 4]⟩ s.summarize ≠ some [p 4 4] := by decide +kernel
  exact ⟨hlose, fun hp => hlose (h.1.mpr hp), h.2 hlose⟩

end

/-! ## Fairness -/

/-- **Fairness**: a flood under one fingerprint evicts no more pointers of the others than the
fingerprint has slots left, and an anonymous flood evicts no attested pointer. -/
theorem flood_bound (hs : s.canonicalize = s) (hF : ∀ p ∈ B, p.ptr.fingerprint = F)
    (hB : UniquePosts B) (hnew : ∀ p ∈ B, ∀ q ∈ s.pointers, q.ptr.replyPost ≠ p.ptr.replyPost) :
    (s.pointers.countP fun q => q.ptr.fingerprint ≠ F ∧ q ∉ (s.extend B).pointers) +
        (s.pointers.countP fun q => q.ptr.fingerprint = F) ≤ fpCap F ∧
      (isAnonFingerprint F = true →
        ∀ q ∈ s.pointers, q.isAnon = false → q ∈ (s.extend B).pointers) := by
  have hsettled : Settled s.pointers := settled_of_fixed hs
  have hagree : Agree (s.pointers ++ B) := hsettled.agree_append hB hnew
  have hd : Distinct prio (s.pointers.toFinset ∪ B.toFinset) := by
    rw [← List.toFinset_append]
    exact hagree.distinct
  constructor
  · have hbound := card_crowded_out_le nested_caps hsettled.stable hd
      (show fpLayer ∈ caps by simp [caps]) (c := F) fun x hx => hF x (List.mem_toFinset.mp hx)
    rw [card_filter_toFinset hsettled.sorted.nodup, card_filter_toFinset hsettled.sorted.nodup]
      at hbound
    simp only [mem_extend hagree]
    exact hbound
  · intro hanon q hq hqa
    rw [mem_extend hagree]
    have hqS : q ∈ s.pointers.toFinset := List.mem_toFinset.mpr hq
    refine mem_keepAll_of_above nested_caps hd hsettled.stable hsettled.distinct
      (Finset.mem_union_left _ hqS) hqS fun x hx => ?_
    obtain ⟨hx, hlt⟩ := mem_above.mp hx
    -- Above an attested pointer there are no anonymous ones.
    refine (Finset.mem_union.mp hx).resolve_right fun hxB => ?_
    have hxa := isAnon_of_prio_lt hlt hqa
    rw [isAnon, hF x (List.mem_toFinset.mp hxB), hanon] at hxa
    cases hxa

section
open Sample

/-- An anonymous flood of four, above the cap of its fingerprint, against a log whose key 2 is at its
own cap. -/
theorem flood_bound_anonymous :
    let p (post : U8) (time : U64) := pointer (anonymous 2) post time 0
    let s : PointersV3 := ⟨[p 5 5, p 6 6, p 7 7, pointer (attested 1 7 1) 3 10 0]⟩
    let B := [20, 21, 22, 23].map fun n : U8 => pointer (anonymous 3) n 20 0
    let F := (anonymous 3).fingerprint crypto
    fpCap F < B.length ∧
      (s.pointers.countP fun q => q.ptr.fingerprint ≠ F ∧ q ∉ (s.extend B).pointers) +
        (s.pointers.countP fun q => q.ptr.fingerprint = F) ≤ fpCap F ∧
      (isAnonFingerprint F = true →
        ∀ q ∈ s.pointers, q.isAnon = false → q ∈ (s.extend B).pointers) :=
  ⟨by decide +kernel, flood_bound (by decide +kernel) (by decide +kernel)
    (by unfold UniquePosts; decide +kernel) (by decide +kernel)⟩

end

end PointersV3

end Freebird
