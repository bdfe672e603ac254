import Freebird.Feed.Convergence
import Freebird.Feed.Shell

/-!
# Feeds form a semilattice

Of records that are told apart by their hashes and ids, and are not beyond the future bound, the
verified feeds form a join semilattice: each register takes the newer record, and the log keeps the
highest posts of both. Applying a delta commutes with joining (`applied_joined`), so the feed below
which a replica stays is that of all it was handed.
-/

namespace Freebird

open Register Retention

variable {Cert : Type} {C : FeedCrypto Cert} {parameters : FeedParametersV1}

variable (C) in
/-- Records that may occur from a clock on. -/
structure FeedUniverse where
  records : Set (FeedRecord Cert)
  now : U64
  distinct : Set.InjOn (FeedRecord.name C) records
  timely : ∀ p, .post p ∈ records → p.post.time.val ≤ futureBound now

variable {U : FeedUniverse C}

theorem FeedUniverse.distinguished {R : List (FeedRecord Cert)} (h : ∀ x ∈ R, x ∈ U.records) :
    Distinguished C R := fun x hx y hy he => U.distinct (h x hx) (h y hy) he

theorem FeedUniverse.identified {ps : List AuthorizedPost} (h : ∀ p ∈ ps, .post p ∈ U.records) :
    PostsV1.Identified ps := fun p hp q hq he =>
  FeedRecord.post.inj (U.distinct (h p hp) (h q hq) (congrArg FeedName.post he))

/-! ## Posts -/

namespace PostsV1

open AuthorizedPost

variable {as bs cs : List AuthorizedPost} {p : AuthorizedPost}

theorem Identified.canonicalize_eq_of_mem (h : Identified as) (hmem : ∀ p, p ∈ as ↔ p ∈ bs) :
    canonicalize ⟨as⟩ = canonicalize ⟨bs⟩ := by
  refine h.canonicalize_congr (h.mono fun p => (hmem p).mpr) (congrArg _ ?_)
  ext p
  rw [List.mem_toFinset, List.mem_toFinset, hmem]

theorem canonicalize_append_right (h : Identified (as ++ bs)) :
    canonicalize ⟨as ++ (canonicalize ⟨bs⟩).posts⟩ = canonicalize ⟨as ++ bs⟩ := by
  have hswap (p : AuthorizedPost) : p ∈ bs ++ as ↔ p ∈ as ++ bs := by
    rw [List.mem_append, List.mem_append, or_comm]
  have hsub (p : AuthorizedPost) (hp : p ∈ as ++ (canonicalize ⟨bs⟩).posts) : p ∈ as ++ bs :=
    List.mem_append.mpr ((List.mem_append.mp hp).imp_right mem_of_mem_canonicalize)
  calc canonicalize ⟨as ++ (canonicalize ⟨bs⟩).posts⟩
      = canonicalize ⟨(canonicalize ⟨bs⟩).posts ++ as⟩ :=
        (h.mono hsub).canonicalize_eq_of_mem fun p => by
          rw [List.mem_append, List.mem_append, or_comm]
    _ = canonicalize ⟨bs ++ as⟩ := canonicalize_append (h.mono fun p => (hswap p).mp)
    _ = canonicalize ⟨as ++ bs⟩ := (h.mono fun p => (hswap p).mp).canonicalize_eq_of_mem hswap

/-- What is offered to a log that has grown was offered to it before. -/
theorem mem_offers_of_grown {ls : List AuthorizedPost} (hbs : Settled bs)
    (h : Identified (as ++ bs ++ cs)) (hls : canonicalize ⟨as ++ bs⟩ = ⟨ls⟩)
    (hp : p ∈ offers ⟨cs⟩ (summarize ⟨ls⟩)) : p ∈ offers ⟨cs⟩ (summarize ⟨bs⟩) := by
  have hab : Identified (as ++ bs) := h.mono fun p => List.mem_append_left cs
  have hlog : Settled ls := by
    have hcanon : Settled (canonicalize ⟨as ++ bs⟩).posts := settled_canonicalize hab.sameTime
    rwa [hls] at hcanon
  have hfin : ls.toFinset = highest orderKey maxPosts (as ++ bs).toFinset := by
    rw [← hab.toFinset_canonicalize, hls]
  obtain ⟨hpc, hnew, hret⟩ := mem_offers.mp hp
  have hfew : (above orderKey (as ++ bs).toFinset p).card < maxPosts := by
    have hkey : p.orderKey ∉ ls.map orderKey := fun hkey => by
      obtain ⟨q, hq, he⟩ := List.mem_map.mp hkey
      exact hnew q hq (id_of_orderKey q p he)
    have hcard := (retained_iff hlog hkey).mp hret
    rw [hfin, card_above_highest hab.distinct] at hcard
    exact (min_lt_iff.mp hcard).resolve_left (lt_irrefl _)
  have hout : ∀ q ∈ bs, q.post.id ≠ p.post.id := fun q hq he => by
    have hqp : q = p := h q (List.mem_append_left cs (List.mem_append_right as hq)) p
      (List.mem_append_right (as ++ bs) hpc) he
    have hin : q ∈ ls.toFinset := by
      rw [hfin, mem_highest, hqp]
      exact ⟨List.mem_toFinset.mpr (List.mem_append_right as (hqp ▸ hq)), hfew⟩
    exact hnew q (List.mem_toFinset.mp hin) he
  refine mem_offers.mpr ⟨hpc, hout, (retained_iff hbs fun hkey => ?_).mpr ?_⟩
  · obtain ⟨q, hq, he⟩ := List.mem_map.mp hkey
    exact hout q hq (id_of_orderKey q p he)
  · refine (Finset.card_le_card (Finset.filter_subset_filter _ fun q hq => ?_)).trans_lt hfew
    exact List.mem_toFinset.mpr (List.mem_append_right as (List.mem_toFinset.mp hq))

end PostsV1

/-! ## Feeds -/

variable (U) in
/-- All records of a feed may occur. -/
def FeedStateV1.Within (s : FeedStateV1 Cert) : Prop := ∀ x ∈ s.records, x ∈ U.records

variable (U) in
def FeedStateV1Delta.Within (d : FeedStateV1Delta Cert) : Prop := ∀ x ∈ d.records, x ∈ U.records

namespace FeedStateV1

variable {a b c s : FeedStateV1 Cert} {d : FeedStateV1Delta Cert} {x : FeedRecord Cert}

/-- The delta that carries a whole feed. -/
def whole (s : FeedStateV1 Cert) : FeedStateV1Delta Cert :=
  ⟨some s.profile, some s.follows, s.attestation, some s.posts.posts⟩

theorem records_whole (s : FeedStateV1 Cert) : s.whole.records = s.records := by
  simp [whole, FeedStateV1Delta.records, records]

theorem joined_eq_applied (a b : FeedStateV1 Cert) : joined C a b = a.applied C b.whole := by
  have hattestation : newer (AttestationSlot.key C) a.attestation b.attestation =
      b.attestation.elim a.attestation fun att =>
        newer (AttestationSlot.key C) a.attestation (some att) := by
    cases b.attestation with
    | none => exact newer_of_le bot_le
    | some att => rfl
  rw [joined, hattestation]
  rfl

/-- The records of a feed after a delta were there before, or are those of the delta. -/
theorem mem_records_applied (hx : x ∈ (s.applied C d).records) :
    x ∈ s.records ∨ x ∈ d.records := by
  cases x with
  | profile p =>
    obtain rfl := profile_mem_records.mp hx
    rw [profile_mem_records, FeedStateV1Delta.profile_mem_records]
    simp only [applied]
    cases d.profile with
    | none => exact .inl rfl
    | some q => exact (newer_eq_or _ s.profile q).imp id fun h => (congrArg some h).symm
  | follows f =>
    obtain rfl := follows_mem_records.mp hx
    rw [follows_mem_records, FeedStateV1Delta.follows_mem_records]
    simp only [applied]
    cases d.follows with
    | none => exact .inl rfl
    | some g => exact (newer_eq_or _ s.follows g).imp id fun h => (congrArg some h).symm
  | attestation att =>
    rw [attestation_mem_records] at hx ⊢
    rw [FeedStateV1Delta.attestation_mem_records]
    simp only [applied] at hx
    cases hd : d.attestation with
    | none => exact .inl (by rwa [hd] at hx)
    | some att' =>
      rw [hd, Option.elim_some] at hx
      exact (newer_eq_or (AttestationSlot.key C) s.attestation (some att')).imp
        (fun h => h.symm.trans hx) fun h => h.symm.trans hx
  | post p =>
    rw [post_mem_records] at hx ⊢
    rw [FeedStateV1Delta.post_mem_records]
    exact List.mem_append.mp (PostsV1.mem_of_mem_canonicalize hx)

theorem Within.applied (hs : s.Within U) (hd : d.Within U) : (s.applied C d).Within U :=
  fun x hx => (mem_records_applied hx).elim (hs x) (hd x)

theorem Within.joined (ha : a.Within U) (hb : b.Within U) :
    (FeedStateV1.joined C a b).Within U := by
  rw [joined_eq_applied]
  exact ha.applied fun x hx => hb x (records_whole b ▸ hx)

theorem Within.post (hs : s.Within U) (p : AuthorizedPost) (hp : p ∈ s.posts.posts) :
    .post p ∈ U.records := hs _ (post_mem_records.mpr hp)

theorem Within.posts_append (ha : a.Within U) (hd : d.Within U) :
    PostsV1.Identified (a.posts.posts ++ d.posts.getD []) := by
  refine U.identified fun p hp => ?_
  rcases List.mem_append.mp hp with hp | hp
  · exact ha.post p hp
  · exact hd _ (FeedStateV1Delta.post_mem_records.mpr hp)

/-- **A delta commutes with a join.** -/
theorem applied_joined (ha : a.Within U) (hb : b.Within U) (hd : d.Within U) :
    (joined C a b).applied C d = joined C a (b.applied C d) := by
  have hposts : PostsV1.Identified (a.posts.posts ++ b.posts.posts ++ d.posts.getD []) := by
    refine U.identified fun p hp => ?_
    rcases List.mem_append.mp hp with hp | hp
    · exact (List.mem_append.mp hp).elim (ha.post p) (hb.post p)
    · exact hd _ (FeedStateV1Delta.post_mem_records.mpr hp)
  refine FeedStateV1.ext ?_ ?_ ?_ ?_
  · simp only [applied, joined]
    cases d.profile with
    | none => rfl
    | some p => exact newer_assoc _ _ _ _
  · simp only [applied, joined]
    cases d.follows with
    | none => rfl
    | some f => exact newer_assoc _ _ _ _
  · simp only [applied, joined]
    cases d.attestation with
    | none => rfl
    | some att => exact newer_assoc _ _ _ _
  · simp only [applied, joined]
    rw [PostsV1.canonicalize_append hposts]
    rw [List.append_assoc] at hposts ⊢
    rw [PostsV1.canonicalize_append_right hposts]

theorem joined_assoc (ha : a.Within U) (hb : b.Within U) (hc : c.Within U) :
    joined C (joined C a b) c = joined C a (joined C b c) := by
  rw [joined_eq_applied _ c, joined_eq_applied b c]
  exact applied_joined ha hb fun x hx => hc x (records_whole c ▸ hx)

theorem joined_comm (ha : a.Within U) (hb : b.Within U) : joined C a b = joined C b a :=
  (U.distinguished fun x hx => (List.mem_append.mp hx).elim (ha x) (hb x)).joined_comm

theorem Valid.joined (hs : a.Valid C parameters) (hb : b.Valid C parameters) (ha : a.Within U)
    (hb' : b.Within U) : (FeedStateV1.joined C a b).Valid C parameters := by
  rw [joined_eq_applied]
  refine hs.applied ⟨?_, ?_, hb.attestation, hb.checked⟩ ?_
  · rintro _ ⟨⟩
    exact hb.profile
  · rintro _ ⟨⟩
    exact hb.follows
  · exact (ha.posts_append (d := b.whole) fun x hx => hb' x (records_whole b ▸ hx)).sameTime

/-- A feed that has nothing but records of two others adds nothing to their join. -/
theorem joined_absorbs (ha : a.Within U) (hb : b.Within U)
    (hc : ∀ x ∈ c.records, x ∈ a.records ∨ x ∈ b.records) :
    joined C (joined C a b) c = joined C a b := by
  have hcU : c.Within U := fun x hx => (hc x hx).elim (ha x) (hb x)
  refine FeedStateV1.ext (newer_of_le ?_) (newer_of_le ?_) (newer_of_le ?_) ?_
  · simp only [FeedStateV1.joined, key_newer]
    rcases hc _ (profile_mem_records.mpr rfl) with h | h
    · exact (profile_mem_records.mp h).symm ▸ le_max_left _ _
    · exact (profile_mem_records.mp h).symm ▸ le_max_right _ _
  · simp only [FeedStateV1.joined, key_newer]
    rcases hc _ (follows_mem_records.mpr rfl) with h | h
    · exact (follows_mem_records.mp h).symm ▸ le_max_left _ _
    · exact (follows_mem_records.mp h).symm ▸ le_max_right _ _
  · simp only [FeedStateV1.joined, key_newer]
    cases hatt : c.attestation with
    | none => exact bot_le
    | some att =>
      rcases hc _ (attestation_mem_records.mpr hatt) with h | h
      · exact attestation_mem_records.mp h ▸ le_max_left _ _
      · exact attestation_mem_records.mp h ▸ le_max_right _ _
  · have hab : PostsV1.Identified (a.posts.posts ++ b.posts.posts) :=
      U.identified fun p hp => (List.mem_append.mp hp).elim (ha.post p) (hb.post p)
    have habc : PostsV1.Identified (a.posts.posts ++ b.posts.posts ++ c.posts.posts) := by
      refine U.identified fun p hp => ?_
      rcases List.mem_append.mp hp with hp | hp
      · exact (List.mem_append.mp hp).elim (ha.post p) (hb.post p)
      · exact hcU.post p hp
    simp only [FeedStateV1.joined]
    rw [PostsV1.canonicalize_append habc]
    refine habc.canonicalize_eq_of_mem fun p => ?_
    rw [List.mem_append, or_iff_left_of_imp]
    intro hp
    rw [List.mem_append, ← post_mem_records, ← post_mem_records]
    exact hc _ (post_mem_records.mpr hp)

theorem Valid.joined_self (hs : a.Valid C parameters) (ha : a.Within U) :
    FeedStateV1.joined C a a = a := by
  have hposts : PostsV1.canonicalize ⟨a.posts.posts ++ a.posts.posts⟩ = a.posts := by
    have hid : PostsV1.Identified (a.posts.posts ++ a.posts.posts) :=
      U.identified fun p hp => (List.mem_append.mp hp).elim (ha.post p) (ha.post p)
    have hmem (p : AuthorizedPost) : p ∈ a.posts.posts ++ a.posts.posts ↔ p ∈ a.posts.posts := by
      rw [List.mem_append, or_self]
    rw [hid.canonicalize_eq_of_mem hmem, hs.settled.canonicalize_eq]
  rw [FeedStateV1.joined, hposts, newer_of_le le_rfl, newer_of_le le_rfl, newer_of_le le_rfl]

end FeedStateV1

/-! ## The semilattice -/

variable (U parameters) in
/-- The feeds that a replica may hold. -/
@[ext]
structure FeedReplica where
  feed : FeedStateV1 Cert
  valid : feed.Valid C parameters
  within : feed.Within U

namespace FeedReplica

open FeedStateV1

variable {a b : FeedReplica parameters U}

instance : Max (FeedReplica parameters U) where
  max a b := ⟨joined C a.feed b.feed, a.valid.joined b.valid a.within b.within,
    a.within.joined b.within⟩

instance : SemilatticeSup (FeedReplica parameters U) :=
  SemilatticeSup.mk' (fun a b => FeedReplica.ext (joined_comm a.within b.within))
    (fun a b c => FeedReplica.ext (joined_assoc a.within b.within c.within))
    fun a => FeedReplica.ext (a.valid.joined_self a.within)

theorem feed_sup (a b : FeedReplica parameters U) : (a ⊔ b).feed = joined C a.feed b.feed := rfl

theorem le_iff : a ≤ b ↔ joined C b.feed a.feed = b.feed := by
  rw [← sup_eq_left, FeedReplica.ext_iff, feed_sup]

end FeedReplica

end Freebird
