import Freebird.Feed.Apply
import Freebird.Retention.Horizon

/-!
# Two feeds that merge each other

The posts a feed offers against a summary are those the other one lacks and would keep
(`mem_offers`), so a merge leaves what applying the whole other feed would (`merge_eq`). As each
record is the newer of two and the posts are the highest of both, the two feeds meet, and have
nothing left to offer (`merge_meets`).
-/

namespace Freebird

open Register Retention

variable {Cert : Type} {C : FeedCrypto Cert} {parameters : FeedParametersV1}

/-! ## Posts -/

namespace PostsV1

open AuthorizedPost

variable {as bs ps qs : List AuthorizedPost} {p q : AuthorizedPost}

/-- An id names one post. -/
def Identified (ps : List AuthorizedPost) : Prop :=
  ∀ p ∈ ps, ∀ q ∈ ps, p.post.id = q.post.id → p = q

theorem Identified.mono (h : Identified qs) (hps : ∀ p ∈ ps, p ∈ qs) : Identified ps :=
  fun p hp q hq => h p (hps p hp) q (hps q hq)

theorem Identified.sameTime (h : Identified ps) : SameTime ps :=
  fun p hp q hq he => congrArg (·.post.time) (h p hp q hq he)

theorem Identified.distinct (h : Identified ps) : Distinct orderKey ps.toFinset :=
  fun p hp q hq he => h p (List.mem_toFinset.mp hp) q (List.mem_toFinset.mp hq) (id_of_orderKey p q he)

theorem Identified.toFinset_canonicalize (h : Identified ps) :
    (canonicalize ⟨ps⟩).posts.toFinset = highest orderKey maxPosts ps.toFinset := by
  rw [posts_canonicalize]
  exact toFinset_cappedLog id_of_orderKey h

/-- What is kept is determined by which posts are the highest. -/
theorem Identified.canonicalize_congr (hps : Identified ps) (hqs : Identified qs)
    (h : highest orderKey maxPosts ps.toFinset = highest orderKey maxPosts qs.toFinset) :
    canonicalize ⟨ps⟩ = canonicalize ⟨qs⟩ := by
  have hmem (p : AuthorizedPost) :
      p ∈ (canonicalize ⟨ps⟩).posts ↔ p ∈ (canonicalize ⟨qs⟩).posts := by
    rw [← List.mem_toFinset, hps.toFinset_canonicalize, h, ← hqs.toFinset_canonicalize,
      List.mem_toFinset]
  have hposts := (ascending_canonicalize ⟨ps⟩).ext (ascending_canonicalize ⟨qs⟩) hmem
  cases hp : canonicalize ⟨ps⟩ with
  | mk ps' =>
    cases hq : canonicalize ⟨qs⟩ with
    | mk qs' =>
      rw [hp, hq] at hposts
      exact congrArg PostsV1.mk hposts

/-- The posts offered against a summary. -/
def offers (self : PostsV1) (old : PostsSummary) : List AuthorizedPost :=
  (self.posts.filter fun p => p.post.id ∉ old.ids).filter (retained old)

theorem getD_delta (self : PostsV1) (old : PostsSummary) :
    (self.delta old).getD [] = self.offers old := getD_unless_nil (self.offers old)

theorem horizon_summarize (p : AuthorizedPost) (ps : List AuthorizedPost) :
    (summarize ⟨p :: ps⟩).horizon =
      if (p :: ps).length < maxPosts then .open else .oldestRetained p.orderKey := rfl

/-- The horizon of a settled log admits the new posts it would keep. -/
theorem retained_iff (h : Settled ps) (hp : p.orderKey ∉ ps.map orderKey) :
    retained (summarize ⟨ps⟩) p = true ↔ (above orderKey ps.toFinset p).card < maxPosts := by
  have hadmits : retained (summarize ⟨ps⟩) p =
      (horizon maxPosts (ps.map orderKey)).admits p.orderKey := by
    rw [horizon, if_neg (by decide), min?_eq_head? (List.pairwise_map.mpr h.ascending),
      List.length_map]
    cases ps with
    | nil => rfl
    | cons q ps =>
      rw [retained, horizon_summarize, List.map_cons, List.head?_cons]
      by_cases hlt : (q :: ps).length < maxPosts
      · simp only [if_pos hlt, if_neg (not_le.mpr hlt), TierHorizon.admits]
      · simp only [if_neg hlt, if_pos (not_lt.mp hlt), TierHorizon.admits]
  have hcount : (ps.map orderKey).countP (fun x => p.orderKey < x) =
      (above orderKey ps.toFinset p).card := by
    rw [above, card_filter_toFinset h.ascending.nodup, List.countP_map]
    rfl
  rw [hadmits, horizon_admits_iff hp ((List.length_map _).trans_le h.length_le), hcount]

theorem mem_offers : p ∈ offers ⟨bs⟩ (summarize ⟨as⟩) ↔
    p ∈ bs ∧ (∀ q ∈ as, q.post.id ≠ p.post.id) ∧ retained (summarize ⟨as⟩) p = true := by
  have hids : p.post.id ∈ (summarize ⟨as⟩).ids ↔ ∃ q ∈ as, q.post.id = p.post.id := by
    rw [summarize, Std.ExtTreeSet.mem_ofList]
    simp
  simp only [offers, List.mem_filter, decide_eq_true_eq, hids, and_assoc]
  push Not
  rfl

/-- **What is not offered would not be kept.** -/
theorem canonicalize_offers (has : Settled as) (h : Identified (as ++ bs)) :
    canonicalize ⟨as ++ offers ⟨bs⟩ (summarize ⟨as⟩)⟩ = canonicalize ⟨as ++ bs⟩ := by
  have hsub (p : AuthorizedPost) (hp : p ∈ as ++ offers ⟨bs⟩ (summarize ⟨as⟩)) : p ∈ as ++ bs := by
    rcases List.mem_append.mp hp with hp | hp
    · exact List.mem_append_left bs hp
    · exact List.mem_append_right as (mem_offers.mp hp).1
  refine (h.mono hsub).canonicalize_congr h ?_
  rw [← keep_highestPolicy, ← keep_highestPolicy]
  refine (highestPolicy orderKey maxPosts).outcast h.distinct (fun p hp => ?_) fun p hp => ?_
  · rw [keep_highestPolicy, mem_highest, List.mem_toFinset] at hp
    obtain ⟨hp, hfew⟩ := hp
    rw [List.mem_toFinset]
    by_cases hpa : p ∈ as
    · exact List.mem_append_left _ hpa
    · have hpb := (List.mem_append.mp hp).resolve_left hpa
      have hnew : ∀ q ∈ as, q.post.id ≠ p.post.id := fun q hq he =>
        hpa (h q (List.mem_append_left bs hq) p hp he ▸ hq)
      refine List.mem_append_right as (mem_offers.mpr ⟨hpb, hnew, ?_⟩)
      refine (retained_iff has fun hkey => ?_).mpr (lt_of_le_of_lt (Finset.card_le_card ?_) hfew)
      · obtain ⟨q, hq, he⟩ := List.mem_map.mp hkey
        exact hnew q hq (id_of_orderKey q p he)
      · refine Finset.filter_subset_filter _ fun q hq => ?_
        exact List.mem_toFinset.mpr (List.mem_append_left bs (List.mem_toFinset.mp hq))
  · exact List.mem_toFinset.mpr (hsub p (List.mem_toFinset.mp hp))

end PostsV1

/-! ## Records -/

/-- What a feed is made of. -/
inductive FeedRecord (Cert : Type)
  | profile (profile : AuthorizedProfile)
  | follows (follows : AuthorizedFollows)
  | attestation (attestation : AttestationV2 Cert)
  | post (post : AuthorizedPost)
  deriving DecidableEq

def FeedStateV1.records (s : FeedStateV1 Cert) : List (FeedRecord Cert) :=
  .profile s.profile :: .follows s.follows :: s.attestation.toList.map .attestation ++
    s.posts.posts.map .post

/-- What tells a record from the others of its kind. -/
inductive FeedName
  | profile (hash : Bytes 32)
  | follows (hash : Bytes 32)
  | attestation (hash : Bytes 32)
  | post (id : PostId)
  deriving DecidableEq

variable (C) in
def FeedRecord.name : FeedRecord Cert → FeedName
  | .profile p => .profile (C.blake3 (C.cborProfile p))
  | .follows f => .follows (C.blake3 (C.cborFollows f))
  | .attestation att => .attestation (att.contentHash C.toCrypto)
  | .post p => .post p.post.id

variable (C) in
/-- No two records of one kind share a hash, and no two posts an id. -/
def Distinguished (R : List (FeedRecord Cert)) : Prop :=
  ∀ x ∈ R, ∀ y ∈ R, x.name C = y.name C → x = y

theorem versionKey_inj {v w : U32} {bs cs : List U8} (h : versionKey C v bs = versionKey C w cs) :
    C.blake3 bs = C.blake3 cs := congrArg (fun k => (ofLex k).2) h

namespace FeedStateV1

variable {s : FeedStateV1 Cert}

theorem profile_mem_records : .profile p ∈ s.records ↔ p = s.profile := by simp [records]

theorem follows_mem_records : .follows f ∈ s.records ↔ f = s.follows := by simp [records]

theorem attestation_mem_records : .attestation att ∈ s.records ↔ s.attestation = some att := by
  simp [records]

theorem post_mem_records : .post p ∈ s.records ↔ p ∈ s.posts.posts := by simp [records]

end FeedStateV1

/-! ## Feeds -/

namespace FeedStateV1

variable {a b s : FeedStateV1 Cert} {old : FeedStateV1Summary}

variable (C) in
/-- What `delta` would send, also when there is nothing to send. -/
def answer (s : FeedStateV1 Cert) (old : FeedStateV1Summary) : FeedStateV1Delta Cert where
  profile := s.profile.delta C old.profile
  follows := s.follows.delta C old.follows
  attestation := s.attestation.delta C old.attestation
  posts := s.posts.delta old.posts

theorem delta_eq : s.delta C old =
    if (s.answer C old).profile.isSome ∨ (s.answer C old).follows.isSome ∨
      (s.answer C old).attestation.isSome ∨ (s.answer C old).posts.isSome
    then some (s.answer C old) else none := rfl

theorem delta_eq_none_iff : s.delta C old = none ↔ s.answer C old = ⟨none, none, none, none⟩ := by
  rw [delta_eq]
  obtain ⟨profile, follows, attestation, posts⟩ := s.answer C old
  cases profile <;> cases follows <;> cases attestation <;> cases posts <;> simp

/-- What a verified feed sends passes its check. -/
theorem Valid.checked_answer (h : s.Valid C parameters) :
    (s.answer C old).Checked C parameters where
  profile _ hp := mem_offer hp ▸ h.profile
  follows _ hf := mem_offer hf ▸ h.follows
  attestation att hatt := h.attestation att (AttestationSlot.mem_delta hatt)
  posts p hp := h.checked p (PostsV1.mem_of_mem_delta hp)

variable (C) in
/-- The newer records of two feeds, and the posts the log keeps of both. -/
def joined (a b : FeedStateV1 Cert) : FeedStateV1 Cert where
  profile := newer (AuthorizedProfile.lwwKey C) a.profile b.profile
  follows := newer (AuthorizedFollows.lwwKey C) a.follows b.follows
  attestation := newer (AttestationSlot.key C) a.attestation b.attestation
  posts := PostsV1.canonicalize ⟨a.posts.posts ++ b.posts.posts⟩

theorem applied_answer (ha : a.Valid C parameters)
    (h : PostsV1.Identified (a.posts.posts ++ b.posts.posts)) :
    a.applied C (b.answer C (a.summarize C)) = joined C a b := by
  have hposts : PostsV1.canonicalize ⟨a.posts.posts ++ (b.posts.delta a.posts.summarize).getD []⟩ =
      PostsV1.canonicalize ⟨a.posts.posts ++ b.posts.posts⟩ := by
    rw [PostsV1.getD_delta]
    exact PostsV1.canonicalize_offers ha.settled h
  simp only [applied, joined, FeedStateV1.mk.injEq]
  exact ⟨newer_offer (AuthorizedProfile.lwwKey C) a.profile b.profile,
    newer_offer (AuthorizedFollows.lwwKey C) a.follows b.follows,
    AttestationSlot.newer_delta a.attestation b.attestation, hposts⟩

/-- A delta that carries nothing leaves a verified feed alone. -/
theorem Valid.applied_nothing (h : s.Valid C parameters) :
    s.applied C ⟨none, none, none, none⟩ = s := by
  have hposts : PostsV1.canonicalize ⟨s.posts.posts ++ []⟩ = s.posts := by
    rw [List.append_nil, h.settled.canonicalize_eq]
  rw [FeedStateV1.applied, Option.getD_none, hposts]
  rfl

/-- **A merge** takes what the other feed would give in full. -/
theorem merge_eq (ha : a.Valid C parameters) (hb : b.Valid C parameters)
    (h : PostsV1.Identified (a.posts.posts ++ b.posts.posts)) :
    a.merge C parameters b = (.ok (), joined C a b) := by
  rw [merge, ← applied_answer ha h]
  cases hd : b.delta C (a.summarize C) with
  | none =>
    rw [delta_eq_none_iff.mp hd, ha.applied_nothing]
    rfl
  | some d =>
    obtain rfl : b.answer C (a.summarize C) = d := by
      rw [delta_eq] at hd
      split at hd
      · exact Option.some.inj hd
      · cases hd
    exact applyDelta_eq_ok.mpr ⟨hb.checked_answer, rfl⟩

end FeedStateV1

namespace Distinguished

variable {a b : FeedStateV1 Cert}

theorem identified {R : List (FeedRecord Cert)} (h : Distinguished C R)
    {ps : List AuthorizedPost} (hps : ∀ p ∈ ps, .post p ∈ R) : PostsV1.Identified ps :=
  fun p hp q hq he =>
    FeedRecord.post.inj (h _ (hps p hp) _ (hps q hq) (congrArg FeedName.post he))

theorem identified_posts (h : Distinguished C (a.records ++ b.records)) :
    PostsV1.Identified (a.posts.posts ++ b.posts.posts) := by
  refine h.identified fun p hp => ?_
  rw [List.mem_append, FeedStateV1.post_mem_records, FeedStateV1.post_mem_records]
  exact List.mem_append.mp hp

/-! The key of a register tells the records apart. -/

theorem injOn_profile {R : List (FeedRecord Cert)} (h : Distinguished C R) :
    Set.InjOn (AuthorizedProfile.lwwKey C) {p | .profile p ∈ R} := fun _ hp _ hq he =>
  FeedRecord.profile.inj (h _ hp _ hq (congrArg FeedName.profile (versionKey_inj he)))

theorem injOn_follows {R : List (FeedRecord Cert)} (h : Distinguished C R) :
    Set.InjOn (AuthorizedFollows.lwwKey C) {f | .follows f ∈ R} := fun _ hf _ hg he =>
  FeedRecord.follows.inj (h _ hf _ hg (congrArg FeedName.follows (versionKey_inj he)))

theorem injOn_attestation {R : List (FeedRecord Cert)} (h : Distinguished C R) :
    Set.InjOn (AttestationSlot.key C) {slot | ∀ att, slot = some att → .attestation att ∈ R} := by
  intro x hx y hy he
  cases x with
  | none => exact (AttestationSlot.key_eq_bot.mp he.symm).symm
  | some att =>
    cases y with
    | none => cases he
    | some att' =>
      have hname := congrArg FeedName.attestation (WithBot.coe_inj.mp he)
      exact congrArg some (FeedRecord.attestation.inj (h _ (hx att rfl) _ (hy att' rfl) hname))

/-- Two feeds join to the same feed from either side. -/
theorem joined_comm (h : Distinguished C (a.records ++ b.records)) :
    FeedStateV1.joined C a b = FeedStateV1.joined C b a := by
  have hprofile : newer (AuthorizedProfile.lwwKey C) a.profile b.profile =
      newer (AuthorizedProfile.lwwKey C) b.profile a.profile :=
    newer_comm <| h.injOn_profile
      (List.mem_append_left _ (FeedStateV1.profile_mem_records.mpr rfl))
      (List.mem_append_right _ (FeedStateV1.profile_mem_records.mpr rfl))
  have hfollows : newer (AuthorizedFollows.lwwKey C) a.follows b.follows =
      newer (AuthorizedFollows.lwwKey C) b.follows a.follows :=
    newer_comm <| h.injOn_follows
      (List.mem_append_left _ (FeedStateV1.follows_mem_records.mpr rfl))
      (List.mem_append_right _ (FeedStateV1.follows_mem_records.mpr rfl))
  have hattestation : newer (AttestationSlot.key C) a.attestation b.attestation =
      newer (AttestationSlot.key C) b.attestation a.attestation :=
    newer_comm <| h.injOn_attestation
      (fun _ hatt => List.mem_append_left _ (FeedStateV1.attestation_mem_records.mpr hatt))
      fun _ hatt => List.mem_append_right _ (FeedStateV1.attestation_mem_records.mpr hatt)
  have hposts : PostsV1.canonicalize ⟨a.posts.posts ++ b.posts.posts⟩ =
      PostsV1.canonicalize ⟨b.posts.posts ++ a.posts.posts⟩ := by
    refine h.identified_posts.canonicalize_congr (h.identified_posts.mono fun p hp => ?_) ?_
    · exact List.mem_append.mpr (List.mem_append.mp hp).symm
    · rw [List.toFinset_append, List.toFinset_append, Finset.union_comm]
  rw [FeedStateV1.joined, FeedStateV1.joined, hprofile, hfollows, hattestation, hposts]

end Distinguished

namespace FeedStateV1

variable {a b s : FeedStateV1 Cert}

/-- A feed has nothing to offer itself. -/
theorem delta_summarize (s : FeedStateV1 Cert) : s.delta C (s.summarize C) = none := by
  have hprofile : s.profile.delta C (s.profile.lwwKey C) = none := offer_eq_none_iff.mpr le_rfl
  have hfollows : s.follows.delta C (s.follows.lwwKey C) = none := offer_eq_none_iff.mpr le_rfl
  have hattestation : s.attestation.delta C (s.attestation.summarize C) = none :=
    AttestationSlot.delta_eq_none_iff.mpr le_rfl
  have hoffers : s.posts.offers s.posts.summarize = [] := by
    refine List.eq_nil_iff_forall_not_mem.mpr fun p hp => ?_
    obtain ⟨hp, hnew, -⟩ := PostsV1.mem_offers.mp hp
    exact hnew p hp rfl
  have hposts : s.posts.delta s.posts.summarize = none := by
    rw [PostsV1.delta]
    exact if_pos (List.isEmpty_iff.mpr hoffers)
  rw [delta_eq_none_iff, answer, summarize, hprofile, hfollows, hattestation, hposts]

/-- **Two feeds that merge each other meet**, and then have nothing to offer. -/
theorem merge_meets (ha : a.verify C parameters = .ok ()) (hb : b.verify C parameters = .ok ())
    (h : Distinguished C (a.records ++ b.records)) :
    ∃ a' b', a.merge C parameters b = (.ok (), a') ∧ b.merge C parameters a = (.ok (), b') ∧
      a' = b' ∧ a'.delta C (b'.summarize C) = none ∧ b'.delta C (a'.summarize C) = none := by
  have ha := verify_iff.mp ha
  have hb := verify_iff.mp hb
  have hba : PostsV1.Identified (b.posts.posts ++ a.posts.posts) := h.identified_posts.mono fun p hp =>
    List.mem_append.mpr (List.mem_append.mp hp).symm
  refine ⟨joined C a b, joined C b a, merge_eq ha hb h.identified_posts, merge_eq hb ha hba,
    h.joined_comm, ?_⟩
  rw [← h.joined_comm]
  exact ⟨delta_summarize _, delta_summarize _⟩

open Sample in
theorem merge_meets_apart :
    let a := feed 1 [post 1 "a" none, post 2 "b" none]
    let b := feed 2 [post 2 "b" none, post 3 "c" none]
    ∃ a' b', a.merge feedCrypto feedOwner b = (.ok (), a') ∧
      b.merge feedCrypto feedOwner a = (.ok (), b') ∧ a' = b' ∧
      a'.delta feedCrypto (b'.summarize feedCrypto) = none ∧
      b'.delta feedCrypto (a'.summarize feedCrypto) = none :=
  merge_meets (by decide +kernel) (by decide +kernel) (by unfold Distinguished; decide +kernel)

end FeedStateV1

end Freebird
