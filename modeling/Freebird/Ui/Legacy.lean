import Freebird.Ui.Migration

/-!
# The feed at the old contract, and what is carried over

The old contract took signatures over the bare encoding of a record and version 1 of the attestation;
the browser holds a feed it left to the same rules (`LegacyFeedState.verify`), which ask less of the
posts than the new contract does. The update of `migrate_v1` passes the new rules all the same, and
no post is lost that the new log has room for (`migration_carries`).
-/

namespace Freebird

open Register Retention PostsV1

variable {Cert : Type}

/-- The encoders of the records that were signed without a domain tag join what the feeds take from
other crates. -/
structure LegacyCrypto (Cert : Type) extends FeedCrypto Cert where
  cborPostV1 : PostV1 → List U8
  cborProfileV1 : ProfileV1 → List U8
  cborFollowsV1 : FollowsV1 → List U8

/-! ## Verification -/

section
variable (C : LegacyCrypto Cert)

def attestDomain : List U8 := ascii "freebird:attest:v1:"

/-- The full chain and the binding to `postingKey`. -/
def AttestationV1.verify (att : AttestationV1 Cert) (postingKey master : VerifyingKey) :
    Except String String := do
  let tier ← mapErr "certificate chain invalid" (C.certVerify att.certificate master)
  mapErr "attestation signature invalid" <|
    C.verifyStrict (C.certKey att.certificate) att.scopedPayload att.signature
  let wire ← C.decodeScoped att.scopedPayload
  if wire.payload ≠ attestDomain ++ postingKey.asBytes.toList then
    throw "attestation payload does not bind this posting key"
  return tier

/-- A signature over the encoded record itself. -/
def verifyBare (bytes : List U8) (sig : Signature) (author : VerifyingKey) : Except String Unit :=
  mapErr "legacy signature invalid" (C.verifyStrict author bytes sig)

def LegacyFeedState.verify (self : LegacyFeedState Cert) (author master : VerifyingKey) :
    Except String Unit := do
  verifyBare C (C.cborProfileV1 self.profile.profile) self.profile.signature author
  verifyBare C (C.cborFollowsV1 self.follows.follows) self.follows.signature author
  match self.attestation with
  | some att =>
    let _tier ← mapErr "legacy attestation invalid" (att.verify C author master)
  | none => pure ()
  if maxPosts < self.posts.length then throw s!"legacy feed over {maxPosts} posts"
  self.posts.forM fun p => do
    if p.post.id ≠ PostId.compute C.toCrypto author p.post.time p.post.content p.post.inReplyTo then
      throw "legacy post id does not match content"
    verifyBare C (C.cborPostV1 p.post) p.signature author

end

/-- The update that `migrate_v1` puts together. -/
def migrationUpdate (signingKey : List U8 → Signature) (legacy : LegacyFeedState Cert)
    (current : FeedStateV1 Cert) : FeedStateV1Delta Cert :=
  let posts := postsToMigrate signingKey legacy.posts current.posts
  let (profile, follows) := identityToMigrate signingKey legacy current
  ⟨profile, follows, none, if posts.isEmpty then none else some posts⟩

variable {C : LegacyCrypto Cert} {parameters : FeedParametersV1}
  {signingKey : List U8 → Signature} {legacy : LegacyFeedState Cert} {current : FeedStateV1 Cert}
  {p q : AuthorizedPost}

/-- `migrate_v1` sends this update, unless there is nothing in it. -/
theorem migrateV1_eq : migrateV1 signingKey (some legacy) (some current) =
    if ¬(postsToMigrate signingKey legacy.posts current.posts).isEmpty ∨
        (migrationUpdate signingKey legacy current).profile.isSome ∨
          (migrationUpdate signingKey legacy current).follows.isSome then
      .ok (some (migrationUpdate signingKey legacy current))
    else .ok none := rfl

/-- What the new rules ask of a post is that its id fits, which the old ones asked as well. -/
theorem LegacyFeedState.id_of_verify {author master : VerifyingKey}
    (h : legacy.verify C author master = .ok ()) (hp : p ∈ legacy.posts) : p.post.id =
      PostId.compute C.toCrypto author p.post.time p.post.content p.post.inReplyTo := by
  have hposts : legacy.posts.forM (fun p => do
      if p.post.id ≠
          PostId.compute C.toCrypto author p.post.time p.post.content p.post.inReplyTo then
        throw "legacy post id does not match content"
      verifyBare C (C.cborPostV1 p.post) p.signature author) = .ok () := by
    rw [verify] at h
    cases hatt : legacy.attestation with
    | none =>
      simp only [hatt, seq_eq_ok, throw_bind, guard_eq_ok] at h
      exact h.2.2.2
    | some att =>
      simp only [hatt, bind_eq_ok, throw_bind, guard_eq_ok] at h
      obtain ⟨-, -, -, -, -, -, -, h⟩ := h
      exact h
  have h := forM_eq_ok.mp hposts p hp
  simp only [throw_bind, guard_eq_ok, not_not] at h
  exact h.1

/-! ## The update -/

@[simp] theorem getD_posts_migrationUpdate :
    (migrationUpdate signingKey legacy current).posts.getD [] =
      postsToMigrate signingKey legacy.posts current.posts :=
  getD_unless_nil (postsToMigrate signingKey legacy.posts current.posts)

theorem mem_postsToMigrate {posts : List AuthorizedPost} {held : PostsV1} :
    p ∈ postsToMigrate signingKey posts held ↔ ∃ q ∈ posts,
      (∀ r ∈ held.posts, r.post.id ≠ q.post.id) ∧ p = .new q.post signingKey := by
  simp only [postsToMigrate, List.mem_map, List.mem_filter, decide_eq_true_eq,
    Std.ExtTreeSet.mem_ofList, List.contains_iff_mem, not_exists, not_and, and_assoc,
    eq_comm (b := p)]

/-- Records of version 0 are replaced by the old ones at version 1, the others are left alone. -/
theorem profile_migrationUpdate : (migrationUpdate signingKey legacy current).profile =
    if writtenSinceRotation current.profile.profile.version then none
    else some (.new { legacy.profile.profile with
      version := current.profile.profile.version + 1 } signingKey) := rfl

@[inherit_doc profile_migrationUpdate]
theorem follows_migrationUpdate : (migrationUpdate signingKey legacy current).follows =
    if writtenSinceRotation current.follows.follows.version then none
    else some (.new ⟨legacy.follows.follows.follows, current.follows.follows.version + 1⟩
      signingKey) := rfl

theorem version_eq_zero {version : U32} (h : ¬ writtenSinceRotation version = true) :
    version = 0 := by
  simpa [writtenSinceRotation, Fin.pos_iff_ne_zero] using h

theorem lt_succ_of_seed {version : U32} (h : ¬ writtenSinceRotation version = true) :
    version < version + 1 := by
  rw [version_eq_zero h]
  decide

theorem written_succ_of_seed {version : U32} (h : ¬ writtenSinceRotation version = true) :
    writtenSinceRotation (version + 1) = true := by
  rw [version_eq_zero h]
  decide

theorem AuthorizedProfile.check_new {profile : ProfileV1}
    (hsign : Signs C.toFeedCrypto parameters signingKey)
    (hname : (utf8 profile.name).length ≤ maxNameBytes)
    (hbio : (utf8 profile.bio).length ≤ maxBioBytes) :
    (AuthorizedProfile.new profile signingKey).check C.toFeedCrypto parameters.author = .ok () := by
  rw [check]
  simp only [throw_bind, guard_eq_ok, not_lt]
  exact ⟨hname, hbio, mapErr_eq_ok.mpr (hsign _)⟩

theorem AuthorizedPost.check_new {post : PostV1}
    (hsign : Signs C.toFeedCrypto parameters signingKey)
    (hid : post.id =
      PostId.compute C.toCrypto parameters.author post.time post.content post.inReplyTo)
    (hsize : (utf8 post.content).length ≤ maxPostBytes) :
    (AuthorizedPost.new post signingKey).check C.toFeedCrypto parameters.author = .ok () := by
  rw [check]
  simp only [throw_bind, guard_eq_ok, not_lt, not_not]
  exact ⟨hsize, hid, mapErr_eq_ok.mpr (hsign _)⟩

/-- The records of the old feed respect the limits of the new contract. -/
structure LegacyFeedState.Fits (legacy : LegacyFeedState Cert) : Prop where
  name : (utf8 legacy.profile.profile.name).length ≤ maxNameBytes
  bio : (utf8 legacy.profile.profile.bio).length ≤ maxBioBytes
  follows : legacy.follows.follows.follows.size ≤ maxFollows
  posts : ∀ p ∈ legacy.posts, (utf8 p.post.content).length ≤ maxPostBytes

/-- Ids are not reused: posts of one id, in either feed, are one post. -/
def IdsUnique (legacy : LegacyFeedState Cert) (current : FeedStateV1 Cert) : Prop :=
  ∀ p ∈ legacy.posts ++ current.posts.posts, ∀ q ∈ legacy.posts ++ current.posts.posts,
    p.post.id = q.post.id → p.post = q.post

variable (current) in
theorem checked_migrationUpdate (hsign : Signs C.toFeedCrypto parameters signingKey)
    (hl : legacy.verify C parameters.author parameters.ghostkeyMaster = .ok ())
    (hfits : legacy.Fits) :
    (migrationUpdate signingKey legacy current).Checked C.toFeedCrypto parameters where
  profile p hp := by
    rw [profile_migrationUpdate, Option.ite_none_left_eq_some] at hp
    obtain rfl := Option.some.inj hp.2
    exact AuthorizedProfile.check_new hsign hfits.name hfits.bio
  follows f hf := by
    rw [follows_migrationUpdate, Option.ite_none_left_eq_some] at hf
    obtain rfl := Option.some.inj hf.2
    exact AuthorizedFollows.check_new hsign hfits.follows
  attestation := nofun
  posts p hp := by
    rw [getD_posts_migrationUpdate] at hp
    obtain ⟨q, hq, -, rfl⟩ := mem_postsToMigrate.mp hp
    exact AuthorizedPost.check_new hsign (LegacyFeedState.id_of_verify hl hq) (hfits.posts q hq)

/-! ## What the update leaves -/

variable (C signingKey) in
/-- The feed after the update. -/
def migrated (legacy : LegacyFeedState Cert) (current : FeedStateV1 Cert) : FeedStateV1 Cert :=
  current.applied C.toFeedCrypto (migrationUpdate signingKey legacy current)

theorem profile_migrated :
    (migrated C signingKey legacy current).profile =
      if writtenSinceRotation current.profile.profile.version then current.profile
      else .new { legacy.profile.profile with
        version := current.profile.profile.version + 1 } signingKey := by
  rw [migrated, FeedStateV1.applied, profile_migrationUpdate]
  split
  · rfl
  · rename_i hseed
    rw [Option.elim_some, newer, if_pos]
    exact AuthorizedProfile.lwwKey_lt (lt_succ_of_seed hseed)

theorem follows_migrated :
    (migrated C signingKey legacy current).follows =
      if writtenSinceRotation current.follows.follows.version then current.follows
      else .new ⟨legacy.follows.follows.follows, current.follows.follows.version + 1⟩
        signingKey := by
  rw [migrated, FeedStateV1.applied, follows_migrationUpdate]
  split
  · rfl
  · rename_i hseed
    rw [Option.elim_some, newer, if_pos]
    exact AuthorizedFollows.lwwKey_lt (lt_succ_of_seed hseed)

/-- Nothing of the identity is owed any more: each record was written, before or just now. -/
theorem identityToMigrate_migrated :
    identityToMigrate signingKey legacy (migrated C signingKey legacy current) = (none, none) := by
  have hprofile : writtenSinceRotation
      (migrated C signingKey legacy current).profile.profile.version = true := by
    rw [profile_migrated]
    split
    · assumption
    · rename_i hseed
      exact written_succ_of_seed hseed
  have hfollows : writtenSinceRotation
      (migrated C signingKey legacy current).follows.follows.version = true := by
    rw [follows_migrated]
    split
    · assumption
    · rename_i hseed
      exact written_succ_of_seed hseed
  simp only [identityToMigrate, hprofile, hfollows, if_true]

variable (signingKey) in
/-- The posts that the log of the new feed is chosen from. -/
def candidates (legacy : LegacyFeedState Cert) (current : FeedStateV1 Cert) : List AuthorizedPost :=
  current.posts.posts ++ postsToMigrate signingKey legacy.posts current.posts

theorem posts_migrated : (migrated C signingKey legacy current).posts.posts =
    cappedLog AuthorizedPost.orderKey (·.post.id) maxPosts
      (candidates signingKey legacy current) := by
  rw [migrated, FeedStateV1.applied, getD_posts_migrationUpdate, PostsV1.posts_canonicalize]
  rfl

/-- Among the candidates an id belongs to one entry: a post that is held is not signed again, and the
copies of one post in the old feed are signed alike. -/
theorem candidates_unique (hs : Settled current.posts.posts) (hids : IdsUnique legacy current) :
    ∀ p ∈ candidates signingKey legacy current, ∀ q ∈ candidates signingKey legacy current,
      p.post.id = q.post.id → p = q := by
  intro p hp q hq he
  rcases List.mem_append.mp hp with hp | hp <;> rcases List.mem_append.mp hq with hq | hq
  · have : Std.Symm fun p q : AuthorizedPost => p.post.id ≠ q.post.id := ⟨fun _ _ => Ne.symm⟩
    by_contra hne
    exact hs.unique.forall hp hq hne he
  · obtain ⟨r, -, hnew, rfl⟩ := mem_postsToMigrate.mp hq
    exact absurd he (hnew p hp)
  · obtain ⟨r, -, hnew, rfl⟩ := mem_postsToMigrate.mp hp
    exact absurd he.symm (hnew q hq)
  · obtain ⟨a, ha, -, rfl⟩ := mem_postsToMigrate.mp hp
    obtain ⟨b, hb, -, rfl⟩ := mem_postsToMigrate.mp hq
    have hpost : a.post = b.post :=
      hids a (List.mem_append_left _ ha) b (List.mem_append_left _ hb) he
    rw [hpost]

variable (signingKey) in
/-- Every post of either feed is among the candidates: as it is held, or signed again. -/
theorem exists_candidate (hids : IdsUnique legacy current)
    (hp : p ∈ legacy.posts ++ current.posts.posts) :
    ∃ q ∈ candidates signingKey legacy current,
      q.post = p.post ∧ (p ∈ current.posts.posts → q = p) := by
  by_cases hcur : p ∈ current.posts.posts
  · exact ⟨p, List.mem_append_left _ hcur, rfl, fun _ => rfl⟩
  · have hleg := (List.mem_append.mp hp).resolve_right hcur
    by_cases hheld : ∃ r ∈ current.posts.posts, r.post.id = p.post.id
    · obtain ⟨r, hr, he⟩ := hheld
      exact ⟨r, List.mem_append_left _ hr, hids r (List.mem_append_right _ hr) p hp he,
        fun h => absurd h hcur⟩
    · refine ⟨.new p.post signingKey, List.mem_append_right _ (mem_postsToMigrate.mpr ?_), rfl,
        fun h => absurd h hcur⟩
      exact ⟨p, hleg, fun r hr he => hheld ⟨r, hr, he⟩, rfl⟩

/-- A post that is not carried over, or not kept, is older than all that are, of which there are as
many as fit. -/
theorem carried_or_older (hs : Settled current.posts.posts) (hids : IdsUnique legacy current)
    (hp : p ∈ legacy.posts ++ current.posts.posts) :
    (∃ q ∈ (migrated C signingKey legacy current).posts.posts,
        q.post = p.post ∧ (p ∈ current.posts.posts → q = p)) ∨
      (migrated C signingKey legacy current).posts.posts.length = maxPosts ∧
        ∀ q ∈ (migrated C signingKey legacy current).posts.posts, p.orderKey < q.orderKey := by
  obtain ⟨q, hq, he⟩ := exists_candidate signingKey hids hp
  by_cases hkept : q ∈ (migrated C signingKey legacy current).posts.posts
  · exact .inl ⟨q, hkept, he⟩
  · have hkey : q.orderKey = p.orderKey := by
      rw [AuthorizedPost.orderKey, AuthorizedPost.orderKey, he.1]
    rw [posts_migrated] at hkept ⊢
    rw [← hkey]
    exact .inr (lt_of_notMem_cappedLog PostsV1.id_of_orderKey (candidates_unique hs hids) hq hkept)

/-- **The migration of a feed, end to end.** -/
theorem migration_carries
    (hl : legacy.verify C parameters.author parameters.ghostkeyMaster = .ok ())
    (hfits : legacy.Fits) (hc : current.verify C.toFeedCrypto parameters = .ok ())
    (hids : IdsUnique legacy current) (hsign : Signs C.toFeedCrypto parameters signingKey) :
    ∃ result, current.applyDelta C.toFeedCrypto parameters
        (some (migrationUpdate signingKey legacy current)) = (.ok (), result) ∧
      result.verify C.toFeedCrypto parameters = .ok () ∧
      identityToMigrate signingKey legacy result = (none, none) ∧
      (0 < current.profile.profile.version → result.profile = current.profile) ∧
      (0 < current.follows.follows.version → result.follows = current.follows) ∧
      ∀ p ∈ legacy.posts ++ current.posts.posts,
        (∃ q ∈ result.posts.posts, q.post = p.post ∧ (p ∈ current.posts.posts → q = p)) ∨
        result.posts.posts.length = maxPosts ∧
          ∀ q ∈ result.posts.posts, p.orderKey < q.orderKey := by
  have hv := FeedStateV1.verify_iff.mp hc
  have hd := checked_migrationUpdate current hsign hl hfits
  refine ⟨migrated C signingKey legacy current, FeedStateV1.applyDelta_eq_ok.mpr ⟨hd, rfl⟩,
    FeedStateV1.verify_iff.mpr (hv.applied hd ?_), identityToMigrate_migrated, fun h => ?_,
    fun h => ?_, fun p hp => carried_or_older hv.settled hids hp⟩
  · rw [getD_posts_migrationUpdate]
    intro p hp q hq he
    rw [candidates_unique hv.settled hids p hp q hq he]
  · have hw : writtenSinceRotation current.profile.profile.version = true := decide_eq_true h
    rw [profile_migrated, if_pos hw]
  · have hw : writtenSinceRotation current.follows.follows.version = true := decide_eq_true h
    rw [follows_migrated, if_pos hw]

namespace Sample

def legacyCrypto : LegacyCrypto VerifyingKey where
  toFeedCrypto := feedCrypto
  cborPostV1 p := p.id.toList ++ utf8 p.content ++ leBytes 8 p.time
  cborProfileV1 p := utf8 p.bio ++ utf8 p.name ++ leBytes 4 p.version
  cborFollowsV1 f := f.follows.toList.flatMap Bytes.toList ++ leBytes 4 f.version

/-- An old feed with two posts, the first of them twice. -/
def leftFeed : LegacyFeedState VerifyingKey :=
  ⟨⟨⟨"old", "", 3⟩, sign 5 0⟩, ⟨⟨∅, 7⟩, sign 5 0⟩, none,
    [post 1 "one" none, post 2 "two" none, post 1 "one" none]⟩

end Sample

open Sample in
theorem migration_carries_two : ∃ result,
    (Sample.feed 2 [post 2 "two" none]).applyDelta feedCrypto feedOwner
      (some (migrationUpdate (fun _ => sign 5 0) leftFeed (Sample.feed 2 [post 2 "two" none]))) =
        (.ok (), result) ∧
    result.verify feedCrypto feedOwner = .ok () ∧
    result.profile = (Sample.feed 2 []).profile := by
  have hids : IdsUnique leftFeed (Sample.feed 2 [post 2 "two" none]) := by
    unfold IdsUnique
    decide +kernel
  have hold : leftFeed.verify legacyCrypto feedOwner.author feedOwner.ghostkeyMaster = .ok () := by
    decide +kernel
  have hnew : (Sample.feed 2 [post 2 "two" none]).verify legacyCrypto.toFeedCrypto feedOwner =
      .ok () := by
    decide +kernel
  have hfits : leftFeed.Fits :=
    ⟨by decide +kernel, by decide +kernel, by decide +kernel, by decide +kernel⟩
  obtain ⟨result, hok, hv, -, hprofile, -⟩ := migration_carries hold hfits hnew hids signs
  exact ⟨result, hok, hv, hprofile (by decide)⟩

end Freebird
