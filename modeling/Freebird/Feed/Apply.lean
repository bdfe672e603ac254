import Freebird.Feed.State
import Freebird.Retention.Logs

/-!
# What `verify` accepts and what `apply_delta` does

Each component of a feed passes its own check, and the posts are a log in canonical form
(`verify_iff`). A delta applies exactly if what it carries passes (`Checked`); the three records are
then the newer ones, and the posts those the log keeps (`applyDelta_eq_ok`).
-/

namespace Freebird

open Register Retention

variable {Cert : Type} {C : FeedCrypto Cert} {parameters : FeedParametersV1}

/-! ## Records -/

theorem applyRecord_eq_ok {check : α → Except String Unit} {key : α → VersionKey} {self self' : α}
    {delta : Option α} : applyRecord check key self delta = (.ok (), self') ↔
      (∀ d, delta = some d → check d = .ok ()) ∧ self' = delta.elim self (newer key self) := by
  cases delta with
  | none => simp [applyRecord, eq_comm]
  | some d =>
    simp only [applyRecord, Option.some.injEq, forall_eq', Option.elim_some]
    cases check d <;> simp [eq_comm]

/-- Whichever record is the newer one, it passes the check that both pass. -/
theorem check_newer {f : α → Except String Unit} {key : α → VersionKey} {self : α}
    {delta : Option α} (hs : f self = .ok ()) (hd : ∀ d, delta = some d → f d = .ok ()) :
    f (delta.elim self (newer key self)) = .ok () := by
  cases delta with
  | none => exact hs
  | some d =>
    rw [Option.elim_some]
    rcases newer_eq_or key self d with h | h
    · rw [h]; exact hs
    · rw [h]; exact hd d rfl

namespace AttestationSlot

variable {self self' : AttestationSlot Cert} {delta : Option (AttestationV2 Cert)}

variable (C) in
/-- The order of the attestations, with the empty slot below all of them. -/
def key : AttestationSlot Cert → WithBot (Bytes 32)
  | none => ⊥
  | some att => (att.contentHash C.toCrypto : Bytes 32)

@[simp] theorem key_none : key C (none : AttestationSlot Cert) = ⊥ := rfl

@[simp] theorem key_some (att : AttestationV2 Cert) :
    key C (some att) = (att.contentHash C.toCrypto : Bytes 32) := rfl

theorem key_eq_bot : key C self = ⊥ ↔ self = none := by
  cases self with
  | none => simp
  | some att => exact iff_of_false (WithBot.coe_ne_bot) nofun

variable (C parameters) in
/-- The attestation is genuine and the author's. -/
def Genuine (att : AttestationV2 Cert) : Prop :=
  ∃ tier, att.verify C.toCrypto parameters.author parameters.ghostkeyMaster = .ok tier

theorem verify_eq_ok : self.verify C parameters = .ok () ↔
    ∀ att, self = some att → Genuine C parameters att := by
  cases self with
  | none => simp [verify]
  | some att =>
    simp only [verify, Genuine, Option.some.injEq, forall_eq']
    cases att.verify C.toCrypto parameters.author parameters.ghostkeyMaster <;> simp [Except.map]

/-- A slot is a register. -/
theorem applyDelta_eq_ok : self.applyDelta C parameters delta = (.ok (), self') ↔
    (∀ att, delta = some att → Genuine C parameters att) ∧
      self' = delta.elim self fun att => newer (key C) self (some att) := by
  cases delta with
  | none => simp [applyDelta, eq_comm]
  | some att =>
    have hnewer : (if self.all fun current =>
        current.contentHash C.toCrypto < att.contentHash C.toCrypto then some att else self) =
          newer (key C) self (some att) := by
      cases self with
      | none => simp [newer]
      | some current => simp [newer]
    simp only [applyDelta, Genuine, hnewer, Option.some.injEq, forall_eq', Option.elim_some]
    cases att.verify C.toCrypto parameters.author parameters.ghostkeyMaster <;> simp [eq_comm]

theorem delta_eq_none_iff {other : AttestationSlot Cert} :
    other.delta C (self.summarize C) = none ↔ key C other ≤ key C self := by
  cases other with
  | none => simp [delta]
  | some mine => cases self <;> simp [delta, summarize]

theorem mem_delta {old : Option (Bytes 32)} {att : AttestationV2 Cert}
    (h : self.delta C old = some att) : self = some att := by
  cases self with
  | none => simp [delta] at h
  | some mine =>
    cases old with
    | none => simpa [delta] using h
    | some theirs =>
      simp only [delta] at h
      split at h
      · exact h
      · cases h

/-- A slot takes from another one what that one sends. -/
theorem newer_delta (self other : AttestationSlot Cert) :
    ((other.delta C (self.summarize C)).elim self fun att => newer (key C) self (some att)) =
      newer (key C) self other := by
  cases other with
  | none => simp [delta, newer]
  | some mine =>
    cases self with
    | none => simp [delta, summarize]
    | some theirs =>
      simp only [delta, summarize, Option.map_some, newer, key_some, WithBot.coe_lt_coe]
      split <;> simp_all

end AttestationSlot

/-! ## Posts -/

namespace PostsV1

open AuthorizedPost

variable {self self' : PostsV1} {ps : List AuthorizedPost} {p q : AuthorizedPost}

theorem id_of_orderKey (p q : AuthorizedPost) (h : p.orderKey = q.orderKey) :
    p.post.id = q.post.id := congrArg (fun k => (ofLex k).2) h

/-- Posts of one id were written at one time. -/
def SameTime (ps : List AuthorizedPost) : Prop :=
  ∀ p ∈ ps, ∀ q ∈ ps, p.post.id = q.post.id → p.post.time = q.post.time

/-- A log of posts in canonical form. -/
structure Settled (ps : List AuthorizedPost) : Prop where
  ascending : Ascending orderKey ps
  unique : ps.Pairwise fun p q => p.post.id ≠ q.post.id
  length_le : ps.length ≤ maxPosts

theorem canonicalize_eq (ps : List AuthorizedPost) :
    canonicalize ⟨ps⟩ = ⟨cappedLog orderKey (·.post.id) maxPosts ps⟩ := rfl

theorem posts_canonicalize (self : PostsV1) :
    self.canonicalize.posts = cappedLog orderKey (·.post.id) maxPosts self.posts := by
  obtain ⟨ps⟩ := self
  rw [canonicalize_eq]

theorem canonicalize_canonicalize (self : PostsV1) :
    self.canonicalize.canonicalize = self.canonicalize := by
  obtain ⟨ps⟩ := self
  simp only [canonicalize_eq, cappedLog_cappedLog id_of_orderKey]

theorem mem_of_mem_canonicalize (hp : p ∈ self.canonicalize.posts) : p ∈ self.posts := by
  rw [posts_canonicalize] at hp
  exact mem_of_mem_cappedLog hp

/-- The posts of a delta are the sender's. -/
theorem mem_of_mem_delta {old : PostsSummary} (hp : p ∈ (self.delta old).getD []) :
    p ∈ self.posts := by
  simp only [delta] at hp
  split at hp
  · cases hp
  · exact (List.mem_filter.mp (List.mem_filter.mp hp).1).1

/-- An ascending log names no id twice. -/
theorem unique_of_ascending (h : Ascending orderKey ps) (hps : SameTime ps) :
    ps.Pairwise fun p q => p.post.id ≠ q.post.id := by
  refine List.Pairwise.imp_of_mem (fun {p q} hp hq hlt he => hlt.ne ?_) h
  rw [orderKey, orderKey, hps p hp q hq he, he]

theorem ascending_canonicalize (self : PostsV1) : Ascending orderKey self.canonicalize.posts := by
  rw [posts_canonicalize]
  exact ascending_cappedLog id_of_orderKey _

theorem settled_canonicalize (h : SameTime self.posts) : Settled self.canonicalize.posts where
  ascending := ascending_canonicalize self
  unique := unique_of_ascending (ascending_canonicalize self) fun p hp q hq =>
    h p (mem_of_mem_canonicalize hp) q (mem_of_mem_canonicalize hq)
  length_le := by
    rw [posts_canonicalize]
    exact length_cappedLog_le _

namespace Settled

theorem canonicalize_eq (h : Settled ps) : canonicalize ⟨ps⟩ = ⟨ps⟩ := by
  rw [PostsV1.canonicalize_eq, cappedLog_eq_self h.ascending h.unique.isChain h.length_le]

theorem sublist {qs : List AuthorizedPost} (h : Settled ps) (hs : qs.Sublist ps) : Settled qs :=
  ⟨h.ascending.sublist hs, h.unique.sublist hs, hs.length_le.trans h.length_le⟩

end Settled

theorem verifySorted_eq_ok :
    verifySorted ps = .ok () ↔ ps.Pairwise fun p q => p.orderKey ≤ q.orderKey :=
  windows_eq_ok rfl (fun _ => rfl) fun _ _ _ => rfl

theorem verifyEach_eq_ok {author : VerifyingKey} {seen : Std.ExtTreeSet PostId compare} :
    verifyEach C author ps seen = .ok () ↔
      (∀ p ∈ ps, p.check C author = .ok () ∧ p.post.id ∉ seen) ∧
        ps.Pairwise fun p q => p.post.id ≠ q.post.id := by
  induction ps generalizing seen with
  | nil => simp [verifyEach]
  | cons p ps ih =>
    rw [verifyEach]
    simp only [seq_eq_ok, throw_bind, guard_eq_ok, ih, List.forall_mem_cons, List.pairwise_cons,
      Std.ExtTreeSet.mem_insert, compare_eq_iff_eq, not_or]
    constructor
    · rintro ⟨hp, hseen, hps, hu⟩
      exact ⟨⟨⟨hp, hseen⟩, fun q hq => ⟨(hps q hq).1, (hps q hq).2.2⟩⟩, fun q hq => (hps q hq).2.1, hu⟩
    · rintro ⟨⟨⟨hp, hseen⟩, hps⟩, hne, hu⟩
      exact ⟨hp, hseen, fun q hq => ⟨(hps q hq).1, hne q hq, (hps q hq).2⟩, hu⟩

theorem verify_eq_ok : self.verify C parameters = .ok () ↔
    Settled self.posts ∧ ∀ p ∈ self.posts, p.check C parameters.author = .ok () := by
  simp only [verify, throw_bind, guard_eq_ok, seq_eq_ok, not_lt, verifySorted_eq_ok,
    verifyEach_eq_ok, Std.ExtTreeSet.not_mem_empty, not_false_eq_true, and_true]
  constructor
  · rintro ⟨hlen, hle, hcheck, hu⟩
    exact ⟨⟨ascending_of_isChain id_of_orderKey hle hu.isChain, hu, hlen⟩, hcheck⟩
  · rintro ⟨hs, hcheck⟩
    exact ⟨hs.length_le, hs.ascending.imp le_of_lt, hcheck, hs.unique⟩

theorem applyDelta_eq_ok {delta : Option (List AuthorizedPost)} :
    self.applyDelta C parameters delta = (.ok (), self') ↔
      (∀ p ∈ delta.getD [], p.check C parameters.author = .ok ()) ∧
        self' = delta.elim self fun ps => canonicalize ⟨self.posts ++ ps⟩ := by
  cases delta with
  | none => simp [applyDelta, eq_comm]
  | some ps =>
    simp only [applyDelta, Option.getD_some, ← forM_eq_ok, Option.elim_some]
    cases ps.forM fun p => p.check C parameters.author <;> simp [eq_comm]

end PostsV1

/-! ## The state -/

variable (C) in
/-- What a delta carries passes its check. -/
structure FeedStateV1Delta.Checked (parameters : FeedParametersV1) (d : FeedStateV1Delta Cert) :
    Prop where
  profile : ∀ p, d.profile = some p → p.check C parameters.author = .ok ()
  follows : ∀ f, d.follows = some f → f.check C parameters.author = .ok ()
  attestation : ∀ att, d.attestation = some att → AttestationSlot.Genuine C parameters att
  posts : ∀ p ∈ d.posts.getD [], p.check C parameters.author = .ok ()

namespace FeedStateV1

variable {s s' : FeedStateV1 Cert} {d : FeedStateV1Delta Cert}

variable (C) in
/-- The states `verify` accepts. -/
structure Valid (parameters : FeedParametersV1) (s : FeedStateV1 Cert) : Prop where
  profile : s.profile.check C parameters.author = .ok ()
  follows : s.follows.check C parameters.author = .ok ()
  attestation : ∀ att, s.attestation = some att → AttestationSlot.Genuine C parameters att
  settled : PostsV1.Settled s.posts.posts
  checked : ∀ p ∈ s.posts.posts, p.check C parameters.author = .ok ()

theorem verify_iff : s.verify C parameters = .ok () ↔ s.Valid C parameters := by
  simp only [verify, seq_eq_ok, AttestationSlot.verify_eq_ok, PostsV1.verify_eq_ok]
  constructor
  · rintro ⟨hp, hf, ha, hs, hc⟩
    exact ⟨hp, hf, ha, hs, hc⟩
  · rintro ⟨hp, hf, ha, hs, hc⟩
    exact ⟨hp, hf, ha, hs, hc⟩

variable (C) in
/-- What a delta leaves. -/
def applied (s : FeedStateV1 Cert) (d : FeedStateV1Delta Cert) : FeedStateV1 Cert where
  profile := d.profile.elim s.profile (newer (AuthorizedProfile.lwwKey C) s.profile)
  follows := d.follows.elim s.follows (newer (AuthorizedFollows.lwwKey C) s.follows)
  attestation := d.attestation.elim s.attestation fun att =>
    newer (AttestationSlot.key C) s.attestation (some att)
  posts := PostsV1.canonicalize ⟨s.posts.posts ++ d.posts.getD []⟩

/-- **`apply_delta`, exactly**: it succeeds on the deltas that pass their checks. -/
theorem applyDelta_eq_ok : s.applyDelta C parameters (some d) = (.ok (), s') ↔
    d.Checked C parameters ∧ s' = s.applied C d := by
  have hposts : (d.posts.elim s.posts fun ps =>
      PostsV1.canonicalize ⟨s.posts.posts ++ ps⟩).canonicalize =
        PostsV1.canonicalize ⟨s.posts.posts ++ d.posts.getD []⟩ := by
    cases d.posts with
    | none => simp
    | some ps => exact PostsV1.canonicalize_canonicalize _
  constructor
  · intro h
    simp only [applyDelta] at h
    split at h
    · simp at h
    · rename_i profile hprofile
      split at h
      · simp at h
      · rename_i follows hfollows
        split at h
        · simp at h
        · rename_i attestation hatt
          split at h
          · simp at h
          · rename_i posts hps
            obtain ⟨hp, rfl⟩ := applyRecord_eq_ok.mp hprofile
            obtain ⟨hf, rfl⟩ := applyRecord_eq_ok.mp hfollows
            obtain ⟨ha, rfl⟩ := AttestationSlot.applyDelta_eq_ok.mp hatt
            obtain ⟨hc, rfl⟩ := PostsV1.applyDelta_eq_ok.mp hps
            refine ⟨⟨hp, hf, ha, hc⟩, ?_⟩
            rw [← (Prod.mk.inj h).2, applied, ← hposts]
            rfl
  · rintro ⟨hd, rfl⟩
    have hprofile : s.profile.applyDelta C parameters d.profile = (.ok (), (s.applied C d).profile) :=
      applyRecord_eq_ok.mpr ⟨hd.profile, rfl⟩
    have hfollows : s.follows.applyDelta C parameters d.follows = (.ok (), (s.applied C d).follows) :=
      applyRecord_eq_ok.mpr ⟨hd.follows, rfl⟩
    have hatt : s.attestation.applyDelta C parameters d.attestation =
        (.ok (), (s.applied C d).attestation) :=
      AttestationSlot.applyDelta_eq_ok.mpr ⟨hd.attestation, rfl⟩
    have hps : s.posts.applyDelta C parameters d.posts = (.ok (), d.posts.elim s.posts _) :=
      PostsV1.applyDelta_eq_ok.mpr ⟨hd.posts, rfl⟩
    simp only [applyDelta, hprofile, hfollows, hatt, hps, postApplyCleanup, hposts]
    rfl

/-- **`apply_delta` preserves validity**, where posts of one id were written at one time. -/
theorem Valid.applied (hs : s.Valid C parameters) (hd : d.Checked C parameters)
    (htime : PostsV1.SameTime (s.posts.posts ++ d.posts.getD [])) :
    (s.applied C d).Valid C parameters where
  profile := check_newer (f := (AuthorizedProfile.check C · parameters.author)) hs.profile hd.profile
  follows := check_newer (f := (AuthorizedFollows.check C · parameters.author)) hs.follows hd.follows
  attestation att h := by
    change d.attestation.elim s.attestation _ = some att at h
    cases hatt : d.attestation with
    | none =>
      rw [hatt, Option.elim_none] at h
      exact hs.attestation att h
    | some incoming =>
      rw [hatt, Option.elim_some] at h
      rcases newer_eq_or (AttestationSlot.key C) s.attestation (some incoming) with hn | hn
      · exact hs.attestation att (hn ▸ h)
      · obtain rfl := Option.some.inj (hn.symm.trans h)
        exact hd.attestation _ hatt
  settled := PostsV1.settled_canonicalize htime
  checked p hp := by
    rcases List.mem_append.mp (PostsV1.mem_of_mem_canonicalize hp) with hp | hp
    · exact hs.checked p hp
    · exact hd.posts p hp

end FeedStateV1

end Freebird
