import Freebird.Feed.Convergence

/-!
# What a rejected delta leaves of a feed

The fields of a feed are updated one after another, and the first one that fails stops the update
where it is. What is there by then is what a delta with the fields before it would have left
(`applyDelta_leading`), so a browser that keeps it holds a verified feed still. The rejected delta
leaves no trace exactly if none of those fields is newer than what is held (`reject_leading`).
-/

namespace Freebird

open Register

variable {Cert : Type} {C : FeedCrypto Cert} {parameters : FeedParametersV1}

/-! ## The part of a delta before it fails -/

namespace FeedStateV1Delta

variable {d : FeedStateV1Delta Cert}

section
variable (C parameters) (d : FeedStateV1Delta Cert)

def profilePasses : Bool := d.profile.all fun p => (p.check C parameters.author).isOk

def followsPasses : Bool := d.follows.all fun f => (f.check C parameters.author).isOk

def attestationPasses : Bool :=
  d.attestation.all fun att => (AttestationSlot.verify C (some att) parameters).isOk

def postsPass : Bool := d.posts.all fun ps => ps.all fun p => (p.check C parameters.author).isOk

/-- The fields before the first one that fails, in the order of `apply_delta`. -/
def leading : FeedStateV1Delta Cert :=
  if !d.profilePasses C parameters then ⟨none, none, none, none⟩
  else if !d.followsPasses C parameters then ⟨d.profile, none, none, none⟩
  else if !d.attestationPasses C parameters then ⟨d.profile, d.follows, none, none⟩
  else if !d.postsPass C parameters then ⟨d.profile, d.follows, d.attestation, none⟩
  else d

end

theorem isOk_iff {x : Except ε Unit} : x.isOk = true ↔ x = .ok () := by
  cases x <;> simp [Except.isOk, Except.toBool]

theorem profilePasses_iff : d.profilePasses C parameters = true ↔
    ∀ p, d.profile = some p → p.check C parameters.author = .ok () := by
  simp only [profilePasses, Option.all_eq_true, isOk_iff]

theorem followsPasses_iff : d.followsPasses C parameters = true ↔
    ∀ f, d.follows = some f → f.check C parameters.author = .ok () := by
  simp only [followsPasses, Option.all_eq_true, isOk_iff]

theorem attestationPasses_iff : d.attestationPasses C parameters = true ↔
    ∀ att, d.attestation = some att → AttestationSlot.Genuine C parameters att := by
  simp only [attestationPasses, Option.all_eq_true, isOk_iff, AttestationSlot.verify_eq_ok,
    Option.some.injEq, forall_eq']

theorem postsPass_iff : d.postsPass C parameters = true ↔
    ∀ p ∈ d.posts.getD [], p.check C parameters.author = .ok () := by
  cases hposts : d.posts <;> simp [postsPass, hposts, isOk_iff]

theorem checked_iff_passes : d.Checked C parameters ↔ d.profilePasses C parameters = true ∧
    d.followsPasses C parameters = true ∧ d.attestationPasses C parameters = true ∧
      d.postsPass C parameters = true := by
  rw [profilePasses_iff, followsPasses_iff, attestationPasses_iff, postsPass_iff]
  exact ⟨fun h => ⟨h.profile, h.follows, h.attestation, h.posts⟩,
    fun ⟨hp, hf, ha, hps⟩ => ⟨hp, hf, ha, hps⟩⟩

/-- The leading fields pass their checks. -/
theorem leading_checked : (d.leading C parameters).Checked C parameters := by
  rw [leading]
  split
  · exact ⟨nofun, nofun, nofun, nofun⟩
  · rename_i hp
    rw [Bool.not_eq_true', Bool.not_eq_false, profilePasses_iff] at hp
    split
    · exact ⟨hp, nofun, nofun, nofun⟩
    · rename_i hf
      rw [Bool.not_eq_true', Bool.not_eq_false, followsPasses_iff] at hf
      split
      · exact ⟨hp, hf, nofun, nofun⟩
      · rename_i ha
        rw [Bool.not_eq_true', Bool.not_eq_false, attestationPasses_iff] at ha
        split
        · exact ⟨hp, hf, ha, nofun⟩
        · rename_i hps
          rw [Bool.not_eq_true', Bool.not_eq_false, postsPass_iff] at hps
          exact ⟨hp, hf, ha, hps⟩

/-- The leading fields are fields of the delta. -/
theorem mem_records_leading {x : FeedRecord Cert} (h : x ∈ (d.leading C parameters).records) :
    x ∈ d.records := by
  rw [leading] at h
  split at h
  · exact absurd h List.not_mem_nil
  · split at h
    · simp only [records, Option.toList_none, List.map_nil, List.append_nil, Option.getD_none] at h
      simp only [records, List.mem_append, h, true_or]
    · split at h
      · simp only [records, Option.toList_none, List.map_nil, List.append_nil, Option.getD_none] at h
        rw [records, List.mem_append, List.mem_append]
        exact .inl (.inl h)
      · split at h
        · simp only [records, List.map_nil, List.append_nil, Option.getD_none] at h
          rw [records, List.mem_append]
          exact .inl h
        · exact h

theorem leading_eq_self (h : d.Checked C parameters) : d.leading C parameters = d := by
  obtain ⟨hp, hf, ha, hps⟩ := checked_iff_passes.mp h
  simp only [leading, hp, hf, ha, hps, Bool.not_true, Bool.false_eq_true, if_false]

end FeedStateV1Delta

/-! ## What is left -/

theorem applyRecord_error {check : α → Except String Unit} {key : α → VersionKey} {self : α}
    {delta : Option α} (h : delta.all (fun x => (check x).isOk) = false) :
    ∃ e, applyRecord check key self delta = (.error e, self) := by
  cases delta with
  | none => cases h
  | some x =>
    rw [Option.all_some] at h
    cases hx : check x with
    | ok => rw [hx] at h; cases h
    | error e => exact ⟨e, by rw [applyRecord, hx]⟩

theorem AttestationSlot.applyDelta_fails {self : AttestationSlot Cert}
    {delta : Option (AttestationV2 Cert)}
    (h : delta.all (fun att => (AttestationSlot.verify C (some att) parameters).isOk) = false) :
    ∃ e, self.applyDelta C parameters delta = (.error e, self) := by
  cases delta with
  | none => cases h
  | some att =>
    rw [Option.all_some, verify] at h
    cases hatt : att.verify C.toCrypto parameters.author parameters.ghostkeyMaster with
    | ok => rw [hatt] at h; cases h
    | error e => exact ⟨e, by rw [applyDelta, hatt]⟩

theorem PostsV1.applyDelta_fails {self : PostsV1} {delta : Option (List AuthorizedPost)}
    (h : delta.all (fun ps => ps.all fun p => (p.check C parameters.author).isOk) = false) :
    ∃ e, self.applyDelta C parameters delta = (.error e, self) := by
  cases delta with
  | none => cases h
  | some ps =>
    cases hps : ps.forM fun p => p.check C parameters.author with
    | error e => exact ⟨e, by rw [applyDelta, hps]⟩
    | ok =>
      rw [forM_eq_ok] at hps
      rw [Option.all_some, List.all_eq_false] at h
      obtain ⟨p, hp, hfail⟩ := h
      exact absurd (FeedStateV1Delta.isOk_iff.mpr (hps p hp)) hfail

namespace FeedStateV1

open FeedStateV1Delta

variable {s s' : FeedStateV1 Cert} {d : FeedStateV1Delta Cert}

/-- A delta without posts leaves the posts as they are. -/
theorem applied_of_no_posts (hs : PostsV1.Settled s.posts.posts) (hd : d.posts = none) :
    s.applied C d = { s with
      profile := d.profile.elim s.profile (newer (AuthorizedProfile.lwwKey C) s.profile)
      follows := d.follows.elim s.follows (newer (AuthorizedFollows.lwwKey C) s.follows)
      attestation := d.attestation.elim s.attestation fun att =>
        newer (AttestationSlot.key C) s.attestation (some att) } := by
  have hposts : PostsV1.canonicalize ⟨s.posts.posts ++ d.posts.getD []⟩ = s.posts := by
    rw [hd, Option.getD_none, List.append_nil, hs.canonicalize_eq]
  rw [applied, hposts]

theorem passing_profile (hp : d.profilePasses C parameters = true) :
    s.profile.applyDelta C parameters d.profile = (.ok (), (s.applied C d).profile) :=
  applyRecord_eq_ok.mpr ⟨profilePasses_iff.mp hp, rfl⟩

theorem passing_follows (hf : d.followsPasses C parameters = true) :
    s.follows.applyDelta C parameters d.follows = (.ok (), (s.applied C d).follows) :=
  applyRecord_eq_ok.mpr ⟨followsPasses_iff.mp hf, rfl⟩

theorem passing_attestation (ha : d.attestationPasses C parameters = true) :
    s.attestation.applyDelta C parameters d.attestation = (.ok (), (s.applied C d).attestation) :=
  AttestationSlot.applyDelta_eq_ok.mpr ⟨attestationPasses_iff.mp ha, rfl⟩

/-- **A rejected delta is applied up to the field that fails.** -/
theorem applyDelta_leading (parameters : FeedParametersV1) (hs : PostsV1.Settled s.posts.posts)
    (d : FeedStateV1Delta Cert) :
    ∃ r, s.applyDelta C parameters (some d) = (r, s.applied C (d.leading C parameters)) ∧
      (r = .ok () ↔ d.Checked C parameters) := by
  rw [checked_iff_passes]
  cases hp : d.profilePasses C parameters with
  | false =>
    obtain ⟨e, hprofile⟩ : ∃ e, s.profile.applyDelta C parameters d.profile =
        (.error e, s.profile) := applyRecord_error hp
    have hleading : d.leading C parameters = ⟨none, none, none, none⟩ := by
      simp only [leading, hp]
      rfl
    refine ⟨.error e, ?_, iff_of_false nofun fun h => by simp at h⟩
    rw [hleading, applied_of_no_posts hs rfl]
    simp only [applyDelta, hprofile]
    rfl
  | true =>
    have hprofile := passing_profile (s := s) hp
    cases hf : d.followsPasses C parameters with
    | false =>
      obtain ⟨e, hfollows⟩ : ∃ e, s.follows.applyDelta C parameters d.follows =
          (.error e, s.follows) := applyRecord_error hf
      have hleading : d.leading C parameters = ⟨d.profile, none, none, none⟩ := by
        simp only [leading, hp, hf]
        rfl
      refine ⟨.error e, ?_, iff_of_false nofun fun h => by simp at h⟩
      rw [hleading, applied_of_no_posts hs rfl]
      simp only [applyDelta, hprofile, hfollows]
      rfl
    | true =>
      have hfollows := passing_follows (s := s) hf
      cases ha : d.attestationPasses C parameters with
      | false =>
        obtain ⟨e, hatt⟩ : ∃ e, s.attestation.applyDelta C parameters d.attestation =
            (.error e, s.attestation) := AttestationSlot.applyDelta_fails ha
        have hleading : d.leading C parameters = ⟨d.profile, d.follows, none, none⟩ := by
          simp only [leading, hp, hf, ha]
          rfl
        refine ⟨.error e, ?_, iff_of_false nofun fun h => by simp at h⟩
        rw [hleading, applied_of_no_posts hs rfl]
        simp only [applyDelta, hprofile, hfollows, hatt]
        rfl
      | true =>
        have hatt := passing_attestation (s := s) ha
        cases hps : d.postsPass C parameters with
        | false =>
          obtain ⟨e, hposts⟩ : ∃ e, s.posts.applyDelta C parameters d.posts =
              (.error e, s.posts) := PostsV1.applyDelta_fails hps
          have hleading : d.leading C parameters = ⟨d.profile, d.follows, d.attestation, none⟩ := by
            simp only [leading, hp, hf, ha, hps]
            rfl
          refine ⟨.error e, ?_, iff_of_false nofun fun h => by simp at h⟩
          rw [hleading, applied_of_no_posts hs rfl]
          simp only [applyDelta, hprofile, hfollows, hatt, hposts]
          rfl
        | true =>
          have hd : d.Checked C parameters := checked_iff_passes.mpr ⟨hp, hf, ha, hps⟩
          refine ⟨.ok (), ?_, iff_of_true rfl (by simp)⟩
          rw [leading_eq_self hd]
          exact applyDelta_eq_ok.mpr ⟨hd, rfl⟩

theorem posts_leading (hd : ¬ d.Checked C parameters) : (d.leading C parameters).posts = none := by
  rw [checked_iff_passes] at hd
  rw [leading]
  split
  · rfl
  · rename_i hp
    split
    · rfl
    · rename_i hf
      split
      · rfl
      · rename_i ha
        split
        · rfl
        · rename_i hps
          simp only [Bool.not_eq_true', Bool.not_eq_false] at hp hf ha hps
          exact absurd ⟨hp, hf, ha, hps⟩ hd

variable (C) in
/-- None of the three records of a delta is newer than the one that is held. -/
structure Outdates (s : FeedStateV1 Cert) (d : FeedStateV1Delta Cert) : Prop where
  profile : ∀ p, d.profile = some p → p.lwwKey C ≤ s.profile.lwwKey C
  follows : ∀ f, d.follows = some f → f.lwwKey C ≤ s.follows.lwwKey C
  attestation : ∀ att, d.attestation = some att →
    AttestationSlot.key C (some att) ≤ AttestationSlot.key C s.attestation

theorem elim_newer_eq_self_iff [LinearOrder κ] {key : α → κ} {self : α} {delta : Option α} :
    delta.elim self (newer key self) = self ↔ ∀ x, delta = some x → key x ≤ key self := by
  cases delta with
  | none => simp
  | some x =>
    simp only [Option.elim_some, Option.some.injEq, forall_eq']
    exact newer_eq_left_iff

/-- A delta without posts changes nothing exactly if nothing in it is newer. -/
theorem applied_eq_self_iff (hs : PostsV1.Settled s.posts.posts) (hd : d.posts = none) :
    s.applied C d = s ↔ s.Outdates C d := by
  have hattestation : (d.attestation.elim s.attestation fun att =>
      newer (AttestationSlot.key C) s.attestation (some att)) = s.attestation ↔
        ∀ att, d.attestation = some att →
          AttestationSlot.key C (some att) ≤ AttestationSlot.key C s.attestation := by
    cases d.attestation with
    | none => simp
    | some att =>
      simp only [Option.elim_some, Option.some.injEq, forall_eq']
      exact newer_eq_left_iff
  rw [applied_of_no_posts hs hd]
  constructor
  · intro h
    exact ⟨elim_newer_eq_self_iff.mp (congrArg profile h),
      elim_newer_eq_self_iff.mp (congrArg FeedStateV1.follows h),
      hattestation.mp (congrArg FeedStateV1.attestation h)⟩
  · intro h
    rw [elim_newer_eq_self_iff.mpr h.profile, elim_newer_eq_self_iff.mpr h.follows,
      hattestation.mpr h.attestation]

end FeedStateV1

namespace Sample

/-- A newer profile, follows that nobody signed, and a post. -/
def halfSigned : FeedStateV1Delta VerifyingKey where
  profile := some ⟨⟨"renamed", "", 2⟩, sign 5 0⟩
  follows := some ⟨⟨∅, 2⟩, sign 0 0⟩
  attestation := none
  posts := some [post 1 "a" none]

end Sample

namespace FeedStateV1

open FeedStateV1Delta

variable {s : FeedStateV1 Cert} {d : FeedStateV1Delta Cert}

/-- **What a rejected delta leaves**: what an accepted one with the fields before the one that fails
leaves, and so no trace exactly if none of those is newer than what is held. -/
theorem reject_leading (hs : s.verify C parameters = .ok ()) :
    s.applyDelta C parameters (some (d.leading C parameters)) =
        (.ok (), (s.applyDelta C parameters (some d)).2) ∧
      (∀ e s', s.applyDelta C parameters (some d) = (.error e, s') →
        (s' = s ↔ s.Outdates C (d.leading C parameters))) := by
  have hsettled := (verify_iff.mp hs).settled
  obtain ⟨r, happly, hr⟩ := applyDelta_leading parameters hsettled d
  refine ⟨applyDelta_eq_ok.mpr ⟨leading_checked, congrArg Prod.snd happly⟩, fun e s' h => ?_⟩
  obtain ⟨rfl, rfl⟩ := Prod.mk.inj (happly.symm.trans h)
  exact applied_eq_self_iff hsettled (posts_leading fun hd => nomatch hr.mpr hd)

open Sample in
theorem reject_leading_renamed :
    (feed 1 []).applyDelta feedCrypto feedOwner (some (halfSigned.leading feedCrypto feedOwner)) =
        (.ok (), ((feed 1 []).applyDelta feedCrypto feedOwner (some halfSigned)).2) ∧
      (∀ e s', (feed 1 []).applyDelta feedCrypto feedOwner (some halfSigned) = (.error e, s') →
        (s' = feed 1 [] ↔
          (feed 1 []).Outdates feedCrypto (halfSigned.leading feedCrypto feedOwner))) :=
  reject_leading (by decide +kernel)

open Sample in
/-- The new name stays, though the delta is rejected. -/
example : ((feed 1 []).applyDelta feedCrypto feedOwner (some halfSigned)).1 =
      .error "follows signature invalid: bad signature" ∧
    ((feed 1 []).applyDelta feedCrypto feedOwner (some halfSigned)).2.profile.profile.name =
      "renamed" := by decide +kernel

end FeedStateV1

end Freebird
