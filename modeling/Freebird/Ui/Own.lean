import Freebird.Ui.Edits

/-!
# The local copy of the own feed

`set_follow` and `publish_profile` read the local copy, sign a record one version up, send it, and
write it into the local copy when the send is through, without another look at what is there. What
the contract or another device sends meanwhile is merged into the same copy. The copy never goes back
to an older record while no call runs out of versions and nothing newer overtakes a call that waits
(`copy_keeps_pace`). A call over a record of the last version there is writes version 0
(`profile_wraps`).

The only await between the two steps of a call is that of `api::send`, under the write guard of
`WEB_API`: where the send is ready when it is first polled nothing comes in between, and a second call
that got there would find the guard taken. The steps are taken apart here all the same.
-/

namespace Freebird

open Register Transition

variable {Cert : Type}

/-- `publish_profile` up to its send: the record that is sent. -/
def publishProfile (signingKey : List U8 → Signature) (feed : Option (FeedStateV1 Cert))
    (name bio : String) : Except String AuthorizedProfile :=
  match feed with
  | none => .error "feed not loaded"
  | some current => .ok (.new ⟨name, bio, current.profile.profile.version + 1⟩ signingKey)

/-- The local copies, and the records of the calls that wait for their send. -/
structure OwnFeed (Cert : Type) where
  feed : Option (FeedStateV1 Cert)
  legacy : Option (LegacyFeedState Cert)
  profiles : Multiset AuthorizedProfile
  follows : Multiset AuthorizedFollows

/-- A call whose send fails writes nothing, and is no event. -/
inductive OwnEvent (Cert : Type) where
  | setFollow (target : Bytes 32) (follow : Bool)
  | publishProfile (name bio : String)
  | assignFollows (record : AuthorizedFollows)
  | assignProfile (record : AuthorizedProfile)
  /-- A feed left at the old contract is loaded. -/
  | arrive (legacy : LegacyFeedState Cert)
  /-- A full state of the feed comes in. -/
  | state (incoming : FeedStateV1 Cert)
  /-- A delta of the feed comes in, or one of the account's own is applied ahead. -/
  | delta (update : FeedStateV1Delta Cert)

namespace OwnFeed

/-- A page with the feed loaded and no call under way. -/
def opened (feed : FeedStateV1 Cert) (legacy : Option (LegacyFeedState Cert)) : OwnFeed Cert :=
  ⟨some feed, legacy, 0, 0⟩

variable (C : FeedCrypto Cert) (parameters : FeedParametersV1) (signingKey : List U8 → Signature)

/-- `none` where the event cannot happen. -/
def step (s : OwnFeed Cert) : OwnEvent Cert → Option (OwnFeed Cert)
  | .setFollow target follow =>
    match setFollow signingKey s.feed s.legacy target follow with
    | .ok (some record) => some { s with follows := record ::ₘ s.follows }
    | .ok none => some s
    | .error _ => none
  | .publishProfile name bio =>
    match publishProfile signingKey s.feed name bio with
    | .ok record => some { s with profiles := record ::ₘ s.profiles }
    | .error _ => none
  | .assignFollows record =>
    if record ∈ s.follows then some { s with
      feed := s.feed.map fun state => { state with follows := record }
      follows := s.follows.erase record }
    else none
  | .assignProfile record =>
    if record ∈ s.profiles then some { s with
      feed := s.feed.map fun state => { state with profile := record }
      profiles := s.profiles.erase record }
    else none
  | .arrive legacy => some { s with legacy := some legacy }
  | .state incoming => some { s with feed := mergeFeed C parameters s.feed incoming }
  | .delta update =>
    some { s with feed := s.feed.map fun state => (state.applyDelta C parameters (some update)).2 }

/-- The keys of the two records of the local copy. -/
def keys (s : OwnFeed Cert) : WithBot (VersionKey × VersionKey) :=
  match s.feed with
  | none => ⊥
  | some state => ((state.profile.lwwKey C, state.follows.lwwKey C) : VersionKey × VersionKey)

/-- The call leaves room for a version, what comes in is no newer than the records that wait, and of
these the oldest is written first. -/
def Orderly (s : OwnFeed Cert) : OwnEvent Cert → Prop
  | .setFollow target follow =>
    (target ∈ effectiveFollows s.feed s.legacy ↔ follow = true) ∨
      ∀ state ∈ s.feed, state.follows.follows.version.val + 1 < 2 ^ 32
  | .publishProfile _ _ => ∀ state ∈ s.feed, state.profile.profile.version.val + 1 < 2 ^ 32
  | .assignFollows record => ∀ f ∈ s.follows, record.lwwKey C ≤ f.lwwKey C
  | .assignProfile record => ∀ p ∈ s.profiles, record.lwwKey C ≤ p.lwwKey C
  | .arrive _ => True
  | .state incoming => (∀ p ∈ s.profiles, incoming.profile.lwwKey C ≤ p.lwwKey C) ∧
      ∀ f ∈ s.follows, incoming.follows.lwwKey C ≤ f.lwwKey C
  | .delta update => (∀ p' ∈ update.profile, ∀ p ∈ s.profiles, p'.lwwKey C ≤ p.lwwKey C) ∧
      ∀ f' ∈ update.follows, ∀ f ∈ s.follows, f'.lwwKey C ≤ f.lwwKey C

instance decidableOrderly (s : OwnFeed Cert) : (event : OwnEvent Cert) → Decidable (s.Orderly C event)
  | .setFollow _ _ => inferInstanceAs (Decidable (_ ∨ _))
  | .publishProfile _ _ => inferInstanceAs (Decidable (∀ _ ∈ s.feed, _))
  | .assignFollows _ => inferInstanceAs (Decidable (∀ _ ∈ s.follows, _))
  | .assignProfile _ => inferInstanceAs (Decidable (∀ _ ∈ s.profiles, _))
  | .arrive _ => inferInstanceAs (Decidable True)
  | .state _ => inferInstanceAs (Decidable (_ ∧ _))
  | .delta _ => inferInstanceAs (Decidable (_ ∧ _))

/-- A step that keeps the order. -/
def OrderlyStep (s : OwnFeed Cert) (event : OwnEvent Cert) (s' : OwnFeed Cert) : Prop :=
  s.Orderly C event ∧ s.step C parameters signingKey event = some s'

end OwnFeed

variable {C : FeedCrypto Cert} {parameters : FeedParametersV1} {signingKey : List U8 → Signature}

theorem publishProfile_eq_ok {feed : Option (FeedStateV1 Cert)} {name bio : String}
    {record : AuthorizedProfile} : publishProfile signingKey feed name bio = .ok record ↔
      ∃ current, feed = some current ∧
        record = .new ⟨name, bio, current.profile.profile.version + 1⟩ signingKey := by
  cases feed with
  | none => simp [publishProfile]
  | some current => simp [publishProfile, eq_comm]

/-! ## What a merge does to the two records -/

namespace FeedStateV1

variable (C parameters)

theorem profile_merge_or (s o : FeedStateV1 Cert) :
    (s.merge C parameters o).2.profile = s.profile ∨
      (s.merge C parameters o).2.profile =
        newer (AuthorizedProfile.lwwKey C) s.profile o.profile := by
  rw [merge]
  cases hd : o.delta C (s.summarize C) with
  | none => exact .inl rfl
  | some d =>
    rw [profile_applyDelta]
    refine (applyRecord_or _ (AuthorizedProfile.lwwKey C) s.profile d.profile).imp_right ?_
    rintro ⟨p, hp, h⟩
    obtain rfl := mem_offer ((delta_of_merge C hd).1.symm.trans hp)
    exact h

theorem follows_merge_or (s o : FeedStateV1 Cert) :
    (s.merge C parameters o).2.follows = s.follows ∨
      (s.merge C parameters o).2.follows =
        newer (AuthorizedFollows.lwwKey C) s.follows o.follows := by
  rw [merge]
  cases hd : o.delta C (s.summarize C) with
  | none => exact .inl rfl
  | some d =>
    refine (follows_applyDelta_or C parameters s d).imp_right ?_
    rintro ⟨f, hf, h⟩
    obtain rfl := mem_offer ((delta_of_merge C hd).2.symm.trans hf)
    exact h

end FeedStateV1

namespace OwnFeed

variable {s s' : OwnFeed Cert} {event : OwnEvent Cert} {state state' : FeedStateV1 Cert}

/-! ## One step -/

variable (C) in
/-- No call that waits has an older record than the local copy. -/
def Paced (s : OwnFeed Cert) : Prop :=
  ∀ state, s.feed = some state → Ahead (AuthorizedProfile.lwwKey C) state.profile s.profiles ∧
    Ahead (AuthorizedFollows.lwwKey C) state.follows s.follows

theorem keys_of_feed (hs : s.feed = some state) :
    s.keys C = ((state.profile.lwwKey C, state.follows.lwwKey C) : VersionKey × VersionKey) := by
  rw [keys, hs]

/-- The keys do not go down where the records of a loaded copy do not. -/
theorem keys_le (h : ∀ state, s.feed = some state → ∃ state', s'.feed = some state' ∧
    state.profile.lwwKey C ≤ state'.profile.lwwKey C ∧
      state.follows.lwwKey C ≤ state'.follows.lwwKey C) : s.keys C ≤ s'.keys C := by
  cases hs : s.feed with
  | none =>
    rw [keys, hs]
    exact bot_le
  | some state =>
    obtain ⟨state', hs', hp, hf⟩ := h state hs
    rw [keys_of_feed hs, keys_of_feed hs', WithBot.coe_le_coe]
    exact ⟨hp, hf⟩

theorem keys_eq (h : s'.feed = s.feed) : s.keys C ≤ s'.keys C := by
  rw [keys, keys, h]

/-- What comes in moves neither record back, and overtakes no call that waits. -/
theorem Paced.offered (hs : s.Paced C)
    (hfeed : ∀ state, s.feed = some state → ∃ state', s'.feed = some state' ∧
      (state'.profile = state.profile ∨ ∃ p, state'.profile = newer (AuthorizedProfile.lwwKey C)
        state.profile p ∧ ∀ x ∈ s.profiles, p.lwwKey C ≤ x.lwwKey C) ∧
      (state'.follows = state.follows ∨ ∃ f, state'.follows = newer (AuthorizedFollows.lwwKey C)
        state.follows f ∧ ∀ x ∈ s.follows, f.lwwKey C ≤ x.lwwKey C))
    (hloaded : s.feed.isSome) (hprofiles : s'.profiles = s.profiles)
    (hfollows : s'.follows = s.follows) : s'.Paced C ∧ s.keys C ≤ s'.keys C := by
  obtain ⟨state, hstate⟩ := Option.isSome_iff_exists.mp hloaded
  obtain ⟨state', hstate', hp, hf⟩ := hfeed state hstate
  obtain ⟨hprofile, hfollow⟩ := hs state hstate
  obtain ⟨hprofile, hple⟩ := Ahead.offered hprofile hp
  obtain ⟨hfollow, hfle⟩ := Ahead.offered hfollow hf
  refine ⟨fun t ht => ?_, keys_le fun t ht => ⟨state', hstate', ?_⟩⟩
  · obtain rfl := Option.some.inj (hstate'.symm.trans ht)
    rw [hprofiles, hfollows]
    exact ⟨hprofile, hfollow⟩
  · obtain rfl := Option.some.inj (hstate.symm.trans ht)
    exact ⟨hple, hfle⟩

theorem Paced.merged (hs : s.Paced C) {incoming : FeedStateV1 Cert}
    (hp : ∀ p ∈ s.profiles, incoming.profile.lwwKey C ≤ p.lwwKey C)
    (hf : ∀ f ∈ s.follows, incoming.follows.lwwKey C ≤ f.lwwKey C) :
    Paced C { s with feed := mergeFeed C parameters s.feed incoming } ∧
      s.keys C ≤ keys C { s with feed := mergeFeed C parameters s.feed incoming } := by
  cases hfeed : s.feed with
  | none =>
    refine ⟨fun state hstate => ?_, ?_⟩
    · have hstate : mergeFeed C parameters none incoming = some state := hstate
      simp only [mergeFeed] at hstate
      split at hstate
      · obtain rfl := Option.some.inj hstate
        exact ⟨hp, hf⟩
      · cases hstate
    · rw [keys, hfeed]
      exact bot_le
  | some state =>
    rw [← hfeed]
    refine hs.offered (fun t ht => ?_) (by rw [hfeed]; rfl) rfl rfl
    refine ⟨(t.merge C parameters incoming).2, by rw [ht]; rfl, ?_, ?_⟩
    · exact (t.profile_merge_or C parameters incoming).imp_right fun h => ⟨_, h, hp⟩
    · exact (t.follows_merge_or C parameters incoming).imp_right fun h => ⟨_, h, hf⟩

theorem Paced.applied (hs : s.Paced C) {update : FeedStateV1Delta Cert}
    (hp : ∀ p' ∈ update.profile, ∀ p ∈ s.profiles, p'.lwwKey C ≤ p.lwwKey C)
    (hf : ∀ f' ∈ update.follows, ∀ f ∈ s.follows, f'.lwwKey C ≤ f.lwwKey C) :
    Paced C { s with feed := s.feed.map fun state =>
        (state.applyDelta C parameters (some update)).2 } ∧
      s.keys C ≤ keys C { s with feed := s.feed.map fun state =>
        (state.applyDelta C parameters (some update)).2 } := by
  cases hfeed : s.feed with
  | none =>
    refine ⟨fun state hstate => ?_, keys_eq (by rw [hfeed]; rfl)⟩
    cases hstate
  | some state =>
    rw [← hfeed]
    refine hs.offered (fun t ht => ?_) (by rw [hfeed]; rfl) rfl rfl
    refine ⟨(t.applyDelta C parameters (some update)).2, by rw [ht]; rfl, ?_, ?_⟩
    · rw [FeedStateV1.profile_applyDelta]
      refine (applyRecord_or _ (AuthorizedProfile.lwwKey C) t.profile update.profile).imp_right ?_
      rintro ⟨p, hpu, h⟩
      exact ⟨p, h, hp p hpu⟩
    · refine (t.follows_applyDelta_or C parameters update).imp_right ?_
      rintro ⟨f, hfu, h⟩
      exact ⟨f, h, hf f hfu⟩

/-- An orderly step keeps the pace, and moves neither record back. -/
theorem OrderlyStep.paced (h : OrderlyStep C parameters signingKey s event s') (hs : s.Paced C) :
    s'.Paced C ∧ s.keys C ≤ s'.keys C := by
  obtain ⟨horder, hstep⟩ := h
  cases event with
  | setFollow target follow =>
    simp only [step] at hstep
    split at hstep
    · rename_i record hrecord
      obtain rfl := Option.some.inj hstep
      refine ⟨fun state hstate => ?_, keys_eq rfl⟩
      obtain ⟨current, hcurrent, hchanged, rfl⟩ := setFollow_eq_some.mp hrecord
      obtain rfl := Option.some.inj (hcurrent.symm.trans hstate)
      obtain ⟨hp, hf⟩ := hs current hcurrent
      refine ⟨hp, hf.cons (AuthorizedFollows.lwwKey_lt ?_).le⟩
      exact version_lt_succ (horder.resolve_left hchanged current hcurrent)
    · obtain rfl := Option.some.inj hstep
      exact ⟨hs, le_rfl⟩
    · cases hstep
  | publishProfile name bio =>
    simp only [step] at hstep
    split at hstep
    · rename_i record hrecord
      obtain rfl := Option.some.inj hstep
      refine ⟨fun state hstate => ?_, keys_eq rfl⟩
      obtain ⟨current, hcurrent, rfl⟩ := publishProfile_eq_ok.mp hrecord
      obtain rfl := Option.some.inj (hcurrent.symm.trans hstate)
      obtain ⟨hp, hf⟩ := hs current hcurrent
      exact ⟨hp.cons (AuthorizedProfile.lwwKey_lt (version_lt_succ (horder current hcurrent))).le, hf⟩
    · cases hstep
  | assignFollows record =>
    simp only [step, Option.ite_none_right_eq_some, Option.some.injEq] at hstep
    obtain ⟨hmem, rfl⟩ := hstep
    refine ⟨fun state' hstate' => ?_, keys_le fun state hstate => ?_⟩
    · obtain ⟨state, hstate, rfl⟩ := Option.map_eq_some_iff.mp hstate'
      exact ⟨(hs state hstate).1, Ahead.write horder⟩
    · refine ⟨{ state with follows := record }, by rw [hstate]; rfl, le_rfl, ?_⟩
      exact (hs state hstate).2 record hmem
  | assignProfile record =>
    simp only [step, Option.ite_none_right_eq_some, Option.some.injEq] at hstep
    obtain ⟨hmem, rfl⟩ := hstep
    refine ⟨fun state' hstate' => ?_, keys_le fun state hstate => ?_⟩
    · obtain ⟨state, hstate, rfl⟩ := Option.map_eq_some_iff.mp hstate'
      exact ⟨Ahead.write horder, (hs state hstate).2⟩
    · refine ⟨{ state with profile := record }, by rw [hstate]; rfl, ?_, le_rfl⟩
      exact (hs state hstate).1 record hmem
  | arrive legacy =>
    obtain rfl := Option.some.inj hstep
    exact ⟨hs, le_rfl⟩
  | state incoming =>
    obtain rfl := Option.some.inj hstep
    exact hs.merged horder.1 horder.2
  | delta update =>
    obtain rfl := Option.some.inj hstep
    exact hs.applied horder.1 horder.2

/-! ## A run -/

theorem paced_opened (feed : FeedStateV1 Cert) (legacy : Option (LegacyFeedState Cert)) :
    (opened feed legacy).Paced C :=
  fun _ _ => ⟨fun _ hx => absurd hx (Multiset.notMem_zero _),
    fun _ hx => absurd hx (Multiset.notMem_zero _)⟩

theorem versions_le_of_keys (h : s.keys C ≤ s'.keys C) (hs : s.feed = some state)
    (hs' : s'.feed = some state') :
    state.profile.profile.version ≤ state'.profile.profile.version ∧
      state.follows.follows.version ≤ state'.follows.follows.version := by
  rw [keys_of_feed hs, keys_of_feed hs', WithBot.coe_le_coe] at h
  exact ⟨Prod.Lex.monotone_fst _ _ h.1, Prod.Lex.monotone_fst _ _ h.2⟩

/-- **The local copy never goes back** while the steps are orderly, and a later call signs a version
above that of every record the copy has held. -/
theorem copy_keeps_pace {feed : FeedStateV1 Cert} {legacy : Option (LegacyFeedState Cert)}
    {events events' : List (OwnEvent Cert)}
    (h : Runs (OrderlyStep C parameters signingKey) (opened feed legacy) events s)
    (h' : Runs (OrderlyStep C parameters signingKey) s events' s') :
    s.keys C ≤ s'.keys C ∧
      (∀ name bio record, s'.Orderly C (.publishProfile name bio) →
        publishProfile signingKey s'.feed name bio = .ok record →
          ∀ state ∈ s.feed, state.profile.profile.version < record.profile.version) ∧
      ∀ target follow record, s'.Orderly C (.setFollow target follow) →
        setFollow signingKey s'.feed s'.legacy target follow = .ok (some record) →
          ∀ state ∈ s.feed, state.follows.follows.version < record.follows.version := by
  have hs : s.Paced C :=
    h.invariant (fun _ _ _ hs hstep => (hstep.paced hs).1) (paced_opened feed legacy)
  have hle : s.keys C ≤ s'.keys C := h'.monotone (fun _ _ _ hs hstep => (hstep.paced hs).1)
    (fun _ _ _ hs hstep => (hstep.paced hs).2) hs
  refine ⟨hle, fun name bio record horder hrecord state hstate => ?_,
    fun target follow record horder hrecord state hstate => ?_⟩
  · obtain ⟨current, hcurrent, rfl⟩ := publishProfile_eq_ok.mp hrecord
    exact (versions_le_of_keys hle hstate hcurrent).1.trans_lt
      (version_lt_succ (horder current hcurrent))
  · obtain ⟨current, hcurrent, hchanged, rfl⟩ := setFollow_eq_some.mp hrecord
    exact (versions_le_of_keys hle hstate hcurrent).2.trans_lt
      (version_lt_succ (horder.resolve_left hchanged current hcurrent))

end OwnFeed

namespace Sample

/-- A profile that the owner of the sample feed signed. -/
def named (name : String) (version : U32) : AuthorizedProfile :=
  .new ⟨name, "", version⟩ fun _ => sign 5 0

def profileDelta (profile : AuthorizedProfile) : FeedStateV1Delta VerifyingKey :=
  ⟨some profile, none, none, none⟩

/-- Two calls, an update that comes in between, and one of the other record while a call waits. -/
def paced : List (OwnEvent VerifyingKey) :=
  [.publishProfile "one" "", .assignProfile (named "one" 1), .delta (profileDelta (named "five" 5)),
    .publishProfile "six" "", .delta (followsDelta (following [1] 3)), .assignProfile (named "six" 6)]

/-- One call, over a profile of the last version there is. -/
def wrapping : List (OwnEvent VerifyingKey) :=
  [.publishProfile "one" "", .assignProfile (named "one" 0)]

end Sample

namespace OwnFeed

open Sample

theorem copy_keeps_pace_paced : ∃ s : OwnFeed VerifyingKey,
    Runs (OrderlyStep feedCrypto feedOwner fun _ => sign 5 0)
      (opened (Sample.feed 0 []) none) paced s ∧
      (opened (Sample.feed 0 []) none).keys feedCrypto ≤ s.keys feedCrypto := by
  have hpaced : ∃ s : OwnFeed VerifyingKey,
      Runs (OrderlyStep feedCrypto feedOwner fun _ => sign 5 0)
        (opened (Sample.feed 0 []) none) paced s ∧ True :=
    Runs.exists_of_guarded (by decide +kernel)
  obtain ⟨s, hrun, -⟩ := hpaced
  exact ⟨s, hrun, (copy_keeps_pace (.nil _) hrun).1⟩

/-- The version above the last one is 0, and the call writes its profile over the one it has read. -/
theorem profile_wraps : (Sample.feed (2 ^ 32 - 1) []).verify feedCrypto feedOwner = .ok () ∧
    ∃ s : OwnFeed VerifyingKey,
      Runs (fun s e s' => s.step feedCrypto feedOwner (fun _ => sign 5 0) e = some s')
        (opened (Sample.feed (2 ^ 32 - 1) []) none) wrapping s ∧
      ¬(opened (Sample.feed (2 ^ 32 - 1) []) none).keys feedCrypto ≤ s.keys feedCrypto :=
  ⟨by decide +kernel, Runs.exists_of_foldlM (by decide +kernel)⟩

end OwnFeed

end Freebird
