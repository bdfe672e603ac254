import Freebird.Contract.Shell
import Freebird.Feed.Apply
import Freebird.Feed.PostId

/-!
# The shell of the feed contract

A feed has no default, so nothing is held until a full state seeds it, and that one is verified.
From then on every path goes through `apply_delta`, whose canonical form names each post once, where
the hash behind the ids does not collide on the posts that occur. So what `update_state` leaves is
what `validate_state` accepts at that time (`update_accepted`).
-/

namespace Freebird

variable {Cert : Type} (C : FeedCrypto Cert)

/-- Drops the posts beyond the future bound. -/
def FeedStateV1.scrubFuture (now : U64) (self : FeedStateV1 Cert) : FeedStateV1 Cert :=
  { self with posts := ⟨self.posts.posts.filter fun p => p.post.time.val ≤ futureBound now⟩ }

abbrev FeedUpdate (Cert : Type) := UpdateData (FeedStateV1 Cert) (FeedStateV1Delta Cert)

namespace FeedContract

/-- The summary of a peer that has nothing. -/
def emptySummary : FeedStateV1Summary where
  profile := toLex (0, Bytes.zeros 32)
  follows := toLex (0, Bytes.zeros 32)
  attestation := none
  posts := ⟨∅, .open⟩

def scrubDelta (now : U64) (delta : FeedStateV1Delta Cert) : FeedStateV1Delta Cert :=
  { delta with posts := delta.posts.map (·.filter fun p => p.post.time.val ≤ futureBound now) }

def validateState [DecidableEq Cert] (parameters : FeedParametersV1) (now : U64)
    (state : Option (FeedStateV1 Cert)) : ValidateResult :=
  match state with
  | none => .valid
  | some feed =>
    if feed.scrubFuture now ≠ feed then .invalid
    else match feed.verify C parameters with
      | .ok () => .valid
      | .error _ => .invalid

/-- Nothing is held until a full state seeds the feed. -/
def shell (parameters : FeedParametersV1) (now : U64) :
    Shell (Option (FeedStateV1 Cert)) (FeedStateV1 Cert) (FeedStateV1Delta Cert) where
  receive feed incoming :=
    let incoming := incoming.scrubFuture now
    match feed with
    | some feed => (orInvalid (feed.merge C parameters incoming)).map some
    | none => orInvalid (incoming.verify C parameters, some incoming)
  apply feed delta :=
    match feed with
    | none => .error .invalidUpdate
    | some feed =>
      (orInvalid (feed.applyDelta C parameters (some (scrubDelta now delta)))).map some

def updateState (parameters : FeedParametersV1) (now : U64) (state : Option (FeedStateV1 Cert))
    (data : List (FeedUpdate Cert)) : Except ContractError (FeedStateV1 Cert) := do
  match ← (shell C parameters now).loop (state.map (·.scrubFuture now)) data with
  | none => throw .invalidUpdate
  | some feed => return feed

def getStateDelta (state : Option (FeedStateV1 Cert)) (summary : Option FeedStateV1Summary) :
    Option (FeedStateV1Delta Cert) :=
  match state with
  | none => none
  | some feed => feed.delta C (summary.getD emptySummary)

end FeedContract

variable {C} {parameters : FeedParametersV1} {now : U64}

namespace FeedStateV1

variable {s s' o : FeedStateV1 Cert} {d : FeedStateV1Delta Cert} {p : AuthorizedPost}

/-- No post lies beyond the future bound. -/
def Timely (now : U64) (s : FeedStateV1 Cert) : Prop :=
  ∀ p ∈ s.posts.posts, p.post.time.val ≤ futureBound now

theorem timely_scrubFuture (s : FeedStateV1 Cert) : (s.scrubFuture now).Timely now :=
  fun _ hp => of_decide_eq_true (List.mem_filter.mp hp).2

theorem Timely.scrubFuture_eq (h : s.Timely now) : s.scrubFuture now = s := by
  obtain ⟨profile, follows, attestation, ⟨ps⟩⟩ := s
  have hps : ps.filter (fun p => p.post.time.val ≤ futureBound now) = ps :=
    List.filter_eq_self.mpr fun p hp => decide_eq_true (h p hp)
  simp [scrubFuture, hps]

theorem scrubFuture_eq_self_iff : s.scrubFuture now = s ↔ s.Timely now :=
  ⟨fun h => h ▸ timely_scrubFuture s, Timely.scrubFuture_eq⟩

theorem Valid.scrubFuture (hs : s.Valid C parameters) : (s.scrubFuture now).Valid C parameters where
  profile := hs.profile
  follows := hs.follows
  attestation := hs.attestation
  settled := hs.settled.sublist List.filter_sublist
  checked p hp := hs.checked p (List.mem_filter.mp hp).1

/-- The posts of the state after a delta were there before, or are the delta's. -/
theorem mem_of_applied (hp : p ∈ (s.applied C d).posts.posts) :
    p ∈ s.posts.posts ∨ p ∈ d.posts.getD [] :=
  List.mem_append.mp (PostsV1.mem_of_mem_canonicalize hp)

theorem delta_posts_subset {old : FeedStateV1Summary} (h : o.delta C old = some d)
    (hp : p ∈ d.posts.getD []) : p ∈ o.posts.posts := by
  simp only [delta] at h
  split at h
  · obtain rfl := Option.some.inj h
    exact PostsV1.mem_of_mem_delta hp
  · cases h

end FeedStateV1

namespace FeedContract

open FeedStateV1 AuthorizedPost

/-- The posts of a stored state and of a list of updates. -/
inductive Occurs (state : Option (FeedStateV1 Cert)) (data : List (FeedUpdate Cert)) :
    AuthorizedPost → Prop
  | stored {s : FeedStateV1 Cert} : state = some s → p ∈ s.posts.posts → Occurs state data p
  | incoming : update ∈ data → .inl s ∈ update.parts → p ∈ s.posts.posts → Occurs state data p
  | delta : update ∈ data → .inr d ∈ update.parts → p ∈ d.posts.getD [] → Occurs state data p

variable {s s' incoming out : FeedStateV1 Cert} {d : FeedStateV1Delta Cert}
  {state t t' : Option (FeedStateV1 Cert)} {data : List (FeedUpdate Cert)} {p : AuthorizedPost}

theorem validateState_eq_valid [DecidableEq Cert] :
    validateState C parameters now (some s) = .valid ↔ s.Timely now ∧ s.Valid C parameters := by
  rw [← scrubFuture_eq_self_iff, ← verify_iff]
  exact verdict_eq_valid.trans (and_congr_left' not_not)

/-- Checked posts with one id were written at one time. -/
theorem sameTime {P : AuthorizedPost → Prop} {author : VerifyingKey}
    (h : CollisionFree C author P) {ps : List AuthorizedPost} (hP : ∀ p ∈ ps, P p)
    (hps : ∀ p ∈ ps, p.check C author = .ok ()) : PostsV1.SameTime ps := fun p hp q hq he =>
  (PostV1.hashed_eq_iff.mp (h.hashed_eq (hP p hp) (hP q hq) (hps p hp) (hps q hq) he)).1

variable (C parameters now) in
/-- What is held is acceptable, and its posts are among those that occur. -/
def Accepted (P : AuthorizedPost → Prop) (held : Option (FeedStateV1 Cert)) : Prop :=
  ∀ s, held = some s → s.Timely now ∧ s.Valid C parameters ∧ ∀ p ∈ s.posts.posts, P p

variable {P : AuthorizedPost → Prop}

/-- A delta within the bound leaves an acceptable feed. -/
theorem accepted_applyDelta (hfree : CollisionFree C parameters.author P)
    (hs : Accepted C parameters now P (some s))
    (hd : ∀ p ∈ d.posts.getD [], P p ∧ p.post.time.val ≤ futureBound now)
    (h : s.applyDelta C parameters (some d) = (.ok (), s')) :
    Accepted C parameters now P (some s') := by
  obtain ⟨ht, hv, hP⟩ := hs s rfl
  obtain ⟨hcheck, rfl⟩ := applyDelta_eq_ok.mp h
  rintro _ ⟨⟩
  refine ⟨fun p hp => ?_, hv.applied hcheck (sameTime hfree (fun p hp => ?_) fun p hp => ?_),
    fun p hp => ?_⟩
  · rcases mem_of_applied hp with hp | hp
    · exact ht p hp
    · exact (hd p hp).2
  · rcases List.mem_append.mp hp with hp | hp
    · exact hP p hp
    · exact (hd p hp).1
  · rcases List.mem_append.mp hp with hp | hp
    · exact hv.checked p hp
    · exact hcheck.posts p hp
  · rcases mem_of_applied hp with hp | hp
    · exact hP p hp
    · exact (hd p hp).1

theorem accepted_receive (hfree : CollisionFree C parameters.author P)
    (hs : Accepted C parameters now P t) (hin : ∀ p ∈ incoming.posts.posts, P p)
    (h : (shell C parameters now).receive t incoming = .ok t') :
    Accepted C parameters now P t' := by
  have hsub {p : AuthorizedPost} (hp : p ∈ (incoming.scrubFuture now).posts.posts) : P p :=
    hin p (List.mem_filter.mp hp).1
  cases t with
  | none =>
    -- The feed is seeded by a verified state.
    obtain ⟨hverify, rfl⟩ := Prod.mk.inj (orInvalid_eq_ok.mp h)
    rintro _ ⟨⟩
    exact ⟨timely_scrubFuture incoming, verify_iff.mp hverify, fun _ => hsub⟩
  | some s =>
    obtain ⟨s', hmerge, rfl⟩ : ∃ s', s.merge C parameters (incoming.scrubFuture now) = (.ok (), s') ∧
        some s' = t' := by
      obtain ⟨s', hs', rfl⟩ := map_eq_ok.mp h
      exact ⟨s', orInvalid_eq_ok.mp hs', rfl⟩
    rw [merge] at hmerge
    cases hd : (incoming.scrubFuture now).delta C (s.summarize C) with
    | none =>
      rw [hd] at hmerge
      exact (Prod.mk.inj hmerge).2 ▸ hs
    | some d =>
      rw [hd] at hmerge
      refine accepted_applyDelta hfree hs (fun p hp => ?_) hmerge
      have hp := delta_posts_subset hd hp
      exact ⟨hsub hp, timely_scrubFuture incoming p hp⟩

theorem accepted_apply (hfree : CollisionFree C parameters.author P)
    (hs : Accepted C parameters now P t) (hd : ∀ p ∈ d.posts.getD [], P p)
    (h : (shell C parameters now).apply t d = .ok t') : Accepted C parameters now P t' := by
  cases t with
  | none => cases h
  | some s =>
    obtain ⟨s', hs', rfl⟩ := map_eq_ok.mp h
    refine accepted_applyDelta hfree hs (fun p hp => ?_) (orInvalid_eq_ok.mp hs')
    obtain ⟨hp, htime⟩ := mem_scrubbed.mp hp
    exact ⟨hd p hp, of_decide_eq_true htime⟩

/-- **What `update_state` leaves, `validate_state` accepts**, where the hash behind the ids does not
collide on the posts that occur. -/
theorem update_accepted [DecidableEq Cert] (hs : ∀ s, state = some s → s.verify C parameters = .ok ())
    (hfree : CollisionFree C parameters.author (Occurs state data))
    (h : updateState C parameters now state data = .ok out) :
    validateState C parameters now (some out) = .valid ∧ out.Valid C parameters := by
  obtain ⟨held, hloop, hheld⟩ := bind_eq_ok.mp h
  have hstart : Accepted C parameters now (Occurs state data) (state.map (·.scrubFuture now)) := by
    intro s hmap
    obtain ⟨s₀, hs₀, rfl⟩ := Option.map_eq_some_iff.mp hmap
    refine ⟨timely_scrubFuture s₀, (verify_iff.mp (hs s₀ hs₀)).scrubFuture, fun p hp => ?_⟩
    exact .stored hs₀ (List.mem_filter.mp hp).1
  have hend : Accepted C parameters now (Occurs state data) held := by
    refine Shell.run_invariant (fun a ha u v hu hv => ?_) hstart (Shell.loop_eq_ok hloop)
    obtain ⟨update, hmem, ha⟩ := List.mem_flatMap.mp ha
    cases a with
    | inl incoming => exact accepted_receive hfree hu (fun _ => .incoming hmem ha) hv
    | inr d => exact accepted_apply hfree hu (fun _ => .delta hmem ha) hv
  cases held with
  | none => cases hheld
  | some s =>
    obtain rfl := Except.ok.inj hheld
    obtain ⟨ht, hv, -⟩ := hend s rfl
    exact ⟨validateState_eq_valid.mpr ⟨ht, hv⟩, hv⟩

open Sample in
theorem update_accepted_second_post : ∃ out,
    updateState feedCrypto feedOwner 0 (some (feed 1 [post 1 "a" none]))
        [.delta (some (posted [post 2 "b" none]))] = .ok out ∧
      validateState feedCrypto feedOwner 0 (some out) = .valid ∧ out.Valid feedCrypto feedOwner := by
  have h : updateState feedCrypto feedOwner 0 (some (feed 1 [post 1 "a" none]))
      [.delta (some (posted [post 2 "b" none]))] =
        .ok (feed 1 [post 1 "a" none, post 2 "b" none]) := by decide +kernel
  refine ⟨_, h, update_accepted (fun s hs => ?_) (fun p q hp hq he => ?_) h⟩
  · obtain rfl := Option.some.inj hs
    decide +kernel
  · have hmem {p : AuthorizedPost} (hp : Occurs (some (feed 1 [post 1 "a" none]))
        [.delta (some (posted [post 2 "b" none]))] p) : p ∈ [post 1 "a" none, post 2 "b" none] := by
      rcases hp with ⟨hs, hp⟩ | ⟨hu, hpart, -⟩ | ⟨hu, hpart, hp⟩
      · obtain rfl := Option.some.inj hs
        exact List.mem_append_left [post 2 "b" none] hp
      · obtain rfl := List.mem_singleton.mp hu
        cases List.mem_singleton.mp hpart
      · obtain rfl := List.mem_singleton.mp hu
        obtain rfl := Sum.inr.inj (List.mem_singleton.mp hpart)
        exact List.mem_append_right [post 1 "a" none] hp
    have hfree : ∀ p ∈ [post 1 "a" none, post 2 "b" none], ∀ q ∈ [post 1 "a" none, post 2 "b" none],
        (crypto.blake3 (p.post.hashed feedOwner.author)).toList.take 16 =
          (crypto.blake3 (q.post.hashed feedOwner.author)).toList.take 16 →
        p.post.hashed feedOwner.author = q.post.hashed feedOwner.author := by decide +kernel
    exact hfree p (hmem hp) q (hmem hq) he

/-! ## The first update -/

/-- **A full state seeds a feed, a delta does not**, however complete it is. -/
theorem update_fresh (hs : s.verify C parameters = .ok ()) (ht : s.Timely now) :
    updateState C parameters now none [.state s] = .ok s ∧
      updateState C parameters now none [.delta (getStateDelta C (some s) none)] =
        .error .invalidUpdate := by
  constructor
  · have hreceive : (shell C parameters now).receive none s = .ok (some s) := by
      simp only [shell, ht.scrubFuture_eq, hs]
      rfl
    simp only [updateState, Option.map_none, Shell.loop, Shell.step, hreceive]
    rfl
  · cases hd : getStateDelta C (some s) none with
    | none => rfl
    | some d => rfl

open Sample in
theorem update_fresh_post :
    updateState feedCrypto feedOwner 0 none [.state (feed 1 [post 1 "a" none])] =
        .ok (feed 1 [post 1 "a" none]) ∧
      updateState feedCrypto feedOwner 0 none
        [.delta (getStateDelta feedCrypto (some (feed 1 [post 1 "a" none])) none)] =
          .error .invalidUpdate :=
  update_fresh (by decide +kernel) (by unfold Timely; decide +kernel)

open Sample in
/-- A replica that holds nothing refuses the delta that holds everything. -/
theorem delta_refused :
    (feed 1 [post 1 "a" none]).verify feedCrypto feedOwner = .ok () ∧
      (feed 1 [post 1 "a" none]).Timely 0 ∧
      getStateDelta feedCrypto (some (feed 1 [post 1 "a" none])) none ≠ none ∧
      updateState feedCrypto feedOwner 0 none
        [.delta (getStateDelta feedCrypto (some (feed 1 [post 1 "a" none])) none)] ≠
          .ok (feed 1 [post 1 "a" none]) := by
  refine ⟨by decide +kernel, by unfold Timely; decide +kernel, fun h => ?_, by decide +kernel⟩
  exact absurd (congrArg Option.isSome h) (by decide +kernel)

end FeedContract

end Freebird
