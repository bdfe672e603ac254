import Freebird.Feed.Exchange

/-!
# Convergence of the feed

A run of deltas succeeds exactly if every record in it passes its check (`run_eq_ok`). It leaves the
newest record of each register and the log of all the posts, so two runs that deliver the same
records end in the same feed (`updates_converge`).
-/

namespace Freebird

open Register Retention

variable {Cert : Type} {C : FeedCrypto Cert} {parameters : FeedParametersV1}

/-! ## The records of a delta -/

def FeedStateV1Delta.records (d : FeedStateV1Delta Cert) : List (FeedRecord Cert) :=
  d.profile.toList.map .profile ++ d.follows.toList.map .follows ++
    d.attestation.toList.map .attestation ++ (d.posts.getD []).map .post

variable (C parameters) in
/-- The check of a record on its own. -/
def FeedRecord.check : FeedRecord Cert → Except String Unit
  | .profile p => p.check C parameters.author
  | .follows f => f.check C parameters.author
  | .attestation att => AttestationSlot.verify C (some att) parameters
  | .post p => p.check C parameters.author

namespace FeedStateV1Delta

variable {d : FeedStateV1Delta Cert}

theorem profile_mem_records : .profile p ∈ d.records ↔ d.profile = some p := by simp [records]

theorem follows_mem_records : .follows f ∈ d.records ↔ d.follows = some f := by simp [records]

theorem attestation_mem_records : .attestation att ∈ d.records ↔ d.attestation = some att := by
  simp [records]

theorem post_mem_records : .post p ∈ d.records ↔ p ∈ d.posts.getD [] := by simp [records]

theorem checked_iff : d.Checked C parameters ↔
    ∀ x ∈ d.records, x.check C parameters = .ok () := by
  have hattestation (att : AttestationV2 Cert) :
      AttestationSlot.verify C (some att) parameters = .ok () ↔
        AttestationSlot.Genuine C parameters att := by
    simp [AttestationSlot.verify_eq_ok]
  constructor
  · intro h x hx
    cases x with
    | profile p => exact h.profile p (profile_mem_records.mp hx)
    | follows f => exact h.follows f (follows_mem_records.mp hx)
    | attestation att =>
      exact (hattestation att).mpr (h.attestation att (attestation_mem_records.mp hx))
    | post p => exact h.posts p (post_mem_records.mp hx)
  · intro h
    exact {
      profile := fun p hp => h (.profile p) (profile_mem_records.mpr hp)
      follows := fun f hf => h (.follows f) (follows_mem_records.mpr hf)
      attestation := fun att hatt =>
        (hattestation att).mp (h (.attestation att) (attestation_mem_records.mpr hatt))
      posts := fun p hp => h (.post p) (post_mem_records.mpr hp) }

end FeedStateV1Delta

/-! ## Runs -/

/-- What was delivered in earlier calls may be cut down first. -/
theorem PostsV1.canonicalize_append {as bs : List AuthorizedPost} (h : Identified (as ++ bs)) :
    canonicalize ⟨(canonicalize ⟨as⟩).posts ++ bs⟩ = canonicalize ⟨as ++ bs⟩ := by
  have hsub (p : AuthorizedPost) (hp : p ∈ (canonicalize ⟨as⟩).posts ++ bs) : p ∈ as ++ bs :=
    List.mem_append.mpr ((List.mem_append.mp hp).imp_left mem_of_mem_canonicalize)
  have has : Identified as := h.mono fun p hp => List.mem_append_left bs hp
  refine (h.mono hsub).canonicalize_congr h ?_
  rw [List.toFinset_append, List.toFinset_append, has.toFinset_canonicalize]
  simp only [← keep_highestPolicy]
  refine (highestPolicy AuthorizedPost.orderKey maxPosts).keep_union ?_
  rw [← List.toFinset_append]
  exact h.distinct

namespace FeedStateV1

variable {s s' : FeedStateV1 Cert} {d : FeedStateV1Delta Cert} {ds es : List (FeedStateV1Delta Cert)}

variable (C parameters) in
/-- Deltas applied in turn, up to the first that fails. -/
def run (s : FeedStateV1 Cert) : List (FeedStateV1Delta Cert) → Except String (FeedStateV1 Cert)
  | [] => .ok s
  | d :: ds =>
    match s.applyDelta C parameters (some d) with
    | (.ok (), s) => run s ds
    | (.error e, _) => .error e

theorem run_eq_ok : run C parameters s ds = .ok s' ↔
    (∀ d ∈ ds, d.Checked C parameters) ∧ s' = ds.foldl (applied C) s := by
  induction ds generalizing s with
  | nil => simp [run, eq_comm]
  | cons d ds ih =>
    rw [List.forall_mem_cons, List.foldl_cons, run]
    by_cases hd : d.Checked C parameters
    · rw [applyDelta_eq_ok.mpr ⟨hd, rfl⟩, and_iff_right hd]
      exact ih
    · refine iff_of_false (fun h => ?_) fun h => hd h.1.1
      split at h
      · rename_i t ht
        exact hd (applyDelta_eq_ok.mp ht).1
      · cases h

variable (s ds) in
theorem profile_foldl : (ds.foldl (applied C) s).profile =
    newest (AuthorizedProfile.lwwKey C) s.profile (ds.filterMap (·.profile)) := by
  rw [← foldl_elim_newer]
  exact (List.foldl_hom FeedStateV1.profile fun _ _ => rfl).symm

variable (s ds) in
theorem follows_foldl : (ds.foldl (applied C) s).follows =
    newest (AuthorizedFollows.lwwKey C) s.follows (ds.filterMap (·.follows)) := by
  rw [← foldl_elim_newer]
  exact (List.foldl_hom FeedStateV1.follows fun _ _ => rfl).symm

variable (s ds) in
theorem attestation_foldl : (ds.foldl (applied C) s).attestation =
    newest (AttestationSlot.key C) s.attestation (ds.filterMap (·.attestation.map some)) := by
  rw [← foldl_elim_newer]
  refine (List.foldl_hom FeedStateV1.attestation fun s d => ?_).symm
  rw [Option.elim_map]
  rfl

/-- The log holds what a single call would leave. -/
theorem posts_foldl (hs : PostsV1.Settled s.posts.posts)
    (h : PostsV1.Identified (s.posts.posts ++ ds.flatMap (·.posts.getD []))) :
    (ds.foldl (applied C) s).posts =
      PostsV1.canonicalize ⟨s.posts.posts ++ ds.flatMap (·.posts.getD [])⟩ := by
  induction ds generalizing s with
  | nil =>
    rw [List.flatMap_nil, List.append_nil, hs.canonicalize_eq]
    rfl
  | cons d ds ih =>
    rw [List.flatMap_cons, ← List.append_assoc] at h ⊢
    have hd : PostsV1.Identified (s.posts.posts ++ d.posts.getD []) :=
      h.mono fun p hp => List.mem_append_left _ hp
    have happlied : (s.applied C d).posts =
      PostsV1.canonicalize ⟨s.posts.posts ++ d.posts.getD []⟩ := rfl
    rw [List.foldl_cons, ih, happlied, PostsV1.canonicalize_append h]
    · exact PostsV1.settled_canonicalize hd.sameTime
    · rw [happlied]
      refine h.mono fun p hp => ?_
      exact List.mem_append.mpr ((List.mem_append.mp hp).imp_left PostsV1.mem_of_mem_canonicalize)

/-! ## Deliveries -/

variable {R : List (FeedRecord Cert)}

/-- The calls carry the records of a collection, each of them somewhere. -/
def Delivers (ds : List (FeedStateV1Delta Cert)) (R : List (FeedRecord Cert)) : Prop :=
  ∀ x, x ∈ R ↔ ∃ d ∈ ds, x ∈ d.records

namespace Delivers

theorem mem_profiles (h : Delivers ds R) : p ∈ ds.filterMap (·.profile) ↔ .profile p ∈ R := by
  simp only [h _, FeedStateV1Delta.profile_mem_records, List.mem_filterMap]

theorem mem_follows (h : Delivers ds R) : f ∈ ds.filterMap (·.follows) ↔ .follows f ∈ R := by
  simp only [h _, FeedStateV1Delta.follows_mem_records, List.mem_filterMap]

theorem mem_attestations (h : Delivers ds R) {slot : AttestationSlot Cert} :
    slot ∈ ds.filterMap (·.attestation.map some) ↔
      ∃ att, slot = some att ∧ .attestation att ∈ R := by
  simp only [h _, FeedStateV1Delta.attestation_mem_records, List.mem_filterMap,
    Option.map_eq_some_iff]
  constructor
  · rintro ⟨d, hd, att, hatt, rfl⟩
    exact ⟨att, rfl, d, hd, hatt⟩
  · rintro ⟨att, rfl, d, hd, hatt⟩
    exact ⟨d, hd, att, hatt, rfl⟩

theorem mem_posts (h : Delivers ds R) :
    p ∈ ds.flatMap (·.posts.getD []) ↔ .post p ∈ R := by
  simp only [h _, FeedStateV1Delta.post_mem_records, List.mem_flatMap]

theorem checked (h : Delivers ds R) (hR : ∀ x ∈ R, x.check C parameters = .ok ()) :
    ∀ d ∈ ds, d.Checked C parameters := fun d hd =>
  FeedStateV1Delta.checked_iff.mpr fun x hx => hR x ((h x).mpr ⟨d, hd, hx⟩)

theorem profile_eq (hds : Delivers ds R) (hes : Delivers es R)
    (h : Distinguished C (s.records ++ R)) :
    (ds.foldl (applied C) s).profile = (es.foldl (applied C) s).profile := by
  rw [profile_foldl, profile_foldl]
  refine newest_congr (h.injOn_profile.mono fun p hp => ?_) fun p => ?_
  · exact List.mem_append.mpr
      ((List.mem_cons.mp hp).imp profile_mem_records.mpr hds.mem_profiles.mp)
  · rw [List.mem_cons, List.mem_cons, hds.mem_profiles, hes.mem_profiles]

theorem follows_eq (hds : Delivers ds R) (hes : Delivers es R)
    (h : Distinguished C (s.records ++ R)) :
    (ds.foldl (applied C) s).follows = (es.foldl (applied C) s).follows := by
  rw [follows_foldl, follows_foldl]
  refine newest_congr (h.injOn_follows.mono fun f hf => ?_) fun f => ?_
  · exact List.mem_append.mpr
      ((List.mem_cons.mp hf).imp follows_mem_records.mpr hds.mem_follows.mp)
  · rw [List.mem_cons, List.mem_cons, hds.mem_follows, hes.mem_follows]

theorem attestation_eq (hds : Delivers ds R) (hes : Delivers es R)
    (h : Distinguished C (s.records ++ R)) :
    (ds.foldl (applied C) s).attestation = (es.foldl (applied C) s).attestation := by
  rw [attestation_foldl, attestation_foldl]
  refine newest_congr (h.injOn_attestation.mono fun slot hslot => ?_) fun slot => ?_
  · rintro att rfl
    rw [List.mem_append, attestation_mem_records]
    refine (List.mem_cons.mp hslot).imp Eq.symm fun hmem => ?_
    obtain ⟨_, ⟨⟩, hatt⟩ := hds.mem_attestations.mp hmem
    exact hatt
  · rw [List.mem_cons, List.mem_cons, hds.mem_attestations, hes.mem_attestations]

theorem posts_eq (hds : Delivers ds R) (hes : Delivers es R) (hs : PostsV1.Settled s.posts.posts)
    (h : Distinguished C (s.records ++ R)) :
    (ds.foldl (applied C) s).posts = (es.foldl (applied C) s).posts := by
  have hid {fs : List (FeedStateV1Delta Cert)} (hfs : Delivers fs R) :
      PostsV1.Identified (s.posts.posts ++ fs.flatMap (·.posts.getD [])) := by
    refine h.identified fun p hp => ?_
    rw [List.mem_append, post_mem_records, ← hfs.mem_posts]
    exact List.mem_append.mp hp
  rw [posts_foldl hs (hid hds), posts_foldl hs (hid hes)]
  refine (hid hds).canonicalize_congr (hid hes) (congrArg _ ?_)
  ext p
  rw [List.mem_toFinset, List.mem_toFinset, List.mem_append, List.mem_append, hds.mem_posts,
    hes.mem_posts]

end Delivers

/-- **Convergence**: two runs that deliver the same records, in any order, any number of times and
grouped in any way, both succeed and end in the same feed. -/
theorem updates_converge (hs : s.verify C parameters = .ok ())
    (hR : ∀ x ∈ R, x.check C parameters = .ok ()) (h : Distinguished C (s.records ++ R))
    (hds : Delivers ds R) (hes : Delivers es R) :
    ∃ s', run C parameters s ds = .ok s' ∧ run C parameters s es = .ok s' := by
  have hv := verify_iff.mp hs
  have heq : ds.foldl (applied C) s = es.foldl (applied C) s :=
    FeedStateV1.ext (hds.profile_eq hes h) (hds.follows_eq hes h) (hds.attestation_eq hes h)
      (hds.posts_eq hes hv.settled h)
  exact ⟨_, run_eq_ok.mpr ⟨hds.checked hR, rfl⟩, run_eq_ok.mpr ⟨hes.checked hR, heq⟩⟩

end FeedStateV1

namespace Sample

/-- Two versions of the profile, two attestations and two posts. -/
def updates : List (FeedRecord VerifyingKey) :=
  [.profile ⟨⟨"name", "bio", 2⟩, sign 5 0⟩, .profile ⟨⟨"name", "other", 2⟩, sign 5 0⟩,
    .attestation (attestation 5 8 1), .attestation (attestation 5 9 2),
    .post (post 2 "b" none), .post (post 3 "c" none)]

def updatedApart : List (FeedStateV1Delta VerifyingKey) :=
  [⟨some ⟨⟨"name", "bio", 2⟩, sign 5 0⟩, none, some (attestation 5 9 2), some [post 3 "c" none]⟩,
    ⟨none, none, some (attestation 5 8 1), none⟩,
    ⟨some ⟨⟨"name", "other", 2⟩, sign 5 0⟩, none, none, some [post 2 "b" none]⟩]

def updatedTogether : List (FeedStateV1Delta VerifyingKey) :=
  [⟨some ⟨⟨"name", "other", 2⟩, sign 5 0⟩, none, some (attestation 5 8 1),
      some [post 2 "b" none, post 3 "c" none, post 2 "b" none]⟩,
    ⟨some ⟨⟨"name", "bio", 2⟩, sign 5 0⟩, none, some (attestation 5 9 2), none⟩]

end Sample

namespace FeedStateV1

open Sample

theorem updates_converge_apart : ∃ s',
    run feedCrypto feedOwner (feed 1 [post 1 "a" none]) updatedApart = .ok s' ∧
      run feedCrypto feedOwner (feed 1 [post 1 "a" none]) updatedTogether = .ok s' := by
  have delivers {ds : List (FeedStateV1Delta VerifyingKey)}
      (h : ∀ x ∈ updates, ∃ d ∈ ds, x ∈ d.records) (h' : ∀ d ∈ ds, ∀ x ∈ d.records, x ∈ updates) :
      Delivers ds updates := fun x => ⟨h x, fun ⟨d, hd, hx⟩ => h' d hd x hx⟩
  have hdistinct : Distinguished feedCrypto ((feed 1 [post 1 "a" none]).records ++ updates) := by
    unfold Distinguished
    decide +kernel
  exact updates_converge (by decide +kernel) (by decide +kernel) hdistinct
    (delivers (by decide +kernel) (by decide +kernel))
    (delivers (by decide +kernel) (by decide +kernel))

end FeedStateV1

end Freebird
