import Freebird.Inbox.Invariant

/-!
# Cleanup, and what the staple filter saves

`post_apply_cleanup` leaves a state `Clean` and leaves a clean state alone (`cleanup_projection`). It
drops every credential no pointer references, so `apply_delta` need not look at such a credential
first: the filter that runs ahead of the credentials changes no result (`staple_filter_iff`).
-/

namespace Freebird

open Retention AuthorizedReplyPointerV3

variable {Cert : Type} {C : Crypto Cert} {parameters : InboxParametersV3}

namespace InboxStateV3

variable {s s' : InboxStateV3 Cert} {d : InboxStateV3Delta Cert} {p : AuthorizedReplyPointerV3}

/-! ## Cleanup -/

variable (C) in
/-- The states with nothing to clean up. -/
structure Clean (s : InboxStateV3 Cert) : Prop where
  settled : PointersV3.Settled s.pointers.pointers
  resolved : ∀ p ∈ s.pointers.pointers, p.Resolved C (s.creds.creds[·]?)
  referenced : ∀ k ∈ s.creds.creds, ∃ p ∈ s.pointers.pointers, p.ptr.replier = k

theorem Valid.clean (hs : s.Valid C parameters) : s.Clean C :=
  ⟨hs.settled, hs.resolved, hs.referenced⟩

/-- A pointer that is left was resolved when the cleanup began. -/
theorem resolved_of_cleanup (hp : p ∈ (s.postApplyCleanup C).pointers.pointers) :
    p.Resolved C (s.creds.creds[·]?) := by
  have hmem := PointersV3.mem_of_mem_canonicalize hp
  obtain ⟨c, hc, hfp⟩ := (Option.any_eq_true _ _).mp (List.mem_filter.mp hmem).2
  exact ⟨c, hc, (of_decide_eq_true hfp).symm⟩

/-- Pruning keeps the credentials of the pointers that are left. -/
theorem cleanup_creds_of_mem (hp : p ∈ (s.postApplyCleanup C).pointers.pointers) :
    (s.postApplyCleanup C).creds.creds[p.ptr.replier]? = s.creds.creds[p.ptr.replier]? := by
  rw [postApplyCleanup_creds, if_pos ⟨p, hp, rfl⟩]

theorem clean_postApplyCleanup (s : InboxStateV3 Cert) : (s.postApplyCleanup C).Clean C where
  settled := PointersV3.settled_canonicalize _
  resolved p hp := by
    obtain ⟨c, hc, hfp⟩ := resolved_of_cleanup hp
    exact ⟨c, (cleanup_creds_of_mem hp).trans hc, hfp⟩
  referenced k hk := by
    obtain ⟨c, hc⟩ := Map.mem_iff.mp hk
    rw [postApplyCleanup_creds, Option.ite_none_right_eq_some] at hc
    exact hc.1

theorem Clean.postApplyCleanup_eq (hs : s.Clean C) : s.postApplyCleanup C = s := by
  have hpointers : (s.postApplyCleanup C).pointers.pointers = s.pointers.pointers := by
    rw [postApplyCleanup_pointers hs.settled]
    exact List.filter_eq_self.mpr fun p hp => decide_eq_true (hs.resolved p hp)
  have hcreds : (s.postApplyCleanup C).creds.creds = s.creds.creds := by
    refine Std.ExtTreeMap.ext_getElem? fun k => ?_
    rw [postApplyCleanup_creds, hpointers]
    split
    · rfl
    · rename_i hno
      exact (Std.ExtTreeMap.getElem?_eq_none fun hk => hno (hs.referenced k hk)).symm
  exact ext_parts hcreds hpointers rfl

/-- **Cleanup is a projection**, and a state that verifies is among its fixpoints. -/
theorem cleanup_projection (s : InboxStateV3 Cert) :
    (s.postApplyCleanup C).postApplyCleanup C = s.postApplyCleanup C ∧
      ∀ parameters, s.verify C parameters = .ok () → s.postApplyCleanup C = s :=
  ⟨(clean_postApplyCleanup s).postApplyCleanup_eq,
    fun _ hs => (verify_iff.mp hs).clean.postApplyCleanup_eq⟩

open Sample in
theorem cleanup_projection_seated : seated.verify crypto inbox = .ok () ∧
    seated.postApplyCleanup crypto = seated := by
  have hs : seated.verify crypto inbox = .ok () := by decide +kernel
  exact ⟨hs, (cleanup_projection seated).2 inbox hs⟩

/-! ## The staple filter -/

variable (C) in
/-- `apply_delta` without the filter: the credential component is given every credential of the
delta. -/
def plainApplyDelta (self : InboxStateV3 Cert) (parameters : InboxParametersV3)
    (delta : Option (InboxStateV3Delta Cert)) : Except String Unit × InboxStateV3 Cert :=
  match delta with
  | none => (.ok (), self)
  | some delta =>
    let self := { self with
      powDifficulty := adoptDifficulty C self.powDifficulty delta.powDifficulty }
    let bits := difficultyBits C self.powDifficulty
    let admitted := delta.pointers.map (·.filter (admits C parameters.owner.asBytes bits))
    match self.creds.applyDelta C parameters delta.creds with
    | (.error e, creds) => (.error e, { self with creds })
    | (.ok (), creds) =>
      let self := { self with creds }
      match self.pointers.applyDelta C self parameters admitted with
      | (.error e, pointers) => (.error e, { self with pointers })
      | (.ok (), pointers) => (.ok (), ({ self with pointers }).postApplyCleanup C)

/-- The steps of a successful plain call. -/
theorem plainApplyDelta_steps : s.plainApplyDelta C parameters (some d) = (.ok (), s') ↔
    ∃ creds pointers, s.creds.applyDelta C parameters d.creds = (.ok (), creds) ∧
      s.pointers.applyDelta C ⟨creds, s.pointers, s.latchAfter C d⟩ parameters
        (s.admitted? C parameters d) = (.ok (), pointers) ∧
      postApplyCleanup C ⟨creds, pointers, s.latchAfter C d⟩ = s' := by
  constructor
  · intro h
    simp only [plainApplyDelta] at h
    split at h
    · simp at h
    · rename_i creds hcreds
      split at h
      · simp at h
      · rename_i pointers hpointers
        exact ⟨creds, pointers, hcreds, hpointers, (Prod.mk.inj h).2⟩
  · rintro ⟨creds, pointers, hcreds, hpointers, rfl⟩
    simp only [latchAfter, admitted?] at hpointers
    simp only [plainApplyDelta, hcreds, hpointers, latchAfter]

end InboxStateV3

/-- The credential component takes a delta of bounded size whose winners are in order. -/
theorem CredsV3.applyDelta_ok_iff {self : CredsV3 Cert}
    {offered : Option (Map (Bytes 32) (ReplierCredV3 Cert))} :
    (self.applyDelta C parameters offered).1 = .ok () ↔
      (offered.getD ∅).size ≤ maxPointers ∧ ∀ (k : Bytes 32) (c : ReplierCredV3 Cert),
        (offered.getD ∅)[k]? = some c → self.Admissible C parameters k c := by
  by_cases hsize : (offered.getD ∅).size ≤ maxPointers
  · rw [(applyDelta_spec C parameters self hsize).1, and_iff_right hsize]
  · refine iff_of_false (fun h => hsize ?_) fun h => hsize h.1
    cases offered with
    | none => simp
    | some m =>
      rw [CredsV3.applyDelta] at h
      split at h
      · simp at h
      · rename_i hlt
        exact not_lt.mp hlt

namespace InboxStateV3

variable {s s' : InboxStateV3 Cert} {d : InboxStateV3Delta Cert} {p : AuthorizedReplyPointerV3}

variable (C) in
/-- The credential of a key under which the plain version resolves pointers. -/
def credPlain (s : InboxStateV3 Cert) (d : InboxStateV3Delta Cert) (k : Bytes 32) :
    Option (ReplierCredV3 Cert) := newerCred C s.creds.creds[k]? (d.creds.getD ∅)[k]?

/-- The filter leaves the credential of a referenced key alone. -/
theorem credPlain_eq {k : Bytes 32}
    (hk : ∃ p ∈ s.admitted C parameters d ++ s.pointers.pointers, p.ptr.replier = k) :
    s.credPlain C d k = s.credAfter C parameters d k := by
  rw [credPlain, credAfter, vouched, if_pos hk]

theorem credPlain_of_admitted (hp : p ∈ s.admitted C parameters d) :
    s.credPlain C d p.ptr.replier = s.credAfter C parameters d p.ptr.replier :=
  credPlain_eq ⟨p, List.mem_append_left _ hp, rfl⟩

theorem credPlain_of_seated (hp : p ∈ s.pointers.pointers) :
    s.credPlain C d p.ptr.replier = s.credAfter C parameters d p.ptr.replier :=
  credPlain_eq ⟨p, List.mem_append_right _ hp, rfl⟩

/-- Both versions append the same pointers. -/
theorem accepted_plain : ((s.admitted C parameters d).filter fun p =>
    p.Resolved C (s.credPlain C d)) = s.accepted C parameters d :=
  List.filter_congr fun _ hp =>
    decide_eq_decide.mpr (resolved_congr (credPlain_of_admitted hp))

theorem credPlain_of_steps {creds : CredsV3 Cert}
    (hcreds : s.creds.applyDelta C parameters d.creds = (.ok (), creds)) :
    (creds.creds[·]?) = s.credPlain C d := by
  have hok : (s.creds.applyDelta C parameters d.creds).1 = .ok () := by rw [hcreds]
  have hsize := (CredsV3.applyDelta_ok_iff.mp hok).1
  funext k
  have hget := (CredsV3.applyDelta_spec C parameters s.creds hsize).2 hok k
  rwa [hcreds] at hget

/-- The cleanup makes up for the credentials that the filter would have dropped. -/
theorem applied_cleanup_plain {creds : CredsV3 Cert}
    (hlook : (creds.creds[·]?) = s.credPlain C d) :
    s.Applied C parameters d (postApplyCleanup C ⟨creds, PointersV3.canonicalize
      ⟨s.pointers.pointers ++ s.accepted C parameters d⟩, s.latchAfter C d⟩) := by
  refine applied_cleanup fun p hp => (congrFun hlook _).trans ?_
  rcases hp with hp | hp
  · exact credPlain_of_seated hp
  · exact credPlain_of_admitted (mem_accepted.mp hp).1

/-- Where every credential is in order, a pointer is signed under the one it comes with exactly if it
is signed under the one held afterwards: both are stored under the replier it names. -/
theorem stapled_of_signed (hs : s.Valid C parameters)
    (hd : ∀ (k : Bytes 32) (c : ReplierCredV3 Cert), (d.creds.getD ∅)[k]? = some c →
      c.check C k parameters.ghostkeyMaster = .ok ())
    (hp : p ∈ s.admitted C parameters d)
    (h : SignedUnder C parameters (s.credAfter C parameters d) p) :
    SignedUnder C parameters ((d.creds.getD ∅)[·]?) p := by
  refine ⟨h.1, fun c hc => ?_⟩
  have hvouched := (vouched_of_admitted hp).trans hc
  have hsome : (s.credAfter C parameters d p.ptr.replier).isSome :=
    credAfter_isSome (.inr (by simp [hvouched]))
  obtain ⟨c', hc'⟩ := Option.isSome_iff_exists.mp hsome
  have hkey' : c'.postingKey = ⟨p.ptr.replier⟩ := by
    rcases credAfter_cases hc' with hheld | hnew
    · exact hs.keyed _ _ hheld
    · exact ReplierCredV3.check_key (hd _ _ (vouched_eq_some.mp hnew).2)
  have hkey := ReplierCredV3.check_key (hd _ _ hc)
  rw [hkey, ← hkey']
  exact h.2 c' hc'

/-- **The staple filter is only an optimisation.** -/
theorem staple_filter_iff (hs : s.verify C parameters = .ok ())
    (hd : ∀ (k : Bytes 32) (c : ReplierCredV3 Cert), (d.creds.getD ∅)[k]? = some c →
      c.check C k parameters.ghostkeyMaster = .ok ()) :
    s.applyDelta C parameters (some d) = (.ok (), s') ↔
      s.plainApplyDelta C parameters (some d) = (.ok (), s') := by
  have hv := verify_iff.mp hs
  rw [applyDelta_eq_ok hv.settled, plainApplyDelta_steps]
  constructor
  · rintro ⟨ha, happlied⟩
    have hok : (s.creds.applyDelta C parameters d.creds).1 = .ok () :=
      CredsV3.applyDelta_ok_iff.mpr ⟨ha.size, fun k c hc _ => hd k c hc⟩
    have hlook := credPlain_of_steps (Prod.ext hok rfl)
    refine ⟨_, _, Prod.ext hok rfl, (PointersV3.applyDelta_eq_ok hv.settled).mpr
      ⟨fun p hp => ?_, rfl⟩, ?_⟩
    · simp only [hlook]
      exact (signedUnder_congr (credPlain_of_admitted hp)).mpr (ha.signed p hp)
    · simp only [hlook, getD_admitted?, accepted_plain]
      exact (applied_cleanup_plain hlook).unique happlied
  · rintro ⟨creds, pointers, hcreds, hpointers, rfl⟩
    have hlook := credPlain_of_steps hcreds
    obtain ⟨hsigned, rfl⟩ := (PointersV3.applyDelta_eq_ok hv.settled).mp hpointers
    simp only [hlook, getD_admitted?] at hsigned ⊢
    have hok : (s.creds.applyDelta C parameters d.creds).1 = .ok () := by rw [hcreds]
    have hafter : ∀ p ∈ s.admitted C parameters d,
        SignedUnder C parameters (s.credAfter C parameters d) p := fun p hp =>
      (signedUnder_congr (credPlain_of_admitted hp)).mp (hsigned p hp)
    refine ⟨⟨(CredsV3.applyDelta_ok_iff.mp hok).1, ?_, ?_, hafter⟩, ?_⟩
    · exact fun p hp => stapled_of_signed hv hd hp (hafter p hp)
    · exact fun k c hc _ => hd k c (vouched_eq_some.mp hc).2
    · rw [accepted_plain]
      exact applied_cleanup_plain hlook

open Sample in
/-- The credential of `key 3` comes without a pointer; the filter drops it, the plain version prunes
it. -/
theorem staple_filter_iff_orphan :
    let d := inboxDelta [anonymous 2, anonymous 3] [pointer (anonymous 2) 4 5 0]
    seated.plainApplyDelta crypto inbox (some d) =
      (.ok (), (seated.applyDelta crypto inbox (some d)).2) := by
  intro d
  have hd : ∀ kc ∈ (d.creds.getD ∅).toList,
      kc.2.check crypto kc.1 inbox.ghostkeyMaster = .ok () := by
    decide +kernel
  refine (staple_filter_iff (s := seated) (d := d) (by decide +kernel) fun k c hc => ?_).mp
    (by decide +kernel)
  exact hd (k, c) (Std.ExtTreeMap.mem_toList_iff_getElem?_eq_some.mpr hc)

end InboxStateV3

end Freebird
