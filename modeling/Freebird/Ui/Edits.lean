import Freebird.Feed.Apply
import Freebird.Transition.Runs
import Freebird.Ui.Account

/-!
# Edits of the follow list

What a call signs is the effective list with one edit, a version above the one loaded. The list is in
several places at once: the local copy, the contract, the updates under way and the calls that wait
for their send. Nothing but what was signed ever gets to any of them (`Everywhere`), and while the
calls take turns one of the copies is the latest and all others are older (`Latest`).
-/

namespace Freebird

open Register Transition

variable {Cert : Type} {C : FeedCrypto Cert} {parameters : FeedParametersV1}
  {signingKey : List U8 → Signature}

/-! ## One edit -/

section
variable {follows : Std.ExtTreeSet (Bytes 32) compare} {target x : Bytes 32} {follow : Bool}

theorem mem_editFollows :
    x ∈ (editFollows follows target follow).2 ↔ if x = target then follow = true else x ∈ follows := by
  cases follow with
  | true =>
    rw [editFollows, if_pos rfl, Std.ExtTreeSet.mem_insert, Std.compare_eq_iff_eq]
    split <;> simp_all [eq_comm]
  | false =>
    rw [editFollows, if_neg Bool.false_ne_true, Std.ExtTreeSet.mem_erase, ne_eq,
      Std.compare_eq_iff_eq]
    split <;> simp_all [eq_comm]

theorem changed_editFollows :
    (editFollows follows target follow).1 = true ↔ ¬(target ∈ follows ↔ follow = true) := by
  cases follow <;> simp [editFollows]

/-- An edit that is not needed changes nothing. -/
theorem editFollows_eq_self (h : target ∈ follows ↔ follow = true) :
    (editFollows follows target follow).2 = follows := by
  apply Std.ExtTreeSet.ext_mem
  intro x
  rw [mem_editFollows]
  split
  · rename_i hx
    rw [hx, h]
  · rfl

end

/-- The list after some edits, one after the other. -/
def edits (follows : Std.ExtTreeSet (Bytes 32) compare) (calls : List (Bytes 32 × Bool)) :
    Std.ExtTreeSet (Bytes 32) compare :=
  calls.foldl (fun follows call => (editFollows follows call.1 call.2).2) follows

theorem edits_append (follows : Std.ExtTreeSet (Bytes 32) compare)
    (calls calls' : List (Bytes 32 × Bool)) :
    edits follows (calls ++ calls') = edits (edits follows calls) calls' :=
  List.foldl_append

section
variable {follows : Std.ExtTreeSet (Bytes 32) compare} {calls : List (Bytes 32 × Bool)}
  {x : Bytes 32}

theorem mem_edits_of_not_called (h : x ∉ calls.map Prod.fst) :
    x ∈ edits follows calls ↔ x ∈ follows := by
  induction calls generalizing follows with
  | nil => rfl
  | cons call calls ih =>
    rw [List.map_cons, List.mem_cons, not_or] at h
    rw [edits, List.foldl_cons]
    refine (ih h.2).trans ?_
    rw [mem_editFollows, if_neg h.1]

/-- Edits of distinct accounts do not meet. -/
theorem mem_edits (h : (calls.map Prod.fst).Nodup) :
    x ∈ edits follows calls ↔ (x, true) ∈ calls ∨ x ∈ follows ∧ (x, false) ∉ calls := by
  induction calls generalizing follows with
  | nil => simp [edits]
  | cons call calls ih =>
    obtain ⟨target, follow⟩ := call
    rw [List.map_cons, List.nodup_cons] at h
    have htarget (b : Bool) : (target, b) ∉ calls := fun hb =>
      h.1 (List.mem_map.mpr ⟨(target, b), hb, rfl⟩)
    rw [edits, List.foldl_cons]
    refine (ih h.2).trans ?_
    rw [mem_editFollows]
    by_cases hx : x = target
    · subst hx
      simp [htarget, eq_comm]
    · simp [hx]

/-- An account stays on the list unless it is unfollowed. -/
theorem mem_edits_of_mem (h : x ∈ follows) (hcall : (x, false) ∉ calls) :
    x ∈ edits follows calls := by
  induction calls generalizing follows with
  | nil => exact h
  | cons call calls ih =>
    rw [List.mem_cons, not_or] at hcall
    rw [edits, List.foldl_cons]
    refine ih ?_ hcall.2
    rw [mem_editFollows]
    split
    · rename_i hx
      by_contra hfollow
      rw [Bool.not_eq_true] at hfollow
      exact hcall.1 (Prod.ext hx hfollow.symm)
    · exact h

end

theorem followsOf_legacy {v2 legacy : FollowsV1} (h : v2.version = 0) :
    followsOf (some v2) (some legacy) = legacy.follows := by
  simp [followsOf, writtenSinceRotation, h]

theorem followsOf_v2 {v2 : FollowsV1} {legacy : Option FollowsV1}
    (h : legacy = none ∨ 0 < v2.version) : followsOf (some v2) legacy = v2.follows := by
  rcases h with rfl | h
  · simp [followsOf]
  · simp [followsOf, writtenSinceRotation, h]

theorem effectiveFollows_of_none {feed : Option (FeedStateV1 Cert)}
    {legacy : Option (LegacyFeedState Cert)} {state : FeedStateV1 Cert} (hs : feed = some state)
    (h : legacy = none) : effectiveFollows feed legacy = state.follows.follows.follows := by
  rw [effectiveFollows, hs, h]
  exact followsOf_v2 (.inl rfl)

theorem setFollow_eq_some {feed : Option (FeedStateV1 Cert)}
    {legacy : Option (LegacyFeedState Cert)} {target : Bytes 32} {follow : Bool}
    {record : AuthorizedFollows} :
    setFollow signingKey feed legacy target follow = .ok (some record) ↔
      ∃ current, feed = some current ∧
        ¬(target ∈ effectiveFollows feed legacy ↔ follow = true) ∧
        record = .new ⟨(editFollows (effectiveFollows feed legacy) target follow).2,
          current.follows.follows.version + 1⟩ signingKey := by
  cases feed with
  | none => simp [setFollow]
  | some current =>
    rw [← changed_editFollows]
    simp only [setFollow]
    split
    · rename_i h
      simp [h, eq_comm]
    · rename_i h
      simp [h]

theorem setFollow_eq_none {feed : Option (FeedStateV1 Cert)}
    {legacy : Option (LegacyFeedState Cert)} {target : Bytes 32} {follow : Bool} :
    setFollow signingKey feed legacy target follow = .ok none ↔
      feed.isSome ∧ (target ∈ effectiveFollows feed legacy ↔ follow = true) := by
  cases feed with
  | none => simp [setFollow]
  | some current =>
    rw [← not_iff_not, not_and, ← changed_editFollows]
    simp only [setFollow]
    split <;> simp_all

/-! ## What becomes of the list -/

theorem version_lt_succ {v : U32} (h : v.val + 1 < 2 ^ 32) : v < v + 1 := by
  rw [Fin.lt_def, Fin.val_add_one_of_lt' h]
  exact Nat.lt_succ_self _

variable (C parameters) in
/-- What the author signs verifies. -/
def Signs (signingKey : List U8 → Signature) : Prop :=
  ∀ payload, C.verifyStrict parameters.author payload (signingKey payload) = .ok ()

theorem Sample.signs : Signs feedCrypto feedOwner fun _ => sign 5 0 := fun _ => rfl

theorem AuthorizedFollows.check_new {follows : FollowsV1} (hsign : Signs C parameters signingKey)
    (h : follows.follows.size ≤ maxFollows) :
    (AuthorizedFollows.new follows signingKey).check C parameters.author = .ok () := by
  have hsize : ¬maxFollows < (new follows signingKey).follows.follows.size := not_lt.mpr h
  rw [check, if_neg hsize]
  exact mapErr_eq_ok.mpr (hsign _)

theorem version_le_of_key {f g : AuthorizedFollows} (h : f.lwwKey C ≤ g.lwwKey C) :
    f.follows.version ≤ g.follows.version :=
  Prod.Lex.monotone_fst _ _ h

/-! A higher version is a higher key, whatever the hashes. -/

theorem AuthorizedProfile.lwwKey_lt {p q : AuthorizedProfile}
    (h : p.profile.version < q.profile.version) : p.lwwKey C < q.lwwKey C :=
  Prod.Lex.lt_iff.mpr (.inl h)

theorem AuthorizedFollows.lwwKey_lt {f g : AuthorizedFollows}
    (h : f.follows.version < g.follows.version) : f.lwwKey C < g.lwwKey C :=
  Prod.Lex.lt_iff.mpr (.inl h)

/-- A record is kept, or offered the one that came. -/
theorem applyRecord_or (check : α → Except String Unit) (key : α → VersionKey) (self : α)
    (delta : Option α) : (applyRecord check key self delta).2 = self ∨
      ∃ d, delta = some d ∧ (applyRecord check key self delta).2 = newer key self d := by
  cases delta with
  | none => exact .inl rfl
  | some d =>
    rw [applyRecord]
    split
    · exact .inl rfl
    · exact .inr ⟨d, rfl, rfl⟩

namespace FeedStateV1

variable {s o : FeedStateV1 Cert} {d : FeedStateV1Delta Cert} {record : AuthorizedFollows}

section
variable (C parameters)

theorem profile_applyDelta (s : FeedStateV1 Cert) (d : FeedStateV1Delta Cert) :
    (s.applyDelta C parameters (some d)).2.profile =
      (s.profile.applyDelta C parameters d.profile).2 := by
  simp only [applyDelta]
  split
  · rename_i hp
    rw [hp]
  · rename_i hp
    rw [hp]
    split
    · rfl
    · split
      · rfl
      · split <;> rfl

/-- The list is kept or offered the one that came, up to an error as well as without one. -/
theorem follows_applyDelta_or (s : FeedStateV1 Cert) (d : FeedStateV1Delta Cert) :
    (s.applyDelta C parameters (some d)).2.follows = s.follows ∨
      ∃ f, d.follows = some f ∧ (s.applyDelta C parameters (some d)).2.follows =
        newer (AuthorizedFollows.lwwKey C) s.follows f := by
  have h : (s.applyDelta C parameters (some d)).2.follows = s.follows ∨
      (s.applyDelta C parameters (some d)).2.follows =
        (s.follows.applyDelta C parameters d.follows).2 := by
    simp only [applyDelta]
    split
    · exact .inl rfl
    · split
      · rename_i hf
        exact .inr (congrArg Prod.snd hf).symm
      · rename_i hf
        rw [hf]
        split
        · exact .inr rfl
        · split <;> exact .inr rfl
  rcases h with h | h
  · exact .inl h
  · rw [h]
    exact applyRecord_or _ (AuthorizedFollows.lwwKey C) s.follows d.follows

/-- The list is kept or replaced by the one that came, which is no older. -/
theorem follows_applyDelta (s : FeedStateV1 Cert) (d : FeedStateV1Delta Cert) :
    (s.applyDelta C parameters (some d)).2.follows = s.follows ∨
      d.follows = some (s.applyDelta C parameters (some d)).2.follows ∧
      s.follows.follows.version ≤
        (s.applyDelta C parameters (some d)).2.follows.follows.version := by
  rcases follows_applyDelta_or C parameters s d with h | ⟨f, hf, h⟩
  · exact .inl h
  · rcases newer_eq_or (AuthorizedFollows.lwwKey C) s.follows f with hn | hn
    · exact .inl (h.trans hn)
    · refine .inr ⟨hf.trans (congrArg some (h.trans hn).symm), ?_⟩
      rw [h]
      apply version_le_of_key (C := C)
      exact (le_max_left _ _).trans_eq (key_newer (AuthorizedFollows.lwwKey C) s.follows f).symm

/-- What a merge takes is the other side's. -/
theorem delta_of_merge {d : FeedStateV1Delta Cert} (hd : o.delta C (s.summarize C) = some d) :
    d.profile = o.profile.delta C (s.summarize C).profile ∧
      d.follows = o.follows.delta C (s.summarize C).follows := by
  simp only [delta] at hd
  split at hd
  · rw [← Option.some.inj hd]
    exact ⟨rfl, rfl⟩
  · cases hd

theorem follows_merge (s o : FeedStateV1 Cert) :
    (s.merge C parameters o).2.follows = s.follows ∨
      (s.merge C parameters o).2.follows = o.follows ∧
        s.follows.follows.version ≤ o.follows.follows.version := by
  rw [merge]
  cases hd : o.delta C (s.summarize C) with
  | none => exact .inl rfl
  | some d =>
    refine (follows_applyDelta C parameters s d).imp_right fun ⟨h, hle⟩ => ?_
    have heq := mem_offer ((delta_of_merge C hd).2.symm.trans h)
    exact ⟨heq, heq ▸ hle⟩

theorem follows_accept (s : FeedStateV1 Cert) (d : FeedStateV1Delta Cert) :
    (s.accept C parameters d).follows = s.follows ∨
      d.follows = some (s.accept C parameters d).follows ∧
        s.follows.follows.version ≤ (s.accept C parameters d).follows.follows.version := by
  have h := follows_applyDelta C parameters s d
  rw [accept]
  split
  · rename_i hs
    rwa [hs] at h
  · exact .inl rfl

end

theorem follows_mergeFeed {entry : Option (FeedStateV1 Cert)}
    (h : mergeFeed C parameters entry o = some s) :
    (∃ old, entry = some old ∧ s.follows = old.follows) ∨ s.follows = o.follows ∧
      ∀ old, entry = some old → old.follows.follows.version ≤ o.follows.follows.version := by
  cases entry with
  | none =>
    simp only [mergeFeed] at h
    split at h
    · exact .inr ⟨by rw [← Option.some.inj h], nofun⟩
    · cases h
  | some old =>
    obtain rfl := Option.some.inj h
    rcases old.follows_merge C parameters o with ho | ⟨hc, hle⟩
    · exact .inl ⟨old, rfl, ho⟩
    · refine .inr ⟨hc, ?_⟩
      rintro _ ⟨⟩
      exact hle

/-- A list that fails its check is not taken. -/
theorem accept_of_error {e : String} (h : record.check C parameters.author = .error e) :
    s.accept C parameters (followsDelta record) = s := by
  have hne (state : FeedStateV1 Cert) :
      s.applyDelta C parameters (some (followsDelta record)) ≠ (.ok (), state) := by
    intro happly
    have hok := (applyDelta_eq_ok.mp happly).1.follows record rfl
    rw [h] at hok
    cases hok
  rw [accept]
  split
  · rename_i happly
    exact absurd happly (hne _)
  · rfl

/-- A list that passes its check is taken unless it is outdated. -/
theorem version_le_accept (h : record.check C parameters.author = .ok ()) :
    record.follows.version ≤
      (s.accept C parameters (followsDelta record)).follows.follows.version := by
  have happly : s.applyDelta C parameters (some (followsDelta record)) =
      (.ok (), s.applied C (followsDelta record)) :=
    applyDelta_eq_ok.mpr ⟨⟨nofun, fun r hr => Option.some.inj hr ▸ h, nofun, nofun⟩, rfl⟩
  rw [accept, happly]
  apply version_le_of_key (C := C)
  exact (le_max_right _ _).trans_eq (key_newer (AuthorizedFollows.lwwKey C) s.follows record).symm

end FeedStateV1

/-- The call that an event starts. -/
def EditEvent.call : EditEvent Cert → Option (Bytes 32 × Bool)
  | .setFollow target follow => some (target, follow)
  | .assign _ => none
  | .deliver _ => none

@[inherit_doc EditEvent.call]
def AccountEvent.call : AccountEvent Cert → Option (Bytes 32 × Bool)
  | .edit event => event.call
  | .arrive => none
  | .migrate => none
  | .refetch => none
  | .confirm => none

namespace Account

variable {s s' : Account Cert} {target : Bytes 32} {follow : Bool} {record : AuthorizedFollows}
  {update : FeedStateV1Delta Cert}

/-! ## What a step does -/

section
variable [DecidableEq Cert]

theorem editStep_setFollow :
    s.editStep C parameters signingKey (.setFollow target follow) = some s' ↔
      setFollow signingKey s.feed s.legacy target follow = .ok none ∧ s' = s ∨
      ∃ record, setFollow signingKey s.feed s.legacy target follow = .ok (some record) ∧
        s' = { s with
          inFlight := followsDelta record ::ₘ s.inFlight, pending := record ::ₘ s.pending } := by
  rw [editStep]
  split
  · rename_i r h
    simp [h, eq_comm]
  · rename_i h
    simp [h, eq_comm]
  · rename_i h
    simp [h]

theorem editStep_assign : s.editStep C parameters signingKey (.assign record) = some s' ↔
    record ∈ s.pending ∧ s' = { s with
      feed := s.feed.map fun state => { state with follows := record }
      pending := s.pending.erase record } := by
  rw [editStep, Option.ite_none_right_eq_some, Option.some.injEq, eq_comm (a := s')]

theorem editStep_deliver : s.editStep C parameters signingKey (.deliver update) = some s' ↔
    update ∈ s.inFlight ∧ s' = { s with
      contract := s.contract.accept C parameters update
      inFlight := s.inFlight.erase update } := by
  rw [editStep, Option.ite_none_right_eq_some, Option.some.injEq, eq_comm (a := s')]

theorem legacy_editStep {event : EditEvent Cert}
    (hstep : s.editStep C parameters signingKey event = some s') : s'.legacy = s.legacy := by
  cases event with
  | setFollow target follow => rcases editStep_setFollow.mp hstep with ⟨-, rfl⟩ | ⟨r, -, rfl⟩ <;> rfl
  | assign record =>
    obtain ⟨-, rfl⟩ := editStep_assign.mp hstep
    rfl
  | deliver update =>
    obtain ⟨-, rfl⟩ := editStep_deliver.mp hstep
    rfl

end

/-! ## The copies of the list -/

/-- Every copy of the list, in the browser, at the contract or under way, satisfies `P`. -/
structure Everywhere (P : AuthorizedFollows → Prop) (s : Account Cert) : Prop where
  feed : ∀ state, s.feed = some state → P state.follows
  contract : P s.contract.follows
  inFlight : ∀ d ∈ s.inFlight, ∀ r, d.follows = some r → P r
  pending : ∀ r ∈ s.pending, P r

namespace Everywhere

variable {P Q : AuthorizedFollows → Prop}

theorem imp (hpq : ∀ r, P r → Q r) (h : s.Everywhere P) : s.Everywhere Q where
  feed state hs := hpq _ (h.feed state hs)
  contract := hpq _ h.contract
  inFlight d hd r hr := hpq _ (h.inFlight d hd r hr)
  pending r hr := hpq _ (h.pending r hr)

theorem congr (h : s.Everywhere P) (hfeed : s'.feed = s.feed) (hcontract : s'.contract = s.contract)
    (hflight : s'.inFlight = s.inFlight) (hpending : s'.pending = s.pending) : s'.Everywhere P where
  feed := hfeed ▸ h.feed
  contract := hcontract ▸ h.contract
  inFlight := hflight ▸ h.inFlight
  pending := hpending ▸ h.pending

theorem call (h : s.Everywhere P) (hr : P record) : Everywhere P { s with
    inFlight := followsDelta record ::ₘ s.inFlight, pending := record ::ₘ s.pending } where
  feed := h.feed
  contract := h.contract
  inFlight := Multiset.forall_mem_cons.mpr ⟨fun _ hr' => Option.some.inj hr' ▸ hr, h.inFlight⟩
  pending := Multiset.forall_mem_cons.mpr ⟨hr, h.pending⟩

theorem assign (h : s.Everywhere P) (hr : record ∈ s.pending) : Everywhere P { s with
    feed := s.feed.map fun state => { state with follows := record }
    pending := s.pending.erase record } where
  feed state hs := by
    obtain ⟨_, -, rfl⟩ := Option.map_eq_some_iff.mp hs
    exact h.pending record hr
  contract := h.contract
  inFlight := h.inFlight
  pending r hr := h.pending r (Multiset.mem_of_mem_erase hr)

theorem deliver [DecidableEq Cert] (h : s.Everywhere P) (hu : update ∈ s.inFlight) :
    Everywhere P { s with
      contract := s.contract.accept C parameters update
      inFlight := s.inFlight.erase update } where
  feed := h.feed
  contract := by
    rcases s.contract.follows_accept C parameters update with hc | ⟨hc, -⟩
    · change P (s.contract.accept C parameters update).follows
      rw [hc]
      exact h.contract
    · exact h.inFlight update hu _ hc
  inFlight d hd := h.inFlight d (Multiset.mem_of_mem_erase hd)
  pending := h.pending

theorem editStep [DecidableEq Cert] {event : EditEvent Cert} (h : s.Everywhere P)
    (hnew : ∀ target follow r, event = .setFollow target follow →
      setFollow signingKey s.feed s.legacy target follow = .ok (some r) → P r)
    (hstep : s.editStep C parameters signingKey event = some s') : s'.Everywhere P := by
  cases event with
  | setFollow target follow =>
    rcases editStep_setFollow.mp hstep with ⟨-, rfl⟩ | ⟨r, hr, rfl⟩
    · exact h
    · exact h.call (hnew target follow r rfl hr)
  | assign record =>
    obtain ⟨hr, rfl⟩ := editStep_assign.mp hstep
    exact h.assign hr
  | deliver update =>
    obtain ⟨hu, rfl⟩ := editStep_deliver.mp hstep
    exact h.deliver hu

theorem refetch (h : s.Everywhere P) :
    Everywhere P { s with feed := mergeFeed C parameters s.feed s.contract } where
  feed state hs := by
    rcases FeedStateV1.follows_mergeFeed hs with ⟨old, hold, he⟩ | ⟨he, -⟩
    · exact he ▸ h.feed old hold
    · exact he ▸ h.contract
  contract := h.contract
  inFlight := h.inFlight
  pending := h.pending

end Everywhere

/-! ## The latest list -/

/-- There is a version above the one loaded, and the edited list is not too long. -/
def HasRoom (s : Account Cert) (target : Bytes 32) (follow : Bool) : Prop :=
  (∀ state ∈ s.feed, state.follows.follows.version.val + 1 < 2 ^ 32) ∧
    (editFollows (effectiveFollows s.feed s.legacy) target follow).2.size ≤ maxFollows

instance (s : Account Cert) (target : Bytes 32) (follow : Bool) :
    Decidable (s.HasRoom target follow) :=
  inferInstanceAs (Decidable (_ ∧ _))

variable (C parameters) in
/-- No copy is newer than `latest`; the browser holds it unless a call waits to assign it, and the
contract does unless it is on its way there. -/
structure Latest (latest : FollowsV1) (s : Account Cert) : Prop where
  copies : s.Everywhere fun r => r.follows.version < latest.version ∨ r.follows = latest
  loaded : ∃ state, s.feed = some state ∧ (s.pending = 0 → state.follows.follows = latest)
  pending : ∀ r ∈ s.pending, s.pending = {r} ∧ r.follows = latest
  kept : s.contract.follows.follows = latest ∨ ∃ r, r.check C parameters.author = .ok () ∧
    r.follows = latest ∧ followsDelta r ∈ s.inFlight
  /-- The list of the old feed does not count. -/
  rule : s.legacy = none ∨ 0 < latest.version

namespace Latest

variable {latest : FollowsV1}

theorem effective (h : s.Latest C parameters latest) (hp : s.pending = 0) :
    effectiveFollows s.feed s.legacy = latest.follows := by
  obtain ⟨state, hs, hl⟩ := h.loaded
  have hl := hl hp
  rw [effectiveFollows, hs, Option.map_some, hl]
  exact followsOf_v2 (h.rule.imp_left fun h => by rw [h]; rfl)

/-- A record above all copies is the latest one. -/
theorem call (hcopies : s.Everywhere fun r => r.follows.version < record.follows.version)
    (hloaded : s.feed.isSome) (hp : s.pending = 0) (hr : record.check C parameters.author = .ok ()) :
    Latest C parameters record.follows { s with
      inFlight := followsDelta record ::ₘ s.inFlight, pending := record ::ₘ s.pending } where
  copies := (hcopies.imp fun _ => .inl).call (.inr rfl)
  loaded := by
    obtain ⟨state, hs⟩ := Option.isSome_iff_exists.mp hloaded
    exact ⟨state, hs, fun hp => absurd hp Multiset.cons_ne_zero⟩
  pending r hr := by
    change r ∈ record ::ₘ s.pending at hr
    rw [hp, Multiset.mem_cons, or_iff_left (Multiset.notMem_zero r)] at hr
    exact ⟨by rw [hr, hp]; rfl, by rw [hr]⟩
  kept := .inr ⟨record, hr, rfl, Multiset.mem_cons_self _ _⟩
  rule := .inr (hcopies.contract.trans_le' (Fin.zero_le _))

/-- It does not matter how far the migration is. -/
theorem congr (h : s.Latest C parameters latest) (hfeed : s'.feed = s.feed)
    (hcontract : s'.contract = s.contract) (hflight : s'.inFlight = s.inFlight)
    (hpending : s'.pending = s.pending) (hrule : s'.legacy = s.legacy ∨ 0 < latest.version) :
    s'.Latest C parameters latest where
  copies := h.copies.congr hfeed hcontract hflight hpending
  loaded := by
    rw [hfeed, hpending]
    exact h.loaded
  pending := hpending ▸ h.pending
  kept := by
    rw [hcontract, hflight]
    exact h.kept
  rule := hrule.elim (fun he => he ▸ h.rule) .inr

theorem contract_of_sent (h : s.Latest C parameters latest) (hsent : s.inFlight = 0) :
    s.contract.follows.follows = latest := by
  refine h.kept.resolve_right ?_
  rintro ⟨r, -, -, hr⟩
  rw [hsent] at hr
  exact Multiset.notMem_zero _ hr

theorem assign (h : s.Latest C parameters latest) (hr : record ∈ s.pending) :
    Latest C parameters latest { s with
      feed := s.feed.map fun state => { state with follows := record }
      pending := s.pending.erase record } := by
  obtain ⟨hone, hlatest⟩ := h.pending record hr
  have hnone : s.pending.erase record = 0 := by rw [hone, Multiset.erase_singleton]
  obtain ⟨state, hs, -⟩ := h.loaded
  exact ⟨h.copies.assign hr, ⟨{ state with follows := record }, by rw [hs]; rfl, fun _ => hlatest⟩,
    fun r hr => absurd (hnone ▸ hr) (Multiset.notMem_zero r), h.kept, h.rule⟩

theorem deliver [DecidableEq Cert] (h : s.Latest C parameters latest) (hu : update ∈ s.inFlight) :
    Latest C parameters latest { s with
      contract := s.contract.accept C parameters update
      inFlight := s.inFlight.erase update } := by
  have hcopies : Everywhere _ { s with
      contract := s.contract.accept C parameters update
      inFlight := s.inFlight.erase update } := h.copies.deliver hu
  -- Whatever is merged, a contract at the version of the latest list holds that list.
  have hhead
      (hle : latest.version ≤ (s.contract.accept C parameters update).follows.follows.version) :
      (s.contract.accept C parameters update).follows.follows = latest :=
    hcopies.contract.resolve_left (not_lt.mpr hle)
  refine ⟨hcopies, h.loaded, h.pending, ?_, h.rule⟩
  rcases h.kept with hc | ⟨r, hr, hrl, hmem⟩
  · refine .inl (hhead ?_)
    rw [← hc]
    rcases s.contract.follows_accept C parameters update with he | ⟨-, hle⟩
    · rw [he]
    · exact hle
  · by_cases he : followsDelta r = update
    · refine .inl (hhead ?_)
      rw [← hrl, ← he]
      exact FeedStateV1.version_le_accept hr
    · exact .inr ⟨r, hr, hrl, (Multiset.mem_erase_of_ne he).mpr hmem⟩

theorem refetch (h : s.Latest C parameters latest) :
    Latest C parameters latest { s with feed := mergeFeed C parameters s.feed s.contract } where
  copies := h.copies.refetch
  loaded := by
    obtain ⟨old, hold, hlatest⟩ := h.loaded
    have hs : mergeFeed C parameters s.feed s.contract =
        some (old.merge C parameters s.contract).2 := by rw [hold]; rfl
    refine ⟨_, hs, fun hp => ?_⟩
    have hlatest := hlatest hp
    rcases FeedStateV1.follows_mergeFeed hs with ⟨old', hold', he⟩ | ⟨he, hle⟩
    · rw [he, Option.some.inj (hold'.symm.trans hold), hlatest]
    · have hle := hle old hold
      rw [hlatest] at hle
      rw [he]
      exact h.copies.contract.resolve_left (not_lt.mpr hle)
  pending := h.pending
  kept := h.kept
  rule := h.rule

/-- A call that starts when no other waits edits the latest list, if it has room for the edit. -/
theorem setFollow [DecidableEq Cert] (hsign : Signs C parameters signingKey)
    (h : s.Latest C parameters latest) (hp : s.pending = 0)
    (hroom : (target ∈ effectiveFollows s.feed s.legacy ↔ follow = true) ∨
      s.HasRoom target follow)
    (hstep : s.editStep C parameters signingKey (.setFollow target follow) = some s') :
    ∃ latest', s'.Latest C parameters latest' ∧ latest.version ≤ latest'.version ∧
      latest'.follows = (editFollows latest.follows target follow).2 := by
  have heff := h.effective hp
  rcases editStep_setFollow.mp hstep with ⟨hnone, rfl⟩ | ⟨r, hr, rfl⟩
  · rw [setFollow_eq_none, heff] at hnone
    exact ⟨latest, h, le_rfl, (editFollows_eq_self hnone.2).symm⟩
  · obtain ⟨state, hs, hchanged, rfl⟩ := setFollow_eq_some.mp hr
    obtain ⟨state', hs', hl⟩ := h.loaded
    obtain rfl := Option.some.inj (hs.symm.trans hs')
    obtain ⟨hversion, hsize⟩ := hroom.resolve_left hchanged
    have hlt : latest.version < state.follows.follows.version + 1 := by
      rw [← hl hp]
      exact version_lt_succ (hversion state hs)
    rw [heff] at hsize ⊢
    refine ⟨_, call (h.copies.imp fun r hr => ?_) (by rw [hs]; rfl) hp
      (AuthorizedFollows.check_new hsign hsize), hlt.le, rfl⟩
    exact hr.elim (·.trans hlt) fun he => he ▸ hlt

end Latest

end Account

end Freebird
