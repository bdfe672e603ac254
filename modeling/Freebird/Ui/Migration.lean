import Freebird.Ui.Edits

/-!
# The migration of the follow list

`migrate_v1` copies the list of the old feed over the seed and leaves any other list alone, trusting
that it was written over the old one. It was if every call started with the old feed loaded, and then
nothing is lost (`migrated_of_orderly`): until the first edit there are only the seed and copies of
the old list (`Unedited`), and from then on the latest list is the old one with all edits. A call
that starts before the old feed is loaded edits the seed (`follows_lost_of_early_edit`).
-/

namespace Freebird

open Transition

variable {Cert : Type} {C : FeedCrypto Cert} {parameters : FeedParametersV1}
  {signingKey : List U8 → Signature} {legacy : LegacyFeedState Cert}

/-! ## What the migration sends -/

theorem identityToMigrate_follows {current : FeedStateV1 Cert} :
    (identityToMigrate signingKey legacy current).2 =
      if writtenSinceRotation current.follows.follows.version then none
      else some (.new ⟨legacy.follows.follows.follows, current.follows.follows.version + 1⟩
        signingKey) := rfl

theorem migrateV1_eq_some {o : Option (LegacyFeedState Cert)} {feed : Option (FeedStateV1 Cert)}
    {update : FeedStateV1Delta Cert} (h : migrateV1 signingKey o feed = .ok (some update)) :
    ∃ legacy current, o = some legacy ∧ feed = some current ∧
      update.follows = (identityToMigrate signingKey legacy current).2 := by
  cases o with
  | none => cases h
  | some legacy =>
    cases feed with
    | none => cases h
    | some current =>
      refine ⟨legacy, current, rfl, rfl, ?_⟩
      simp only [migrateV1] at h
      split at h
      · obtain rfl := Option.some.inj (Except.ok.inj h)
        rfl
      · cases h

namespace Account

variable {s s' : Account Cert} {update : FeedStateV1Delta Cert} {latest : FollowsV1}
  {calls : List (Bytes 32 × Bool)}

/-! ## What a step does -/

section
variable [DecidableEq Cert]

theorem step_migrate (h : s.step C parameters signingKey legacy .migrate = some s') :
    s' = { s with confirming := true } ∨
      ∃ update, migrateV1 signingKey s.legacy s.feed = .ok (some update) ∧
        s' = { s with inFlight := update ::ₘ s.inFlight, confirming := true } := by
  simp only [step] at h
  split at h
  · cases h
  · split at h
    · rename_i update hupdate
      exact .inr ⟨update, hupdate, (Option.some.inj h).symm⟩
    · exact .inl (Option.some.inj h).symm
    · cases h

theorem step_confirm (h : s.step C parameters signingKey legacy .confirm = some s') :
    ∃ state, s.feed = some state ∧
      writtenSinceRotation state.follows.follows.version = true ∧
      s' = { s with confirming := false, done := true } := by
  simp only [step] at h
  split at h
  · split at h
    · rename_i state hs
      split at h
      · rename_i hnone
        refine ⟨state, hs, ?_, (Option.some.inj h).symm⟩
        have hf := congrArg Prod.snd hnone
        rw [identityToMigrate_follows] at hf
        by_contra hw
        rw [if_neg hw] at hf
        cases hf
      · cases h
    · cases h
  · cases h

end

theorem Everywhere.send {P : AuthorizedFollows → Prop} (h : s.Everywhere P)
    (hu : ∀ r, update.follows = some r → P r) :
    Everywhere P { s with inFlight := update ::ₘ s.inFlight, confirming := true } where
  feed := h.feed
  contract := h.contract
  inFlight := Multiset.forall_mem_cons.mpr ⟨hu, h.inFlight⟩
  pending := h.pending

/-! ## Before the first edit -/

/-- The list of the old feed, as `migrate_v1` writes it. -/
def carried (legacy : LegacyFeedState Cert) : FollowsV1 := ⟨legacy.follows.follows.follows, 1⟩

/-- Nothing but the seed and copies of the old list is there, and the browser still has the seed. -/
structure Unedited (legacy : LegacyFeedState Cert) (s : Account Cert) : Prop where
  copies : s.Everywhere fun r => r.follows.version = 0 ∨ r.follows = carried legacy
  feed : ∀ state, s.feed = some state → state.follows.follows.version = 0
  pending : s.pending = 0
  done : s.done = false

/-- Neither the contract nor an update under way has a newer list than the browser. -/
def Current (s : Account Cert) : Prop :=
  ∀ state ∈ s.feed, s.contract.follows.follows.version ≤ state.follows.follows.version ∧
    ∀ d ∈ s.inFlight, ∀ r ∈ d.follows, r.follows.version ≤ state.follows.follows.version

namespace Unedited

variable {target : Bytes 32} {follow : Bool}

theorem congr (h : s.Unedited legacy) (hfeed : s'.feed = s.feed)
    (hcontract : s'.contract = s.contract) (hflight : s'.inFlight = s.inFlight)
    (hpending : s'.pending = s.pending) (hdone : s'.done = s.done) : s'.Unedited legacy where
  copies := h.copies.congr hfeed hcontract hflight hpending
  feed := hfeed ▸ h.feed
  pending := hpending.trans h.pending
  done := hdone.trans h.done

theorem effective (h : s.Unedited legacy) (hlegacy : s.legacy = some legacy)
    (hloaded : s.feed.isSome) :
    effectiveFollows s.feed s.legacy = legacy.follows.follows.follows := by
  obtain ⟨state, hs⟩ := Option.isSome_iff_exists.mp hloaded
  rw [effectiveFollows, hs, hlegacy]
  exact followsOf_legacy (h.feed state hs)

/-- The first edit is one of the old list. -/
theorem setFollow [DecidableEq Cert] (hsign : Signs C parameters signingKey)
    (h : s.Unedited legacy) (hlegacy : s.legacy = some legacy)
    (hroom : (target ∈ effectiveFollows s.feed s.legacy ↔ follow = true) ∨
      s.Current ∧ s.HasRoom target follow)
    (hstep : s.editStep C parameters signingKey (.setFollow target follow) = some s') :
    (s'.Unedited legacy ∧
      (editFollows legacy.follows.follows.follows target follow).2 =
        legacy.follows.follows.follows) ∨
    ∃ latest, 0 < latest.version ∧ s'.Latest C parameters latest ∧
      latest.follows = (editFollows legacy.follows.follows.follows target follow).2 := by
  rcases editStep_setFollow.mp hstep with ⟨hnone, rfl⟩ | ⟨r, hr, rfl⟩
  · obtain ⟨hloaded, hsame⟩ := setFollow_eq_none.mp hnone
    rw [h.effective hlegacy hloaded] at hsame
    exact .inl ⟨h, editFollows_eq_self hsame⟩
  · obtain ⟨state, hs, hchanged, rfl⟩ := setFollow_eq_some.mp hr
    have hloaded : s.feed.isSome := by rw [hs]; rfl
    obtain ⟨hcurrent, hversion, hsize⟩ := hroom.resolve_left hchanged
    obtain ⟨hcontract, hflight⟩ := hcurrent state hs
    have hlt {v : U32} (hv : v ≤ state.follows.follows.version) :
        v < state.follows.follows.version + 1 := hv.trans_lt (version_lt_succ (hversion state hs))
    have hcopies : s.Everywhere fun r => r.follows.version < state.follows.follows.version + 1 := by
      refine ⟨fun state' hs' => ?_, hlt hcontract, fun d hd r hr => hlt (hflight d hd r hr), ?_⟩
      · rw [Option.some.inj (hs'.symm.trans hs)]
        exact hlt le_rfl
      · rw [h.pending]
        exact fun r hr => absurd hr (Multiset.notMem_zero r)
    rw [h.effective hlegacy hloaded] at hsize ⊢
    exact .inr ⟨_, hcopies.contract.trans_le' (Fin.zero_le _),
      Latest.call hcopies hloaded h.pending (AuthorizedFollows.check_new hsign hsize), rfl⟩

/-- The copy that `migrate_v1` made may come back from the contract. -/
theorem refetch (h : s.Unedited legacy) :
    Unedited legacy { s with feed := mergeFeed C parameters s.feed s.contract } ∨
    Latest C parameters (carried legacy)
      { s with feed := mergeFeed C parameters s.feed s.contract } := by
  have hcopies : Everywhere _ { s with feed := mergeFeed C parameters s.feed s.contract } :=
    h.copies.refetch
  cases hm : mergeFeed C parameters s.feed s.contract with
  | none =>
    rw [hm] at hcopies
    exact .inl ⟨hcopies, nofun, h.pending, h.done⟩
  | some state =>
    rw [hm] at hcopies
    rcases hcopies.feed state rfl with hzero | hcarried
    · refine .inl ⟨hcopies, ?_, h.pending, h.done⟩
      rintro _ ⟨⟩
      exact hzero
    · refine .inr ⟨hcopies.imp fun r hr => ?_, ⟨state, rfl, fun _ => hcarried⟩, fun r hr => ?_,
        .inl ?_, .inr Nat.one_pos⟩
      · refine hr.imp_left fun hr => ?_
        rw [hr]
        exact Nat.one_pos
      · exact absurd (h.pending ▸ hr) (Multiset.notMem_zero r)
      · rcases FeedStateV1.follows_mergeFeed hm with ⟨old, hold, he⟩ | ⟨he, -⟩
        · have hzero := h.feed old hold
          rw [← he, hcarried] at hzero
          cases hzero
        · exact he ▸ hcarried

end Unedited

/-! ## The whole run -/

/-- A call starts with the old feed loaded, when no other call waits for its send, and, if it changes
the list, when no newer list is on its way and with room for the edit; `migrate_v1` does not copy the
old list while a call waits. -/
def Orderly (s : Account Cert) : AccountEvent Cert → Prop
  | .edit (.setFollow target follow) =>
    s.legacy.isSome ∧ s.pending = 0 ∧
      ((target ∈ effectiveFollows s.feed s.legacy ↔ follow = true) ∨
        s.Current ∧ s.HasRoom target follow)
  | .edit (.assign _) => True
  | .edit (.deliver _) => True
  | .arrive => True
  | .migrate => s.pending = 0 ∨
      ∀ state ∈ s.feed, writtenSinceRotation state.follows.follows.version = true
  | .refetch => True
  | .confirm => True

instance (s : Account Cert) : Decidable s.Current := inferInstanceAs (Decidable (∀ _ ∈ _, _))

instance (s : Account Cert) : (event : AccountEvent Cert) → Decidable (s.Orderly event)
  | .edit (.setFollow _ _) => inferInstanceAs (Decidable (_ ∧ _))
  | .edit (.assign _) => inferInstanceAs (Decidable True)
  | .edit (.deliver _) => inferInstanceAs (Decidable True)
  | .arrive => inferInstanceAs (Decidable True)
  | .migrate => inferInstanceAs (Decidable (_ ∨ _))
  | .refetch => inferInstanceAs (Decidable True)
  | .confirm => inferInstanceAs (Decidable True)

variable (C parameters) in
/-- The list is the old one with the edits so far, if anything but the seed was written. -/
structure Carrying (legacy : LegacyFeedState Cert) (calls : List (Bytes 32 × Bool))
    (s : Account Cert) : Prop where
  list : s.Unedited legacy ∧ edits legacy.follows.follows.follows calls =
      legacy.follows.follows.follows ∨
    ∃ latest, 0 < latest.version ∧ s.Latest C parameters latest ∧
      latest.follows = edits legacy.follows.follows.follows calls
  legacy : ∀ l, s.legacy = some l → l = legacy

theorem carrying_initial {contract : FeedStateV1 Cert}
    (hseed : contract.follows.follows = ⟨∅, 0⟩) :
    (initial contract).Carrying C parameters legacy [] where
  list := .inl ⟨⟨⟨nofun, .inl (by rw [initial, hseed]), nofun, nofun⟩, nofun, rfl, rfl⟩, rfl⟩
  legacy := nofun

theorem Carrying.edit [DecidableEq Cert] {event : EditEvent Cert}
    (hsign : Signs C parameters signingKey) (h : s.Carrying C parameters legacy calls)
    (horderly : s.Orderly (.edit event))
    (hstep : s.editStep C parameters signingKey event = some s') :
    s'.Carrying C parameters legacy (calls ++ event.call.toList) where
  list := by
    cases event with
    | setFollow target follow =>
      obtain ⟨hloaded, hp, hroom⟩ := horderly
      obtain ⟨l, hlegacy⟩ := Option.isSome_iff_exists.mp hloaded
      obtain rfl := h.legacy l hlegacy
      rw [EditEvent.call, Option.toList_some, edits_append]
      rcases h.list with ⟨hu, he⟩ | ⟨latest, hpos, hl, he⟩
      · rw [he]
        exact hu.setFollow hsign hlegacy hroom hstep
      · rw [← he]
        obtain ⟨latest', hl', hle, he'⟩ := hl.setFollow hsign hp (hroom.imp_right (·.2)) hstep
        exact .inr ⟨latest', hpos.trans_le hle, hl', he'⟩
    | assign record =>
      obtain ⟨hr, rfl⟩ := editStep_assign.mp hstep
      rw [EditEvent.call, Option.toList_none, List.append_nil]
      rcases h.list with ⟨hu, -⟩ | ⟨latest, hpos, hl, he⟩
      · exact absurd (hu.pending ▸ hr) (Multiset.notMem_zero record)
      · exact .inr ⟨latest, hpos, hl.assign hr, he⟩
    | deliver update =>
      obtain ⟨hu, rfl⟩ := editStep_deliver.mp hstep
      rw [EditEvent.call, Option.toList_none, List.append_nil]
      refine h.list.imp (fun ⟨h, he⟩ => ⟨?_, he⟩) fun ⟨latest, hpos, hl, he⟩ =>
        ⟨latest, hpos, hl.deliver hu, he⟩
      exact ⟨h.copies.deliver hu, h.feed, h.pending, h.done⟩
  legacy := legacy_editStep hstep ▸ h.legacy

/-- `migrate_v1` copies the old list only over the seed. -/
theorem Carrying.send [DecidableEq Cert] (h : s.Carrying C parameters legacy calls)
    (horderly : s.Orderly .migrate)
    (hupdate : migrateV1 signingKey s.legacy s.feed = .ok (some update)) :
    Carrying C parameters legacy calls
      { s with inFlight := update ::ₘ s.inFlight, confirming := true } where
  list := by
    obtain ⟨l, state, hlegacy, hs, hfollows⟩ := migrateV1_eq_some hupdate
    obtain rfl := h.legacy l hlegacy
    rw [identityToMigrate_follows] at hfollows
    rcases h.list with ⟨hu, he⟩ | ⟨latest, hpos, hl, he⟩
    · refine .inl ⟨⟨hu.copies.send fun r hr => .inr ?_, hu.feed, hu.pending, hu.done⟩, he⟩
      rw [hfollows] at hr
      split at hr
      · cases hr
      · rw [← Option.some.inj hr, hu.feed state hs]
        rfl
    · have hwritten : writtenSinceRotation state.follows.follows.version = true := by
        rcases horderly with hp | hwritten
        · obtain ⟨state', hs', hlatest⟩ := hl.loaded
          obtain rfl := Option.some.inj (hs.symm.trans hs')
          rw [hlatest hp]
          exact decide_eq_true hpos
        · exact hwritten state hs
      rw [if_pos hwritten] at hfollows
      refine .inr ⟨latest, hpos, ⟨hl.copies.send ?_, hl.loaded, hl.pending, ?_, hl.rule⟩, he⟩
      · rw [hfollows]
        exact nofun
      · exact hl.kept.imp_right fun ⟨r, hr, hlatest, hmem⟩ =>
          ⟨r, hr, hlatest, Multiset.mem_cons_of_mem hmem⟩
  legacy := h.legacy

theorem Carrying.step [DecidableEq Cert] {event : AccountEvent Cert}
    (hsign : Signs C parameters signingKey) (h : s.Carrying C parameters legacy calls)
    (horderly : s.Orderly event)
    (hstep : s.step C parameters signingKey legacy event = some s') :
    s'.Carrying C parameters legacy (calls ++ event.call.toList) := by
  cases event with
  | edit event => exact h.edit hsign horderly hstep
  | arrive =>
    obtain rfl := Option.some.inj hstep
    rw [AccountEvent.call, Option.toList_none, List.append_nil]
    refine ⟨?_, fun l hlegacy => (Option.some.inj hlegacy).symm⟩
    rcases h.list with ⟨hu, he⟩ | ⟨latest, hpos, hl, he⟩
    · exact .inl ⟨hu.congr rfl rfl rfl rfl rfl, he⟩
    · exact .inr ⟨latest, hpos, hl.congr rfl rfl rfl rfl (.inr hpos), he⟩
  | migrate =>
    rw [AccountEvent.call, Option.toList_none, List.append_nil]
    rcases step_migrate hstep with rfl | ⟨update, hupdate, rfl⟩
    · refine ⟨?_, h.legacy⟩
      rcases h.list with ⟨hu, he⟩ | ⟨latest, hpos, hl, he⟩
      · exact .inl ⟨hu.congr rfl rfl rfl rfl rfl, he⟩
      · exact .inr ⟨latest, hpos, hl.congr rfl rfl rfl rfl (.inl rfl), he⟩
    · exact h.send horderly hupdate
  | refetch =>
    obtain rfl := Option.some.inj hstep
    rw [AccountEvent.call, Option.toList_none, List.append_nil]
    refine ⟨?_, h.legacy⟩
    rcases h.list with ⟨hu, he⟩ | ⟨latest, hpos, hl, he⟩
    · refine hu.refetch.imp (fun hu => ⟨hu, he⟩) fun hl => ⟨carried legacy, Nat.one_pos, hl, ?_⟩
      exact he.symm
    · exact .inr ⟨latest, hpos, hl.refetch, he⟩
  | confirm =>
    obtain ⟨state, hs, hwritten, rfl⟩ := step_confirm hstep
    rw [AccountEvent.call, Option.toList_none, List.append_nil]
    refine ⟨.inr ?_, h.legacy⟩
    rcases h.list with ⟨hu, -⟩ | ⟨latest, hpos, hl, he⟩
    · rw [hu.feed state hs] at hwritten
      cases hwritten
    · exact ⟨latest, hpos, hl.congr rfl rfl rfl rfl (.inl rfl), he⟩

variable (C parameters signingKey legacy) in
/-- A step that is taken as `Orderly` has it. -/
def OrderlyStep [DecidableEq Cert] (s : Account Cert) (event : AccountEvent Cert)
    (s' : Account Cert) : Prop :=
  s.Orderly event ∧ s.step C parameters signingKey legacy event = some s'

/-- **The migration keeps the list**: when a run that keeps the order is done, the list is the old
one with all edits, in the browser as soon as no call waits and at the contract as soon as no update
is under way. -/
theorem migrated_of_orderly [DecidableEq Cert] {contract : FeedStateV1 Cert}
    {events : List (AccountEvent Cert)} (hsign : Signs C parameters signingKey)
    (hseed : contract.follows.follows = ⟨∅, 0⟩)
    (hrun : Runs (OrderlyStep C parameters signingKey legacy) (initial contract) events s)
    (hdone : s.done = true) :
    (s.pending = 0 → ∃ state, s.feed = some state ∧ state.follows.follows.follows =
      edits legacy.follows.follows.follows (events.filterMap AccountEvent.call)) ∧
    (s.inFlight = 0 → s.contract.follows.follows.follows =
      edits legacy.follows.follows.follows (events.filterMap AccountEvent.call)) ∧
    ∀ x ∈ legacy.follows.follows.follows, (x, false) ∉ events.filterMap AccountEvent.call →
      x ∈ edits legacy.follows.follows.follows (events.filterMap AccountEvent.call) := by
  have h := hrun.trace (fun _ _ _ _ h hd => h.step hsign hd.1 hd.2) (carrying_initial hseed)
  rw [List.nil_append] at h
  obtain ⟨latest, -, hl, he⟩ := h.list.resolve_left fun ⟨hu, _⟩ =>
    absurd hdone (hu.done ▸ Bool.false_ne_true)
  rw [← he]
  refine ⟨fun hp => ?_, fun hsent => ?_, fun x hx hcall => ?_⟩
  · obtain ⟨state, hs, hlatest⟩ := hl.loaded
    exact ⟨state, hs, by rw [hlatest hp]⟩
  · rw [hl.contract_of_sent hsent]
  · rw [he]
    exact mem_edits_of_mem hx hcall

open Sample in
theorem migrated_of_orderly_follow : ∃ s : Account VerifyingKey,
    Runs (OrderlyStep feedCrypto feedOwner (fun _ => sign 5 0) (legacyFeed [2]))
      (initial (Sample.feed 0 [])) lateEdit s ∧ s.inFlight = 0 ∧ s.contract.follows.follows.follows =
      edits (following [2] 0).follows.follows [((key 1).asBytes, true)] := by
  have hrun : ∃ s, Runs (OrderlyStep feedCrypto feedOwner (fun _ => sign 5 0) (legacyFeed [2]))
      (initial (Sample.feed 0 [])) lateEdit s ∧ s.inFlight = 0 ∧ s.done = true :=
    Runs.exists_of_guarded (by decide +kernel)
  obtain ⟨s, hrun, hsent, hdone⟩ := hrun
  have hkept := migrated_of_orderly signs rfl hrun hdone
  exact ⟨s, hrun, hsent, hkept.2.1 hsent⟩

open Sample in
/-- A call that starts before the old feed is loaded: what was followed there is gone. -/
theorem follows_lost_of_early_edit : ∃ s : Account VerifyingKey,
    Runs (fun s event s' =>
        s.step feedCrypto feedOwner (fun _ => sign 5 0) (legacyFeed [2]) event = some s')
      (initial (Sample.feed 0 [])) earlyEdit s ∧ s.done = true ∧ s.pending = 0 ∧ s.inFlight = 0 ∧
    (∀ state ∈ s.feed, (key 2).asBytes ∉ state.follows.follows.follows) ∧
    (key 2).asBytes ∉ s.contract.follows.follows.follows :=
  Runs.exists_of_foldlM (by decide +kernel)

end Account

end Freebird
