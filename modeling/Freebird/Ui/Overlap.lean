import Freebird.Common.Layout
import Freebird.Ui.Edits

/-!
# Calls that overlap

A call reads the local list, signs it with its edit and assigns it when the send is through. Where
the calls take turns and the list has room, the contract ends with all edits (`kept_of_serial`). A
call that starts while another one waits signs a list without the other's edit, and no list after
them has both (`Overlaps.apart`, `apart_run`), so the calls of an account that lost nothing took
turns (`serial_of_kept`).

`api::send` holds the write guard of `WEB_API` over the only await between the two steps of a call.
A second call could get to its own send only while the first waits there, and would then find the
guard taken; with a send that is ready when it is first polled each call runs through to its
assignment. The steps are taken apart here all the same. What is lost without any overlap is an edit
that leaves the list too long: no call counts it, and the contract refuses it
(`follow_lost_when_full`).
-/

namespace Freebird

open Transition

variable {Cert : Type} {C : FeedCrypto Cert} {parameters : FeedParametersV1}
  {signingKey : List U8 → Signature}

/-! ## Calls that do not overlap -/

namespace Account

variable {s s' : Account Cert} {event : EditEvent Cert} {events : List (EditEvent Cert)}
  {calls : List (Bytes 32 × Bool)} {follows : Std.ExtTreeSet (Bytes 32) compare}

/-- A call that changes the list starts when no other call waits for its send, and with room for the
edit. -/
def Serial (s : Account Cert) : EditEvent Cert → Prop
  | .setFollow target follow =>
    (target ∈ effectiveFollows s.feed s.legacy ↔ follow = true) ∨
      s.pending = 0 ∧ s.HasRoom target follow
  | .assign _ => True
  | .deliver _ => True

instance (s : Account Cert) : (event : EditEvent Cert) → Decidable (s.Serial event)
  | .setFollow _ _ => inferInstanceAs (Decidable (_ ∨ _))
  | .assign _ => inferInstanceAs (Decidable True)
  | .deliver _ => inferInstanceAs (Decidable True)

/-- The record differs from the list at most where a call was made. -/
def SameElsewhere (follows : Std.ExtTreeSet (Bytes 32) compare) (calls : List (Bytes 32 × Bool))
    (r : AuthorizedFollows) : Prop :=
  ∀ x ∉ calls.map Prod.fst, x ∈ r.follows.follows ↔ x ∈ follows

theorem elsewhere_opened (feed : FeedStateV1 Cert) :
    (opened feed).Everywhere (SameElsewhere feed.follows.follows.follows []) := by
  refine ⟨?_, fun _ _ => .rfl, nofun, nofun⟩
  rintro state ⟨⟩ x -
  exact .rfl

theorem sameElsewhere_step [DecidableEq Cert] (h : s.Everywhere (SameElsewhere follows calls))
    (hlegacy : s.legacy = none)
    (hstep : s.editStep C parameters signingKey event = some s') :
    s'.Everywhere (SameElsewhere follows (calls ++ event.call.toList)) := by
  have hmore {r : AuthorizedFollows} (hr : SameElsewhere follows calls r) :
      SameElsewhere follows (calls ++ event.call.toList) r := by
    intro x hx
    rw [List.map_append, List.mem_append, not_or] at hx
    exact hr x hx.1
  apply Everywhere.editStep (h.imp fun _ => hmore) ?_ hstep
  rintro target follow r rfl hr x hx
  obtain ⟨state, hs, -, rfl⟩ := setFollow_eq_some.mp hr
  have hx' : x ≠ target := by
    rintro rfl
    apply hx
    simp [EditEvent.call]
  rw [List.map_append, List.mem_append, not_or] at hx
  change x ∈ (editFollows (effectiveFollows s.feed s.legacy) target follow).2 ↔ x ∈ follows
  rw [mem_editFollows, if_neg hx', effectiveFollows_of_none hs hlegacy]
  exact h.feed state hs x hx.1

variable (C parameters) in
/-- The latest list has all edits of the calls so far, and no copy has any other. -/
structure Tracked (follows : Std.ExtTreeSet (Bytes 32) compare) (calls : List (Bytes 32 × Bool))
    (s : Account Cert) : Prop where
  latest : ∃ latest, s.Latest C parameters latest ∧ latest.follows = edits follows calls
  elsewhere : s.Everywhere (SameElsewhere follows calls)
  legacy : s.legacy = none

theorem tracked_opened (feed : FeedStateV1 Cert) :
    (opened feed).Tracked C parameters feed.follows.follows.follows [] where
  latest := by
    refine ⟨feed.follows.follows, ⟨⟨?_, .inr rfl, nofun, nofun⟩, ⟨feed, rfl, fun _ => rfl⟩, nofun,
      .inl rfl, .inl rfl⟩, rfl⟩
    rintro state ⟨⟩
    exact .inr rfl
  elsewhere := elsewhere_opened feed
  legacy := rfl

theorem Tracked.step [DecidableEq Cert] (hsign : Signs C parameters signingKey)
    (h : s.Tracked C parameters follows calls) (hserial : s.Serial event)
    (hstep : s.editStep C parameters signingKey event = some s')
    (hnew : ∀ call ∈ event.call, call.1 ∉ calls.map Prod.fst) :
    s'.Tracked C parameters follows (calls ++ event.call.toList) where
  latest := by
    obtain ⟨latest, hl, he⟩ := h.latest
    cases event with
    | setFollow target follow =>
      have htarget := hnew (target, follow) rfl
      rw [EditEvent.call, Option.toList_some, edits_append, ← he]
      rcases hserial with hsame | ⟨hp, hroom⟩
      · rcases editStep_setFollow.mp hstep with ⟨-, rfl⟩ | ⟨r, hr, -⟩
        · refine ⟨latest, hl, (editFollows_eq_self ?_).symm⟩
          obtain ⟨state, hs, -⟩ := hl.loaded
          rw [effectiveFollows_of_none hs h.legacy] at hsame
          rw [he, mem_edits_of_not_called htarget, ← hsame]
          exact (h.elsewhere.feed state hs target htarget).symm
        · obtain ⟨state, -, hchanged, -⟩ := setFollow_eq_some.mp hr
          exact absurd hsame hchanged
      · obtain ⟨latest', hl', -, he'⟩ := hl.setFollow hsign hp (.inr hroom) hstep
        exact ⟨latest', hl', he'⟩
    | assign record =>
      obtain ⟨hr, rfl⟩ := editStep_assign.mp hstep
      exact ⟨latest, hl.assign hr, by rw [he]; simp [EditEvent.call]⟩
    | deliver update =>
      obtain ⟨hu, rfl⟩ := editStep_deliver.mp hstep
      exact ⟨latest, hl.deliver hu, by rw [he]; simp [EditEvent.call]⟩
  elsewhere := sameElsewhere_step h.elsewhere h.legacy hstep
  legacy := (legacy_editStep hstep).trans h.legacy

variable (C parameters signingKey) in
/-- A step of the calls that is taken as `Serial` has it. -/
def SerialStep [DecidableEq Cert] (s : Account Cert) (event : EditEvent Cert) (s' : Account Cert) :
    Prop :=
  s.Serial event ∧ s.editStep C parameters signingKey event = some s'

theorem new_of_nodup (h : (((calls ++ event.call.toList) ++
    events.filterMap EditEvent.call).map Prod.fst).Nodup) :
    ∀ call ∈ event.call, call.1 ∉ calls.map Prod.fst := by
  intro call hcall hmem
  rw [List.map_append, List.map_append, List.append_assoc] at h
  have hdisj := (List.nodup_append.mp h).2.2
  rw [Option.mem_def.mp hcall] at hdisj
  exact hdisj _ hmem _ (List.mem_append_left _ (List.mem_singleton_self _)) rfl

theorem later_of_nodup (h : (((calls ++ event.call.toList) ++
    events.filterMap EditEvent.call).map Prod.fst).Nodup) :
    ∀ call ∈ calls ++ event.call.toList,
      call.1 ∉ (events.filterMap EditEvent.call).map Prod.fst := by
  intro call hcall hmem
  rw [List.map_append] at h
  exact (List.nodup_append.mp h).2.2 _ (List.mem_map_of_mem hcall) _ hmem rfl

theorem tracked_run [DecidableEq Cert] (hsign : Signs C parameters signingKey)
    (hrun : Runs (SerialStep C parameters signingKey) s events s')
    (h : s.Tracked C parameters follows calls)
    (hnodup : ((calls ++ events.filterMap EditEvent.call).map Prod.fst).Nodup) :
    s'.Tracked C parameters follows (calls ++ events.filterMap EditEvent.call) := by
  induction hrun generalizing calls with
  | nil s => rwa [List.filterMap_nil, List.append_nil]
  | @cons s t u event events hd _ ih =>
    rw [filterMap_cons_toList, ← List.append_assoc] at hnodup ⊢
    exact ih (h.step hsign hd.1 hd.2 (new_of_nodup hnodup)) hnodup

/-- **No edit is lost between calls that take turns.** In every run of calls on distinct accounts, of
which those that change the list start when no other call waits for its send, the contract ends with
the edits of all of them. -/
theorem kept_of_serial [DecidableEq Cert] {feed : FeedStateV1 Cert}
    (hsign : Signs C parameters signingKey)
    (hrun : Runs (SerialStep C parameters signingKey) (opened feed) events s)
    (hnodup : ((events.filterMap EditEvent.call).map Prod.fst).Nodup)
    (hsent : s.inFlight = 0) (x : Bytes 32) :
    x ∈ s.contract.follows.follows.follows ↔
      (x, true) ∈ events.filterMap EditEvent.call ∨
        x ∈ feed.follows.follows.follows ∧ (x, false) ∉ events.filterMap EditEvent.call := by
  have h := tracked_run hsign hrun (tracked_opened feed) hnodup
  obtain ⟨latest, hl, he⟩ := h.latest
  rw [hl.contract_of_sent hsent, he, List.nil_append]
  exact mem_edits hnodup

open Sample in
theorem kept_of_serial_two : ∃ s : Account VerifyingKey,
    Runs (SerialStep feedCrypto feedOwner fun _ => sign 5 0) (opened (Sample.feed 0 [])) turns s ∧
    (key 1).asBytes ∈ s.contract.follows.follows.follows ∧
    (key 2).asBytes ∈ s.contract.follows.follows.follows := by
  have hrun : ∃ s, Runs (SerialStep feedCrypto feedOwner fun _ => sign 5 0)
      (opened (Sample.feed 0 [])) turns s ∧ s.inFlight = 0 :=
    Runs.exists_of_guarded (by decide +kernel)
  obtain ⟨s, hrun, hsent⟩ := hrun
  have hkept := kept_of_serial signs hrun (by decide +kernel) hsent
  exact ⟨s, hrun, (hkept _).mpr (.inl (by decide)), (hkept _).mpr (.inl (by decide))⟩

/-! ## Calls that overlap -/

/-- The record agrees with a call. -/
def Obeys (call : Bytes 32 × Bool) (r : AuthorizedFollows) : Prop :=
  call.1 ∈ r.follows.follows ↔ call.2 = true

/-- Each record that waits has an edit that the browser and the others that wait do not have. -/
structure Overlaps (follows : Std.ExtTreeSet (Bytes 32) compare) (calls : List (Bytes 32 × Bool))
    (s : Account Cert) : Prop where
  elsewhere : s.Everywhere (SameElsewhere follows calls)
  legacy : s.legacy = none
  waiting : ∀ r ∈ s.pending, ∃ call ∈ calls,
    (∀ state, s.feed = some state → ¬Obeys call state.follows) ∧
      ∀ r' ∈ s.pending.erase r, ¬Obeys call r'

/-- What a call signs has no edit of another account that the browser does not have. -/
theorem obeys_setFollow {target : Bytes 32} {follow : Bool} {r : AuthorizedFollows}
    {call : Bytes 32 × Bool} (hlegacy : s.legacy = none)
    (hr : Freebird.setFollow signingKey s.feed s.legacy target follow = .ok (some r))
    (hcall : call.1 ≠ target) (h : Obeys call r) :
    ∃ state, s.feed = some state ∧ Obeys call state.follows := by
  obtain ⟨state, hs, -, rfl⟩ := setFollow_eq_some.mp hr
  refine ⟨state, hs, ?_⟩
  change call.1 ∈ (editFollows (effectiveFollows s.feed s.legacy) target follow).2 ↔ _ at h
  rwa [mem_editFollows, if_neg hcall, effectiveFollows_of_none hs hlegacy] at h

theorem Overlaps.step [DecidableEq Cert] (h : s.Overlaps follows calls)
    (hstep : s.editStep C parameters signingKey event = some s')
    (hnew : ∀ call ∈ event.call, call.1 ∉ calls.map Prod.fst) :
    s'.Overlaps follows (calls ++ event.call.toList) where
  elsewhere := sameElsewhere_step h.elsewhere h.legacy hstep
  legacy := (legacy_editStep hstep).trans h.legacy
  waiting := by
    cases event with
    | setFollow target follow =>
      have htarget := hnew (target, follow) rfl
      rcases editStep_setFollow.mp hstep with ⟨-, rfl⟩ | ⟨record, hr, rfl⟩
      · intro r hmem
        obtain ⟨call, hcall, hrest⟩ := h.waiting r hmem
        exact ⟨call, List.mem_append_left _ hcall, hrest⟩
      · obtain ⟨state, hs, hchanged, -⟩ := setFollow_eq_some.mp hr
        rw [effectiveFollows_of_none hs h.legacy] at hchanged
        intro r hmem
        by_cases he : r = record
        · subst he
          refine ⟨(target, follow), by simp [EditEvent.call], ?_, ?_⟩
          · intro state' hs'
            exact Option.some.inj (hs.symm.trans hs') ▸ hchanged
          · intro r' hr'
            rw [Multiset.erase_cons_head] at hr'
            rw [Obeys, h.elsewhere.pending r' hr' target htarget]
            rwa [h.elsewhere.feed state hs target htarget] at hchanged
        · obtain ⟨call, hcall, hfeed, hrest⟩ :=
            h.waiting r ((Multiset.mem_cons.mp hmem).resolve_left he)
          refine ⟨call, List.mem_append_left _ hcall, hfeed, ?_⟩
          rw [Multiset.erase_cons_tail _ (Ne.symm he)]
          refine Multiset.forall_mem_cons.mpr ⟨fun hobeys => ?_, hrest⟩
          have hne : call.1 ≠ target := fun heq => htarget (List.mem_map.mpr ⟨call, hcall, heq⟩)
          obtain ⟨state', hs', hstate⟩ := obeys_setFollow h.legacy hr hne hobeys
          exact hfeed state' hs' hstate
    | assign record =>
      obtain ⟨hrecord, rfl⟩ := editStep_assign.mp hstep
      intro r hmem
      obtain ⟨call, hcall, -, hrest⟩ := h.waiting r (Multiset.mem_of_mem_erase hmem)
      refine ⟨call, List.mem_append_left _ hcall, ?_, ?_⟩
      · intro state hs
        obtain ⟨_, -, rfl⟩ := Option.map_eq_some_iff.mp hs
        apply hrest
        by_cases he : r = record
        · exact he ▸ hmem
        · exact (Multiset.mem_erase_of_ne (Ne.symm he)).mpr hrecord
      · intro r' hr'
        change r' ∈ (s.pending.erase record).erase r at hr'
        rw [Multiset.erase_comm] at hr'
        exact hrest r' (Multiset.mem_of_mem_erase hr')
    | deliver update =>
      obtain ⟨-, rfl⟩ := editStep_deliver.mp hstep
      simpa [EditEvent.call] using h.waiting

theorem overlaps_opened (feed : FeedStateV1 Cert) :
    (opened feed).Overlaps feed.follows.follows.follows [] where
  elsewhere := elsewhere_opened feed
  legacy := rfl
  waiting := nofun

/-- A call that starts while another one waits has an edit that no copy has together with the other
one. -/
theorem Overlaps.apart [DecidableEq Cert] {target : Bytes 32} {follow : Bool}
    (h : s.Overlaps follows calls)
    (hstep : s.editStep C parameters signingKey (.setFollow target follow) = some s')
    (hnew : target ∉ calls.map Prod.fst)
    (hchanged : ¬(target ∈ effectiveFollows s.feed s.legacy ↔ follow = true))
    (hpending : s.pending ≠ 0) :
    ∃ call ∈ calls, s'.Everywhere fun r => ¬(Obeys call r ∧ Obeys (target, follow) r) := by
  obtain ⟨waiting, hw⟩ := Multiset.exists_mem_of_ne_zero hpending
  obtain ⟨call, hcall, hfeed, -⟩ := h.waiting waiting hw
  refine ⟨call, hcall, ?_⟩
  rcases editStep_setFollow.mp hstep with ⟨hnone, -⟩ | ⟨record, hr, rfl⟩
  · exact absurd (setFollow_eq_none.mp hnone).2 hchanged
  · obtain ⟨state, hs, -, -⟩ := setFollow_eq_some.mp hr
    rw [effectiveFollows_of_none hs h.legacy, h.elsewhere.feed state hs target hnew] at hchanged
    apply Everywhere.call
    · refine h.elsewhere.imp fun r hsame ⟨_, hobeys⟩ => hchanged ?_
      exact (hsame target hnew).symm.trans hobeys
    · rintro ⟨hobeys, -⟩
      have hne : call.1 ≠ target := fun he => hnew (List.mem_map.mpr ⟨call, hcall, he⟩)
      obtain ⟨state', hs', hstate⟩ := obeys_setFollow h.legacy hr hne hobeys
      exact hfeed state' hs' hstate

/-- No later call on a third account brings the two edits together. -/
theorem apart_step [DecidableEq Cert] {c d : Bytes 32 × Bool} (hlegacy : s.legacy = none)
    (h : s.Everywhere fun r => ¬(Obeys c r ∧ Obeys d r))
    (hstep : s.editStep C parameters signingKey event = some s')
    (hnew : ∀ call ∈ event.call, c.1 ≠ call.1 ∧ d.1 ≠ call.1) :
    s'.Everywhere fun r => ¬(Obeys c r ∧ Obeys d r) := by
  apply h.editStep ?_ hstep
  rintro target follow r rfl hr ⟨hc, hd⟩
  obtain ⟨hct, hdt⟩ := hnew _ rfl
  obtain ⟨state, hs, hc⟩ := obeys_setFollow hlegacy hr hct hc
  obtain ⟨state', hs', hd⟩ := obeys_setFollow hlegacy hr hdt hd
  obtain rfl := Option.some.inj (hs.symm.trans hs')
  exact h.feed state hs ⟨hc, hd⟩

theorem apart_run [DecidableEq Cert] {c d : Bytes 32 × Bool}
    (hrun : Runs (fun s event s' => s.editStep C parameters signingKey event = some s') s events s')
    (hlegacy : s.legacy = none) (h : s.Everywhere fun r => ¬(Obeys c r ∧ Obeys d r))
    (hc : c.1 ∉ (events.filterMap EditEvent.call).map Prod.fst)
    (hd : d.1 ∉ (events.filterMap EditEvent.call).map Prod.fst) :
    s'.Everywhere fun r => ¬(Obeys c r ∧ Obeys d r) := by
  induction hrun with
  | nil => exact h
  | @cons s t u event events hstep _ ih =>
    rw [filterMap_cons_toList, List.map_append, List.mem_append, not_or] at hc hd
    refine ih ((legacy_editStep hstep).trans hlegacy) (apart_step hlegacy h hstep ?_) hc.2 hd.2
    intro call hcall
    have hmem := List.mem_map_of_mem (f := Prod.fst) (Option.mem_toList.mpr hcall)
    exact ⟨fun he => hc.1 (he ▸ hmem), fun he => hd.1 (he ▸ hmem)⟩

variable (C parameters signingKey) in
/-- A step of the calls, with room for the edit of a call that changes the list. -/
def RoomStep [DecidableEq Cert] (s : Account Cert) (event : EditEvent Cert) (s' : Account Cert) :
    Prop :=
  (∀ call ∈ event.call, ¬(call.1 ∈ effectiveFollows s.feed s.legacy ↔ call.2 = true) →
    s.HasRoom call.1 call.2) ∧ s.editStep C parameters signingKey event = some s'

theorem Overlaps.serial [DecidableEq Cert]
    (hrun : Runs (RoomStep C parameters signingKey) s events s') (h : s.Overlaps follows calls)
    (hnodup : ((calls ++ events.filterMap EditEvent.call).map Prod.fst).Nodup)
    (hkept : ∀ call ∈ calls ++ events.filterMap EditEvent.call, Obeys call s'.contract.follows) :
    Runs (SerialStep C parameters signingKey) s events s' := by
  induction hrun generalizing calls with
  | nil => exact .nil _
  | @cons s t u event events hstep hrest ih =>
    rw [filterMap_cons_toList, ← List.append_assoc] at hnodup hkept
    have hnew := new_of_nodup hnodup
    refine .cons ⟨?_, hstep.2⟩ (ih (h.step hstep.2 hnew) hnodup hkept)
    cases event with
    | assign record => trivial
    | deliver update => trivial
    | setFollow target follow =>
      by_cases hchanged : target ∈ effectiveFollows s.feed s.legacy ↔ follow = true
      · exact .inl hchanged
      · refine .inr ⟨?_, hstep.1 (target, follow) rfl hchanged⟩
        by_contra hpending
        have hlater := later_of_nodup hnodup
        have hself : (target, follow) ∈
            calls ++ (EditEvent.setFollow target follow : EditEvent Cert).call.toList :=
          List.mem_append_right _ (List.mem_singleton_self _)
        obtain ⟨c, hc, hapart⟩ := h.apart hstep.2 (hnew _ rfl) hchanged hpending
        have hend := apart_run (hrest.mono fun _ _ _ hs => hs.2)
          ((legacy_editStep hstep.2).trans h.legacy) hapart (hlater c (List.mem_append_left _ hc))
          (hlater _ hself)
        exact hend.contract ⟨hkept c (List.mem_append_left _ (List.mem_append_left _ hc)),
          hkept _ (List.mem_append_left _ hself)⟩

/-- **Calls that overlap lose an edit**: a contract that ends with the edits of all calls has heard of
calls that took turns. -/
theorem serial_of_kept [DecidableEq Cert] {feed : FeedStateV1 Cert}
    (hrun : Runs (RoomStep C parameters signingKey) (opened feed) events s)
    (hnodup : ((events.filterMap EditEvent.call).map Prod.fst).Nodup)
    (hkept : ∀ x, x ∈ s.contract.follows.follows.follows ↔
      (x, true) ∈ events.filterMap EditEvent.call ∨
        x ∈ feed.follows.follows.follows ∧ (x, false) ∉ events.filterMap EditEvent.call) :
    Runs (SerialStep C parameters signingKey) (opened feed) events s := by
  apply (overlaps_opened feed).serial hrun hnodup
  rintro ⟨x, follow⟩ hcall
  rw [List.nil_append] at hcall
  rw [Obeys, hkept x]
  have hone (b : Bool) (hb : (x, b) ∈ events.filterMap EditEvent.call) : b = follow :=
    congrArg Prod.snd (List.inj_on_of_nodup_map hnodup hb hcall rfl)
  cases follow with
  | true => exact ⟨fun _ => rfl, fun _ => .inl hcall⟩
  | false =>
    refine ⟨fun h => ?_, nofun⟩
    rcases h with h | h
    · exact absurd (hone true h) nofun
    · exact absurd hcall h.2

/-! ## A full list -/

/-- A call whose record the contract refuses ends with the record in the browser alone. -/
theorem call_refused [DecidableEq Cert] {s : Account Cert} {target : Bytes 32} {follow : Bool}
    {record : AuthorizedFollows} {e : String}
    (hcall : Freebird.setFollow signingKey s.feed s.legacy target follow = .ok (some record))
    (hcheck : record.check C parameters.author = .error e) :
    Runs (fun s event s' => s.editStep C parameters signingKey event = some s') s
      [.setFollow target follow, .assign record, .deliver (followsDelta record)]
      { s with feed := s.feed.map fun state => { state with follows := record } } := by
  refine .cons (editStep_setFollow.mpr (.inr ⟨record, hcall, rfl⟩)) (.cons
    (editStep_assign.mpr ⟨Multiset.mem_cons_self _ _, rfl⟩) (.cons (editStep_deliver.mpr
      ⟨Multiset.mem_cons_self _ _, ?_⟩) (.nil _)))
  rw [Multiset.erase_cons_head, Multiset.erase_cons_head, FeedStateV1.accept_of_error hcheck]

end Account

namespace Sample

/-- The accounts by number. -/
def account (n : Nat) : Bytes 32 := ⟨leBytes 32 n, length_leBytes 32 n⟩

theorem account_inj {n m : Nat} (hn : n ≤ maxFollows) (hm : m ≤ maxFollows)
    (h : account n = account m) : n = m := by
  have hbound : maxFollows < 256 ^ 32 := by decide
  exact leBytes_inj (hn.trans_lt hbound) (hm.trans_lt hbound) (congrArg Subtype.val h)

/-- A list with no room left. -/
def crowd : Std.ExtTreeSet (Bytes 32) compare := .ofList ((List.range maxFollows).map account) compare

theorem size_crowd : crowd.size = maxFollows := by
  rw [crowd, Std.ExtTreeSet.size_ofList, List.length_map, List.length_range]
  refine List.pairwise_map.mpr (List.nodup_range.imp_of_mem fun hn hm hne heq => hne ?_)
  exact account_inj (List.mem_range.mp hn).le (List.mem_range.mp hm).le
    (Std.LawfulEqOrd.eq_of_compare heq)

theorem not_mem_crowd : account maxFollows ∉ crowd := by
  rw [crowd, Std.ExtTreeSet.mem_ofList, List.contains_iff_mem, List.mem_map]
  rintro ⟨n, hn, he⟩
  have hlt := List.mem_range.mp hn
  exact hlt.ne (account_inj hlt.le le_rfl he)

/-- The sample feed with that list. -/
def crowdFeed : FeedStateV1 VerifyingKey :=
  { feed 0 [] with follows := .new ⟨crowd, 1⟩ fun _ => sign 5 0 }

/-- What a follow signs over that list. -/
def crowded : AuthorizedFollows :=
  .new ⟨crowd.insert (account maxFollows), 2⟩ fun _ => sign 5 0

theorem crowdFeed_verify : crowdFeed.verify feedCrypto feedOwner = .ok () := by
  rw [FeedStateV1.verify_iff]
  have hfeed : (feed 0 []).Valid feedCrypto feedOwner :=
    FeedStateV1.verify_iff.mp (by decide +kernel)
  exact ⟨hfeed.profile, AuthorizedFollows.check_new signs size_crowd.le, hfeed.attestation,
    hfeed.settled, hfeed.checked⟩

theorem check_crowded :
    crowded.check feedCrypto feedOwner.author = .error "too many follows" := by
  have hsize : maxFollows < crowded.follows.follows.size := by
    change maxFollows < (crowd.insert (account maxFollows)).size
    have hnew : crowd.contains (account maxFollows) = false :=
      Bool.eq_false_iff.mpr not_mem_crowd
    rw [Std.ExtTreeSet.size_insert, hnew, size_crowd]
    exact Nat.lt_succ_self _
  rw [AuthorizedFollows.check, if_pos hsize]
  rfl

end Sample

namespace Account

open Sample in
/-- Nothing before the contract counts the list: a follow over a full one is signed, written into the
browser and refused. -/
theorem follow_lost_when_full : crowdFeed.verify feedCrypto feedOwner = .ok () ∧
    ∃ s : Account VerifyingKey,
      Runs (fun s event s' => s.editStep feedCrypto feedOwner (fun _ => sign 5 0) event = some s')
        (opened crowdFeed)
        [.setFollow (account maxFollows) true, .assign crowded, .deliver (followsDelta crowded)] s ∧
      s.pending = 0 ∧ s.inFlight = 0 ∧
      account maxFollows ∉ s.contract.follows.follows.follows := by
  refine ⟨crowdFeed_verify, _, call_refused ?_ check_crowded, rfl, rfl, not_mem_crowd⟩
  have hfeed : (opened crowdFeed).feed = some crowdFeed := rfl
  have hlist : effectiveFollows (opened crowdFeed).feed (opened crowdFeed).legacy = crowd :=
    effectiveFollows_of_none hfeed rfl
  refine setFollow_eq_some.mpr ⟨crowdFeed, hfeed, ?_, ?_⟩
  · rw [hlist]
    exact fun h => not_mem_crowd (h.mpr rfl)
  · rw [hlist]
    rfl

end Account

end Freebird
