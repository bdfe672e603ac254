import Freebird.Ui.Store

/-!
# What the browser holds was checked

Anyone may answer for an address, so what comes in is checked before it is held, under the key of
the author whose slot it goes into. Updates that fail half way leave their first half, which is
checked too. So whatever the node answers and sends, in whatever order, everything that is held
carries the signatures it should (`authentic_run`).
-/

namespace Freebird

variable {Cert Value : Type}

/-! ## Slots of authors -/

section
variable {C : ClientCrypto Cert Value} {α : Type} {m : Map (Bytes 32) α}
  {Q : VerifyingKey → α → Prop} {author : Bytes 32} {vk : VerifyingKey} {v : α}

variable (C) in
/-- What is held for an author satisfies `Q` under the author's key. -/
def OfAuthors (m : Map (Bytes 32) α) (Q : VerifyingKey → α → Prop) : Prop :=
  ∀ (author : Bytes 32) (v : α), m[author]? = some v → ∃ vk, C.keyFromBytes author = .ok vk ∧ Q vk v

theorem ofAuthors_empty : OfAuthors C (∅ : Map (Bytes 32) α) Q := by
  intro author v h
  rw [Map.getElem?_empty] at h
  cases h

theorem OfAuthors.insert (h : OfAuthors C m Q) (hvk : C.keyFromBytes author = .ok vk)
    (hv : Q vk v) : OfAuthors C (m.insert author v) Q := by
  intro a w hw
  rw [Std.ExtTreeMap.getElem?_insert] at hw
  split at hw
  · rename_i ha
    obtain rfl := compare_eq_iff_eq.mp ha
    obtain rfl := Option.some.inj hw
    exact ⟨vk, hvk, hv⟩
  · exact h a w hw

theorem OfAuthors.getD (h : OfAuthors C m Q) (hvk : C.keyFromBytes author = .ok vk)
    (hv : Q vk v) : Q vk (m[author]?.getD v) := by
  cases hw : m[author]? with
  | none => exact hv
  | some w =>
    obtain ⟨vk', hvk', hw'⟩ := h author w hw
    obtain rfl := Except.ok.inj (hvk.symm.trans hvk')
    exact hw'

theorem OfAuthors.seatPlaceholder {m : Map (Bytes 32) (Option α)}
    {Q : VerifyingKey → Option α → Prop} (h : OfAuthors C m Q)
    (hvk : C.keyFromBytes author = .ok vk) (hnone : Q vk none) :
    OfAuthors C (Freebird.seatPlaceholder m author) Q := by
  rw [Freebird.seatPlaceholder]
  split
  · exact h
  · exact h.insert hvk hnone

end

/-! ## What the arms hold -/

namespace ClientStore

variable {C : ClientCrypto Cert Value} {K : ClientIds} {s : ClientStore Cert Value}
  {P : AuthorizedPost → Prop} {author : Bytes 32} {vk : VerifyingKey} {bytes : List U8}
  {isFullState : Bool}

variable (C) in
/-- The posts in a payload, read as a feed or as a delta. -/
def postsIn (bytes : List U8) : List AuthorizedPost :=
  ((C.decodeFeed bytes).toOption.elim [] (·.posts.posts)) ++
    ((C.decodeFeedDelta bytes).toOption.elim [] (·.posts.getD []))

theorem held_receiveFeed {entry : Option (FeedStateV1 Cert)}
    (hfree : AuthorizedPost.CollisionFree C.toFeedCrypto vk P)
    (hbytes : ∀ p ∈ postsIn C bytes, P p)
    (hentry : ∀ feed, entry = some feed → feed.Held C.toFeedCrypto (feedParams C vk) P)
    (feed : FeedStateV1 Cert) (h : receiveFeed C vk entry bytes isFullState = some feed) :
    feed.Held C.toFeedCrypto (feedParams C vk) P := by
  rw [receiveFeed] at h
  split at h
  · split at h
    · rename_i incoming hincoming
      refine FeedStateV1.held_mergeFeed hentry hfree (fun p hp => hbytes p ?_) feed h
      rw [postsIn, hincoming]
      exact List.mem_append_left _ hp
    · exact hentry feed h
  · split at h
    · rename_i delta hdelta
      obtain ⟨state, hstate, rfl⟩ := Option.map_eq_some_iff.mp h
      refine (hentry state hstate).applyDelta hfree fun p hp => hbytes p ?_
      rw [postsIn, hdelta]
      exact List.mem_append_right _ hp
    · exact hentry feed h

theorem ofAuthors_receiveAvatar {check : VerifyingKey → AuthorizedAvatar → Except String Unit}
    {avatars : Map (Bytes 32) (Option AuthorizedAvatar)}
    (h : OfAuthors C avatars fun vk slot => ∀ a, slot = some a → check vk a = .ok ())
    (hvk : C.keyFromBytes author = .ok vk) :
    OfAuthors C (receiveAvatar C (check vk) author avatars bytes) fun vk slot =>
      ∀ a, slot = some a → check vk a = .ok () := by
  rw [receiveAvatar]
  cases C.decodeAvatar bytes with
  | error e => exact h
  | ok incoming =>
    cases hcheck : check vk incoming with
    | error e =>
      simp only [hcheck]
      exact h
    | ok =>
      simp only [hcheck]
      refine h.insert hvk fun a ha => ?_
      split at ha
      · obtain rfl := Option.some.inj ha
        exact hcheck
      · refine h.getD (v := none) hvk (fun b hb => ?_) a ha
        cases hb

theorem held_receiveInbox {entry : InboxStateV3 Cert}
    (hentry : entry.Held C.toCrypto (inboxParams C vk)) :
    (receiveInbox C vk entry bytes isFullState).Held C.toCrypto (inboxParams C vk) := by
  rw [receiveInbox]
  split
  · split
    · exact hentry.merge _
    · exact hentry
  · split
    · exact hentry.applyDelta _
    · exact hentry

theorem held_receiveDirectory [DecidableEq Cert] {entry : DirectoryStateV4 Cert}
    (hcbor : Function.Injective C.cborAttestation)
    (hentry : entry.Held C.toDirectoryCrypto (directoryParams C)) :
    (receiveDirectory C entry bytes isFullState).Held C.toDirectoryCrypto (directoryParams C) := by
  rw [receiveDirectory]
  split
  · split
    · exact hentry.merge hcbor _
    · exact hentry
  · split
    · exact hentry.applyDelta hcbor _
    · exact hentry

theorem genuine_receivePow {held : Option SignedCellV1}
    (hheld : ∀ cell, held = some cell → cell.genuine C.toCrypto = true) (cell : SignedCellV1)
    (h : receivePow C held bytes = some cell) : cell.genuine C.toCrypto = true := by
  rw [receivePow] at h
  split at h
  · exact hheld cell h
  · split at h
    · exact hheld cell h
    · exact genuine_adoptDifficulty hheld cell h

theorem checked_applyControl {control : Option (ControlV1 Value)}
    (hcontrol : ∀ c, control = some c →
      ∃ cell : SignedCellV1, cell.check C.toCrypto (controlParams C.toControlCrypto) = .ok () ∧
        ControlV1.decode C.toControlCrypto cell.body = some c) (c : ControlV1 Value)
    (h : applyControl C.toControlCrypto control bytes = some c) :
    ∃ cell : SignedCellV1, cell.check C.toCrypto (controlParams C.toControlCrypto) = .ok () ∧
      ControlV1.decode C.toControlCrypto cell.body = some c := by
  rw [applyControl] at h
  split at h
  · exact hcontrol c h
  · rename_i cell _
    split at h
    · exact hcontrol c h
    · rename_i hcheck
      split at h
      · exact hcontrol c h
      · rename_i incoming hincoming
        split at h
        · obtain rfl := Option.some.inj h
          exact ⟨cell, hcheck, hincoming⟩
        · split at h
          · obtain rfl := Option.some.inj h
            exact ⟨cell, hcheck, hincoming⟩
          · exact hcontrol c h

/-! ## What is held was checked -/

variable [DecidableEq Cert]

variable (C P) in
/-- Everything that is held was checked under the key of the author it is held for, or under the
publisher's. -/
structure Authentic (s : ClientStore Cert Value) : Prop where
  feeds : OfAuthors C s.feeds fun vk slot =>
    ∀ feed, slot = some feed → feed.Held C.toFeedCrypto (feedParams C vk) P
  legacyFeeds : OfAuthors C s.legacyFeeds fun vk slot =>
    ∀ feed, slot = some feed → feed.verify C.toLegacyCrypto vk C.masterKey = .ok ()
  inboxes : OfAuthors C s.inboxes fun vk inbox => inbox.Held C.toCrypto (inboxParams C vk)
  legacyInboxes : OfAuthors C s.legacyInboxes fun _ inbox =>
    inbox.Valid C.toLegacyInboxCrypto C.masterKey
  avatars : OfAuthors C s.avatars fun vk slot =>
    ∀ avatar, slot = some avatar → avatar.check C.toAvatarCrypto vk = .ok ()
  legacyAvatars : OfAuthors C s.legacyAvatars fun vk slot =>
    ∀ avatar, slot = some avatar → checkLegacyAvatar C avatar vk = .ok ()
  anchors : OfAuthors C s.anchors fun vk slot => ∀ anchor, slot = some anchor →
    ∃ cell : SignedCellV1, cell.check C.toCrypto (anchorParams vk) = .ok () ∧
      AnchorV1.decode C cell.body = some anchor
  directory : ∀ d, s.directory = some d → d.Held C.toDirectoryCrypto (directoryParams C)
  legacyDirectory : ∀ d, s.legacyDirectory = some d →
    d.Valid C.toLegacyDirectoryCrypto C.masterKey
  control : ∀ c, s.control = some c →
    ∃ cell : SignedCellV1, cell.check C.toCrypto (controlParams C.toControlCrypto) = .ok () ∧
      ControlV1.decode C.toControlCrypto cell.body = some c
  powDifficulty : ∀ cell, s.powDifficulty = some cell → cell.genuine C.toCrypto = true

theorem authentic_initial : (initial : ClientStore Cert Value).Authentic C P where
  feeds := ofAuthors_empty
  legacyFeeds := ofAuthors_empty
  inboxes := ofAuthors_empty
  legacyInboxes := ofAuthors_empty
  avatars := ofAuthors_empty
  legacyAvatars := ofAuthors_empty
  anchors := ofAuthors_empty
  directory := nofun
  legacyDirectory := nofun
  control := nofun
  powDifficulty := nofun

namespace Authentic

theorem receiveAnchor (h : s.Authentic C P) (hvk : C.keyFromBytes author = .ok vk) :
    (s.receiveAnchor C K author vk bytes).Authentic C P := by
  rw [ClientStore.receiveAnchor]
  split
  · exact h
  · rename_i cell _
    split
    · exact h
    · rename_i hcheck
      split
      · split
        · rename_i anchor hanchor
          exact { h with
            anchors := h.anchors.insert hvk fun _ ha => ⟨cell, hcheck, hanchor.trans ha⟩ }
        · exact h
      · exact h

theorem receiveAuthored (h : s.Authentic C P) (hvk : C.keyFromBytes author = .ok vk)
    (hfree : AuthorizedPost.CollisionFree C.toFeedCrypto vk P)
    (hbytes : ∀ p ∈ postsIn C bytes, P p) {kind : TrackedKind} (hkind : kind.author = some author) :
    (s.receiveAuthored C K kind vk bytes isFullState).Authentic C P := by
  cases kind with
  | feed a =>
    obtain rfl := Option.some.inj hkind
    exact { h with
      feeds := h.feeds.insert hvk fun feed =>
        held_receiveFeed hfree hbytes (h.feeds.getD (v := none) hvk nofun) feed }
  | legacyFeed a =>
    obtain rfl := Option.some.inj hkind
    rw [ClientStore.receiveAuthored]
    split
    · exact h
    · split
      · exact h
      · split
        · exact h
        · rename_i hverify
          exact { h with
            legacyFeeds := h.legacyFeeds.insert hvk fun _ hfeed => Option.some.inj hfeed ▸ hverify }
  | inbox a =>
    obtain rfl := Option.some.inj hkind
    exact { h with
      inboxes := h.inboxes.insert hvk <|
        held_receiveInbox <| h.inboxes.getD hvk InboxStateV3.valid_empty.held }
  | legacyInbox a =>
    obtain rfl := Option.some.inj hkind
    rw [ClientStore.receiveAuthored]
    split
    · exact { h with
        legacyInboxes := h.legacyInboxes.insert hvk <|
          (h.legacyInboxes.getD hvk LegacyInboxState.valid_empty).merge }
    · exact h
  | anchor a =>
    obtain rfl := Option.some.inj hkind
    exact h.receiveAnchor hvk
  | avatar a =>
    obtain rfl := Option.some.inj hkind
    exact { h with avatars := ofAuthors_receiveAvatar h.avatars hvk }
  | legacyAvatar a =>
    obtain rfl := Option.some.inj hkind
    exact { h with legacyAvatars := ofAuthors_receiveAvatar h.legacyAvatars hvk }
  | directory | legacyDirectory | control | pow => cases hkind

theorem receiveShared (h : s.Authentic C P) (hcbor : Function.Injective C.cborAttestation)
    (kind : TrackedKind) : (s.receiveShared C kind bytes isFullState).Authentic C P := by
  cases kind with
  | directory =>
    have hdirectory : (s.directory.getD ∅).Held C.toDirectoryCrypto (directoryParams C) := by
      cases hd : s.directory with
      | none => exact DirectoryStateV4.valid_empty.held
      | some d => exact h.directory d hd
    exact { h with
      directory := fun d hd => Option.some.inj hd ▸ held_receiveDirectory hcbor hdirectory }
  | legacyDirectory =>
    have hdirectory : (s.legacyDirectory.getD ∅).Valid C.toLegacyDirectoryCrypto C.masterKey := by
      cases hd : s.legacyDirectory with
      | none => exact LegacyDirectoryState.valid_empty
      | some d => exact h.legacyDirectory d hd
    rw [ClientStore.receiveShared]
    split
    · exact { h with
        legacyDirectory := fun d hd => Option.some.inj hd ▸ hdirectory.merge }
    · exact h
  | control => exact { h with control := checked_applyControl h.control }
  | pow => exact { h with powDifficulty := genuine_receivePow h.powDifficulty }
  | feed | legacyFeed | inbox | legacyInbox | anchor | avatar | legacyAvatar => exact h

theorem applyContractBytes (h : s.Authentic C P) (hcbor : Function.Injective C.cborAttestation)
    (hfree : ∀ vk, AuthorizedPost.CollisionFree C.toFeedCrypto vk P)
    (hbytes : ∀ p ∈ postsIn C bytes, P p) (key : ContractInstanceId) :
    (s.applyContractBytes C K key bytes isFullState).Authentic C P := by
  rw [ClientStore.applyContractBytes]
  split
  · exact h
  · split
    · exact h
    · rw [receive]
      split
      · exact h.receiveShared hcbor _
      · rename_i hkind
        split
        · exact h
        · rename_i vk hvk
          exact h.receiveAuthored hvk (hfree vk) hbytes hkind

theorem requestAuthored (h : s.Authentic C P) (hvk : C.keyFromBytes author = .ok vk)
    (request : AuthorRequest) : (s.requestAuthored K author vk request).Authentic C P := by
  cases request with
  | fetchFeed => exact { h with feeds := h.feeds.seatPlaceholder hvk nofun }
  | fetchAnchor => exact { h with anchors := h.anchors.seatPlaceholder hvk nofun }
  | fetchLegacyFeed => exact { h with legacyFeeds := h.legacyFeeds.seatPlaceholder hvk nofun }
  | fetchedAvatar legacy =>
    have havatars := h.avatars.seatPlaceholder hvk nofun
    cases legacy with
    | false => exact { h with avatars := havatars }
    | true => exact { h with
        avatars := havatars
        legacyAvatars := h.legacyAvatars.seatPlaceholder hvk nofun }
  | fetchLegacyInbox | fetchAvatar | fetchLegacyAvatar | putOwnFeed | ensureOwnInbox
  | publishAnchor | putOwnAvatar => exact { h with }

end Authentic

variable (C) in
/-- The posts that come with an event. -/
def Event.posts (e : Event) : List AuthorizedPost := e.payload.elim [] fun m => postsIn C m.2.1

/-- **One event** keeps everything that is held checked. -/
theorem Authentic.step (h : s.Authentic C P) (hcbor : Function.Injective C.cborAttestation)
    (hfree : ∀ vk, AuthorizedPost.CollisionFree C.toFeedCrypto vk P) {e : Event}
    (he : ∀ p ∈ e.posts C, P p) : (s.step C K e).Authentic C P := by
  cases e with
  | authored author request =>
    rw [ClientStore.step]
    split
    · exact h
    · rename_i hvk
      exact h.requestAuthored hvk request
  | shared request => cases request <;> exact { h with }
  | response response =>
    rw [ClientStore.step, dispatchContract_eq]
    cases hpayload : response.payload with
    | none => exact h
    | some m =>
      refine h.applyContractBytes hcbor hfree (fun p hp => he p ?_) m.1
      rw [Event.posts, Event.payload, hpayload]
      exact hp
  | nuke => exact { h with
      feeds := ofAuthors_empty, legacyFeeds := ofAuthors_empty, inboxes := ofAuthors_empty }

theorem Authentic.run (h : s.Authentic C P) (hcbor : Function.Injective C.cborAttestation)
    (hfree : ∀ vk, AuthorizedPost.CollisionFree C.toFeedCrypto vk P) {es : List Event}
    (hes : ∀ e ∈ es, ∀ p ∈ e.posts C, P p) : (s.run C K es).Authentic C P := by
  induction es generalizing s with
  | nil => exact h
  | cons e es ih =>
    obtain ⟨he, hes⟩ := List.forall_mem_cons.mp hes
    exact ih (h.step hcbor hfree he) hes

end ClientStore

end Freebird
