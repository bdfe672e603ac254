import Freebird.Avatar.Update
import Freebird.Ui.Anchor
import Freebird.Ui.Control
import Freebird.Ui.Held
import Freebird.Ui.LegacyDirectory
import Freebird.Ui.Thread

/-!
# What the browser holds of the network

The browser keeps a copy of every contract it looks at. A registry says how to decode what comes from
an address and whose slot it goes into (`applyContractBytes`). What comes is untrusted: anyone may
answer for an address, and an anchor may add any address to the registry.

Whatever arrives, in whatever order, what is shown of an author changes only with what arrives at the
addresses that are tracked for the author (`untouched_run`).
-/

namespace Freebird

open Register

/-! ## Parameters -/

/-- The decoders of the browser and the master key it was compiled with. -/
structure ClientCrypto (Cert Value : Type) extends LegacyDirectoryCrypto Cert, DirectoryCrypto Cert,
    AvatarCrypto Cert, ControlCrypto Cert Value where
  decodeFeed : List U8 → Except String (FeedStateV1 Cert)
  decodeFeedDelta : List U8 → Except String (FeedStateV1Delta Cert)
  decodeLegacyFeed : List U8 → Except String (LegacyFeedState Cert)
  decodeInbox : List U8 → Except String (InboxStateV3 Cert)
  decodeInboxDelta : List U8 → Except String (InboxStateV3Delta Cert)
  decodeLegacyInbox : List U8 → Except String (LegacyInboxState Cert)
  decodeLegacyInboxDelta : List U8 → Except String (LegacyInboxDelta Cert)
  decodeDirectory : List U8 → Except String (DirectoryStateV4 Cert)
  decodeDirectoryDelta : List U8 → Except String (DirectoryDeltaV3 Cert)
  decodeLegacyDirectory : List U8 → Except String (LegacyDirectoryState Cert)
  decodeLegacyDirectoryDelta : List U8 → Except String (LegacyDirectoryDelta Cert)
  /-- `from_cbor::<AnchorV1>` -/
  decodeAnchor : List U8 → Except String AnchorV1
  /-- The bare encoding that an old avatar is signed over. -/
  cborAvatarV1 : AvatarV1 → List U8
  masterKey : VerifyingKey

/-- The addresses of the contracts that are not in an anchor. -/
structure ClientIds extends InstanceIds where
  feedInstanceIdV1 : VerifyingKey → ContractInstanceId
  inboxInstanceIdV1 : VerifyingKey → ContractInstanceId
  avatarInstanceIdV1 : VerifyingKey → ContractInstanceId
  anchorInstanceId : VerifyingKey → ContractInstanceId
  directoryInstanceId : ContractInstanceId
  directoryInstanceIdV1 : ContractInstanceId
  controlCellInstanceId : ContractInstanceId
  powCellInstanceId : ContractInstanceId

variable {Cert Value : Type}

section
variable (C : ClientCrypto Cert Value)

def feedParams (author : VerifyingKey) : FeedParametersV1 := ⟨author, C.masterKey⟩

def inboxParams (owner : VerifyingKey) : InboxParametersV3 := ⟨owner, C.masterKey⟩

def directorySeed : String := "freebird-directory-v3"

def directoryParams : DirectoryParametersV3 := ⟨directorySeed, C.masterKey⟩

def anchorPurpose : String := "anchor"

def anchorParams (owner : VerifyingKey) : CellParametersV1 := ⟨owner, anchorPurpose⟩

/-- Schemas before the first one are unreadable too. -/
def AnchorV1.decode (body : List U8) : Option AnchorV1 :=
  (C.decodeAnchor body).toOption.filter fun anchor => 1 ≤ anchor.v.val

/-- `check_legacy_avatar` -/
def checkLegacyAvatar (a : AuthorizedAvatar) (author : VerifyingKey) : Except String Unit := do
  if maxAvatarBytes < a.avatar.data.length then throw s!"avatar over {maxAvatarBytes} bytes"
  if a.avatar.contentType ∉ ["image/png", "image/jpeg", "image/webp"] then
    throw s!"unsupported avatar content-type: {a.avatar.contentType}"
  if sniffMime a.avatar.data ≠ some a.avatar.contentType then
    throw "avatar bytes do not match declared content-type"
  mapErr "legacy avatar signature invalid" <|
    C.verifyStrict author (C.cborAvatarV1 a.avatar) a.signature

/-! ## The slots -/

/-- The global signals that hold contract states. -/
structure ClientStore (Cert Value : Type) where
  tracked : Tracked
  feeds : LoadedFeeds Cert
  legacyFeeds : Map (Bytes 32) (Option (LegacyFeedState Cert))
  inboxes : Map (Bytes 32) (InboxStateV3 Cert)
  legacyInboxes : Map (Bytes 32) (LegacyInboxState Cert)
  anchors : Map (Bytes 32) (Option AnchorV1)
  /-- The order keys of the cells the anchors came in. -/
  anchorOrder : Map (Bytes 32) CellSummaryV1
  avatars : Map (Bytes 32) (Option AuthorizedAvatar)
  legacyAvatars : Map (Bytes 32) (Option AuthorizedAvatar)
  directory : Option (DirectoryStateV4 Cert)
  legacyDirectory : Option (LegacyDirectoryState Cert)
  control : Option (ControlV1 Value)
  powDifficulty : Option SignedCellV1

/-- The store when the page is loaded. -/
def ClientStore.initial : ClientStore Cert Value where
  tracked := ∅
  feeds := ∅
  legacyFeeds := ∅
  inboxes := ∅
  legacyInboxes := ∅
  anchors := ∅
  anchorOrder := ∅
  avatars := ∅
  legacyAvatars := ∅
  directory := none
  legacyDirectory := none
  control := none
  powDifficulty := none

/-- A slot that is empty so far gets a placeholder (`or_insert(None)`). -/
def seatPlaceholder (m : Map (Bytes 32) (Option α)) (author : Bytes 32) :
    Map (Bytes 32) (Option α) :=
  if author ∈ m then m else m.insert author none

/-- `apply_contract_bytes` on a feed: the slot afterwards. A delta needs a state to apply to. -/
def receiveFeed (vk : VerifyingKey) (entry : Option (FeedStateV1 Cert)) (bytes : List U8)
    (isFullState : Bool) : Option (FeedStateV1 Cert) :=
  if isFullState then
    match C.decodeFeed bytes with
    | .ok incoming => mergeFeed C.toFeedCrypto (feedParams C vk) entry incoming
    | .error _ => entry
  else
    match C.decodeFeedDelta bytes with
    | .ok delta =>
      entry.map fun state => (state.applyDelta C.toFeedCrypto (feedParams C vk) (some delta)).2
    | .error _ => entry

/-- On an avatar, of either generation. -/
def receiveAvatar (check : AuthorizedAvatar → Except String Unit) (author : Bytes 32)
    (avatars : Map (Bytes 32) (Option AuthorizedAvatar)) (bytes : List U8) :
    Map (Bytes 32) (Option AuthorizedAvatar) :=
  match C.decodeAvatar bytes with
  | .error _ => avatars
  | .ok incoming =>
    match check incoming with
    | .error _ => avatars
    | .ok () =>
      let entry := avatars[author]?.getD none
      avatars.insert author <|
        if entry.all fun held => held.orderKey C.toAvatarCrypto < incoming.orderKey C.toAvatarCrypto
        then some incoming else entry

def receiveInbox (vk : VerifyingKey) (entry : InboxStateV3 Cert) (bytes : List U8)
    (isFullState : Bool) : InboxStateV3 Cert :=
  if isFullState then
    match C.decodeInbox bytes with
    | .ok incoming => (entry.merge C.toCrypto (inboxParams C vk) incoming).2
    | .error _ => entry
  else
    match C.decodeInboxDelta bytes with
    | .ok delta => (entry.applyDelta C.toCrypto (inboxParams C vk) (some delta)).2
    | .error _ => entry

/-- `From<LegacyInboxState> for LegacyInboxDelta` -/
def LegacyInboxState.asDelta (s : LegacyInboxState Cert) : LegacyInboxDelta Cert :=
  ⟨some s.creds.creds, some s.pointers.pointers⟩

def incomingLegacyInbox (bytes : List U8) (isFullState : Bool) : Option (LegacyInboxDelta Cert) :=
  if isFullState then (C.decodeLegacyInbox bytes).toOption.map (·.asDelta)
  else (C.decodeLegacyInboxDelta bytes).toOption

def receiveDirectory (entry : DirectoryStateV4 Cert) (bytes : List U8) (isFullState : Bool) :
    DirectoryStateV4 Cert :=
  if isFullState then
    match C.decodeDirectory bytes with
    | .ok incoming => (entry.merge C.toDirectoryCrypto (directoryParams C) incoming).2
    | .error _ => entry
  else
    match C.decodeDirectoryDelta bytes with
    | .ok delta => (entry.applyDelta C.toDirectoryCrypto (directoryParams C) delta).2
    | .error _ => entry

def incomingLegacyDirectory (bytes : List U8) (isFullState : Bool) :
    Option (LegacyDirectoryDelta Cert) :=
  if isFullState then (C.decodeLegacyDirectory bytes).toOption.map fun s => Map.vals s.listings
  else (C.decodeLegacyDirectoryDelta bytes).toOption

/-- On the difficulty record. -/
def receivePow (held : Option SignedCellV1) (bytes : List U8) : Option SignedCellV1 :=
  match C.decodeCell bytes with
  | .error _ => held
  | .ok cell =>
    match cell.check C.toCrypto (powParams C.toCrypto) with
    | .error _ => held
    | .ok () => adoptDifficulty C.toCrypto held (some cell)

/-! ## Dispatch -/

namespace ClientStore

variable (K : ClientIds) (s : ClientStore Cert Value)

/-- On an anchor, whose addresses are followed before it is shown. -/
def receiveAnchor (author : Bytes 32) (vk : VerifyingKey) (bytes : List U8) :
    ClientStore Cert Value :=
  match C.decodeCell bytes with
  | .error _ => s
  | .ok cell =>
    match cell.check C.toCrypto (anchorParams vk) with
    | .error _ => s
    | .ok () =>
      if s.anchorOrder[author]?.all fun held => held < cell.orderKey C.toCellCrypto then
        match AnchorV1.decode C cell.body with
        | some anchor => { s with
            anchorOrder := s.anchorOrder.insert author (cell.orderKey C.toCellCrypto)
            tracked := (followAnchor K.toInstanceIds ⟨author, vk, anchor⟩ s.tracked).1
            anchors := s.anchors.insert author (some anchor) }
        | none => s
      else s

/-- The arms of `apply_contract_bytes` for the contracts of an author. -/
def receiveAuthored (kind : TrackedKind) (vk : VerifyingKey) (bytes : List U8)
    (isFullState : Bool) : ClientStore Cert Value :=
  match kind with
  | .feed author => { s with
      feeds := s.feeds.insert author
        (receiveFeed C vk (s.feeds[author]?.getD none) bytes isFullState) }
  | .avatar author => { s with
      avatars := receiveAvatar C (·.check C.toAvatarCrypto vk) author s.avatars bytes }
  | .legacyAvatar author => { s with
      legacyAvatars := receiveAvatar C (checkLegacyAvatar C · vk) author s.legacyAvatars bytes }
  | .anchor author => s.receiveAnchor C K author vk bytes
  | .inbox author => { s with
      inboxes := s.inboxes.insert author
        (receiveInbox C vk (s.inboxes[author]?.getD ∅) bytes isFullState) }
  | .legacyInbox author =>
    match incomingLegacyInbox C bytes isFullState with
    | some incoming => { s with
        legacyInboxes := s.legacyInboxes.insert author
          ((s.legacyInboxes[author]?.getD ∅).merge C.toLegacyInboxCrypto C.masterKey incoming) }
    | none => s
  | .legacyFeed author =>
    -- The old contract is dead, so there are no new deltas.
    if !isFullState then s
    else
      match C.decodeLegacyFeed bytes with
      | .error _ => s
      | .ok incoming =>
        match incoming.verify C.toLegacyCrypto vk C.masterKey with
        | .error _ => s
        | .ok () => { s with legacyFeeds := s.legacyFeeds.insert author (some incoming) }
  | _ => s

end ClientStore

end

/-- The author whose slot an address is read into. -/
def TrackedKind.author : TrackedKind → Option (Bytes 32)
  | .feed author | .legacyFeed author | .inbox author | .legacyInbox author | .anchor author
  | .avatar author | .legacyAvatar author => some author
  | .directory | .legacyDirectory | .control | .pow => none

namespace ClientStore

variable (C : ClientCrypto Cert Value) (K : ClientIds) (s : ClientStore Cert Value)

/-- The other arms. -/
def receiveShared (kind : TrackedKind) (bytes : List U8) (isFullState : Bool) :
    ClientStore Cert Value :=
  match kind with
  | .directory => { s with
      directory := some (receiveDirectory C (s.directory.getD ∅) bytes isFullState) }
  | .legacyDirectory =>
    match incomingLegacyDirectory C bytes isFullState with
    | some incoming => { s with
        legacyDirectory := some ((s.legacyDirectory.getD ∅).merge C.toLegacyDirectoryCrypto
          C.masterKey incoming) }
    | none => s
  | .control => { s with control := applyControl C.toControlCrypto s.control bytes }
  | .pow => { s with powDifficulty := receivePow C s.powDifficulty bytes }
  | _ => s

/-- The `match` of `apply_contract_bytes`. -/
def receive (kind : TrackedKind) (bytes : List U8) (isFullState : Bool) : ClientStore Cert Value :=
  match kind.author with
  | none => s.receiveShared C kind bytes isFullState
  | some author =>
    match C.keyFromBytes author with
    | .error _ => s
    | .ok vk => s.receiveAuthored C K kind vk bytes isFullState

def applyContractBytes (key : ContractInstanceId) (bytes : List U8) (isFullState : Bool) :
    ClientStore Cert Value :=
  if bytes = [] then s
  else
    match s.tracked[idString K.bs58 key]? with
    | none => s
    | some kind => s.receive C K kind bytes isFullState

/-- What the node answers, and what it sends of its own. -/
inductive ContractResponse where
  | getResponse (key : ContractInstanceId) (state : List U8)
  | stateNotification (key : ContractInstanceId) (state : List U8)
  | deltaNotification (key : ContractInstanceId) (delta : List U8)
  | stateAndDeltaNotification (key : ContractInstanceId) (state delta : List U8)
  /-- Put, update and subscribe responses, and the other variants of an update. -/
  | other

def dispatchContract : ContractResponse → ClientStore Cert Value
  | .getResponse key state | .stateNotification key state
  | .stateAndDeltaNotification key state _ => s.applyContractBytes C K key state true
  | .deltaNotification key delta => s.applyContractBytes C K key delta false
  | .other => s

/-- Where a response goes, its bytes, and whether they are a full state. -/
def ContractResponse.payload : ContractResponse → Option (ContractInstanceId × List U8 × Bool)
  | .getResponse key state | .stateNotification key state
  | .stateAndDeltaNotification key state _ => some (key, state, true)
  | .deltaNotification key delta => some (key, delta, false)
  | .other => none

theorem dispatchContract_eq (response : ContractResponse) : s.dispatchContract C K response =
    response.payload.elim s fun m => s.applyContractBytes C K m.1 m.2.1 m.2.2 := by
  cases response <;> rfl

/-! ## What is asked for -/

/-- The stretches between two sends of the functions that fetch or put the contracts of an author. -/
inductive AuthorRequest where
  | fetchFeed
  /-- The same function, before it asks for the anchor. -/
  | fetchAnchor
  | fetchLegacyInbox
  | fetchLegacyFeed
  | fetchAvatar
  | fetchLegacyAvatar
  /-- `fetch_avatar`, when everything is sent. -/
  | fetchedAvatar (legacy : Bool)
  | putOwnFeed
  | ensureOwnInbox
  | publishAnchor
  | putOwnAvatar

/-- The requests for an author with the key `vk`. -/
def requestAuthored (author : Bytes 32) (vk : VerifyingKey) : AuthorRequest → ClientStore Cert Value
  | .fetchFeed =>
    let tracked := trackId K.bs58 s.tracked (K.feedInstanceId vk) (.feed author)
    let tracked := trackId K.bs58 tracked (K.inboxInstanceId vk) (.inbox author)
    { s with
      feeds := seatPlaceholder s.feeds author
      tracked := trackId K.bs58 tracked (K.anchorInstanceId vk) (.anchor author) }
  | .fetchAnchor => { s with anchors := seatPlaceholder s.anchors author }
  | .fetchLegacyInbox => { s with
      tracked := trackId K.bs58 s.tracked (K.inboxInstanceIdV1 vk) (.legacyInbox author) }
  | .fetchLegacyFeed => { s with
      legacyFeeds := seatPlaceholder s.legacyFeeds author
      tracked := trackId K.bs58 s.tracked (K.feedInstanceIdV1 vk) (.legacyFeed author) }
  | .fetchLegacyAvatar => { s with
      tracked := trackId K.bs58 s.tracked (K.avatarInstanceIdV1 vk) (.legacyAvatar author) }
  | .fetchedAvatar legacy => { s with
      avatars := seatPlaceholder s.avatars author
      legacyAvatars := if legacy then seatPlaceholder s.legacyAvatars author else s.legacyAvatars }
  | .putOwnFeed => { s with
      tracked := trackId K.bs58 s.tracked (K.feedInstanceId vk) (.feed author) }
  | .ensureOwnInbox => { s with
      tracked := trackId K.bs58 s.tracked (K.inboxInstanceId vk) (.inbox author) }
  | .publishAnchor => { s with
      tracked := trackId K.bs58 s.tracked (K.anchorInstanceId vk) (.anchor author) }
  | .fetchAvatar | .putOwnAvatar => { s with
      tracked := trackId K.bs58 s.tracked (K.avatarInstanceId vk) (.avatar author) }

inductive SharedRequest where
  | fetchDirectory
  | fetchLegacyDirectory
  | fetchControl
  | fetchPowDifficulty
  | putDirectoryListing

def requestShared : SharedRequest → ClientStore Cert Value
  | .fetchDirectory | .putDirectoryListing => { s with
      tracked := trackId K.bs58 s.tracked K.directoryInstanceId .directory }
  | .fetchLegacyDirectory => { s with
      tracked := trackId K.bs58 s.tracked K.directoryInstanceIdV1 .legacyDirectory }
  | .fetchControl => { s with tracked := trackId K.bs58 s.tracked K.controlCellInstanceId .control }
  | .fetchPowDifficulty => { s with tracked := trackId K.bs58 s.tracked K.powCellInstanceId .pow }

/-! ## Runs -/

inductive Event where
  | authored (author : Bytes 32) (request : AuthorRequest)
  | shared (request : SharedRequest)
  | response (response : ContractResponse)
  /-- What `nuke_account` drops. -/
  | nuke

/-- Where what comes in with an event goes, its bytes, and whether they are a full state. -/
def Event.payload : Event → Option (ContractInstanceId × List U8 × Bool)
  | .response r => r.payload
  | _ => none

def step : Event → ClientStore Cert Value
  | .authored author request =>
    match C.keyFromBytes author with
    | .error _ => s
    | .ok vk => s.requestAuthored K author vk request
  | .shared request => s.requestShared K request
  | .response response => s.dispatchContract C K response
  | .nuke => { s with feeds := ∅, legacyFeeds := ∅, inboxes := ∅ }

def run (es : List Event) : ClientStore Cert Value := es.foldl (fun s e => s.step C K e) s

end ClientStore

/-! ## What is tracked for an author -/

section
variable {K : InstanceIds} {author : Bytes 32} {X : Set String} {tracked : Tracked}
  {call : FollowAnchor} {c : String × TrackedKind} {cs : List (String × TrackedKind)} {E : Bs58}

variable (author X) in
/-- The addresses that are tracked for an author are among those in `X`. -/
def Confined (tracked : Tracked) : Prop :=
  ∀ (address : String) (kind : TrackedKind), tracked[address]? = some kind →
    kind.author = some author → address ∈ X

theorem Confined.claim (h : Confined author X tracked)
    (hc : c.2.author = some author → c.1 ∈ X) : Confined author X (Register.claim tracked c) := by
  intro address kind hkind hauthor
  rw [getElem?_claim] at hkind
  split at hkind
  · rename_i haddress
    obtain rfl := Option.some.inj hkind
    exact haddress ▸ hc hauthor
  · exact h address kind hkind hauthor

theorem Confined.claims (h : Confined author X tracked)
    (hcs : ∀ c ∈ cs, c.2.author = some author → c.1 ∈ X) :
    Confined author X (cs.foldl Register.claim tracked) := by
  induction cs generalizing tracked with
  | nil => exact h
  | cons c cs ih =>
    obtain ⟨hc, hcs⟩ := List.forall_mem_cons.mp hcs
    exact ih (h.claim hc) hcs

theorem getElem?_trackId {kind : TrackedKind} (id id' : ContractInstanceId) :
    (trackId E tracked id kind)[idString E id']? =
      if id = id' then some kind else tracked[idString E id']? :=
  (getElem?_claim (c := (idString E id, kind)) (idString E id')).trans <|
    if_congr ⟨idString_inj, congrArg (idString E)⟩ rfl rfl

/-- An address that is tracked for somebody else is not tracked for the author. -/
theorem Confined.trackId (h : Confined author X tracked) {id : ContractInstanceId}
    {kind : TrackedKind} (hkind : kind.author ≠ some author) :
    Confined author X (trackId E tracked id kind) :=
  h.claim (c := (idString E id, kind)) fun hauthor => absurd hauthor hkind

/-- What an anchor claims, it claims for its author. -/
theorem author_of_mem_claims (h : c ∈ call.claims K tracked) : c.2.author = some call.author := by
  obtain ⟨t, ht, rfl⟩ := List.mem_map.mp h
  obtain ⟨row, hrow, htarget⟩ := List.mem_filterMap.mp ht
  obtain ⟨-, -, -, ht⟩ := target_eq_some.mp htarget
  rw [ht]
  simp only [anchorRoles, List.mem_cons, List.not_mem_nil, or_false] at hrow
  rcases hrow with rfl | rfl | rfl <;> rfl

theorem Confined.followAnchor (h : Confined author X tracked) (hcall : call.author ≠ author) :
    Confined author X (followAnchor K call tracked).1 := by
  rw [fst_followAnchor]
  refine h.claims fun c hc hauthor => absurd ?_ hcall
  exact Option.some.inj ((author_of_mem_claims hc).symm.trans hauthor)

end

/-! ## What is shown of an author -/

/-- What is held for an author. -/
@[ext]
structure AuthorView (Cert : Type) where
  feed : Option (Option (FeedStateV1 Cert))
  legacyFeed : Option (Option (LegacyFeedState Cert))
  inbox : Option (InboxStateV3 Cert)
  legacyInbox : Option (LegacyInboxState Cert)
  anchor : Option (Option AnchorV1)
  anchorOrder : Option CellSummaryV1
  avatar : Option (Option AuthorizedAvatar)
  legacyAvatar : Option (Option AuthorizedAvatar)

namespace ClientStore

variable {C : ClientCrypto Cert Value} {K : ClientIds} {s : ClientStore Cert Value}
  {author other : Bytes 32} {vk : VerifyingKey} {bytes : List U8} {isFullState : Bool}
  {X : Set String} {tracked : Tracked}

def of (s : ClientStore Cert Value) (author : Bytes 32) : AuthorView Cert where
  feed := s.feeds[author]?
  legacyFeed := s.legacyFeeds[author]?
  inbox := s.inboxes[author]?
  legacyInbox := s.legacyInboxes[author]?
  anchor := s.anchors[author]?
  anchorOrder := s.anchorOrder[author]?
  avatar := s.avatars[author]?
  legacyAvatar := s.legacyAvatars[author]?

/-- An event that is not about an author: what comes in comes from other addresses, and what is asked
for is asked for others. -/
def Event.Avoids (E : Bs58) (author : Bytes 32) (X : Set String) : Event → Prop
  | .authored other _ => other ≠ author
  | .shared _ => True
  | .response r => ∀ m ∈ r.payload, idString E m.1 ∉ X
  | .nuke => False

theorem getElem?_insert_of_ne {m : Map (Bytes 32) α} {v : α} (h : other ≠ author) :
    (m.insert other v)[author]? = m[author]? := by
  rw [Std.ExtTreeMap.getElem?_insert, if_neg (mt compare_eq_iff_eq.mp h)]

theorem getElem?_seatPlaceholder_of_ne {m : Map (Bytes 32) (Option α)} (h : other ≠ author) :
    (seatPlaceholder m other)[author]? = m[author]? := by
  rw [seatPlaceholder]
  split
  · rfl
  · exact getElem?_insert_of_ne h

theorem getElem?_receiveAvatar_of_ne {check : AuthorizedAvatar → Except String Unit}
    {avatars : Map (Bytes 32) (Option AuthorizedAvatar)} (h : other ≠ author) :
    (receiveAvatar C check other avatars bytes)[author]? = avatars[author]? := by
  rw [receiveAvatar]
  split
  · rfl
  · split
    · rfl
    · exact getElem?_insert_of_ne h

/-! ### One event -/

/-- What is received for one author is neither shown nor tracked for another one. -/
theorem receiveAuthored_other {kind : TrackedKind} (hkind : kind.author = some other)
    (hne : other ≠ author) (hX : Confined author X s.tracked) :
    (s.receiveAuthored C K kind vk bytes isFullState).of author = s.of author ∧
      Confined author X (s.receiveAuthored C K kind vk bytes isFullState).tracked := by
  cases kind with
  | feed a =>
    obtain rfl := Option.some.inj hkind
    exact ⟨AuthorView.ext (getElem?_insert_of_ne hne) rfl rfl rfl rfl rfl rfl rfl, hX⟩
  | legacyFeed a =>
    obtain rfl := Option.some.inj hkind
    rw [receiveAuthored]
    split
    · exact ⟨rfl, hX⟩
    · split
      · exact ⟨rfl, hX⟩
      · split
        · exact ⟨rfl, hX⟩
        · exact ⟨AuthorView.ext rfl (getElem?_insert_of_ne hne) rfl rfl rfl rfl rfl rfl, hX⟩
  | inbox a =>
    obtain rfl := Option.some.inj hkind
    exact ⟨AuthorView.ext rfl rfl (getElem?_insert_of_ne hne) rfl rfl rfl rfl rfl, hX⟩
  | legacyInbox a =>
    obtain rfl := Option.some.inj hkind
    rw [receiveAuthored]
    split
    · exact ⟨AuthorView.ext rfl rfl rfl (getElem?_insert_of_ne hne) rfl rfl rfl rfl, hX⟩
    · exact ⟨rfl, hX⟩
  | anchor a =>
    obtain rfl := Option.some.inj hkind
    rw [receiveAuthored, receiveAnchor]
    split
    · exact ⟨rfl, hX⟩
    · split
      · exact ⟨rfl, hX⟩
      · split
        · split
          · exact ⟨AuthorView.ext rfl rfl rfl rfl (getElem?_insert_of_ne hne)
              (getElem?_insert_of_ne hne) rfl rfl, Confined.followAnchor hX hne⟩
          · exact ⟨rfl, hX⟩
        · exact ⟨rfl, hX⟩
  | avatar a =>
    obtain rfl := Option.some.inj hkind
    refine ⟨AuthorView.ext rfl rfl rfl rfl rfl rfl ?_ rfl, hX⟩
    exact getElem?_receiveAvatar_of_ne hne
  | legacyAvatar a =>
    obtain rfl := Option.some.inj hkind
    refine ⟨AuthorView.ext rfl rfl rfl rfl rfl rfl rfl ?_, hX⟩
    exact getElem?_receiveAvatar_of_ne hne
  | directory | legacyDirectory | control | pow => cases hkind

theorem receiveShared_other (kind : TrackedKind) (hX : Confined author X s.tracked) :
    (s.receiveShared C kind bytes isFullState).of author = s.of author ∧
      Confined author X (s.receiveShared C kind bytes isFullState).tracked := by
  cases kind with
  | legacyDirectory =>
    rw [receiveShared]
    split <;> exact ⟨rfl, hX⟩
  | directory | control | pow | feed | legacyFeed | inbox | legacyInbox | anchor | avatar
  | legacyAvatar => exact ⟨rfl, hX⟩

theorem applyContractBytes_other {key : ContractInstanceId} (hkey : idString K.bs58 key ∉ X)
    (hX : Confined author X s.tracked) :
    (s.applyContractBytes C K key bytes isFullState).of author = s.of author ∧
      Confined author X (s.applyContractBytes C K key bytes isFullState).tracked := by
  rw [applyContractBytes]
  split
  · exact ⟨rfl, hX⟩
  · split
    · exact ⟨rfl, hX⟩
    · rename_i kind htracked
      rw [receive]
      split
      · exact receiveShared_other kind hX
      · rename_i other hkind
        split
        · exact ⟨rfl, hX⟩
        · refine receiveAuthored_other hkind ?_ hX
          rintro rfl
          exact hkey (hX _ kind htracked hkind)

theorem requestAuthored_other (request : AuthorRequest) (hne : other ≠ author)
    (hX : Confined author X s.tracked) :
    (s.requestAuthored K other vk request).of author = s.of author ∧
      Confined author X (s.requestAuthored K other vk request).tracked := by
  have hauthor : some other ≠ some author := mt Option.some.inj hne
  cases request with
  | fetchFeed =>
    refine ⟨AuthorView.ext (getElem?_seatPlaceholder_of_ne hne) rfl rfl rfl rfl rfl rfl rfl, ?_⟩
    refine ((hX.trackId ?_).trackId ?_).trackId ?_ <;> exact hauthor
  | fetchAnchor =>
    exact ⟨AuthorView.ext rfl rfl rfl rfl (getElem?_seatPlaceholder_of_ne hne) rfl rfl rfl, hX⟩
  | fetchLegacyFeed =>
    refine ⟨AuthorView.ext rfl (getElem?_seatPlaceholder_of_ne hne) rfl rfl rfl rfl rfl rfl, ?_⟩
    exact hX.trackId hauthor
  | fetchedAvatar legacy =>
    have havatars := getElem?_seatPlaceholder_of_ne (m := s.avatars) hne
    cases legacy with
    | false => exact ⟨AuthorView.ext rfl rfl rfl rfl rfl rfl havatars rfl, hX⟩
    | true =>
      refine ⟨AuthorView.ext rfl rfl rfl rfl rfl rfl havatars ?_, hX⟩
      exact getElem?_seatPlaceholder_of_ne hne
  | fetchLegacyInbox | fetchAvatar | fetchLegacyAvatar | putOwnFeed | ensureOwnInbox
  | publishAnchor | putOwnAvatar =>
    refine ⟨rfl, hX.trackId ?_⟩
    exact hauthor

theorem requestShared_other (request : SharedRequest) (hX : Confined author X s.tracked) :
    (s.requestShared K request).of author = s.of author ∧
      Confined author X (s.requestShared K request).tracked := by
  cases request <;> exact ⟨rfl, hX.trackId nofun⟩

/-- **One event** that avoids an author. -/
theorem step_other {e : Event} (he : e.Avoids K.bs58 author X) (hX : Confined author X s.tracked) :
    (s.step C K e).of author = s.of author ∧ Confined author X (s.step C K e).tracked := by
  cases e with
  | authored other request =>
    rw [step]
    split
    · exact ⟨rfl, hX⟩
    · exact requestAuthored_other request he hX
  | shared request => exact requestShared_other request hX
  | response r =>
    rw [step, dispatchContract_eq]
    cases hpayload : r.payload with
    | none => exact ⟨rfl, hX⟩
    | some m => exact applyContractBytes_other (he m hpayload) hX
  | nuke => cases he

theorem run_other {es : List Event} (hes : ∀ e ∈ es, e.Avoids K.bs58 author X)
    (hX : Confined author X s.tracked) :
    (s.run C K es).of author = s.of author ∧ Confined author X (s.run C K es).tracked := by
  induction es generalizing s with
  | nil => exact ⟨rfl, hX⟩
  | cons e es ih =>
    obtain ⟨he, hes⟩ := List.forall_mem_cons.mp hes
    obtain ⟨hof, hX⟩ := step_other (C := C) (K := K) he hX
    obtain ⟨hrun, hX⟩ := ih hes hX
    exact ⟨hrun.trans hof, hX⟩

/-- The addresses that are tracked for an author. -/
def addresses (s : ClientStore Cert Value) (author : Bytes 32) : Set String :=
  {address | ∃ kind, s.tracked[address]? = some kind ∧ kind.author = some author}

/-- **What is shown of an author comes from the author's addresses**: neither what arrives elsewhere,
anchors of others that name any address included, nor what is asked for others changes what is held
for an author or adds an address to those tracked for the author. -/
theorem untouched_run {es : List Event}
    (hes : ∀ e ∈ es, e.Avoids K.bs58 author (s.addresses author)) :
    (s.run C K es).of author = s.of author ∧
      (s.run C K es).addresses author ⊆ s.addresses author := by
  obtain ⟨hof, hX⟩ := run_other (C := C) (K := K) hes fun address kind hkind hauthor =>
    ⟨kind, hkind, hauthor⟩
  exact ⟨hof, fun address ⟨kind, hkind, hauthor⟩ => hX address kind hkind hauthor⟩

end ClientStore

namespace Sample

open ClientStore

/-- The bytes `[n]` decode to the message of that number, and a body `[n]` to an anchor that names the
address of byte `n` as a feed. -/
def clientCrypto : ClientCrypto VerifyingKey Bool where
  toLegacyDirectoryCrypto := legacyDirectoryCrypto
  cborListing := directoryCrypto.cborListing
  cborAvatar := avatarCrypto.cborAvatar
  decodeAvatar := avatarCrypto.decodeAvatar
  decodeAvatarParameters := avatarCrypto.decodeAvatarParameters
  decodeCell := controlCrypto.decodeCell
  decodeParameters := controlCrypto.decodeParameters
  cborSummary := controlCrypto.cborSummary
  decodeSummary := controlCrypto.decodeSummary
  decodeControl := controlCrypto.decodeControl
  decodeFeed bytes := if bytes = [1] then .ok (feed 1 [post 1 "a" none]) else .error "end of file"
  decodeFeedDelta bytes := if bytes = [2] then .ok halfSigned else .error "end of file"
  decodeLegacyFeed bytes := if bytes = [3] then .ok leftFeed else .error "end of file"
  decodeInbox bytes := if bytes = [4] then .ok seated else .error "end of file"
  decodeInboxDelta bytes := if bytes = [5] then .ok halfBad else .error "end of file"
  decodeLegacyInbox bytes := if bytes = [6] then .ok oldInbox else .error "end of file"
  decodeLegacyInboxDelta bytes :=
    if bytes = [7] then .ok (oldDelta (oldCred 2) 3 7) else .error "end of file"
  decodeDirectory bytes := if bytes = [8] then .ok listed else .error "end of file"
  decodeDirectoryDelta bytes := if bytes = [9] then .ok halfListed else .error "end of file"
  decodeLegacyDirectory bytes := if bytes = [10] then .ok oldDirectory else .error "end of file"
  decodeLegacyDirectoryDelta bytes :=
    if bytes = [11] then .ok [oldListing 2 9 false] else .error "end of file"
  decodeAnchor
    | [n] => .ok (.new ((∅ : Map _ _).insert roleFeed ⟨feedGeneration, some (bytes 32 n)⟩))
    | _ => .error "end of file"
  cborAvatarV1 avatar := avatar.data ++ leBytes 8 avatar.time
  masterKey := key 91

/-- An address is the hash of the key and the number of the contract. -/
def clientIds : ClientIds where
  bs58 := bs58
  feedInstanceId vk := crypto.blake3 (vk.asBytes.toList ++ [101])
  inboxInstanceId vk := crypto.blake3 (vk.asBytes.toList ++ [102])
  avatarInstanceId vk := crypto.blake3 (vk.asBytes.toList ++ [103])
  anchorInstanceId vk := crypto.blake3 (vk.asBytes.toList ++ [104])
  feedInstanceIdV1 vk := crypto.blake3 (vk.asBytes.toList ++ [111])
  inboxInstanceIdV1 vk := crypto.blake3 (vk.asBytes.toList ++ [112])
  avatarInstanceIdV1 vk := crypto.blake3 (vk.asBytes.toList ++ [113])
  directoryInstanceId := bytes 32 201
  directoryInstanceIdV1 := bytes 32 202
  controlCellInstanceId := bytes 32 203
  powCellInstanceId := bytes 32 204

/-- The feed of `key 5` arrives, and then a delta that is rejected. -/
def arriving : List Event :=
  [.authored (bytes 32 5) .fetchFeed,
    .response (.getResponse (clientIds.feedInstanceId (key 5)) [1]),
    .response (.deltaNotification (clientIds.feedInstanceId (key 5)) [2])]

/-- The browser shows the feed of `key 5` and follows the feed, the inbox and the anchor. -/
def arrived : ClientStore VerifyingKey Bool := { initial with
  tracked :=
    let feed := trackId bs58 ∅ (clientIds.feedInstanceId (key 5)) (.feed (bytes 32 5))
    let inbox := trackId bs58 feed (clientIds.inboxInstanceId (key 5)) (.inbox (bytes 32 5))
    trackId bs58 inbox (clientIds.anchorInstanceId (key 5)) (.anchor (bytes 32 5))
  feeds := (∅ : LoadedFeeds VerifyingKey).insert (bytes 32 5) (some (feed 1 [post 1 "a" none])) }

/-- The anchor of `key 6` names an address, and the node answers for it with the feed of `key 5`. -/
def claiming : List Event :=
  [.authored (bytes 32 6) .fetchFeed,
    .response (.getResponse (clientIds.anchorInstanceId (key 6))
      (crypto.cborCell ⟨1, [77], sign 6 0⟩)),
    .response (.getResponse (bytes 32 77) [1])]

end Sample

namespace ClientStore

open Sample in
theorem untouched_run_claiming :
    (arrived.run clientCrypto clientIds claiming).of (bytes 32 5) = arrived.of (bytes 32 5) ∧
      (arrived.run clientCrypto clientIds claiming).addresses (bytes 32 5) ⊆
        arrived.addresses (bytes 32 5) := by
  have hfresh : ∀ id ∈ [clientIds.anchorInstanceId (key 6), bytes 32 77],
      clientIds.feedInstanceId (key 5) ≠ id ∧ clientIds.inboxInstanceId (key 5) ≠ id ∧
        clientIds.anchorInstanceId (key 5) ≠ id := by decide
  have hout (id : ContractInstanceId)
      (hid : id ∈ [clientIds.anchorInstanceId (key 6), bytes 32 77]) :
      idString bs58 id ∉ arrived.addresses (bytes 32 5) := by
    obtain ⟨hfeed, hinbox, hanchor⟩ := hfresh id hid
    rintro ⟨kind, hkind, -⟩
    rw [arrived, getElem?_trackId, if_neg hanchor, getElem?_trackId, if_neg hinbox,
      getElem?_trackId, if_neg hfeed, Map.getElem?_empty] at hkind
    cases hkind
  refine untouched_run fun e he => ?_
  simp only [claiming, List.mem_cons, List.not_mem_nil, or_false] at he
  rcases he with rfl | rfl | rfl
  · exact show bytes 32 6 ≠ bytes 32 5 by decide
  · rintro m ⟨⟩
    exact hout _ List.mem_cons_self
  · rintro m ⟨⟩
    exact hout _ (List.mem_cons_of_mem _ List.mem_cons_self)

end ClientStore

end Freebird
