import Freebird.Feed.State

/-!
# The own account in the browser

The UI holds a copy of the account's own feed and, during the dual-read window, of the feed that the
same account left at the old contract. A follow or unfollow signs the edited list as a whole one
version up, sends it, and puts it into the local copy when the send is through. `migrate_v1` re-signs
what the old feed has and the new one was never given. The contract merges what is sent, in any
order.
-/

namespace Freebird

variable {Cert : Type}

/-! ## Signing -/

def AuthorizedPost.new (post : PostV1) (signingKey : List U8 → Signature) : AuthorizedPost :=
  ⟨post, signingKey post.signingPayload⟩

def AuthorizedProfile.new (profile : ProfileV1) (signingKey : List U8 → Signature) :
    AuthorizedProfile :=
  ⟨profile, signingKey profile.signingPayload⟩

def AuthorizedFollows.new (follows : FollowsV1) (signingKey : List U8 → Signature) :
    AuthorizedFollows :=
  ⟨follows, signingKey follows.signingPayload⟩

/-! ## The feed at the old contract -/

structure AttestationV1 (Cert : Type) where
  scopedPayload : List U8
  signature : Signature
  certificate : Cert
  deriving DecidableEq

structure LegacyFeedState (Cert : Type) where
  profile : AuthorizedProfile
  follows : AuthorizedFollows
  attestation : Option (AttestationV1 Cert)
  posts : List AuthorizedPost
  deriving DecidableEq

/-! ## Which list counts -/

/-- Version 0 is the seed, that nobody wrote. -/
def writtenSinceRotation (version : U32) : Bool := 0 < version

def followsOf (v2 legacy : Option FollowsV1) : Std.ExtTreeSet (Bytes 32) compare :=
  let fallback := (legacy.map (·.follows)).getD ((v2.map (·.follows)).getD ∅)
  match v2 with
  | some f => if writtenSinceRotation f.version then f.follows else fallback
  | none => fallback

def effectiveFollows (feed : Option (FeedStateV1 Cert)) (legacy : Option (LegacyFeedState Cert)) :
    Std.ExtTreeSet (Bytes 32) compare :=
  followsOf (feed.map (·.follows.follows)) (legacy.map (·.follows.follows))

/-! ## What the actions sign -/

/-- `insert` or `remove`, with whether it changed the list. -/
def editFollows (follows : Std.ExtTreeSet (Bytes 32) compare) (target : Bytes 32) (follow : Bool) :
    Bool × Std.ExtTreeSet (Bytes 32) compare :=
  if follow then (target ∉ follows, follows.insert target)
  else (target ∈ follows, follows.erase target)

/-- `set_follow` up to its send: the record that is sent, `none` if the call changes nothing. -/
def setFollow (signingKey : List U8 → Signature) (feed : Option (FeedStateV1 Cert))
    (legacy : Option (LegacyFeedState Cert)) (target : Bytes 32) (follow : Bool) :
    Except String (Option AuthorizedFollows) :=
  match feed with
  | none => .error "feed not loaded"
  | some current =>
    let (changed, follows) := editFollows (effectiveFollows feed legacy) target follow
    if changed then
      .ok (some (.new ⟨follows, current.follows.follows.version + 1⟩ signingKey))
    else .ok none

def postsToMigrate (signingKey : List U8 → Signature) (legacy : List AuthorizedPost)
    (current : PostsV1) : List AuthorizedPost :=
  let held : Std.ExtTreeSet PostId compare := .ofList (current.posts.map (·.post.id)) compare
  (legacy.filter fun p => p.post.id ∉ held).map fun p => .new p.post signingKey

def identityToMigrate (signingKey : List U8 → Signature) (legacy : LegacyFeedState Cert)
    (current : FeedStateV1 Cert) : Option AuthorizedProfile × Option AuthorizedFollows :=
  let profile :=
    if writtenSinceRotation current.profile.profile.version then none
    else some (.new { legacy.profile.profile with
      version := current.profile.profile.version + 1 } signingKey)
  let follows :=
    if writtenSinceRotation current.follows.follows.version then none
    else some (.new ⟨legacy.follows.follows.follows, current.follows.follows.version + 1⟩ signingKey)
  (profile, follows)

/-- `migrate_v1` up to its send: the update that is sent, `none` if nothing is owed. -/
def migrateV1 (signingKey : List U8 → Signature) (legacy : Option (LegacyFeedState Cert))
    (feed : Option (FeedStateV1 Cert)) : Except String (Option (FeedStateV1Delta Cert)) :=
  match legacy, feed with
  | none, _ => .error "legacy feed not loaded"
  | some _, none => .error "feed not loaded"
  | some legacy, some current =>
    let posts := postsToMigrate signingKey legacy.posts current.posts
    let (profile, follows) := identityToMigrate signingKey legacy current
    if ¬posts.isEmpty ∨ profile.isSome ∨ follows.isSome then
      .ok (some ⟨profile, follows, none, if posts.isEmpty then none else some posts⟩)
    else .ok none

variable (C : FeedCrypto Cert) (parameters : FeedParametersV1)

def mergeFeed (entry : Option (FeedStateV1 Cert)) (incoming : FeedStateV1 Cert) :
    Option (FeedStateV1 Cert) :=
  match entry with
  | none =>
    match incoming.verify C parameters with
    | .ok () => some incoming
    | .error _ => none
  | some current => some (current.merge C parameters incoming).2

/-! ## The account and its contract -/

/-- The copies in the browser, the state of the contract, and what is under way. -/
structure Account (Cert : Type) where
  feed : Option (FeedStateV1 Cert)
  legacy : Option (LegacyFeedState Cert)
  contract : FeedStateV1 Cert
  /-- The updates that the contract has not seen yet. -/
  inFlight : Multiset (FeedStateV1Delta Cert)
  /-- The records of the calls of `set_follow` that wait for their send. -/
  pending : Multiset AuthorizedFollows
  /-- Whether `migrate_v1` waits for its confirmation. -/
  confirming : Bool
  /-- `V1Migration::Done` -/
  done : Bool

/-- The steps of the calls of `set_follow`. -/
inductive EditEvent (Cert : Type) where
  | setFollow (target : Bytes 32) (follow : Bool)
  | assign (record : AuthorizedFollows)
  | deliver (update : FeedStateV1Delta Cert)
  deriving DecidableEq

inductive AccountEvent (Cert : Type) where
  | edit (event : EditEvent Cert)
  /-- The feed at the old contract is loaded. -/
  | arrive
  | migrate
  /-- The state of the contract is read and merged into the local copy. -/
  | refetch
  | confirm
  deriving DecidableEq

/-- An update of the follow list alone. -/
def followsDelta (record : AuthorizedFollows) : FeedStateV1Delta Cert :=
  ⟨none, some record, none, none⟩

/-- An update that is rejected leaves the contract as it was. -/
def FeedStateV1.accept (self : FeedStateV1 Cert) (update : FeedStateV1Delta Cert) :
    FeedStateV1 Cert :=
  match self.applyDelta C parameters (some update) with
  | (.ok (), state) => state
  | (.error _, _) => self

namespace Account

/-- A page load, with nothing loaded yet. -/
def initial (contract : FeedStateV1 Cert) : Account Cert :=
  ⟨none, none, contract, 0, 0, false, false⟩

/-- An account that never had an old feed. -/
def opened (feed : FeedStateV1 Cert) : Account Cert := ⟨some feed, none, feed, 0, 0, false, false⟩

variable (signingKey : List U8 → Signature) [DecidableEq Cert]

/-- `none` where the event cannot happen. -/
def editStep (s : Account Cert) : EditEvent Cert → Option (Account Cert)
  | .setFollow target follow =>
    match setFollow signingKey s.feed s.legacy target follow with
    | .ok (some record) => some { s with
        inFlight := followsDelta record ::ₘ s.inFlight, pending := record ::ₘ s.pending }
    | .ok none => some s
    | .error _ => none
  | .assign record =>
    if record ∈ s.pending then some { s with
      feed := s.feed.map fun state => { state with follows := record }
      pending := s.pending.erase record }
    else none
  | .deliver update =>
    if update ∈ s.inFlight then some { s with
      contract := s.contract.accept C parameters update, inFlight := s.inFlight.erase update }
    else none

/-- `none` where the event cannot happen. -/
def step (legacy : LegacyFeedState Cert) (s : Account Cert) :
    AccountEvent Cert → Option (Account Cert)
  | .edit event => s.editStep C parameters signingKey event
  | .arrive => some { s with legacy := some legacy }
  | .migrate =>
    if s.done then none
    else
      match migrateV1 signingKey s.legacy s.feed with
      | .ok (some update) =>
        some { s with inFlight := update ::ₘ s.inFlight, confirming := true }
      | .ok none => some { s with confirming := true }
      | .error _ => none
  | .refetch => some { s with feed := mergeFeed C parameters s.feed s.contract }
  | .confirm =>
    if s.confirming then
      match s.feed with
      | some fresh =>
        match identityToMigrate signingKey legacy fresh with
        | (none, none) => some { s with confirming := false, done := true }
        | _ => none
      | none => none
    else none

end Account

/-! ## Samples -/

namespace Sample

/-- A list that the owner of the sample feed signed. -/
def following (accounts : List U8) (version : U32) : AuthorizedFollows :=
  .new ⟨.ofList (accounts.map fun b => (key b).asBytes) compare, version⟩ fun _ => sign 5 0

/-- The feed it left at the old contract. -/
def legacyFeed (accounts : List U8) : LegacyFeedState VerifyingKey :=
  ⟨⟨⟨"old", "", 3⟩, sign 5 0⟩, following accounts 7, none, []⟩

/-- The profile of that feed, as it is carried over. -/
def carriedProfile : FeedStateV1Delta VerifyingKey :=
  ⟨some (.new ⟨"old", "", 1⟩ fun _ => sign 5 0), none, none, none⟩

/-- Two calls, the second after the first; the contract hears of them in the other order. -/
def turns : List (EditEvent VerifyingKey) :=
  [.setFollow (key 1).asBytes true, .assign (following [1] 1),
    .setFollow (key 2).asBytes true, .assign (following [1, 2] 2),
    .deliver (followsDelta (following [1, 2] 2)), .deliver (followsDelta (following [1] 1))]

/-- A call before the migration, after the old feed is loaded. -/
def lateEdit : List (AccountEvent VerifyingKey) :=
  [.refetch, .arrive, .edit (.setFollow (key 1).asBytes true), .edit (.assign (following [2, 1] 1)),
    .edit (.deliver (followsDelta (following [2, 1] 1))), .migrate,
    .edit (.deliver carriedProfile), .refetch, .confirm]

/-- The same call before the old feed is loaded. -/
def earlyEdit : List (AccountEvent VerifyingKey) :=
  [.refetch, .edit (.setFollow (key 1).asBytes true), .edit (.assign (following [1] 1)),
    .edit (.deliver (followsDelta (following [1] 1))), .arrive, .migrate,
    .edit (.deliver carriedProfile), .refetch, .confirm]

end Sample

end Freebird
