import Freebird.Common.Types
import Freebird.Register.Newest

/-!
# The feed contract

`FeedStateV1` and its four components: the profile, the follow list and the attestation, each a
last-writer-wins register, and a capped log of posts. The components apply in the order of the
fields, up to the first error. As in the inbox, a function that mutates the state returns its result
together with the state that is held afterwards.
-/

namespace Freebird

open Register

def maxPosts : Nat := 300

def maxPostBytes : Nat := 2048

def maxNameBytes : Nat := 64

def maxBioBytes : Nat := 512

def maxFollows : Nat := 2000

structure FeedParametersV1 where
  author : VerifyingKey
  ghostkeyMaster : VerifyingKey
  deriving DecidableEq

/-- The order of the versions of a signed record: version, then content hash. -/
abbrev VersionKey := U32 ×ₗ Bytes 32

abbrev PostOrderKey := U64 ×ₗ PostId

/-- `None` is an account without a check mark. -/
abbrev AttestationSlot (Cert : Type) := Option (AttestationV2 Cert)

inductive RetentionHorizon
  | open
  | oldestRetained (key : PostOrderKey)
  deriving DecidableEq

structure PostsSummary where
  ids : Std.ExtTreeSet PostId compare
  horizon : RetentionHorizon

structure PostsV1 where
  posts : List AuthorizedPost
  deriving DecidableEq

@[ext]
structure FeedStateV1 (Cert : Type) where
  profile : AuthorizedProfile
  follows : AuthorizedFollows
  attestation : AttestationSlot Cert
  posts : PostsV1
  deriving DecidableEq

structure FeedStateV1Summary where
  profile : VersionKey
  follows : VersionKey
  attestation : Option (Bytes 32)
  posts : PostsSummary

structure FeedStateV1Delta (Cert : Type) where
  profile : Option AuthorizedProfile
  follows : Option AuthorizedFollows
  attestation : Option (AttestationV2 Cert)
  posts : Option (List AuthorizedPost)
  deriving DecidableEq

/-- The serializers of the records that are ordered by their hash join what the contracts take from
other crates. -/
structure FeedCrypto (Cert : Type) extends Crypto Cert where
  cborProfile : AuthorizedProfile → List U8
  cborFollows : AuthorizedFollows → List U8

variable {Cert : Type} (C : FeedCrypto Cert)

/-! ## Profile and follow list -/

/-- `lww_key`, given the encoded record. -/
def versionKey (version : U32) (bytes : List U8) : VersionKey := toLex (version, C.blake3 bytes)

/-- `apply_delta` of a record that is replaced as a whole. -/
def applyRecord (check : α → Except String Unit) (key : α → VersionKey) (self : α) :
    Option α → Except String Unit × α
  | none => (.ok (), self)
  | some delta =>
    match check delta with
    | .error e => (.error e, self)
    | .ok () => (.ok (), newer key self delta)

namespace AuthorizedProfile

variable (self : AuthorizedProfile)

/-- `check_profile` -/
def check (author : VerifyingKey) : Except String Unit := do
  if maxNameBytes < (utf8 self.profile.name).length then throw "profile name too long"
  if maxBioBytes < (utf8 self.profile.bio).length then throw "profile bio too long"
  self.verifySignature C.toCrypto author

def lwwKey : VersionKey := versionKey C self.profile.version (C.cborProfile self)

def delta (old : VersionKey) : Option AuthorizedProfile := offer (lwwKey C) self old

def applyDelta (parameters : FeedParametersV1) (delta : Option AuthorizedProfile) :
    Except String Unit × AuthorizedProfile :=
  applyRecord (check C · parameters.author) (lwwKey C) self delta

end AuthorizedProfile

namespace AuthorizedFollows

variable (self : AuthorizedFollows)

/-- `check_follows` -/
def check (author : VerifyingKey) : Except String Unit := do
  if maxFollows < self.follows.follows.size then throw "too many follows"
  self.verifySignature C.toCrypto author

def lwwKey : VersionKey := versionKey C self.follows.version (C.cborFollows self)

def delta (old : VersionKey) : Option AuthorizedFollows := offer (lwwKey C) self old

def applyDelta (parameters : FeedParametersV1) (delta : Option AuthorizedFollows) :
    Except String Unit × AuthorizedFollows :=
  applyRecord (check C · parameters.author) (lwwKey C) self delta

end AuthorizedFollows

/-! ## Attestation -/

namespace AttestationSlot

variable (self : AttestationSlot Cert)

def verify (parameters : FeedParametersV1) : Except String Unit :=
  match self with
  | none => .ok ()
  | some att =>
    (att.verify C.toCrypto parameters.author parameters.ghostkeyMaster).map fun _tier => ()

def summarize : Option (Bytes 32) := self.map (·.contentHash C.toCrypto)

def delta (old : Option (Bytes 32)) : Option (AttestationV2 Cert) :=
  match self, old with
  | none, _ => none
  | some mine, none => some mine
  | some mine, some theirs => if theirs < mine.contentHash C.toCrypto then some mine else none

def applyDelta (parameters : FeedParametersV1) (delta : Option (AttestationV2 Cert)) :
    Except String Unit × AttestationSlot Cert :=
  match delta with
  | none => (.ok (), self)
  | some incoming =>
    match incoming.verify C.toCrypto parameters.author parameters.ghostkeyMaster with
    | .error e => (.error e, self)
    | .ok _ =>
      let replace := self.all fun current =>
        current.contentHash C.toCrypto < incoming.contentHash C.toCrypto
      (.ok (), if replace then some incoming else self)

end AttestationSlot

/-! ## Posts -/

namespace AuthorizedPost

variable (p : AuthorizedPost)

def orderKey : PostOrderKey := toLex (p.post.time, p.post.id)

/-- `check_post` -/
def check (author : VerifyingKey) : Except String Unit := do
  if maxPostBytes < (utf8 p.post.content).length then throw s!"post over {maxPostBytes} bytes"
  if p.post.id ≠ PostId.compute C.toCrypto author p.post.time p.post.content p.post.inReplyTo then
    throw "post id does not match content"
  p.verifySignature C.toCrypto author

end AuthorizedPost

namespace PostsV1

open AuthorizedPost

variable (self : PostsV1)

/-- Sort, drop all but the first of neighbours with one id, and drop the oldest posts above the
cap. -/
def canonicalize : PostsV1 :=
  let sorted := self.posts.insertionSort fun p q => p.orderKey ≤ q.orderKey
  let deduped := sorted.destutter fun p q => p.post.id ≠ q.post.id
  ⟨deduped.drop (deduped.length - maxPosts)⟩

def retentionHorizon : RetentionHorizon :=
  match self.posts with
  | [] => .open
  | oldest :: _ =>
    if self.posts.length < maxPosts then .open else .oldestRetained oldest.orderKey

/-- The loop of `verify` over `windows(2)`. -/
def verifySorted : List AuthorizedPost → Except String Unit
  | p :: q :: ps =>
    if q.orderKey < p.orderKey then .error "posts not sorted" else verifySorted (q :: ps)
  | _ => .ok ()

/-- The loop of `verify` that checks each post. -/
def verifyEach (author : VerifyingKey) :
    List AuthorizedPost → Std.ExtTreeSet PostId compare → Except String Unit
  | [], _ => .ok ()
  | p :: ps, seen => do
    p.check C author
    if p.post.id ∈ seen then throw "duplicate post id"
    verifyEach author ps (seen.insert p.post.id)

def verify (parameters : FeedParametersV1) : Except String Unit := do
  if maxPosts < self.posts.length then throw s!"more than {maxPosts} posts"
  verifySorted self.posts
  verifyEach C parameters.author self.posts ∅

def summarize : PostsSummary where
  ids := .ofList (self.posts.map (·.post.id)) compare
  horizon := self.retentionHorizon

/-- `retained_by_receiver` -/
def retained (old : PostsSummary) (p : AuthorizedPost) : Bool :=
  match old.horizon with
  | .open => true
  | .oldestRetained oldest => oldest < p.orderKey

def delta (old : PostsSummary) : Option (List AuthorizedPost) :=
  let delta := (self.posts.filter fun p => p.post.id ∉ old.ids).filter (retained old)
  if delta.isEmpty then none else some delta

def applyDelta (parameters : FeedParametersV1) (delta : Option (List AuthorizedPost)) :
    Except String Unit × PostsV1 :=
  match delta with
  | none => (.ok (), self)
  | some delta =>
    match delta.forM fun p => p.check C parameters.author with
    | .error e => (.error e, self)
    | .ok () => (.ok (), canonicalize ⟨self.posts ++ delta⟩)

end PostsV1

/-! ## The state -/

namespace FeedStateV1

variable (self : FeedStateV1 Cert)

def postApplyCleanup : FeedStateV1 Cert := { self with posts := self.posts.canonicalize }

def verify (parameters : FeedParametersV1) : Except String Unit := do
  self.profile.check C parameters.author
  self.follows.check C parameters.author
  self.attestation.verify C parameters
  self.posts.verify C parameters

def summarize : FeedStateV1Summary where
  profile := self.profile.lwwKey C
  follows := self.follows.lwwKey C
  attestation := self.attestation.summarize C
  posts := self.posts.summarize

def delta (old : FeedStateV1Summary) : Option (FeedStateV1Delta Cert) :=
  let profile := self.profile.delta C old.profile
  let follows := self.follows.delta C old.follows
  let attestation := self.attestation.delta C old.attestation
  let posts := self.posts.delta old.posts
  if profile.isSome ∨ follows.isSome ∨ attestation.isSome ∨ posts.isSome then
    some ⟨profile, follows, attestation, posts⟩
  else none

def applyDelta (parameters : FeedParametersV1) (delta : Option (FeedStateV1Delta Cert)) :
    Except String Unit × FeedStateV1 Cert :=
  match delta with
  | none => (.ok (), self)
  | some delta =>
    match self.profile.applyDelta C parameters delta.profile with
    | (.error e, profile) => (.error e, { self with profile })
    | (.ok (), profile) =>
      let self := { self with profile }
      match self.follows.applyDelta C parameters delta.follows with
      | (.error e, follows) => (.error e, { self with follows })
      | (.ok (), follows) =>
        let self := { self with follows }
        match self.attestation.applyDelta C parameters delta.attestation with
        | (.error e, attestation) => (.error e, { self with attestation })
        | (.ok (), attestation) =>
          let self := { self with attestation }
          match self.posts.applyDelta C parameters delta.posts with
          | (.error e, posts) => (.error e, { self with posts })
          | (.ok (), posts) => (.ok (), { self with posts }.postApplyCleanup)

/-- `ComposableState::merge`: what the other side would send is applied here. -/
def merge (parameters : FeedParametersV1) (other : FeedStateV1 Cert) :
    Except String Unit × FeedStateV1 Cert :=
  self.applyDelta C parameters (other.delta C (self.summarize C))

end FeedStateV1

/-! ## Samples -/

namespace Sample

def feedCrypto : FeedCrypto VerifyingKey where
  toCrypto := crypto
  cborProfile p := p.signature.toList ++ utf8 p.profile.bio ++ utf8 p.profile.name ++
    leBytes 4 p.profile.version
  cborFollows f := f.signature.toList ++ f.follows.follows.toList.flatMap Bytes.toList ++
    leBytes 4 f.follows.version

/-- The feed of `key 5`. -/
def feedOwner : FeedParametersV1 := ⟨key 5, key 91⟩

def post (time : U64) (content : String) (inReplyTo : Option PostRef) : AuthorizedPost where
  post := ⟨PostId.compute crypto feedOwner.author time content inReplyTo, time, content, inReplyTo⟩
  signature := sign 5 0

/-- A feed with a profile of the given version. -/
def feed (version : U32) (posts : List AuthorizedPost) : FeedStateV1 VerifyingKey where
  profile := ⟨⟨"name", "bio", version⟩, sign 5 0⟩
  follows := ⟨⟨∅, 0⟩, sign 5 0⟩
  attestation := none
  posts := ⟨posts⟩

def posted (posts : List AuthorizedPost) : FeedStateV1Delta VerifyingKey :=
  ⟨none, none, none, some posts⟩

end Sample

end Freebird
