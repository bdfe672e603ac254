import Freebird.Common.Cell

/-!
# The records an author signs

Posts, profiles, follow lists and avatars, each with the bytes its author signs. A post is named by
an id, the start of a hash over its fields.
-/

namespace Freebird

variable {Cert : Type} (C : Crypto Cert)

def postSignDomain : List U8 := ascii "freebird-post-v1"

def profileSignDomain : List U8 := ascii "freebird-profile-v1"

def followsSignDomain : List U8 := ascii "freebird-follows-v1"

def avatarSignDomain : List U8 := ascii "freebird-avatar-v1"

/-- A field of variable length behind its length. -/
def putBytes (bytes : List U8) : List U8 := leBytes 4 bytes.length ++ bytes

/-! ## Posts -/

abbrev PostId := Bytes 16

/-- A post in some author's feed. -/
structure PostRef where
  author : Bytes 32
  post : PostId
  deriving DecidableEq

namespace PostId

/-- The bytes an id is the hash of. -/
def hashed (author : VerifyingKey) (time : U64) (content : String) (inReplyTo : Option PostRef) :
    List U8 :=
  author.asBytes.toList ++ (leBytes 8 time).reverse ++ utf8 content ++
    match inReplyTo with
    | none => []
    | some r => r.author.toList ++ r.post.toList

def compute (author : VerifyingKey) (time : U64) (content : String) (inReplyTo : Option PostRef) :
    PostId :=
  ⟨(C.blake3 (hashed author time content inReplyTo)).toList.take 16, by simp⟩

end PostId

structure PostV1 where
  id : PostId
  /-- Milliseconds since the Unix epoch. -/
  time : U64
  content : String
  inReplyTo : Option PostRef
  deriving DecidableEq

def PostV1.signingPayload (post : PostV1) : List U8 :=
  postSignDomain ++ post.id.toList ++ leBytes 8 post.time ++ putBytes (utf8 post.content) ++
    match post.inReplyTo with
    | none => [0]
    | some r => 1 :: (r.author.toList ++ r.post.toList)

structure AuthorizedPost where
  post : PostV1
  signature : Signature
  deriving DecidableEq

def AuthorizedPost.verifySignature (p : AuthorizedPost) (author : VerifyingKey) :
    Except String Unit :=
  mapErr "post signature invalid" (C.verifyStrict author p.post.signingPayload p.signature)

/-! ## Profiles -/

structure ProfileV1 where
  name : String
  bio : String
  version : U32
  deriving DecidableEq

def ProfileV1.signingPayload (profile : ProfileV1) : List U8 :=
  profileSignDomain ++ leBytes 4 profile.version ++ putBytes (utf8 profile.name) ++
    putBytes (utf8 profile.bio)

structure AuthorizedProfile where
  profile : ProfileV1
  signature : Signature
  deriving DecidableEq

def AuthorizedProfile.verifySignature (p : AuthorizedProfile) (author : VerifyingKey) :
    Except String Unit :=
  mapErr "profile signature invalid" (C.verifyStrict author p.profile.signingPayload p.signature)

/-! ## Follow lists -/

structure FollowsV1 where
  follows : Std.ExtTreeSet (Bytes 32) compare
  version : U32
  deriving DecidableEq

def FollowsV1.signingPayload (follows : FollowsV1) : List U8 :=
  followsSignDomain ++ leBytes 4 follows.version ++ leBytes 4 follows.follows.size ++
    follows.follows.toList.flatMap Bytes.toList

structure AuthorizedFollows where
  follows : FollowsV1
  signature : Signature
  deriving DecidableEq

def AuthorizedFollows.verifySignature (f : AuthorizedFollows) (author : VerifyingKey) :
    Except String Unit :=
  mapErr "follows signature invalid" (C.verifyStrict author f.follows.signingPayload f.signature)

/-! ## Avatars -/

structure AvatarV1 where
  contentType : String
  data : List U8
  time : U64
  deriving DecidableEq

/-- The image is signed through its hash. -/
def AvatarV1.signingPayload (avatar : AvatarV1) : List U8 :=
  avatarSignDomain ++ leBytes 8 avatar.time ++ putBytes (utf8 avatar.contentType) ++
    (C.blake3 avatar.data).toList

end Freebird
