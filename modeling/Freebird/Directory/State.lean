import Freebird.Common.Cell
import Freebird.Retention.Horizon

/-!
# The directory contract

`DirectoryStateV4`: one slot for each author in each of two tiers, last-writer-wins in a slot, and a
cap on each tier.
-/

namespace Freebird

open Retention

def listingSignDomain : List U8 := ascii "freebird-listing-v3"

def maxListings : Nat := 1000

/-- Slots anonymous listings may occupy at most. -/
def anonListings : Nat := 250

structure DirectoryParametersV3 where
  seed : String
  ghostkeyMaster : VerifyingKey
  deriving DecidableEq

structure ListingV1 where
  author : Bytes 32
  lastActive : U64
  deriving DecidableEq

/-- A listing with the author's signature over the listing and the attestation slot. -/
structure AuthorizedListingV3 (Cert : Type) where
  listing : ListingV1
  signature : Signature
  attestation : Option (AttestationV2 Cert)
  /-- Not covered by the signature. -/
  powNonce : U64
  deriving DecidableEq

/-- The order of the versions of one slot. -/
abbrev LwwKey := U64 ×ₗ Bool ×ₗ Bytes 32

/-- The order of eviction across authors. -/
abbrev ListingOrderKey := U64 ×ₗ Bytes 32

abbrev Tier (Cert : Type) := Map (Bytes 32) (AuthorizedListingV3 Cert)

structure DirectorySummaryV4 where
  attested : Map (Bytes 32) LwwKey
  anon : Map (Bytes 32) LwwKey
  attestedHorizon : TierHorizon ListingOrderKey
  anonHorizon : TierHorizon ListingOrderKey
  powSeq : U64

structure DirectoryDeltaV3 (Cert : Type) where
  listings : List (AuthorizedListingV3 Cert)
  powDifficulty : Option SignedCellV1
  deriving DecidableEq

structure DirectoryStateV4 (Cert : Type) where
  attested : Tier Cert
  anon : Tier Cert
  powDifficulty : Option SignedCellV1
  deriving DecidableEq

instance : EmptyCollection (DirectoryStateV4 Cert) := ⟨⟨∅, ∅, none⟩⟩

/-- The serializer of listings joins what the contracts take from other crates. -/
structure DirectoryCrypto (Cert : Type) extends Crypto Cert where
  cborListing : AuthorizedListingV3 Cert → List U8

variable {Cert : Type} (C : DirectoryCrypto Cert)

/-- The exact bytes the author signs. -/
def listingSigningPayload (listing : ListingV1) (attestation : Option (AttestationV2 Cert)) :
    List U8 :=
  listingSignDomain ++ listing.author.toList ++ leBytes 8 listing.lastActive ++
    match attestation with
    | none => [0]
    | some att => 1 :: (att.contentHash C.toCrypto).toList

namespace AuthorizedListingV3

variable (l : AuthorizedListingV3 Cert)

def isAnon : Bool := l.attestation.isNone

/-- `check`, without the verification of an attestation that equals `known`. -/
def checkSkipping (master : VerifyingKey) (known : Option (AttestationV2 Cert)) :
    Except String Unit := do
  let vk ← mapErr "bad author key" (C.keyFromBytes l.listing.author)
  mapErr "listing signature invalid" <|
    C.verifyStrict vk (listingSigningPayload C l.listing l.attestation) l.signature
  match l.attestation with
  | some att =>
    -- Attestations are compared by their canonical bytes.
    if known.any fun k => k.canonicalBytes C.toCrypto = att.canonicalBytes C.toCrypto then
      pure ()
    else
      let _ ← mapErr "listing attestation invalid" (att.verify C.toCrypto vk master)
  | none => pure ()

def check (master : VerifyingKey) : Except String Unit := l.checkSkipping C master none

def lwwKey : LwwKey :=
  toLex (l.listing.lastActive, toLex (l.attestation.isSome, C.blake3 (C.cborListing l)))

def orderKey : ListingOrderKey := toLex (l.listing.lastActive, l.listing.author)

end AuthorizedListingV3

namespace DirectoryStateV4

open AuthorizedListingV3

variable (self : DirectoryStateV4 Cert)

/-- The anonymous share that the attested tier leaves. -/
def effectiveAnonShare : Nat := min anonListings (maxListings - self.attested.size)

def admissionBits : Nat := difficultyBits C.toCrypto self.powDifficulty

def verify (parameters : DirectoryParametersV3) : Except String Unit := do
  match self.powDifficulty with
  | some cell => mapErr "difficulty record" (cell.check C.toCrypto (powParams C.toCrypto))
  | none => pure ()
  if maxListings < self.attested.size then throw s!"more than {maxListings} attested listings"
  if self.effectiveAnonShare < self.anon.size then throw "anonymous listings exceed their share"
  self.attested.toList.forM fun (key, l) => do
    if key ≠ l.listing.author then throw "listing stored under wrong author key"
    if l.isAnon then throw "anonymous listing in the attested tier"
    l.check C parameters.ghostkeyMaster
  self.anon.toList.forM fun (key, l) => do
    if key ≠ l.listing.author then throw "listing stored under wrong author key"
    if !l.isAnon then throw "attested listing in the anonymous tier"
    l.check C parameters.ghostkeyMaster
    if !meetsDirectory C.toCrypto key l.powNonce powFloorBits then
      throw "anonymous listing below the proof-of-work floor"

/-- The tier a listing belongs to. -/
def tier (anon : Bool) : Tier Cert := if anon then self.anon else self.attested

/-- Whether the slot of a listing holds a version that is not older. -/
def holds (l : AuthorizedListingV3 Cert) : Bool :=
  (self.tier l.isAnon)[l.listing.author]?.any fun held => l.lwwKey C ≤ held.lwwKey C

/-- `admit`: seats a listing in its tier, last-writer-wins in its slot. -/
def admitListing (l : AuthorizedListingV3 Cert) : DirectoryStateV4 Cert :=
  if self.holds C l then self
  else if l.isAnon then { self with anon := self.anon.insert l.listing.author l }
  else { self with attested := self.attested.insert l.listing.author l }

/-- The loop of `canonicalize` over one tier: drops the listing with the least order key while there
are too many. Each turn removes one listing where every listing is stored under its author, so the
loop turns as often as there are listings above the cap. -/
def evictOldest : Nat → Tier Cert → Tier Cert
  | 0, tier => tier
  | n + 1, tier =>
    match ((Map.vals tier).map orderKey).min? with
    | none => tier
    | some oldest => evictOldest n (tier.erase (ofLex oldest).2)

def canonicalize : DirectoryStateV4 Cert :=
  let self := { self with attested := evictOldest (self.attested.size - maxListings) self.attested }
  { self with anon := evictOldest (self.anon.size - self.effectiveAnonShare) self.anon }

def tierHorizons : TierHorizon ListingOrderKey × TierHorizon ListingOrderKey :=
  let oldest (tier : Tier Cert) : TierHorizon ListingOrderKey :=
    match ((Map.vals tier).map orderKey).min? with
    | some oldest => .oldestRetained oldest
    | none => .open
  let attestedH := if maxListings ≤ self.attested.size then oldest self.attested else .open
  let share := self.effectiveAnonShare
  let anonH :=
    if share = 0 then .closed
    else if share ≤ self.anon.size then oldest self.anon
    else .open
  (attestedH, anonH)

def summarize : DirectorySummaryV4 where
  attested := self.attested.map fun _ l => l.lwwKey C
  anon := self.anon.map fun _ l => l.lwwKey C
  attestedHorizon := self.tierHorizons.1
  anonHorizon := self.tierHorizons.2
  powSeq := difficultySeq self.powDifficulty

/-- The listings of a tier that the holder of a summary lacks, or holds in an older version. A held
slot bypasses the horizon. -/
def offer (ours : Tier Cert) (held : Map (Bytes 32) LwwKey)
    (horizon : TierHorizon ListingOrderKey) : List (AuthorizedListingV3 Cert) :=
  (Map.vals ours).filter fun l =>
    match held[l.listing.author]? with
    | some h => h < l.lwwKey C
    | none => horizon.admits l.orderKey

def delta (theirs : DirectorySummaryV4) : Option (DirectoryDeltaV3 Cert) :=
  let listings := offer C self.attested theirs.attested theirs.attestedHorizon ++
    offer C self.anon theirs.anon theirs.anonHorizon
  let powDifficulty :=
    if theirs.powSeq < difficultySeq self.powDifficulty then self.powDifficulty else none
  if !listings.isEmpty ∨ powDifficulty.isSome then some ⟨listings, powDifficulty⟩ else none

/-- The loop of `apply_delta` over the listings of the delta. -/
def applyListings (parameters : DirectoryParametersV3) (bits : Nat) :
    List (AuthorizedListingV3 Cert) → DirectoryStateV4 Cert →
      Except String Unit × DirectoryStateV4 Cert
  | [], self => (.ok (), self)
  | l :: ls, self =>
    if self.holds C l then applyListings parameters bits ls self
    else
      let known := (self.tier l.isAnon)[l.listing.author]?.bind (·.attestation)
      match l.checkSkipping C parameters.ghostkeyMaster known with
      | .error e => (.error e, self)
      | .ok () =>
        if l.isAnon ∧ !meetsDirectory C.toCrypto l.listing.author l.powNonce bits then
          applyListings parameters bits ls self
        else applyListings parameters bits ls (self.admitListing C l)

def applyDelta (parameters : DirectoryParametersV3) (delta : DirectoryDeltaV3 Cert) :
    Except String Unit × DirectoryStateV4 Cert :=
  if maxListings + anonListings < delta.listings.length then
    (.error "listing delta too large", self)
  else
    let self := { self with
      powDifficulty := adoptDifficulty C.toCrypto self.powDifficulty delta.powDifficulty }
    match applyListings C parameters (self.admissionBits C) delta.listings self with
    | (.error e, self) => (.error e, self)
    | (.ok (), self) => (.ok (), self.canonicalize)

/-- The listings of the other side, applied as a delta. -/
def merge (parameters : DirectoryParametersV3) (other : DirectoryStateV4 Cert) :
    Except String Unit × DirectoryStateV4 Cert :=
  self.applyDelta C parameters
    ⟨Map.vals other.attested ++ Map.vals other.anon, other.powDifficulty⟩

end DirectoryStateV4

/-! ## Samples -/

namespace Sample

def directoryCrypto : DirectoryCrypto VerifyingKey where
  toCrypto := crypto
  cborListing l := l.signature.toList ++ (l.attestation.elim [] crypto.cborAttestation) ++
    l.listing.author.toList ++ leBytes 8 l.listing.lastActive ++ leBytes 8 l.powNonce

def directory : DirectoryParametersV3 := ⟨"freebird-directory-v3", key 91⟩

/-- The listing of `key b`, attested by `key ghost` if one is given. -/
def listing (b : U8) (lastActive : U64) (ghost : Option U8) (nonce : U64) :
    AuthorizedListingV3 VerifyingKey where
  listing := ⟨bytes 32 b, lastActive⟩
  signature := sign b 0
  attestation := ghost.map fun g => attestation b g 0
  powNonce := nonce

/-- A directory that holds the given listings. -/
def directoryState (ls : List (AuthorizedListingV3 VerifyingKey)) (record : Option SignedCellV1) :
    DirectoryStateV4 VerifyingKey where
  attested := .ofList ((ls.filter fun l => !l.isAnon).map fun l => (l.listing.author, l)) compare
  anon := .ofList ((ls.filter fun l => l.isAnon).map fun l => (l.listing.author, l)) compare
  powDifficulty := record

end Sample

end Freebird
