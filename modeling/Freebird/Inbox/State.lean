import Freebird.Common.Types
import Freebird.Retention.Horizon

/-!
# The inbox contract

`InboxStateV3` and its two components: credentials, a map from posting keys to credentials under
last-writer-wins, and pointers, a capped log in two tiers. A function that mutates the state in
place returns its result together with the state that is held afterwards, also when the result is
an error.
-/

namespace Freebird

open Retention

def maxPointers : Nat := 300

/-- Slots anonymous pointers may occupy at most. -/
def anonPointerSlots : Nat := 100

def maxPerFingerprint : Nat := 8

def maxPerAnonKey : Nat := 3

def anonFpPrefix : String := "anon:"

def isAnonFingerprint (fp : String) : Bool := anonFpPrefix.toList.isPrefixOf fp.toList

structure ReplyPointerV3 where
  owner : Bytes 32
  replier : Bytes 32
  fingerprint : String
  targetPost : PostId
  replyPost : PostId
  time : U64
  deriving DecidableEq

structure AuthorizedReplyPointerV3 where
  ptr : ReplyPointerV3
  signature : Signature
  /-- Not covered by the signature. -/
  powNonce : U64
  deriving DecidableEq

structure InboxParametersV3 where
  owner : VerifyingKey
  ghostkeyMaster : VerifyingKey
  deriving DecidableEq

/-- A replier's credential; without an attestation it is anonymous. -/
structure ReplierCredV3 (Cert : Type) where
  postingKey : VerifyingKey
  attestation : Option (AttestationV2 Cert)
  deriving DecidableEq

structure CredsV3 (Cert : Type) where
  creds : Map (Bytes 32) (ReplierCredV3 Cert)
  deriving DecidableEq

structure PointersV3 where
  pointers : List AuthorizedReplyPointerV3
  deriving DecidableEq

structure InboxStateV3 (Cert : Type) where
  creds : CredsV3 Cert
  pointers : PointersV3
  powDifficulty : Option SignedCellV1
  deriving DecidableEq

abbrev PointerOrderKey := U64 ×ₗ PostId

structure PointersV3Summary where
  ids : Std.ExtTreeSet PostId compare
  attestedHorizon : TierHorizon PointerOrderKey
  anonHorizon : TierHorizon PointerOrderKey
  fpHorizons : Map String PointerOrderKey

structure InboxStateV3Summary where
  /-- Posting key to the content hash of the credential held. -/
  creds : Map (Bytes 32) (Bytes 32)
  pointers : PointersV3Summary
  powSeq : U64

structure InboxStateV3Delta (Cert : Type) where
  creds : Option (Map (Bytes 32) (ReplierCredV3 Cert))
  pointers : Option (List AuthorizedReplyPointerV3)
  powDifficulty : Option SignedCellV1

instance : EmptyCollection (InboxStateV3 Cert) := ⟨⟨⟨∅⟩, ⟨[]⟩, none⟩⟩

variable {Cert : Type} (C : Crypto Cert)

/-! ## Credentials -/

def anonFingerprint (postingKey : Bytes 32) : String :=
  anonFpPrefix ++ C.bs58 (C.blake3 postingKey.toList).toList

namespace ReplierCredV3

variable (cred : ReplierCredV3 Cert)

def check (mapKey : Bytes 32) (master : VerifyingKey) : Except String Unit := do
  if cred.postingKey.asBytes ≠ mapKey then throw "credential stored under wrong posting key"
  match cred.attestation with
  | some att =>
    let _ ← mapErr "replier credential invalid" (att.verify C cred.postingKey master)
  | none => pure ()

def fingerprint : String :=
  match cred.attestation with
  | some att => att.fingerprint C
  | none => anonFingerprint C cred.postingKey.asBytes

/-- The last-writer-wins order of one posting key; an anonymous credential comes first. -/
def contentHash : Bytes 32 :=
  match cred.attestation with
  | some att => att.contentHash C
  | none => Bytes.zeros 32

end ReplierCredV3

namespace CredsV3

def verify (self : CredsV3 Cert) (parent : InboxStateV3 Cert) (parameters : InboxParametersV3) :
    Except String Unit := do
  if maxPointers < self.creds.size then throw "more credentials than pointers can reference"
  let referenced := parent.pointers.pointers.map (·.ptr.replier)
  self.creds.toList.forM fun (key, cred) => do
    if key ∉ referenced then throw "credential referenced by no pointer"
    cred.check C key parameters.ghostkeyMaster

def summarize (self : CredsV3 Cert) : Map (Bytes 32) (Bytes 32) :=
  self.creds.map fun _ c => c.contentHash C

def delta (self : CredsV3 Cert) (old : Map (Bytes 32) (Bytes 32)) :
    Option (Map (Bytes 32) (ReplierCredV3 Cert)) :=
  let delta := self.creds.filter fun k c =>
    match old[k]? with
    | none => true
    | some theirs => theirs < c.contentHash C
  if delta.isEmpty then none else some delta

/-- The loop of `apply_delta` over the entries of the delta. -/
def applyAll (parameters : InboxParametersV3) :
    List (Bytes 32 × ReplierCredV3 Cert) → CredsV3 Cert → Except String Unit × CredsV3 Cert
  | [], self => (.ok (), self)
  | (key, cred) :: rest, self =>
    if self.creds[key]?.any fun existing => cred.contentHash C ≤ existing.contentHash C then
      applyAll parameters rest self
    else
      match cred.check C key parameters.ghostkeyMaster with
      | .error e => (.error e, self)
      | .ok () => applyAll parameters rest ⟨self.creds.insert key cred⟩

def applyDelta (self : CredsV3 Cert) (parameters : InboxParametersV3)
    (delta : Option (Map (Bytes 32) (ReplierCredV3 Cert))) : Except String Unit × CredsV3 Cert :=
  match delta with
  | none => (.ok (), self)
  | some delta =>
    if maxPointers < delta.size then (.error "credential delta too large", self)
    else applyAll C parameters delta.toList self

end CredsV3

/-! ## Pointers -/

def inboxPtrSignDomain : List U8 := ascii "freebird-inbox-ptr-v3"

/-- The exact bytes the replier signs. -/
def ReplyPointerV3.signingPayload (ptr : ReplyPointerV3) : List U8 :=
  inboxPtrSignDomain ++ ptr.owner.toList ++ ptr.replier.toList ++
    leBytes 4 (utf8 ptr.fingerprint).length ++ utf8 ptr.fingerprint ++ ptr.targetPost.toList ++
    ptr.replyPost.toList ++ leBytes 8 ptr.time

namespace AuthorizedReplyPointerV3

variable (p : AuthorizedReplyPointerV3)

def verifySignature (postingKey : VerifyingKey) : Except String Unit :=
  mapErr "pointer signature invalid" (C.verifyStrict postingKey p.ptr.signingPayload p.signature)

def isAnon : Bool := isAnonFingerprint p.ptr.fingerprint

def orderKey : PointerOrderKey := toLex (p.ptr.time, p.ptr.replyPost)

end AuthorizedReplyPointerV3

def fpCap (fp : String) : Nat :=
  if isAnonFingerprint fp then maxPerAnonKey else maxPerFingerprint

/-- A missing credential or a fingerprint mismatch drops the pointer (`false`); a wrong inbox or a
bad signature is an error. -/
def checkPointer (p : AuthorizedReplyPointerV3) (creds : Map (Bytes 32) (ReplierCredV3 Cert))
    (parameters : InboxParametersV3) : Except String Bool := do
  if p.ptr.owner ≠ parameters.owner.asBytes then throw "pointer bound to another inbox"
  match creds[p.ptr.replier]? with
  | none => return false
  | some cred =>
    p.verifySignature C cred.postingKey
    return p.ptr.fingerprint = cred.fingerprint C

namespace PointersV3

open AuthorizedReplyPointerV3

/-- `retain(|p| seen.insert(p.ptr.reply_post))` -/
def retainUnseen (seen : Std.ExtTreeSet PostId compare) :
    List AuthorizedReplyPointerV3 → List AuthorizedReplyPointerV3
  | [] => []
  | p :: ps =>
    if p.ptr.replyPost ∈ seen then retainUnseen seen ps
    else p :: retainUnseen (seen.insert p.ptr.replyPost) ps

/-- The scan from the newest pointer to the oldest, with the number kept of each fingerprint. -/
def capFingerprints :
    List AuthorizedReplyPointerV3 → List AuthorizedReplyPointerV3 × Map String Nat
  | [] => ([], ∅)
  | p :: ps =>
    let (kept, counts) := capFingerprints ps
    let c := counts.getD p.ptr.fingerprint 0
    if c < fpCap p.ptr.fingerprint then (p :: kept, counts.insert p.ptr.fingerprint (c + 1))
    else (kept, counts.insert p.ptr.fingerprint c)

/-- Drops the first `drop` anonymous pointers, the oldest ones of a sorted list. -/
def dropOldestAnon : Nat → List AuthorizedReplyPointerV3 → List AuthorizedReplyPointerV3
  | _, [] => []
  | drop, p :: ps =>
    if 0 < drop ∧ p.isAnon then dropOldestAnon (drop - 1) ps else p :: dropOldestAnon drop ps

/-- The global cap: the oldest anonymous pointer goes first, the oldest attested one only when no
anonymous pointer is left. Each turn of the source's loop removes one pointer, so it turns as often
as there are pointers above the cap. -/
def evict : Nat → List AuthorizedReplyPointerV3 → List AuthorizedReplyPointerV3
  | 0, ps => ps
  | n + 1, ps => evict n (ps.eraseIdx ((ps.findIdx? isAnon).getD 0))

/-- Sort, drop duplicates of a reply post, and enforce the caps. -/
def canonicalize (self : PointersV3) : PointersV3 :=
  let sorted := self.pointers.insertionSort fun p q => p.orderKey ≤ q.orderKey
  let deduped := retainUnseen ∅ sorted
  let capped := (capFingerprints deduped).1
  let anonCount := capped.countP isAnon
  let shared := dropOldestAnon (anonCount - anonPointerSlots) capped
  ⟨evict (shared.length - maxPointers) shared⟩

def tierHorizons (self : PointersV3) :
    TierHorizon PointerOrderKey × TierHorizon PointerOrderKey :=
  let attested := (self.pointers.filter fun p => !p.isAnon).map orderKey
  let anon := (self.pointers.filter isAnon).map orderKey
  let attestedH :=
    match attested with
    | oldest :: _ => if maxPointers ≤ attested.length then .oldestRetained oldest else .open
    | [] => .open
  let effective := min anonPointerSlots (maxPointers - attested.length)
  let anonH :=
    if effective = 0 then .closed
    else match anon with
      | oldest :: _ => if effective ≤ anon.length then .oldestRetained oldest else .open
      | [] => .open
  (attestedH, anonH)

/-- The order keys of the pointers of each fingerprint. -/
def groups (self : PointersV3) : Map String (List PointerOrderKey) :=
  self.pointers.foldl (fun groups p =>
    groups.insert p.ptr.fingerprint (groups.getD p.ptr.fingerprint [] ++ [p.orderKey])) ∅

def fpHorizons (self : PointersV3) : Map String PointerOrderKey :=
  self.groups.filterMap fun fp keys => if fpCap fp ≤ keys.length then keys.min? else none

/-- The loop of `verify` that counts the pointers of each fingerprint. -/
def verifyCaps : List AuthorizedReplyPointerV3 → Map String Nat → Except String Unit
  | [], _ => .ok ()
  | p :: ps, perFp =>
    let c := perFp.getD p.ptr.fingerprint 0 + 1
    if fpCap p.ptr.fingerprint < c then .error "fingerprint over its fairness cap"
    else verifyCaps ps (perFp.insert p.ptr.fingerprint c)

/-- The loop of `verify` over `windows(2)`. -/
def verifySorted : List AuthorizedReplyPointerV3 → Except String Unit
  | p :: q :: ps =>
    if q.orderKey < p.orderKey then .error "pointers not sorted" else verifySorted (q :: ps)
  | _ => .ok ()

/-- The loop of `verify` that checks each pointer. -/
def verifyEach (creds : Map (Bytes 32) (ReplierCredV3 Cert)) (parameters : InboxParametersV3) :
    List AuthorizedReplyPointerV3 → Std.ExtTreeSet PostId compare → Except String Unit
  | [], _ => .ok ()
  | p :: ps, seen => do
    if !(← checkPointer C p creds parameters) then throw "pointer without matching credential"
    if p.isAnon ∧
        !meetsInbox C parameters.owner.asBytes p.ptr.replier p.powNonce powFloorBits then
      throw "anonymous pointer below the proof-of-work floor"
    if p.ptr.replyPost ∈ seen then throw "duplicate reply pointer"
    verifyEach creds parameters ps (seen.insert p.ptr.replyPost)

def verify (self : PointersV3) (parent : InboxStateV3 Cert) (parameters : InboxParametersV3) :
    Except String Unit := do
  if maxPointers < self.pointers.length then throw s!"more than {maxPointers} pointers"
  if anonPointerSlots < self.pointers.countP isAnon then
    throw s!"more than {anonPointerSlots} anonymous pointers"
  verifyCaps self.pointers ∅
  verifySorted self.pointers
  verifyEach C parent.creds.creds parameters self.pointers ∅

def summarize (self : PointersV3) : PointersV3Summary where
  ids := .ofList (self.pointers.map (·.ptr.replyPost)) compare
  attestedHorizon := self.tierHorizons.1
  anonHorizon := self.tierHorizons.2
  fpHorizons := self.fpHorizons

/-- Whether the holder of a summary would retain a pointer it does not have. -/
def retained (old : PointersV3Summary) (p : AuthorizedReplyPointerV3) : Bool :=
  let tier := if p.isAnon then old.anonHorizon else old.attestedHorizon
  let aboveFp := match old.fpHorizons[p.ptr.fingerprint]? with
    | none => true
    | some oldest => oldest < p.orderKey
  tier.admits p.orderKey && aboveFp

def delta (self : PointersV3) (old : PointersV3Summary) : Option (List AuthorizedReplyPointerV3) :=
  let delta := (self.pointers.filter fun p => p.ptr.replyPost ∉ old.ids).filter (retained old)
  if delta.isEmpty then none else some delta

/-- The pointers of a delta that pass `checkPointer`. -/
def accept (creds : Map (Bytes 32) (ReplierCredV3 Cert)) (parameters : InboxParametersV3) :
    List AuthorizedReplyPointerV3 → Except String (List AuthorizedReplyPointerV3)
  | [] => .ok []
  | p :: ps => do
    let ok ← checkPointer C p creds parameters
    let accepted ← accept creds parameters ps
    return if ok then p :: accepted else accepted

def applyDelta (self : PointersV3) (parent : InboxStateV3 Cert) (parameters : InboxParametersV3)
    (delta : Option (List AuthorizedReplyPointerV3)) : Except String Unit × PointersV3 :=
  match delta with
  | none => (.ok (), self)
  | some delta =>
    match accept C parent.creds.creds parameters delta with
    | .error e => (.error e, self)
    | .ok accepted => (.ok (), canonicalize ⟨self.pointers ++ accepted⟩)

end PointersV3

/-! ## The state -/

namespace InboxStateV3

def verify (self : InboxStateV3 Cert) (parameters : InboxParametersV3) : Except String Unit := do
  match self.powDifficulty with
  | some cell => mapErr "difficulty record" (cell.check C (powParams C))
  | none => pure ()
  self.creds.verify C self parameters
  self.pointers.verify C self parameters

def summarize (self : InboxStateV3 Cert) : InboxStateV3Summary where
  creds := self.creds.summarize C
  pointers := self.pointers.summarize
  powSeq := difficultySeq self.powDifficulty

/-- A credential the peer lacks is offered only next to a pointer that references it. -/
def offeredCreds (self : InboxStateV3 Cert) (old : InboxStateV3Summary)
    (pointers : Option (List AuthorizedReplyPointerV3)) :
    Option (Map (Bytes 32) (ReplierCredV3 Cert)) :=
  (self.creds.delta C old.creds).bind fun c =>
    let c := c.filter fun k _ => k ∈ old.creds ∨ pointers.any (·.any (·.ptr.replier = k))
    if c.isEmpty then none else some c

def delta (self : InboxStateV3 Cert) (old : InboxStateV3Summary) :
    Option (InboxStateV3Delta Cert) :=
  let pointers := self.pointers.delta old.pointers
  let creds := self.offeredCreds C old pointers
  let powDifficulty :=
    if old.powSeq < difficultySeq self.powDifficulty then self.powDifficulty else none
  if creds.isSome ∨ pointers.isSome ∨ powDifficulty.isSome then
    some ⟨creds, pointers, powDifficulty⟩
  else none

/-- Proof-of-work admission. A pointer of another inbox is left in, for `checkPointer` to
reject. -/
def admits (owner : Bytes 32) (bits : Nat) (p : AuthorizedReplyPointerV3) : Bool :=
  !p.isAnon || p.ptr.owner ≠ owner || meetsInbox C owner p.ptr.replier p.powNonce bits

/-- The repliers whose credential in the delta is vouched for by a signed pointer of the delta. -/
def staples (parameters : InboxParametersV3) (creds : Map (Bytes 32) (ReplierCredV3 Cert)) :
    List AuthorizedReplyPointerV3 → Except String (List (Bytes 32))
  | [] => .ok []
  | p :: ps => do
    if p.ptr.owner ≠ parameters.owner.asBytes then throw "pointer bound to another inbox"
    match creds[p.ptr.replier]? with
    | some cred =>
      p.verifySignature C cred.postingKey
      return p.ptr.replier :: (← staples parameters creds ps)
    | none => staples parameters creds ps

/-- The credentials of a delta that a pointer, seated or admitted, references. -/
def vouchedCreds (self : InboxStateV3 Cert) (parameters : InboxParametersV3)
    (creds : Option (Map (Bytes 32) (ReplierCredV3 Cert)))
    (admitted : Option (List AuthorizedReplyPointerV3)) :
    Except String (Option (Map (Bytes 32) (ReplierCredV3 Cert))) :=
  match creds with
  | none => .ok none
  | some c => do
    if maxPointers < c.size then throw "credential delta too large"
    let stapled ← staples C parameters c (admitted.getD [])
    let c := c.filter fun k _ =>
      k ∈ stapled ∨ self.pointers.pointers.any (·.ptr.replier = k)
    return if c.isEmpty then none else some c

/-- Drops pointers whose fingerprint is not their credential's, enforces the caps, and drops
credentials no pointer references. -/
def postApplyCleanup (self : InboxStateV3 Cert) : InboxStateV3 Cert :=
  let matching := self.pointers.pointers.filter fun p =>
    self.creds.creds[p.ptr.replier]?.any fun c => c.fingerprint C = p.ptr.fingerprint
  let pointers := PointersV3.canonicalize ⟨matching⟩
  let referenced := pointers.pointers.map (·.ptr.replier)
  { self with
    pointers
    creds := ⟨self.creds.creds.filter fun k _ => k ∈ referenced⟩ }

def applyDelta (self : InboxStateV3 Cert) (parameters : InboxParametersV3)
    (delta : Option (InboxStateV3Delta Cert)) : Except String Unit × InboxStateV3 Cert :=
  match delta with
  | none => (.ok (), self)
  | some delta =>
    let self := { self with
      powDifficulty := adoptDifficulty C self.powDifficulty delta.powDifficulty }
    let bits := difficultyBits C self.powDifficulty
    let admitted := delta.pointers.map (·.filter (admits C parameters.owner.asBytes bits))
    match self.vouchedCreds C parameters delta.creds admitted with
    | .error e => (.error e, self)
    | .ok creds =>
      -- Credentials before pointers, each seeing the state in progress.
      match self.creds.applyDelta C parameters creds with
      | (.error e, creds) => (.error e, { self with creds })
      | (.ok (), creds) =>
        let self := { self with creds }
        match self.pointers.applyDelta C self parameters admitted with
        | (.error e, pointers) => (.error e, { self with pointers })
        | (.ok (), pointers) => (.ok (), ({ self with pointers }).postApplyCleanup C)

/-- `ComposableState::merge`: what the other side would send is applied here. -/
def merge (self : InboxStateV3 Cert) (parameters : InboxParametersV3)
    (other : InboxStateV3 Cert) : Except String Unit × InboxStateV3 Cert :=
  match other.delta C (self.summarize C) with
  | none => (.ok (), self)
  | some delta => self.applyDelta C parameters (some delta)

end InboxStateV3

/-! ## Samples -/

namespace Sample

/-- The credential of `key b`, attested by the ghost key `ghost`. -/
def attested (b ghost version : U8) : ReplierCredV3 VerifyingKey :=
  ⟨key b, some (attestation b ghost version)⟩

def anonymous (b : U8) : ReplierCredV3 VerifyingKey := ⟨key b, none⟩

def inbox : InboxParametersV3 := ⟨key 90, key 91⟩

/-- A pointer to the reply `post`, signed under a credential. -/
def pointer (cred : ReplierCredV3 VerifyingKey) (post : U8) (time nonce : U64) :
    AuthorizedReplyPointerV3 where
  ptr := ⟨inbox.owner.asBytes, cred.postingKey.asBytes, cred.fingerprint crypto, bytes 16 0,
    bytes 16 post, time⟩
  signature := ⟨cred.postingKey.asBytes.toList ++ List.replicate 32 0, by simp⟩
  powNonce := nonce

def credMap (creds : List (ReplierCredV3 VerifyingKey)) :
    Map (Bytes 32) (ReplierCredV3 VerifyingKey) :=
  .ofList (creds.map fun c => (c.postingKey.asBytes, c)) compare

def inboxState (creds : List (ReplierCredV3 VerifyingKey))
    (pointers : List AuthorizedReplyPointerV3) (record : Option SignedCellV1) :
    InboxStateV3 VerifyingKey := ⟨⟨credMap creds⟩, ⟨pointers⟩, record⟩

/-- One attested pointer, announced at time 10. -/
def seated : InboxStateV3 VerifyingKey :=
  inboxState [attested 1 7 1] [pointer (attested 1 7 1) 3 10 0] none

def inboxDelta (creds : List (ReplierCredV3 VerifyingKey))
    (pointers : List AuthorizedReplyPointerV3) : InboxStateV3Delta VerifyingKey :=
  ⟨some (credMap creds), some pointers, none⟩

end Sample

end Freebird
