import Freebird.Common.Base58
import Freebird.Common.Types
import Freebird.Register.Claims

/-!
# Following an anchor

An author's anchor names the contracts the author publishes to. Where it names other addresses than
this build derives, they join the registry of tracked contracts, which says how to decode what comes
from an address. The anchor is the author's own text, so an address that is tracked already is left
alone: the first claim wins. But the check is made before the first address is added. An anchor that
names one new address in two roles has it tracked under the first kind and then under the second
(`retagged_in_one_call`); nothing else changes a kind (`first_claim_wins_iff`).
-/

namespace Freebird

open Register

/-! ## The anchor -/

abbrev ContractInstanceId := Bytes 32

/-- `to_string` of an instance id. -/
def idString (E : Bs58) (id : ContractInstanceId) : String := E.encode id.toList

/-- The contract an author publishes to in one role. -/
structure RoleV1 where
  /-- The generation of the contract. -/
  version : U32
  address : Option (Bytes 32)
  deriving DecidableEq

structure AnchorV1 where
  v : U32
  roles : Map String RoleV1
  deriving DecidableEq

def AnchorV1.new (roles : Map String RoleV1) : AnchorV1 := ⟨1, roles⟩

def AnchorV1.role (self : AnchorV1) (name : String) : Option RoleV1 := self.roles[name]?

def roleInbox : String := "inbox"

def roleFeed : String := "feed"

def roleAvatar : String := "avatar"

def inboxGeneration : U32 := 3

def feedGeneration : U32 := 3

def avatarGeneration : U32 := 2

/-- The addresses this build derives: hashes over the bundled contracts and the key. -/
structure InstanceIds where
  /-- How an address is written. -/
  bs58 : Bs58
  inboxInstanceId : VerifyingKey → ContractInstanceId
  feedInstanceId : VerifyingKey → ContractInstanceId
  avatarInstanceId : VerifyingKey → ContractInstanceId

/-- How to decode what comes from an address, and whose it is. -/
inductive TrackedKind where
  | feed (author : Bytes 32)
  | legacyFeed (author : Bytes 32)
  | inbox (author : Bytes 32)
  | legacyInbox (author : Bytes 32)
  | anchor (author : Bytes 32)
  | avatar (author : Bytes 32)
  | legacyAvatar (author : Bytes 32)
  | directory
  | legacyDirectory
  | control
  | pow
  deriving DecidableEq

/-- `TRACKED`: the kind of each address that is tracked. -/
abbrev Tracked := Map String TrackedKind

def trackId (E : Bs58) (tracked : Tracked) (id : ContractInstanceId) (kind : TrackedKind) :
    Tracked :=
  tracked.insert (idString E id) kind

/-! ## What is followed -/

/-- A row of the table in `anchor_targets`. -/
structure AnchorRole where
  role : String
  generation : U32
  derived : ContractInstanceId
  kind : TrackedKind
  subscribe : Bool

structure AnchorTarget where
  role : String
  address : ContractInstanceId
  kind : TrackedKind
  subscribe : Bool
  deriving DecidableEq

section
variable (K : InstanceIds)

/-- The anchor body that this build publishes. -/
def ownAnchor (vk : VerifyingKey) : AnchorV1 :=
  .new (.ofList [(roleInbox, ⟨inboxGeneration, some (K.inboxInstanceId vk)⟩),
    (roleFeed, ⟨feedGeneration, some (K.feedInstanceId vk)⟩),
    (roleAvatar, ⟨avatarGeneration, some (K.avatarInstanceId vk)⟩)] compare)

def anchorRoles (author : Bytes 32) (vk : VerifyingKey) : List AnchorRole :=
  [⟨roleInbox, inboxGeneration, K.inboxInstanceId vk, .inbox author, true⟩,
   ⟨roleFeed, feedGeneration, K.feedInstanceId vk, .feed author, true⟩,
   -- Avatars are seldom written.
   ⟨roleAvatar, avatarGeneration, K.avatarInstanceId vk, .avatar author, false⟩]

/-- The body of the loop of `anchor_targets`. -/
def AnchorRole.target (row : AnchorRole) (anchor : AnchorV1) (tracked : Tracked) :
    Option AnchorTarget :=
  match anchor.role row.role with
  | none => none
  | some entry =>
    match entry.address with
    | none => none
    | some address =>
      if entry.version ≠ row.generation then none
      else if address = row.derived then none
      else
        match tracked[idString K.bs58 address]? with
        | some _ => none
        | none => some ⟨row.role, address, row.kind, row.subscribe⟩

def anchorTargets (author : Bytes 32) (vk : VerifyingKey) (anchor : AnchorV1) (tracked : Tracked) :
    List AnchorTarget :=
  (anchorRoles K author vk).filterMap (·.target K anchor tracked)

/-- `ContractRequest::Get`, without the contract code. -/
structure ContractGet where
  key : ContractInstanceId
  subscribe : Bool
  deriving DecidableEq

/-- A call of `follow_anchor`. -/
structure FollowAnchor where
  author : Bytes 32
  vk : VerifyingKey
  anchor : AnchorV1

def FollowAnchor.targets (call : FollowAnchor) (tracked : Tracked) : List AnchorTarget :=
  anchorTargets K call.author call.vk call.anchor tracked

/-- The registry after a call, and the contracts that are asked for. -/
def followAnchor (call : FollowAnchor) (tracked : Tracked) : Tracked × List ContractGet :=
  let targets := call.targets K tracked
  (targets.foldl (fun tracked t => trackId K.bs58 tracked t.address t.kind) tracked,
    targets.map fun t => ⟨t.address, t.subscribe⟩)

/-- The registry after some calls. -/
def followAll (tracked : Tracked) (calls : List FollowAnchor) : Tracked :=
  calls.foldl (fun tracked call => (followAnchor K call tracked).1) tracked

/-- The claims that a call of `follow_anchor` makes, one for each `track_id`. -/
def FollowAnchor.claims (call : FollowAnchor) (tracked : Tracked) : List (String × TrackedKind) :=
  (call.targets K tracked).map fun t => (idString K.bs58 t.address, t.kind)

/-- The claims of some calls. -/
def claimsOf : Tracked → List FollowAnchor → List (String × TrackedKind)
  | _, [] => []
  | tracked, call :: calls =>
    call.claims K tracked ++ claimsOf (followAnchor K call tracked).1 calls

/-- The registry before some calls and after each of their `track_id`s. -/
def moments (tracked : Tracked) (calls : List FollowAnchor) : List Tracked :=
  (claimsOf K tracked calls).scanl claim tracked

/-- `P` holds of each call and the registry it begins with. -/
def Throughout (P : FollowAnchor → Tracked → Prop) : Tracked → List FollowAnchor → Prop
  | _, [] => True
  | tracked, call :: calls => P call tracked ∧ Throughout P (followAnchor K call tracked).1 calls

/-- The anchor has an address for the role, at the generation of this build. -/
def AnchorRole.Names (row : AnchorRole) (anchor : AnchorV1) (address : ContractInstanceId) : Prop :=
  ∃ entry, anchor.role row.role = some entry ∧ entry.version = row.generation ∧
    entry.address = some address

/-- No two roles of this build share an address in the anchor, unless it is one that is derived for
one of them, or tracked. -/
def FollowAnchor.Unshared (call : FollowAnchor) (tracked : Tracked) : Prop :=
  (anchorRoles K call.author call.vk).Pairwise fun row row' => ∀ address,
    row.Names call.anchor address → row'.Names call.anchor address →
      address = row.derived ∨ address = row'.derived ∨ idString K.bs58 address ∈ tracked

end

variable {K : InstanceIds} {row : AnchorRole} {anchor : AnchorV1} {tracked : Tracked}
  {t : AnchorTarget} {call : FollowAnchor} {calls : List FollowAnchor}

theorem idString_inj {E : Bs58} {a b : ContractInstanceId} (h : idString E a = idString E b) :
    a = b :=
  Bytes.toList_inj (E.encode_injective h)

theorem target_eq_some : row.target K anchor tracked = some t ↔
    row.Names anchor t.address ∧ t.address ≠ row.derived ∧
      tracked[idString K.bs58 t.address]? = none ∧
      t = ⟨row.role, t.address, row.kind, row.subscribe⟩ := by
  constructor
  · intro h
    rw [AnchorRole.target] at h
    split at h
    · cases h
    · rename_i entry hentry
      split at h
      · cases h
      · rename_i address haddress
        split at h
        · cases h
        · rename_i hversion
          split at h
          · cases h
          · rename_i hderived
            split at h
            · cases h
            · rename_i hfree
              obtain rfl := Option.some.inj h
              exact ⟨⟨entry, hentry, not_not.mp hversion, haddress⟩, hderived, hfree, rfl⟩
  · rintro ⟨⟨entry, hentry, hversion, haddress⟩, hderived, hfree, ht⟩
    rw [ht, AnchorRole.target]
    simp only [hentry, haddress, hversion, hderived, hfree, ne_eq, not_true_eq_false, if_false]

/-! ## One call -/

theorem free_of_mem_targets (h : t ∈ call.targets K tracked) :
    tracked[idString K.bs58 t.address]? = none := by
  obtain ⟨row, -, hrow⟩ := List.mem_filterMap.mp h
  exact (target_eq_some.mp hrow).2.2.1

theorem free_of_mem_claims {c : String × TrackedKind} (h : c ∈ call.claims K tracked) :
    tracked[c.1]? = none := by
  obtain ⟨t, ht, rfl⟩ := List.mem_map.mp h
  exact free_of_mem_targets ht

/-- What a call follows is a set of addresses, unless roles share one. -/
theorem pairwise_targets_iff :
    (call.targets K tracked).Pairwise (fun t u => t.address ≠ u.address) ↔
      call.Unshared K tracked := by
  rw [FollowAnchor.targets, anchorTargets, List.pairwise_filterMap, FollowAnchor.Unshared]
  refine List.Pairwise.iff fun row row' => ?_
  constructor
  · intro h address hrow hrow'
    by_contra! hnew
    obtain ⟨hd, hd', hfree⟩ := hnew
    have hfree := Std.ExtTreeMap.getElem?_eq_none hfree
    refine h ⟨row.role, address, row.kind, row.subscribe⟩ (target_eq_some.mpr ?_)
      ⟨row'.role, address, row'.kind, row'.subscribe⟩ (target_eq_some.mpr ?_) rfl
    · exact ⟨hrow, hd, hfree, rfl⟩
    · exact ⟨hrow', hd', hfree, rfl⟩
  · intro h t ht u hu he
    obtain ⟨hrow, hd, hfree, -⟩ := target_eq_some.mp ht
    obtain ⟨hrow', hd', -, -⟩ := target_eq_some.mp hu
    rcases h t.address hrow (he ▸ hrow') with h | h | h
    · exact hd h
    · exact hd' (he ▸ h)
    · obtain ⟨kind, hkind⟩ := Map.mem_iff.mp h
      rw [hfree] at hkind
      cases hkind

/-- The roles are decoded differently. -/
theorem pairwise_kinds :
    (call.targets K tracked).Pairwise fun t u => t.kind ≠ u.kind := by
  have hroles : (anchorRoles K call.author call.vk).Pairwise fun row row' => row.kind ≠ row'.kind := by
    simp [anchorRoles]
  rw [FollowAnchor.targets, anchorTargets, List.pairwise_filterMap]
  refine hroles.imp fun hne t ht u hu => ?_
  rw [(target_eq_some.mp ht).2.2.2, (target_eq_some.mp hu).2.2.2]
  exact hne

/-- The claims of a call agree with each other only if there are no two for one address. -/
theorem pairwise_claims_iff :
    (call.claims K tracked).Pairwise (fun c d => c.1 = d.1 → c.2 = d.2) ↔
      call.Unshared K tracked := by
  rw [← pairwise_targets_iff, FollowAnchor.claims, List.pairwise_map]
  constructor
  · intro h
    exact (h.and pairwise_kinds).imp fun h he => h.2 (h.1 (congrArg (idString K.bs58) he))
  · exact fun h => h.imp fun hne he => absurd (idString_inj he) hne

theorem fst_followAnchor (call : FollowAnchor) (tracked : Tracked) :
    (followAnchor K call tracked).1 = (call.claims K tracked).foldl claim tracked := by
  rw [FollowAnchor.claims, List.foldl_map]
  rfl

/-- Whatever an anchor says, the kinds that are tracked when it is followed stay. -/
theorem keeps_followAnchor (call : FollowAnchor) (tracked : Tracked) :
    Keeps tracked (followAnchor K call tracked).1 := by
  rw [fst_followAnchor]
  exact keeps_claims fun c => free_of_mem_claims

/-! ## All calls -/

theorem keeps_followAll (tracked : Tracked) (calls : List FollowAnchor) :
    Keeps tracked (followAll K tracked calls) := by
  induction calls generalizing tracked with
  | nil => exact .refl tracked
  | cons call calls ih => exact (keeps_followAnchor call tracked).trans (ih _)

theorem Throughout.congr {P Q : FollowAnchor → Tracked → Prop}
    (h : ∀ call tracked, P call tracked ↔ Q call tracked) :
    Throughout K P tracked calls ↔ Throughout K Q tracked calls := by
  induction calls generalizing tracked with
  | nil => exact Iff.rfl
  | cons call calls ih => exact and_congr (h call tracked) ih

/-- No kind is changed at any moment exactly if no call finds a shared address. -/
theorem moments_iff : (moments K tracked calls).Pairwise Keeps ↔
    Throughout K (FollowAnchor.Unshared K) tracked calls := by
  rw [← isChain_keeps, moments]
  induction calls generalizing tracked with
  | nil => exact iff_of_true (List.isChain_singleton tracked) trivial
  | cons call calls ih =>
    rw [claimsOf, isChain_claims_append, ← fst_followAnchor,
      isChain_claims_iff_of_free fun c => free_of_mem_claims, pairwise_claims_iff, ih]
    rfl

/-- **First claim wins**: in any sequence of calls, the addresses followed are new and distinct, and
no kind is ever changed, exactly if no anchor shares a new address among the roles of this build when
it is followed. -/
theorem first_claim_wins_iff :
    Throughout K (fun call tracked =>
        (∀ t ∈ call.targets K tracked, tracked[idString K.bs58 t.address]? = none) ∧
          (call.targets K tracked).Pairwise fun t u => t.address ≠ u.address) tracked calls ∧
      (moments K tracked calls).Pairwise Keeps ↔
    Throughout K (FollowAnchor.Unshared K) tracked calls := by
  rw [moments_iff, Throughout.congr (Q := FollowAnchor.Unshared K)]
  · exact and_self_iff
  · intro call tracked
    rw [pairwise_targets_iff]
    exact and_iff_right fun t => free_of_mem_targets

/-- What this build publishes is what it derives: there is nothing to follow. -/
theorem anchorTargets_ownAnchor (author : Bytes 32) (vk : VerifyingKey) (tracked : Tracked) :
    anchorTargets K author vk (ownAnchor K vk) tracked = [] := by
  refine List.filterMap_eq_nil_iff.mpr fun row hrow => ?_
  let body (row : AnchorRole) : String × RoleV1 := (row.role, ⟨row.generation, some row.derived⟩)
  have hdistinct : ((anchorRoles K author vk).map body).Pairwise
      fun a b => ¬ compare a.1 b.1 = .eq := by
    simp [body, anchorRoles, roleInbox, roleFeed, roleAvatar]
  have hmem : body row ∈ (anchorRoles K author vk).map body := List.mem_map_of_mem hrow
  have hrole : (ownAnchor K vk).role row.role = some ⟨row.generation, some row.derived⟩ :=
    Std.ExtTreeMap.getElem?_ofList_of_mem Std.ReflCmp.compare_self hdistinct hmem
  rw [AnchorRole.target]
  simp only [hrole, ne_eq, not_true_eq_false, if_false, if_true]

namespace Sample

def instanceIds : InstanceIds where
  bs58 := bs58
  inboxInstanceId vk := vk.asBytes
  feedInstanceId _ := bytes 32 101
  avatarInstanceId _ := bytes 32 102

/-- The author of `key 5` claims one new address as an inbox and as a feed. -/
def twice : FollowAnchor where
  author := bytes 32 5
  vk := key 5
  anchor := .new (.ofList [(roleInbox, ⟨inboxGeneration, some (bytes 32 9)⟩),
    (roleFeed, ⟨feedGeneration, some (bytes 32 9)⟩)] compare)

end Sample

open Sample in
theorem retagged_in_one_call :
    ((twice.targets instanceIds ∅).map fun t => (t.address, t.kind)) =
      [(bytes 32 9, .inbox (bytes 32 5)), (bytes 32 9, .feed (bytes 32 5))] ∧
    ((moments instanceIds ∅ [twice]).map fun tracked => tracked[idString bs58 (bytes 32 9)]?) =
      [none, some (.inbox (bytes 32 5)), some (.feed (bytes 32 5))] := by
  decide +kernel

end Freebird
