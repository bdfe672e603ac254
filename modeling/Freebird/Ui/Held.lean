import Freebird.Directory.Rejected
import Freebird.Feed.Rejected
import Freebird.Feed.Shell
import Freebird.Inbox.Rejected
import Freebird.Inbox.Shell
import Freebird.Ui.Account

/-!
# What the browser holds after updates that were rejected

The browser applies an update to its copy in place and goes on with what is there when the update
fails. For each of the three states there is a form of validity that this keeps: a feed stays
verified, an inbox may show a pointer under a credential that has changed, and a directory may be
over its caps. The next update that is accepted makes the last two valid again.
-/

namespace Freebird

variable {Cert : Type}

/-! ## Feeds -/

namespace FeedStateV1

variable {C : FeedCrypto Cert} {parameters : FeedParametersV1} {P : AuthorizedPost → Prop}
  {s : FeedStateV1 Cert} {d : FeedStateV1Delta Cert}

variable (C parameters P) in
/-- A verified feed of posts that occur. -/
structure Held (s : FeedStateV1 Cert) : Prop where
  valid : s.Valid C parameters
  occur : ∀ p ∈ s.posts.posts, P p

theorem Held.applyDelta (hs : s.Held C parameters P)
    (hfree : AuthorizedPost.CollisionFree C parameters.author P)
    (hd : ∀ p ∈ d.posts.getD [], P p) :
    (s.applyDelta C parameters (some d)).2.Held C parameters P := by
  obtain ⟨r, happly, -⟩ := applyDelta_leading parameters hs.valid.settled d
  have hchecked : (d.leading C parameters).Checked C parameters :=
    FeedStateV1Delta.leading_checked
  have hleading (p : AuthorizedPost) (hp : p ∈ (d.leading C parameters).posts.getD []) :
      p ∈ d.posts.getD [] :=
    FeedStateV1Delta.post_mem_records.mp <|
      FeedStateV1Delta.mem_records_leading (FeedStateV1Delta.post_mem_records.mpr hp)
  rw [happly]
  refine ⟨hs.valid.applied hchecked ?_, fun p hp => ?_⟩
  · refine FeedContract.sameTime hfree (fun p hp => ?_) fun p hp => ?_
    · rcases List.mem_append.mp hp with hp | hp
      · exact hs.occur p hp
      · exact hd p (hleading p hp)
    · rcases List.mem_append.mp hp with hp | hp
      · exact hs.valid.checked p hp
      · exact hchecked.posts p hp
  · rcases List.mem_append.mp (PostsV1.mem_of_mem_canonicalize hp) with hp | hp
    · exact hs.occur p hp
    · exact hd p (hleading p hp)

theorem Held.merge (hs : s.Held C parameters P)
    (hfree : AuthorizedPost.CollisionFree C parameters.author P) {other : FeedStateV1 Cert}
    (hother : ∀ p ∈ other.posts.posts, P p) :
    (s.merge C parameters other).2.Held C parameters P := by
  rw [FeedStateV1.merge]
  cases hdelta : other.delta C (s.summarize C) with
  | none => exact hs
  | some d => exact hs.applyDelta hfree fun p hp => hother p (delta_posts_subset hdelta hp)

/-- A first copy is verified, and what comes later is merged. -/
theorem held_mergeFeed {entry : Option (FeedStateV1 Cert)} {incoming : FeedStateV1 Cert}
    (hentry : ∀ s, entry = some s → s.Held C parameters P)
    (hfree : AuthorizedPost.CollisionFree C parameters.author P)
    (hincoming : ∀ p ∈ incoming.posts.posts, P p) (s : FeedStateV1 Cert)
    (hs : mergeFeed C parameters entry incoming = some s) : s.Held C parameters P := by
  cases entry with
  | none =>
    rw [mergeFeed] at hs
    cases hverify : incoming.verify C parameters with
    | error e => rw [hverify] at hs; cases hs
    | ok =>
      rw [hverify] at hs
      obtain rfl := Option.some.inj hs
      exact ⟨verify_iff.mp hverify, hincoming⟩
  | some current =>
    obtain rfl := Option.some.inj hs
    exact (hentry current rfl).merge hfree hincoming

end FeedStateV1

/-! ## Inboxes -/

section
variable {C : Crypto Cert} {parameters : InboxParametersV3}

namespace CredsV3

/-- Credentials that are seated were checked, also when a later one fails. -/
theorem applyAll_checked {es : List (Bytes 32 × ReplierCredV3 Cert)} {self : CredsV3 Cert}
    (hself : ∀ (k : Bytes 32) c, self.creds[k]? = some c →
      c.check C k parameters.ghostkeyMaster = .ok ()) (k : Bytes 32) (c : ReplierCredV3 Cert)
    (hc : (applyAll C parameters es self).2.creds[k]? = some c) :
    c.check C k parameters.ghostkeyMaster = .ok () := by
  induction es generalizing self with
  | nil => exact hself k c hc
  | cons e es ih =>
    obtain ⟨key, cred⟩ := e
    rw [applyAll] at hc
    split at hc
    · exact ih hself hc
    · split at hc
      · exact hself k c hc
      · rename_i hcheck
        refine ih (fun k' c' hc' => ?_) hc
        rw [Std.ExtTreeMap.getElem?_insert] at hc'
        split at hc'
        · rename_i hkey
          obtain rfl := compare_eq_iff_eq.mp hkey
          obtain rfl := Option.some.inj hc'
          exact hcheck
        · exact hself k' c' hc'

theorem applyDelta_checked {self : CredsV3 Cert}
    {delta : Option (Map (Bytes 32) (ReplierCredV3 Cert))}
    (hself : ∀ (k : Bytes 32) c, self.creds[k]? = some c →
      c.check C k parameters.ghostkeyMaster = .ok ()) (k : Bytes 32) (c : ReplierCredV3 Cert)
    (hc : (self.applyDelta C parameters delta).2.creds[k]? = some c) :
    c.check C k parameters.ghostkeyMaster = .ok () := by
  cases delta with
  | none => exact hself k c hc
  | some creds =>
    rw [applyDelta] at hc
    split at hc
    · exact hself k c hc
    · exact applyAll_checked hself k c hc

end CredsV3

namespace InboxStateV3

open AuthorizedReplyPointerV3

variable {s s' : InboxStateV3 Cert} {d : InboxStateV3Delta Cert} {p : AuthorizedReplyPointerV3}

variable (C parameters) in
/-- A valid state, but for credentials without a pointer and for pointers whose credential has
changed. -/
structure Held (s : InboxStateV3 Cert) : Prop where
  latch : ∀ cell, s.powDifficulty = some cell → cell.genuine C = true
  checked : ∀ (k : Bytes 32) (c : ReplierCredV3 Cert), s.creds.creds[k]? = some c →
    c.check C k parameters.ghostkeyMaster = .ok ()
  settled : PointersV3.Settled s.pointers.pointers
  genuine : ∀ p ∈ s.pointers.pointers, p.Genuine C parameters

theorem Valid.held (hs : s.Valid C parameters) : s.Held C parameters :=
  ⟨hs.latch, hs.checked, hs.settled, hs.genuine⟩

theorem Held.credAfter_checked (hs : s.Held C parameters) (ha : s.Accepts C parameters d)
    {k : Bytes 32} {c : ReplierCredV3 Cert} (hc : s.credAfter C parameters d k = some c) :
    c.check C k parameters.ghostkeyMaster = .ok () := by
  unfold credAfter newerCred at hc
  split at hc
  · exact hs.checked k c hc
  · rename_i c' hoffered
    split at hc
    · exact hs.checked k c hc
    · rename_i hold
      obtain rfl := Option.some.inj hc
      exact ha.checked k c' hoffered fun h hheld => by simpa [hheld] using hold

theorem Held.accepted_genuine (hs : s.Held C parameters) (ha : s.Accepts C parameters d)
    (hp : p ∈ s.accepted C parameters d) : p.Genuine C parameters := by
  obtain ⟨hadm, c, hc, -⟩ := mem_accepted.mp hp
  obtain ⟨howner, hsigned⟩ := ha.signed p hadm
  have hkey : c.postingKey = ⟨p.ptr.replier⟩ :=
    ReplierCredV3.check_key (hs.credAfter_checked ha hc)
  refine ⟨howner, hkey ▸ hsigned c hc, fun hanon => ?_⟩
  have hadmits := (mem_admitted.mp hadm).2
  simp only [admits, hanon, howner, Bool.not_true, Bool.false_or, ne_eq, not_true_eq_false,
    decide_false] at hadmits
  exact meetsInbox_floor hadmits

/-- **An accepted delta makes the inbox valid**, whatever was rejected before. -/
theorem Held.valid (hs : s.Held C parameters)
    (h : s.applyDelta C parameters (some d) = (.ok (), s')) : s'.Valid C parameters := by
  obtain ⟨ha, happlied⟩ := (applyDelta_eq_ok hs.settled).mp h
  have hgenuine (p : AuthorizedReplyPointerV3) (hp : p ∈ s'.pointers.pointers) :
      p.Genuine C parameters := by
    obtain ⟨hp | hp, -⟩ := mem_pointersAfter (happlied.pointers ▸ hp)
    · exact hs.genuine p hp
    · exact hs.accepted_genuine ha hp
  exact {
    latch := fun cell hc => genuine_adoptDifficulty hs.latch cell (happlied.latch ▸ hc)
    checked := fun k c hc => hs.credAfter_checked ha (happlied.credAfter hc).2
    referenced := fun k hk => by
      obtain ⟨c, hc⟩ := Map.mem_iff.mp hk
      exact (happlied.credAfter hc).1
    settled :=
      happlied.pointers ▸ (PointersV3.settled_canonicalize _).sublist List.filter_sublist
    genuine := hgenuine
    resolved := fun p hp => by
      obtain ⟨-, c, hc, hfp⟩ := mem_pointersAfter (happlied.pointers ▸ hp)
      exact ⟨c, (happlied.credsAt hp).trans hc, hfp⟩ }

theorem Held.applyDelta (hs : s.Held C parameters) (d : Option (InboxStateV3Delta Cert)) :
    (s.applyDelta C parameters d).2.Held C parameters := by
  cases d with
  | none => exact hs
  | some d =>
    rcases happly : s.applyDelta C parameters (some d) with ⟨e | ⟨⟩, s'⟩
    · have hlatch (cell : SignedCellV1) (hc : s.latchAfter C d = some cell) :
          cell.genuine C = true := genuine_adoptDifficulty hs.latch cell hc
      rcases applyDelta_error happly with ⟨-, rfl⟩ | ⟨offered, -, rfl⟩
      · exact ⟨hlatch, hs.checked, hs.settled, hs.genuine⟩
      · exact ⟨hlatch, CredsV3.applyDelta_checked hs.checked, hs.settled, hs.genuine⟩
    · exact (hs.valid happly).held

variable (C parameters) in
/-- A copy that deltas were applied to in place, accepted or not. -/
def attempts (s : InboxStateV3 Cert) (ds : List (InboxStateV3Delta Cert)) : InboxStateV3 Cert :=
  ds.foldl (fun s d => (s.applyDelta C parameters (some d)).2) s

theorem Held.attempts (hs : s.Held C parameters) (ds : List (InboxStateV3Delta Cert)) :
    (s.attempts C parameters ds).Held C parameters := by
  induction ds generalizing s with
  | nil => exact hs
  | cons d ds ih => exact ih (hs.applyDelta (some d))

/-- **The copy of an inbox heals**: whatever was rejected before, an accepted delta leaves a state
that `verify` accepts. -/
theorem attempts_heal (hs : s.verify C parameters = .ok ()) (ds : List (InboxStateV3Delta Cert))
    (h : (s.attempts C parameters ds).applyDelta C parameters (some d) = (.ok (), s')) :
    s'.verify C parameters = .ok () :=
  verify_iff.mpr (((verify_iff.mp hs).held.attempts ds).valid h)

open Sample in
theorem attempts_heal_half : (seated.attempts crypto inbox [halfBad]).verify crypto inbox ≠ .ok () ∧
    ((seated.attempts crypto inbox [halfBad]).applyDelta crypto inbox
      (some (inboxDelta [] []))).2.verify crypto inbox = .ok () :=
  ⟨by decide +kernel, attempts_heal (s := seated) (d := inboxDelta [] []) (by decide +kernel) [halfBad]
    (by decide +kernel)⟩

theorem Held.merge (hs : s.Held C parameters) (other : InboxStateV3 Cert) :
    (s.merge C parameters other).2.Held C parameters := by
  rw [InboxStateV3.merge]
  split
  · exact hs
  · exact hs.applyDelta _

end InboxStateV3

end

/-! ## The directory -/

namespace DirectoryStateV4

variable {C : DirectoryCrypto Cert} {parameters : DirectoryParametersV3}
  {s s' : DirectoryStateV4 Cert} {d : DirectoryDeltaV3 Cert}

variable (C parameters) in
/-- A valid state, but for the caps. -/
structure Held (s : DirectoryStateV4 Cert) : Prop where
  sound : s.Sound C parameters
  latch : ∀ cell, s.powDifficulty = some cell → cell.genuine C.toCrypto = true

theorem Valid.held (hs : s.Valid C parameters) : s.Held C parameters := ⟨hs.sound, hs.latch⟩

/-- The listings that are seated are in order, also when a later one stops the loop. -/
theorem Sound.applyListings_snd (hs : s.Sound C parameters)
    (hcbor : Function.Injective C.cborAttestation) {bits : Nat} (hbits : powFloorBits ≤ bits)
    (ls : List (AuthorizedListingV3 Cert)) :
    (DirectoryStateV4.applyListings C parameters bits ls s).2.Sound C parameters := by
  induction ls generalizing s with
  | nil => exact hs
  | cons l ls ih =>
    rcases hs.applyListings_cons hcbor bits l ls with ⟨-, e, he⟩ | ⟨hl, he⟩
    · rw [he]
      exact hs
    · rw [he]
      exact ih (hs.seat_of_passed hbits hl)

/-- What the loop leaves when it ends or stops. -/
theorem Held.applyListings (hs : s.Held C parameters)
    (hcbor : Function.Injective C.cborAttestation) {r : Except String Unit}
    (h : DirectoryStateV4.applyListings C parameters ((s.latched C d).admissionBits C) d.listings
      (s.latched C d) = (r, s')) : s'.Held C parameters := by
  have hlatched : (s.latched C d).Sound C parameters := fun b => hs.sound b
  have hbits : powFloorBits ≤ (s.latched C d).admissionBits C := floor_le_difficultyBits _
  have hsound := hlatched.applyListings_snd hcbor hbits d.listings
  rw [h] at hsound
  refine ⟨hsound, fun cell hc => ?_⟩
  obtain ⟨as, -, rfl⟩ := applyListings_prefix h
  rw [powDifficulty_foldl_seat] at hc
  exact genuine_adoptDifficulty hs.latch cell hc

/-- **An accepted delta makes the directory valid**, whatever was rejected before. -/
theorem Held.valid [DecidableEq Cert] (hs : s.Held C parameters)
    (hcbor : Function.Injective C.cborAttestation)
    (h : s.applyDelta C parameters d = (.ok (), s')) : s'.Valid C parameters := by
  rcases applyDelta_cases C parameters s d with ⟨-, he⟩ | ⟨-, ⟨e, t, -, he⟩ | ⟨t, hloop, he⟩⟩
  · rw [h] at he
    cases he
  · rw [h] at he
    cases he
  · obtain rfl := (Prod.mk.inj (h.symm.trans he)).2
    have ht : t.Held C parameters := hs.applyListings hcbor hloop
    have hlatch : t.canonicalize.powDifficulty = t.powDifficulty := by
      rw [DirectoryStateV4.canonicalize]
    refine ht.sound.canonicalize.valid ht.sound.keyed.capped_canonicalize fun cell hcell => ?_
    rw [hlatch] at hcell
    exact ht.latch cell hcell

theorem Held.applyDelta [DecidableEq Cert] (hs : s.Held C parameters)
    (hcbor : Function.Injective C.cborAttestation) (d : DirectoryDeltaV3 Cert) :
    (s.applyDelta C parameters d).2.Held C parameters := by
  rcases applyDelta_cases C parameters s d with ⟨-, he⟩ | ⟨-, ⟨e, t, hloop, he⟩ | ⟨t, -, he⟩⟩
  · rw [he]
    exact hs
  · rw [he]
    exact hs.applyListings hcbor hloop
  · rw [he]
    exact (hs.valid hcbor he).held

variable (C parameters) in
/-- A copy that deltas were applied to in place, accepted or not. -/
def attempts (s : DirectoryStateV4 Cert) (ds : List (DirectoryDeltaV3 Cert)) :
    DirectoryStateV4 Cert := ds.foldl (fun s d => (s.applyDelta C parameters d).2) s

theorem Held.attempts [DecidableEq Cert] (hs : s.Held C parameters)
    (hcbor : Function.Injective C.cborAttestation) (ds : List (DirectoryDeltaV3 Cert)) :
    (s.attempts C parameters ds).Held C parameters := by
  induction ds generalizing s with
  | nil => exact hs
  | cons d ds ih => exact ih (hs.applyDelta hcbor d)

/-- **The copy of the directory heals**: whatever was rejected before, an accepted delta leaves a
state that `verify` accepts. -/
theorem listings_heal [DecidableEq Cert] (hs : s.verify C parameters = .ok ())
    (hcbor : Function.Injective C.cborAttestation) (ds : List (DirectoryDeltaV3 Cert))
    (h : (s.attempts C parameters ds).applyDelta C parameters d = (.ok (), s')) :
    s'.verify C parameters = .ok () :=
  verify_iff.mpr (((verify_iff.mp hs).held.attempts hcbor ds).valid hcbor h)

open Sample in
theorem listings_heal_half :
    ((listed.attempts directoryCrypto directory [halfListed]).applyDelta directoryCrypto directory
      ⟨[listing 4 3 none 0], none⟩).2.verify directoryCrypto directory = .ok () :=
  listings_heal (s := listed) (d := ⟨[listing 4 3 none 0], none⟩) (by decide +kernel)
    cborAttestation_injective [halfListed] (by decide +kernel)

theorem Held.merge [DecidableEq Cert] (hs : s.Held C parameters)
    (hcbor : Function.Injective C.cborAttestation) (other : DirectoryStateV4 Cert) :
    (s.merge C parameters other).2.Held C parameters := hs.applyDelta hcbor _

end DirectoryStateV4

end Freebird
