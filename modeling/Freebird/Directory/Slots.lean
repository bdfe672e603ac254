import Freebird.Directory.State

/-!
# Slots of the directory

What `verify` accepts (`verify_iff`), and what `apply_delta` does to each slot: the loop leaves the
newest of the version held and the versions offered that clear the bar (`applyListings_slot`), and
the caps then evict by age. A delta of replayed listings is harmless exactly if it carries no newer
version (`tiers_unchanged_iff`).
-/

namespace Freebird

open Retention AuthorizedListingV3

variable {Cert : Type} {C : DirectoryCrypto Cert} {parameters : DirectoryParametersV3}

namespace AuthorizedListingV3

variable {l h : AuthorizedListingV3 Cert}

/-- A listing that passes `check` passes it with any attestation skipped. -/
theorem checkSkipping_eq_ok {master : VerifyingKey} (hl : l.check C master = .ok ())
    (known : Option (AttestationV2 Cert)) : l.checkSkipping C master known = .ok () := by
  simp only [check, checkSkipping, bind_eq_ok] at hl ⊢
  obtain ⟨vk, hvk, u, hsig, hatt⟩ := hl
  refine ⟨vk, hvk, u, hsig, ?_⟩
  cases ha : l.attestation with
  | none => rfl
  | some att =>
    simp only [ha, Option.any_none, Bool.false_eq_true, if_false] at hatt ⊢
    by_cases hk : known.any fun k => k.canonicalBytes C.toCrypto = att.canonicalBytes C.toCrypto
    · rw [if_pos hk]; rfl
    · rw [if_neg hk]; exact hatt

variable (C) in
/-- The listing may be admitted under a bar of `bits`. -/
def clears (bits : Nat) (l : AuthorizedListingV3 Cert) : Bool :=
  !l.isAnon || meetsDirectory C.toCrypto l.listing.author l.powNonce bits

end AuthorizedListingV3

/-! ## Versions of one slot -/

variable (C) in
/-- The version a slot holds after another one was offered. -/
def newerListing (held : Option (AuthorizedListingV3 Cert)) (l : AuthorizedListingV3 Cert) :
    Option (AuthorizedListingV3 Cert) :=
  if held.any fun h => l.lwwKey C ≤ h.lwwKey C then held else some l

section
variable {held : Option (AuthorizedListingV3 Cert)} {l h x : AuthorizedListingV3 Cert}
  {ls : List (AuthorizedListingV3 Cert)}

theorem newerListing_some (h l : AuthorizedListingV3 Cert) : newerListing C (some h) l =
    if l.lwwKey C ≤ h.lwwKey C then some h else some l := by
  simp [newerListing]

/-- A slot never goes back to an older version. -/
theorem le_foldl_newer (ls : List (AuthorizedListingV3 Cert)) (hh : held = some h) :
    ∃ x, ls.foldl (newerListing C) held = some x ∧ h.lwwKey C ≤ x.lwwKey C := by
  induction ls generalizing held h with
  | nil => exact ⟨h, hh, le_rfl⟩
  | cons l ls ih =>
    subst hh
    rw [List.foldl_cons, newerListing_some]
    split
    · exact ih rfl
    · rename_i hlt
      obtain ⟨x, hx, hle⟩ := ih (h := l) rfl
      exact ⟨x, hx, (not_le.mp hlt).le.trans hle⟩

/-- The slot ends with a version that is no older than any that was offered. -/
theorem le_foldl_newer_of_mem (hl : l ∈ ls) :
    ∃ x, ls.foldl (newerListing C) held = some x ∧ l.lwwKey C ≤ x.lwwKey C := by
  induction ls generalizing held with
  | nil => cases hl
  | cons a ls ih =>
    rcases List.mem_cons.mp hl with rfl | hl
    · rw [List.foldl_cons]
      by_cases hany : held.any fun h => l.lwwKey C ≤ h.lwwKey C
      · obtain ⟨h, hh, hle⟩ := (Option.any_eq_true _ _).mp hany
        have hnewer : newerListing C held l = some h := by rw [newerListing, if_pos hany, hh]
        obtain ⟨x, hx, hle'⟩ := le_foldl_newer _ hnewer
        exact ⟨x, hx, (of_decide_eq_true hle).trans hle'⟩
      · exact le_foldl_newer _ (by rw [newerListing, if_neg hany])
    · exact ih hl

/-- The slot ends with the version it held or with one of those offered. -/
theorem mem_of_foldl_newer (hx : ls.foldl (newerListing C) held = some x) :
    held = some x ∨ x ∈ ls := by
  induction ls generalizing held with
  | nil => exact .inl hx
  | cons l ls ih =>
    rcases ih hx with h | h
    · unfold newerListing at h
      split at h
      · exact .inl h
      · exact .inr (Option.some.inj h ▸ List.mem_cons_self)
    · exact .inr (List.mem_cons_of_mem _ h)

/-- Older versions leave the slot alone. -/
theorem foldl_newer_of_le (h : ∀ l ∈ ls, held.any fun h => l.lwwKey C ≤ h.lwwKey C) :
    ls.foldl (newerListing C) held = held := by
  induction ls with
  | nil => rfl
  | cons l ls ih =>
    obtain ⟨hl, hls⟩ := List.forall_mem_cons.mp h
    rw [List.foldl_cons, newerListing, if_pos hl]
    exact ih hls

end

namespace DirectoryStateV4

variable {s s' t : DirectoryStateV4 Cert} {l h : AuthorizedListingV3 Cert}
  {ls : List (AuthorizedListingV3 Cert)} {d : DirectoryDeltaV3 Cert} {bits : Nat}

/-! ## The loop of `apply_delta` -/

variable (C) in
/-- What a listing that passes its check does to the state. -/
def seat (bits : Nat) (s : DirectoryStateV4 Cert) (l : AuthorizedListingV3 Cert) :
    DirectoryStateV4 Cert :=
  if l.clears C bits then s.admitListing C l else s

/-- The loops skip a listing below the bar. -/
theorem below_iff : (l.isAnon = true ∧
    (!meetsDirectory C.toCrypto l.listing.author l.powNonce bits) = true) ↔
      l.clears C bits = false := by
  rw [clears]
  cases l.isAnon <;> simp

theorem applyListings_cons : applyListings C parameters bits (l :: ls) s =
    if s.holds C l then applyListings C parameters bits ls s
    else match l.checkSkipping C parameters.ghostkeyMaster
        ((s.tier l.isAnon)[l.listing.author]?.bind (·.attestation)) with
      | .error e => (.error e, s)
      | .ok () => applyListings C parameters bits ls (s.seat C bits l) := by
  rw [applyListings]
  simp only [below_iff, seat]
  cases l.clears C bits <;> rfl

/-- A directory holds the same version or a newer one. -/
theorem holds_iff : s.holds C l = true ↔
    ∃ h, (s.tier l.isAnon)[l.listing.author]? = some h ∧ l.lwwKey C ≤ h.lwwKey C := by
  rw [holds, Option.any_eq_true]
  simp

/-- A listing the slot holds already is skipped, which is what seating it would do. -/
theorem seat_of_holds (h : s.holds C l = true) : s.seat C bits l = s := by
  rw [seat, admitListing, if_pos h, ite_self]

/-- A successful loop seats every listing in turn. -/
theorem applyListings_eq_ok (h : applyListings C parameters bits ls s = (.ok (), s')) :
    ls.foldl (seat C bits) s = s' := by
  induction ls generalizing s with
  | nil => exact (Prod.mk.inj h).2
  | cons l ls ih =>
    rw [List.foldl_cons]
    rw [applyListings_cons] at h
    by_cases hold : s.holds C l = true
    · rw [if_pos hold] at h
      rw [seat_of_holds hold]
      exact ih h
    · rw [if_neg hold] at h
      split at h
      · simp at h
      · exact ih h

/-- Listings that pass their check never make the loop fail. -/
theorem applyListings_ok (hls : ∀ l ∈ ls, l.check C parameters.ghostkeyMaster = .ok ()) :
    applyListings C parameters bits ls s = (.ok (), ls.foldl (seat C bits) s) := by
  induction ls generalizing s with
  | nil => rfl
  | cons l ls ih =>
    obtain ⟨hl, hls⟩ := List.forall_mem_cons.mp hls
    rw [applyListings_cons, checkSkipping_eq_ok hl, List.foldl_cons]
    split
    · rename_i hold
      rw [seat_of_holds hold]
      exact ih hls
    · exact ih hls

theorem tier_admitListing (hnew : ¬ s.holds C l = true) (b : Bool) : (s.admitListing C l).tier b =
    if b = l.isAnon then (s.tier b).insert l.listing.author l else s.tier b := by
  rw [admitListing, if_neg hnew]
  cases b <;> cases l.isAnon <;> rfl

/-- What the slot `(b, k)` is offered. -/
def offeredTo (C : DirectoryCrypto Cert) (bits : Nat) (b : Bool) (k : Bytes 32)
    (l : AuthorizedListingV3 Cert) : Bool :=
  l.clears C bits && l.isAnon = b && l.listing.author = k

theorem seat_slot (b : Bool) (k : Bytes 32) : ((s.seat C bits l).tier b)[k]? =
    if offeredTo C bits b k l then newerListing C (s.tier b)[k]? l else (s.tier b)[k]? := by
  by_cases hclears : l.clears C bits = true
  · have hoff : offeredTo C bits b k l = true ↔ b = l.isAnon ∧ k = l.listing.author := by
      rw [offeredTo, hclears]
      simp only [Bool.true_and, Bool.and_eq_true, decide_eq_true_eq, eq_comm (a := b),
        eq_comm (a := k)]
    rw [seat, if_pos hclears, if_congr hoff rfl rfl]
    by_cases hold : s.holds C l = true
    · rw [admitListing, if_pos hold]
      split
      · rename_i hbk
        obtain ⟨rfl, rfl⟩ := hbk
        exact (if_pos hold).symm
      · rfl
    · rw [tier_admitListing hold]
      by_cases hb : b = l.isAnon
      · subst hb
        rw [if_pos rfl, Std.ExtTreeMap.getElem?_insert]
        by_cases hk : k = l.listing.author
        · subst hk
          rw [if_pos (by simp), if_pos ⟨rfl, rfl⟩]
          exact (if_neg hold).symm
        · rw [if_neg (by simpa using Ne.symm hk), if_neg fun h => hk h.2]
      · rw [if_neg hb, if_neg fun h => hb h.1]
  · have hoff : offeredTo C bits b k l = false := by simp [offeredTo, hclears]
    rw [seat, if_neg hclears, hoff]
    rfl

@[simp] theorem powDifficulty_seat : (s.seat C bits l).powDifficulty = s.powDifficulty := by
  unfold seat admitListing
  split
  · split
    · rfl
    · split <;> rfl
  · rfl

theorem powDifficulty_foldl_seat : (ls.foldl (seat C bits) s).powDifficulty = s.powDifficulty := by
  induction ls generalizing s with
  | nil => rfl
  | cons l ls ih => rw [List.foldl_cons, ih, powDifficulty_seat]

/-- **One slot**: the loop leaves the newest version. -/
theorem foldl_seat_slot (b : Bool) (k : Bytes 32) : ((ls.foldl (seat C bits) s).tier b)[k]? =
    (ls.filter (offeredTo C bits b k)).foldl (newerListing C) (s.tier b)[k]? := by
  induction ls generalizing s with
  | nil => rfl
  | cons l ls ih =>
    rw [List.foldl_cons, ih, seat_slot, List.filter_cons]
    split <;> rfl

/-! ## One call -/

variable (C) in
/-- The latch after a delta. -/
def latched (s : DirectoryStateV4 Cert) (d : DirectoryDeltaV3 Cert) : DirectoryStateV4 Cert :=
  { s with powDifficulty := adoptDifficulty C.toCrypto s.powDifficulty d.powDifficulty }

variable (C) in
/-- The state before the caps are enforced. -/
def seated (s : DirectoryStateV4 Cert) (d : DirectoryDeltaV3 Cert) : DirectoryStateV4 Cert :=
  d.listings.foldl (seat C ((s.latched C d).admissionBits C)) (s.latched C d)

theorem applyDelta_eq_ok (h : s.applyDelta C parameters d = (.ok (), s')) :
    s' = (s.seated C d).canonicalize := by
  simp only [applyDelta] at h
  split at h
  · simp at h
  · split at h
    · simp at h
    · rename_i t ht
      rw [seated, latched, applyListings_eq_ok ht]
      exact (Prod.mk.inj h).2.symm

/-- A delta of bounded size whose listings all pass their check is applied. -/
theorem applyDelta_ok (hlen : d.listings.length ≤ maxListings + anonListings)
    (hls : ∀ l ∈ d.listings, l.check C parameters.ghostkeyMaster = .ok ()) :
    s.applyDelta C parameters d = (.ok (), (s.seated C d).canonicalize) := by
  simp only [applyDelta, if_neg (not_lt.mpr hlen), applyListings_ok hls]
  rfl

theorem seated_slot (b : Bool) (k : Bytes 32) : ((s.seated C d).tier b)[k]? =
    (d.listings.filter (offeredTo C ((s.latched C d).admissionBits C) b k)).foldl
      (newerListing C) (s.tier b)[k]? := by
  rw [seated, foldl_seat_slot]
  cases b <;> rfl

/-- Tiers within their caps are left alone. -/
theorem canonicalize_of_le (ha : s.attested.size ≤ maxListings)
    (hn : s.anon.size ≤ s.effectiveAnonShare) : s.canonicalize = s := by
  have hevict : evictOldest (s.attested.size - maxListings) s.attested = s.attested := by
    rw [Nat.sub_eq_zero_of_le ha, evictOldest]
  simp only [canonicalize, hevict]
  rw [Nat.sub_eq_zero_of_le hn, evictOldest]

/-! ## What `verify` accepts -/

variable (C) in
structure Valid (parameters : DirectoryParametersV3) (s : DirectoryStateV4 Cert) : Prop where
  latch : ∀ cell, s.powDifficulty = some cell → cell.genuine C.toCrypto = true
  listed : ∀ (b : Bool) (k : Bytes 32) (l : AuthorizedListingV3 Cert), (s.tier b)[k]? = some l →
    l.listing.author = k ∧ l.isAnon = b ∧ l.check C parameters.ghostkeyMaster = .ok ()
  floor : ∀ (k : Bytes 32) (l : AuthorizedListingV3 Cert), s.anon[k]? = some l →
    meetsDirectory C.toCrypto k l.powNonce powFloorBits = true
  attested_le : s.attested.size ≤ maxListings
  anon_le : s.anon.size ≤ s.effectiveAnonShare

theorem forM_tier_eq_ok {m : Tier Cert} {f : Bytes 32 × AuthorizedListingV3 Cert → Except String Unit} :
    m.toList.forM f = .ok () ↔ ∀ (k : Bytes 32) (l : AuthorizedListingV3 Cert), m[k]? = some l →
      f (k, l) = .ok () := by
  rw [forM_eq_ok]
  simp only [Prod.forall, Std.ExtTreeMap.mem_toList_iff_getElem?_eq_some]

theorem verify_iff : s.verify C parameters = .ok () ↔ s.Valid C parameters := by
  have hparts : s.verify C parameters = .ok () ↔
      (∀ cell, s.powDifficulty = some cell → cell.genuine C.toCrypto = true) ∧
      s.attested.size ≤ maxListings ∧ s.anon.size ≤ s.effectiveAnonShare ∧
      (∀ (k : Bytes 32) (l : AuthorizedListingV3 Cert), s.attested[k]? = some l →
        l.listing.author = k ∧ l.isAnon = false ∧ l.check C parameters.ghostkeyMaster = .ok ()) ∧
      ∀ (k : Bytes 32) (l : AuthorizedListingV3 Cert), s.anon[k]? = some l →
        l.listing.author = k ∧ l.isAnon = true ∧ l.check C parameters.ghostkeyMaster = .ok () ∧
          meetsDirectory C.toCrypto k l.powNonce powFloorBits = true := by
    have hfloor (k : Bytes 32) (l : AuthorizedListingV3 Cert) :
        (if !meetsDirectory C.toCrypto k l.powNonce powFloorBits then
          (throw "anonymous listing below the proof-of-work floor" : Except String Unit)
        else pure ()) = .ok () ↔ meetsDirectory C.toCrypto k l.powNonce powFloorBits = true := by
      cases meetsDirectory C.toCrypto k l.powNonce powFloorBits <;> simp [pure_eq_ok, throw_ne_ok]
    rw [verify]
    cases s.powDifficulty with
    | none =>
      simp only [seq_eq_ok, throw_bind, guard_eq_ok, forM_tier_eq_ok, not_lt, not_not, hfloor,
        Bool.not_eq_true, Bool.not_eq_false', eq_comm (b := (_ : Bytes 32)), reduceCtorEq,
        false_implies, implies_true, true_and]
    | some cell =>
      simp only [seq_eq_ok, throw_bind, guard_eq_ok, forM_tier_eq_ok, not_lt, not_not, hfloor,
        Bool.not_eq_true, Bool.not_eq_false', mapErr_eq_ok, eq_comm (b := (_ : Bytes 32)),
        Option.some.injEq, forall_eq', SignedCellV1.genuine_iff]
  rw [hparts]
  constructor
  · rintro ⟨hl, ha, hn, hla, hln⟩
    refine ⟨hl, fun b k l h => ?_, fun k l h => (hln k l h).2.2.2, ha, hn⟩
    cases b
    · exact hla k l h
    · exact ⟨(hln k l h).1, (hln k l h).2.1, (hln k l h).2.2.1⟩
  · rintro ⟨hl, hls, hf, ha, hn⟩
    refine ⟨hl, ha, hn, fun k l h => hls false k l h, fun k l h => ?_⟩
    obtain ⟨hauthor, htier, hcheck⟩ := hls true k l h
    exact ⟨hauthor, htier, hcheck, hf k l h⟩

theorem Valid.canonicalize (h : s.Valid C parameters) : s.canonicalize = s :=
  canonicalize_of_le h.attested_le h.anon_le

/-! ## Replayed listings -/

/-- Every listing of the delta has what the author signed in common with the version its slot
holds. -/
def Replays (s : DirectoryStateV4 Cert) (d : DirectoryDeltaV3 Cert) : Prop :=
  ∀ l ∈ d.listings, ∃ h, (s.tier l.isAnon)[l.listing.author]? = some h ∧
    l.listing = h.listing ∧ l.attestation = h.attestation ∧ l.signature = h.signature

/-- A replay seats no new slot, so the tiers keep their sizes. -/
theorem Replays.mem_seated (hd : s.Replays d) (b : Bool) (k : Bytes 32) :
    k ∈ (s.seated C d).tier b ↔ k ∈ s.tier b := by
  rw [Map.mem_iff, Map.mem_iff, seated_slot]
  constructor
  · rintro ⟨x, hx⟩
    rcases mem_of_foldl_newer hx with hheld | hx
    · exact ⟨x, hheld⟩
    · obtain ⟨hmem, hoff⟩ := List.mem_filter.mp hx
      simp only [offeredTo, Bool.and_eq_true, decide_eq_true_eq] at hoff
      obtain ⟨⟨-, rfl⟩, rfl⟩ := hoff
      obtain ⟨h, hheld, -⟩ := hd x hmem
      exact ⟨h, hheld⟩
  · rintro ⟨h, hheld⟩
    obtain ⟨x, hx, -⟩ := le_foldl_newer _ hheld
    exact ⟨x, hx⟩

theorem Replays.canonicalize (hd : s.Replays d) (hs : s.Valid C parameters) :
    (s.seated C d).canonicalize = s.seated C d := by
  have hsize (b : Bool) : ((s.seated C d).tier b).size = (s.tier b).size :=
    Map.size_eq_of_mem_iff (hd.mem_seated b)
  have ha : (s.seated C d).attested.size = s.attested.size := hsize false
  have hn : (s.seated C d).anon.size = s.anon.size := hsize true
  refine canonicalize_of_le (ha ▸ hs.attested_le) ?_
  rw [effectiveAnonShare, ha, hn]
  exact hs.anon_le

/-- **A replay leaves the directory alone exactly if no version in it is newer than the one held and
clears the bar.** -/
theorem tiers_unchanged_iff (hs : s.verify C parameters = .ok ()) (hd : s.Replays d)
    (h : s.applyDelta C parameters d = (.ok (), s')) :
    (s'.attested = s.attested ∧ s'.anon = s.anon) ↔
      ∀ l ∈ d.listings, ∀ h, (s.tier l.isAnon)[l.listing.author]? = some h →
        l.lwwKey C ≤ h.lwwKey C ∨ l.isAnon = true ∧ meetsDirectory C.toCrypto l.listing.author
          l.powNonce (difficultyBits C.toCrypto
            (adoptDifficulty C.toCrypto s.powDifficulty d.powDifficulty)) = false := by
  have hs := verify_iff.mp hs
  rw [applyDelta_eq_ok h, hd.canonicalize hs]
  have htiers : ((s.seated C d).attested = s.attested ∧ (s.seated C d).anon = s.anon) ↔
      ∀ b, (s.seated C d).tier b = s.tier b := by
    rw [Bool.forall_bool]; rfl
  have hbar (l : AuthorizedListingV3 Cert) : l.clears C ((s.latched C d).admissionBits C) = false ↔
      l.isAnon = true ∧ meetsDirectory C.toCrypto l.listing.author l.powNonce
        (difficultyBits C.toCrypto
          (adoptDifficulty C.toCrypto s.powDifficulty d.powDifficulty)) = false := by
    rw [clears]
    cases l.isAnon
    · simp
    · simp [admissionBits, latched]
  simp only [htiers, ← hbar]
  constructor
  · intro heq l hl held hheld
    by_contra! hnew
    obtain ⟨hlt, hclears⟩ := hnew
    have hoff : offeredTo C ((s.latched C d).admissionBits C) l.isAnon l.listing.author l = true := by
      simp [offeredTo, hclears]
    obtain ⟨x, hx, hle⟩ : ∃ x, ((s.seated C d).tier l.isAnon)[l.listing.author]? = some x ∧
        l.lwwKey C ≤ x.lwwKey C := by
      rw [seated_slot]
      exact le_foldl_newer_of_mem (List.mem_filter.mpr ⟨hl, hoff⟩)
    rw [heq, hheld] at hx
    exact absurd hle (not_le.mpr (Option.some.inj hx ▸ hlt))
  · intro hold b
    refine Std.ExtTreeMap.ext_getElem? fun k => ?_
    rw [seated_slot]
    refine foldl_newer_of_le fun l hl => ?_
    obtain ⟨hmem, hoff⟩ := List.mem_filter.mp hl
    simp only [offeredTo, Bool.and_eq_true, decide_eq_true_eq] at hoff
    obtain ⟨⟨hclears, rfl⟩, rfl⟩ := hoff
    obtain ⟨held, hheld, -⟩ := hd l hmem
    rw [hheld]
    simpa [hclears] using hold l hmem held hheld

end DirectoryStateV4

namespace Sample

/-- An attested listing as its author published it. -/
def listed : DirectoryStateV4 VerifyingKey := directoryState [listing 1 5 (some 7) 1] none

/-- The listing of `listed` with another proof-of-work nonce. -/
def replay (nonce : U64) : DirectoryDeltaV3 VerifyingKey := ⟨[listing 1 5 (some 7) nonce], none⟩

end Sample

namespace DirectoryStateV4

open Sample

theorem replays_replay (nonce : U64) : listed.Replays (replay nonce) := by
  intro l hl
  obtain rfl := List.mem_singleton.mp hl
  have hheld : (listed.tier false)[bytes 32 1]? = some (listing 1 5 (some 7) 1) := by decide +kernel
  exact ⟨listing 1 5 (some 7) 1, hheld, rfl, rfl, rfl⟩

theorem tiers_unchanged_iff_lower_nonce :
    let s' := (listed.applyDelta directoryCrypto directory (replay 0)).2
    (s'.attested = listed.attested ∧ s'.anon = listed.anon) ↔
      ∀ l ∈ (replay 0).listings, ∀ h, (listed.tier l.isAnon)[l.listing.author]? = some h →
        l.lwwKey directoryCrypto ≤ h.lwwKey directoryCrypto ∨ l.isAnon = true ∧
          meetsDirectory crypto l.listing.author l.powNonce
            (difficultyBits crypto (adoptDifficulty crypto none none)) = false :=
  tiers_unchanged_iff (C := directoryCrypto) (by decide +kernel : listed.verify _ directory = .ok ())
    (replays_replay 0) (by decide +kernel)

/-- A higher nonce, which nobody signed, replaces the seated listing. -/
theorem replay_replaces : listed.verify directoryCrypto directory = .ok () ∧
    listed.Replays (replay 2) ∧
    (listed.applyDelta directoryCrypto directory (replay 2)).1 = .ok () ∧
    (listed.applyDelta directoryCrypto directory (replay 2)).2.attested ≠ listed.attested :=
  ⟨by decide +kernel, replays_replay 2, by decide +kernel, by decide +kernel⟩

end DirectoryStateV4

end Freebird
