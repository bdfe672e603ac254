import Freebird.Directory.Invariant

/-!
# What the shortcuts of the directory save

The loop of `apply_delta` does not look at a listing its slot holds already, and does not verify an
attestation its slot holds already. A loop that checks every listing in full gives the same result
where it gives one (`shortcuts_sound`); and what the shortcuts let pass, it would only have failed on
without seating it (`plain_of_applyDelta`).
-/

namespace Freebird

open AuthorizedListingV3

variable {Cert : Type} {C : DirectoryCrypto Cert} {parameters : DirectoryParametersV3}

namespace DirectoryStateV4

variable {s s' : DirectoryStateV4 Cert} {d : DirectoryDeltaV3 Cert}
  {ls : List (AuthorizedListingV3 Cert)} {l : AuthorizedListingV3 Cert} {bits : Nat}

variable (C) in
/-- The loop of `apply_delta` without shortcuts: every listing is checked in full. -/
def plainListings (parameters : DirectoryParametersV3) (bits : Nat) :
    List (AuthorizedListingV3 Cert) → DirectoryStateV4 Cert →
      Except String Unit × DirectoryStateV4 Cert
  | [], self => (.ok (), self)
  | l :: ls, self =>
    match l.check C parameters.ghostkeyMaster with
    | .error e => (.error e, self)
    | .ok () =>
      if l.isAnon ∧ !meetsDirectory C.toCrypto l.listing.author l.powNonce bits then
        plainListings parameters bits ls self
      else plainListings parameters bits ls (self.admitListing C l)

variable (C) in
/-- `apply_delta` without shortcuts. -/
def plainApplyDelta (self : DirectoryStateV4 Cert) (parameters : DirectoryParametersV3)
    (delta : DirectoryDeltaV3 Cert) : Except String Unit × DirectoryStateV4 Cert :=
  if maxListings + anonListings < delta.listings.length then
    (.error "listing delta too large", self)
  else
    let self := { self with
      powDifficulty := adoptDifficulty C.toCrypto self.powDifficulty delta.powDifficulty }
    match plainListings C parameters (self.admissionBits C) delta.listings self with
    | (.error e, self) => (.error e, self)
    | (.ok (), self) => (.ok (), self.canonicalize)

theorem plainListings_cons : plainListings C parameters bits (l :: ls) s =
    match l.check C parameters.ghostkeyMaster with
    | .error e => (.error e, s)
    | .ok () => plainListings C parameters bits ls (s.seat C bits l) := by
  rw [plainListings]
  simp only [below_iff, seat]
  cases l.clears C bits <;> rfl

/-- The plain loop succeeds on listings that all pass their check, and seats every one of them. -/
theorem plainListings_eq_ok : plainListings C parameters bits ls s = (.ok (), s') ↔
    (∀ l ∈ ls, l.check C parameters.ghostkeyMaster = .ok ()) ∧ ls.foldl (seat C bits) s = s' := by
  induction ls generalizing s with
  | nil => simp [plainListings]
  | cons l ls ih =>
    rw [plainListings_cons, List.forall_mem_cons, List.foldl_cons]
    cases hl : l.check C parameters.ghostkeyMaster with
    | error e => simp
    | ok u => simp [ih]

theorem plainApplyDelta_eq_ok : s.plainApplyDelta C parameters d = (.ok (), s') ↔
    d.listings.length ≤ maxListings + anonListings ∧
      (∀ l ∈ d.listings, l.check C parameters.ghostkeyMaster = .ok ()) ∧
      (s.seated C d).canonicalize = s' := by
  simp only [plainApplyDelta]
  constructor
  · intro h
    split at h
    · simp at h
    · rename_i hlen
      split at h
      · simp at h
      · rename_i t ht
        obtain ⟨hls, rfl⟩ := plainListings_eq_ok.mp ht
        exact ⟨not_lt.mp hlen, hls, (Prod.mk.inj h).2⟩
  · rintro ⟨hlen, hls, rfl⟩
    rw [if_neg (not_lt.mpr hlen), plainListings_eq_ok.mpr ⟨hls, rfl⟩]
    rfl

/-- **The shortcuts are only an optimisation**: where the plain version succeeds, `apply_delta` does,
with the same state. The state need not even verify. -/
theorem shortcuts_sound (h : s.plainApplyDelta C parameters d = (.ok (), s')) :
    s.applyDelta C parameters d = (.ok (), s') := by
  obtain ⟨hlen, hls, rfl⟩ := plainApplyDelta_eq_ok.mp h
  exact applyDelta_ok hlen hls

end DirectoryStateV4

namespace Sample

/-- The author of `listed` publishes twice more with the attestation seated, and another author
once. -/
def republished : DirectoryDeltaV3 VerifyingKey :=
  ⟨[listing 1 7 (some 7) 0, listing 2 3 (some 8) 0, listing 1 6 (some 7) 0], none⟩

end Sample

namespace DirectoryStateV4

open Sample in
theorem shortcuts_sound_republished :
    listed.applyDelta directoryCrypto directory republished =
      (.ok (), (listed.plainApplyDelta directoryCrypto directory republished).2) :=
  shortcuts_sound (by decide +kernel)

variable {s s' : DirectoryStateV4 Cert} {d : DirectoryDeltaV3 Cert}
  {ls : List (AuthorizedListingV3 Cert)} {l : AuthorizedListingV3 Cert} {bits : Nat}

/-- A sound state stays sound as the loop goes on, so an attestation that is skipped was verified:
every listing that is seated passes its check. -/
theorem plainListings_of_sound (hs : s.Sound C parameters)
    (hcbor : Function.Injective C.cborAttestation) (hbits : powFloorBits ≤ bits)
    (h : applyListings C parameters bits ls s = (.ok (), s')) :
    plainListings C parameters bits
      (ls.filter fun l => l.check C parameters.ghostkeyMaster = .ok ()) s = (.ok (), s') := by
  induction ls generalizing s with
  | nil => exact h
  | cons l ls ih =>
    rw [applyListings_cons] at h
    by_cases hold : s.holds C l = true
    · rw [if_pos hold] at h
      by_cases hl : l.check C parameters.ghostkeyMaster = .ok ()
      · rw [List.filter_cons_of_pos (by simpa using hl), plainListings_cons, hl]
        simp only [seat_of_holds hold]
        exact ih hs h
      · rw [List.filter_cons_of_neg (by simpa using hl)]
        exact ih hs h
    · rw [if_neg hold] at h
      split at h
      · simp at h
      · rename_i hskip
        have hl := hs.check hcbor hskip
        rw [List.filter_cons_of_pos (by simpa using hl), plainListings_cons, hl]
        exact ih (hs.seat hbits hl) h

/-- What the shortcuts let pass is left out: a successful `apply_delta` is the plain version on the
listings that pass their check. -/
theorem Valid.plain_of_applyDelta (hs : s.Valid C parameters)
    (hcbor : Function.Injective C.cborAttestation)
    (h : s.applyDelta C parameters d = (.ok (), s')) :
    s.plainApplyDelta C parameters
      { d with listings := d.listings.filter fun l => l.check C parameters.ghostkeyMaster = .ok () } =
        (.ok (), s') := by
  simp only [DirectoryStateV4.applyDelta] at h
  split at h
  · simp at h
  · rename_i hlen
    split at h
    · simp at h
    · rename_i t ht
      have hsound : (s.latched C d).Sound C parameters := fun b => hs.sound b
      have hplain := plainListings_of_sound hsound hcbor (floor_le_difficultyBits _) ht
      obtain ⟨hls, hfold⟩ := plainListings_eq_ok.mp hplain
      refine plainApplyDelta_eq_ok.mpr ⟨?_, hls, ?_⟩
      · exact (List.length_filter_le _ _).trans (not_lt.mp hlen)
      · rw [← (Prod.mk.inj h).2, ← hfold]
        rfl

end DirectoryStateV4

end Freebird
