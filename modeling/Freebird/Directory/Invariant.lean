import Freebird.Directory.Caps

/-!
# `apply_delta` preserves validity

`apply_delta` skips the check of a listing that its slot holds already, and the verification of an
attestation that its slot holds already. Neither lets an unchecked listing in: the first one is
dropped, and the second one was verified for the same author (`check_of_skipping`). With the caps
restored at the end, a successful call leaves a state that `verify` accepts.
-/

namespace Freebird

open AuthorizedListingV3

variable {Cert : Type} {C : DirectoryCrypto Cert} {parameters : DirectoryParametersV3}

namespace AuthorizedListingV3

variable {l h : AuthorizedListingV3 Cert}

/-- An attestation that passed for the listing held passes for the next one of the author. -/
theorem check_of_skipping (hcbor : Function.Injective C.cborAttestation)
    (hh : h.check C master = .ok ()) (ha : h.listing.author = l.listing.author)
    (hl : l.checkSkipping C master h.attestation = .ok ()) : l.check C master = .ok () := by
  simp only [check, checkSkipping, bind_eq_ok, mapErr_eq_ok] at hh hl ⊢
  obtain ⟨vk, hvk, u, hsig, hatt⟩ := hl
  refine ⟨vk, hvk, u, hsig, ?_⟩
  cases hla : l.attestation with
  | none => rfl
  | some att =>
    simp only [hla] at hatt
    cases hha : h.attestation with
    | none => simpa [hha] using hatt
    | some known =>
      rw [hha, Option.any_some] at hatt
      by_cases hk : known.canonicalBytes C.toCrypto = att.canonicalBytes C.toCrypto
      · -- The attestation held is the same, and was verified under the same key.
        obtain rfl : known = att := hcbor hk
        obtain ⟨vk', hvk', -, -, hknown⟩ := hh
        rw [ha, hvk] at hvk'
        obtain rfl := Except.ok.inj hvk'
        simpa [hha] using hknown
      · simpa [hk] using hatt

/-- A listing in order has a genuine attestation for its author. -/
theorem attestation_verified (hl : l.check C master = .ok ()) (ha : l.attestation = some att) :
    ∃ vk tier, C.keyFromBytes l.listing.author = .ok vk ∧
      att.verify C.toCrypto vk master = .ok tier := by
  simp only [check, checkSkipping, bind_eq_ok, mapErr_eq_ok, ha, Option.any_none,
    Bool.false_eq_true, if_false] at hl
  obtain ⟨vk, hvk, -, -, tier, htier, -⟩ := hl
  exact ⟨vk, tier, hvk, htier⟩

end AuthorizedListingV3

namespace DirectoryStateV4

variable {s s' : DirectoryStateV4 Cert} {d : DirectoryDeltaV3 Cert}
  {ls : List (AuthorizedListingV3 Cert)} {l : AuthorizedListingV3 Cert} {bits : Nat}

variable (C) in
/-- What `verify` asks of each slot. -/
structure Listed (parameters : DirectoryParametersV3) (b : Bool) (k : Bytes 32)
    (l : AuthorizedListingV3 Cert) : Prop where
  author : l.listing.author = k
  tier : l.isAnon = b
  checked : l.check C parameters.ghostkeyMaster = .ok ()
  floor : l.clears C powFloorBits = true

variable (C) in
/-- A valid state, but for the caps. -/
def Sound (parameters : DirectoryParametersV3) (s : DirectoryStateV4 Cert) : Prop :=
  ∀ (b : Bool) (k : Bytes 32) (l : AuthorizedListingV3 Cert), (s.tier b)[k]? = some l →
    Listed C parameters b k l

theorem Valid.sound (hs : s.Valid C parameters) : s.Sound C parameters := by
  intro b k l hl
  obtain ⟨hauthor, htier, hcheck⟩ := hs.listed b k l hl
  refine ⟨hauthor, htier, hcheck, ?_⟩
  cases b with
  | false => rw [clears, htier]; rfl
  | true => rw [clears, hauthor, hs.floor k l hl, Bool.or_true]

theorem Sound.keyed (hs : s.Sound C parameters) : s.Keyed :=
  fun b k l hl => ⟨(hs b k l hl).author, (hs b k l hl).tier⟩

theorem Sound.valid (hs : s.Sound C parameters) (hcap : s.Capped)
    (hlatch : ∀ cell, s.powDifficulty = some cell → cell.genuine C.toCrypto = true) :
    s.Valid C parameters where
  latch := hlatch
  listed b k l hl := ⟨(hs b k l hl).author, (hs b k l hl).tier, (hs b k l hl).checked⟩
  floor k l hl := by
    have h := hs true k l hl
    have hclears := h.floor
    rw [clears, h.tier, h.author] at hclears
    exact hclears
  attested_le := hcap false
  anon_le := hcap true

theorem Sound.canonicalize (hs : s.Sound C parameters) : s.canonicalize.Sound C parameters :=
  fun b k l hl => hs b k l (getElem?_of_canonicalize hl)

/-- Clearing a bar is clearing every lower one. -/
theorem clears_mono (hle : bits ≤ bits') (h : l.clears C bits' = true) :
    l.clears C bits = true := by
  rw [clears, Bool.or_eq_true] at h ⊢
  exact h.imp_right (meets_mono hle)

/-- Seating a listing in order keeps every slot in order. -/
theorem Sound.seat (hs : s.Sound C parameters) (hbits : powFloorBits ≤ bits)
    (hl : l.check C parameters.ghostkeyMaster = .ok ()) : (s.seat C bits l).Sound C parameters := by
  intro b k x hx
  rw [seat_slot] at hx
  by_cases hoff : offeredTo C bits b k l = true
  · rw [if_pos hoff, newerListing] at hx
    split at hx
    · exact hs b k x hx
    · obtain rfl := Option.some.inj hx
      simp only [offeredTo, Bool.and_eq_true, decide_eq_true_eq] at hoff
      obtain ⟨⟨hclears, htier⟩, hauthor⟩ := hoff
      exact ⟨hauthor, htier, hl, clears_mono hbits hclears⟩
  · rw [if_neg hoff] at hx
    exact hs b k x hx

/-- A listing that the loop seats is in order. -/
theorem Sound.check (hs : s.Sound C parameters) (hcbor : Function.Injective C.cborAttestation)
    (hl : l.checkSkipping C parameters.ghostkeyMaster
      ((s.tier l.isAnon)[l.listing.author]?.bind (·.attestation)) = .ok ()) :
    l.check C parameters.ghostkeyMaster = .ok () := by
  cases hheld : (s.tier l.isAnon)[l.listing.author]? with
  | none => rwa [hheld] at hl
  | some held =>
    rw [hheld] at hl
    have h := hs _ _ held hheld
    exact check_of_skipping hcbor h.checked h.author hl

theorem Sound.applyListings (hs : s.Sound C parameters)
    (hcbor : Function.Injective C.cborAttestation) (hbits : powFloorBits ≤ bits)
    (h : applyListings C parameters bits ls s = (.ok (), s')) : s'.Sound C parameters := by
  induction ls generalizing s with
  | nil => exact (Prod.mk.inj h).2 ▸ hs
  | cons l ls ih =>
    rw [applyListings_cons] at h
    split at h
    · exact ih hs h
    · split at h
      · simp at h
      · rename_i hl
        exact ih (hs.seat hbits (hs.check hcbor hl)) h

/-- **`apply_delta` preserves validity**, for every delta. -/
theorem Valid.applyDelta [DecidableEq Cert] (hs : s.Valid C parameters)
    (hcbor : Function.Injective C.cborAttestation)
    (h : s.applyDelta C parameters d = (.ok (), s')) : s'.Valid C parameters := by
  simp only [DirectoryStateV4.applyDelta] at h
  split at h
  · simp at h
  · split at h
    · simp at h
    · rename_i t ht
      obtain rfl := (Prod.mk.inj h).2
      have hsound : (s.latched C d).Sound C parameters := fun b => hs.sound b
      have htsound : t.Sound C parameters :=
        hsound.applyListings hcbor (floor_le_difficultyBits _) ht
      refine htsound.canonicalize.valid htsound.keyed.capped_canonicalize fun cell hcell => ?_
      have hlatch : t.canonicalize.powDifficulty =
          adoptDifficulty C.toCrypto s.powDifficulty d.powDifficulty := by
        rw [← applyListings_eq_ok ht]
        exact powDifficulty_step
      rw [hlatch] at hcell
      exact genuine_adoptDifficulty hs.latch cell hcell

end DirectoryStateV4

end Freebird
