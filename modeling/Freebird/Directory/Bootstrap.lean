import Freebird.Directory.Caps

/-!
# Loading a directory

A client without local state merges a whole directory into an empty one. The merge applies the
listings as a delta, under the bar of the record that comes with them: what was seated before the
bar was raised is dropped, so the client loads what was served exactly if every anonymous listing
clears the present bar (`merge_empty_iff`).
-/

namespace Freebird

open Retention AuthorizedListingV3

variable {Cert : Type} {C : DirectoryCrypto Cert} {parameters : DirectoryParametersV3}

namespace DirectoryStateV4

variable {s t : DirectoryStateV4 Cert} {l : AuthorizedListingV3 Cert}

/-! ## A full state as a delta -/

/-- What `merge` applies. -/
def asDelta (s : DirectoryStateV4 Cert) : DirectoryDeltaV3 Cert :=
  ⟨Map.vals s.attested ++ Map.vals s.anon, s.powDifficulty⟩

theorem mem_asDelta [DecidableEq Cert] :
    l ∈ s.asDelta.listings ↔ l ∈ s.entries := by
  rw [asDelta, List.mem_append, entries, Finset.mem_union, listings, listings, List.mem_toFinset,
    List.mem_toFinset]

theorem Valid.checked (hs : s.Valid C parameters) (hl : l ∈ s.asDelta.listings) :
    l.check C parameters.ghostkeyMaster = .ok () := by
  rw [asDelta, List.mem_append, Map.mem_vals, Map.mem_vals] at hl
  rcases hl with ⟨k, hk⟩ | ⟨k, hk⟩
  · exact (hs.listed false k l hk).2.2
  · exact (hs.listed true k l hk).2.2

theorem Valid.length_asDelta (hs : s.Valid C parameters) :
    s.asDelta.listings.length ≤ maxListings + anonListings := by
  rw [asDelta, List.length_append, Map.length_vals, Map.length_vals]
  exact Nat.add_le_add hs.attested_le (hs.anon_le.trans (min_le_left _ _))

/-- A valid directory is never refused. -/
theorem Valid.merge_eq (ht : t.Valid C parameters) :
    s.merge C parameters t = (.ok (), (s.seated C t.asDelta).canonicalize) :=
  applyDelta_ok ht.length_asDelta fun _ hl => ht.checked hl

/-! ## From the empty directory -/

theorem getElem?_empty_tier (b : Bool) (k : Bytes 32) :
    ((∅ : DirectoryStateV4 Cert).tier b)[k]? = none := by
  cases b <;> exact Map.getElem?_empty k

theorem keyed_empty : (∅ : DirectoryStateV4 Cert).Keyed := by
  intro b k l hl
  rw [getElem?_empty_tier] at hl
  cases hl

theorem entries_empty [DecidableEq Cert] : (∅ : DirectoryStateV4 Cert).entries = ∅ :=
  Finset.eq_empty_of_forall_notMem fun l hl => by
    have hl := keyed_empty.mem_entries.mp hl
    cases hanon : l.isAnon <;> rw [hanon] at hl <;> exact nomatch (Map.getElem?_empty _).symm.trans hl

/-- The empty latch adopts a genuine record unless its sequence number is 0. -/
theorem adoptDifficulty_empty_iff {record : Option SignedCellV1}
    (hr : ∀ cell, record = some cell → cell.genuine C.toCrypto = true) :
    adoptDifficulty C.toCrypto none record = record ↔
      ∀ cell, record = some cell → 0 < cell.seq := by
  cases record with
  | none => simp
  | some cell =>
    simp only [adoptDifficulty, difficultySeq, hr cell rfl, Bool.true_eq_false, or_false,
      Option.some.injEq, forall_eq']
    rw [← not_le]
    split <;> simp_all

variable [DecidableEq Cert]

/-- What the empty directory makes of a valid one. -/
theorem Valid.entries_merge_empty (hs : s.Valid C parameters) :
    ((∅ : DirectoryStateV4 Cert).seated C s.asDelta).canonicalize.entries =
      (∅ : DirectoryStateV4 Cert).offered C s.asDelta := by
  have hsub : (∅ : DirectoryStateV4 Cert).offered C s.asDelta ⊆ s.entries := fun l hl =>
    mem_asDelta.mp (mem_offered.mp hl).1
  have hstep := keyed_empty.entries_step (C := C) (d := s.asDelta)
  rw [entries_empty, Finset.empty_union] at hstep
  rw [hstep (hs.keyed.distinct.mono hsub)]
  exact hs.stable.mono hs.keyed.distinct hsub

/-- **A directory is loaded as it was served** exactly if its record has a sequence number above 0
and every anonymous listing clears the bar of that record. -/
theorem merge_empty_iff (hs : s.verify C parameters = .ok ()) :
    (∅ : DirectoryStateV4 Cert).merge C parameters s = (.ok (), s) ↔
      (∀ cell, s.powDifficulty = some cell → 0 < cell.seq) ∧
      ∀ (k : Bytes 32) (l : AuthorizedListingV3 Cert), s.anon[k]? = some l →
        meetsDirectory C.toCrypto k l.powNonce
          (difficultyBits C.toCrypto s.powDifficulty) = true := by
  have hv := verify_iff.mp hs
  have hk := hv.keyed
  have hlatch : ((∅ : DirectoryStateV4 Cert).latched C s.asDelta).powDifficulty =
      adoptDifficulty C.toCrypto none s.powDifficulty := rfl
  rw [hv.merge_eq, Prod.mk.injEq, eq_self_iff_true, true_and,
    ← adoptDifficulty_empty_iff hv.latch]
  have hanon : (∀ (k : Bytes 32) (l : AuthorizedListingV3 Cert), s.anon[k]? = some l →
      meetsDirectory C.toCrypto k l.powNonce (difficultyBits C.toCrypto s.powDifficulty) = true) ↔
      ∀ l ∈ s.entries, l.clears C (difficultyBits C.toCrypto s.powDifficulty) = true := by
    constructor
    · intro h l hl
      rw [clears]
      cases hanon : l.isAnon with
      | false => rfl
      | true =>
        have hl := hk.mem_entries.mp hl
        rw [hanon] at hl
        exact h _ l hl
    · intro h k l hl
      obtain ⟨rfl, hanon⟩ := hk true k l hl
      have hclears := h l (hk.mem_entries.mpr (hanon ▸ hl))
      rwa [clears, hanon] at hclears
  rw [hanon]
  constructor
  · intro heq
    have hpow : adoptDifficulty C.toCrypto none s.powDifficulty = s.powDifficulty := by
      rw [← hlatch, ← powDifficulty_step, heq]
    refine ⟨hpow, fun l hl => ?_⟩
    rw [← heq, hv.entries_merge_empty, mem_offered, admissionBits, hlatch, hpow] at hl
    exact hl.2
  · rintro ⟨hpow, hclears⟩
    refine (keyed_empty.seated _).canonicalize.ext hk ?_ ?_
    · rw [hv.entries_merge_empty]
      ext l
      rw [mem_offered, admissionBits, hlatch, hpow, mem_asDelta]
      exact and_iff_left_of_imp (hclears l)
    · rw [powDifficulty_step, hlatch, hpow]

end DirectoryStateV4

namespace Sample

/-- An attested listing and an anonymous one with the given nonce. -/
def served (nonce : U64) (record : Option SignedCellV1) : DirectoryStateV4 VerifyingKey :=
  directoryState [listing 1 5 (some 7) 1, listing 2 4 none nonce] record

end Sample

namespace DirectoryStateV4

open Sample

theorem merge_empty_iff_stamped :
    (∅ : DirectoryStateV4 VerifyingKey).merge directoryCrypto directory
        (served 0 (some (record 1 26))) = (.ok (), served 0 (some (record 1 26))) ↔
      (∀ cell, (served 0 (some (record 1 26))).powDifficulty = some cell → 0 < cell.seq) ∧
      ∀ (k : Bytes 32) (l : AuthorizedListingV3 VerifyingKey),
        (served 0 (some (record 1 26))).anon[k]? = some l →
        meetsDirectory crypto k l.powNonce (difficultyBits crypto (some (record 1 26))) = true :=
  merge_empty_iff (C := directoryCrypto) (by decide +kernel)

/-- A listing that was seated before the bar was raised is not loaded. -/
theorem merge_empty_drops :
    (served (2 ^ 40) none).verify directoryCrypto directory = .ok () ∧
    (served (2 ^ 40) none).applyDelta directoryCrypto directory ⟨[], some (record 1 26)⟩ =
      (.ok (), served (2 ^ 40) (some (record 1 26))) ∧
    (served (2 ^ 40) (some (record 1 26))).verify directoryCrypto directory = .ok () ∧
    (∅ : DirectoryStateV4 VerifyingKey).merge directoryCrypto directory
      (served (2 ^ 40) (some (record 1 26))) ≠ (.ok (), served (2 ^ 40) (some (record 1 26))) := by
  refine ⟨by decide +kernel, by decide +kernel, by decide +kernel, by decide +kernel⟩

end DirectoryStateV4

end Freebird
