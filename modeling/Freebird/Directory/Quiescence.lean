import Freebird.Directory.Bootstrap
import Freebird.Directory.Exchange

/-!
# Anti-entropy between directories

One peer answers the summary of another, the other applies the answer and sums up again. What is
offered the second time is exactly what the bar turned away while the receiver has neither a version
of it nor its share full above it (`delta_receive_iff`): the sender decides without looking at the
stamps.
-/

namespace Freebird

open Retention AuthorizedListingV3

variable {Cert : Type} {C : DirectoryCrypto Cert} {parameters : DirectoryParametersV3}
  [DecidableEq Cert]

namespace DirectoryStateV4

variable {s b a b' : DirectoryStateV4 Cert} {d : DirectoryDeltaV3 Cert} {m : Tier Cert}
  {l h : AuthorizedListingV3 Cert} {A : Finset (AuthorizedListingV3 Cert)} {anon : Bool}

/-! ## Counting by authors -/

def authors (A : Finset (AuthorizedListingV3 Cert)) : Finset (Bytes 32) :=
  A.image fun l => l.listing.author

/-- A tier has one listing for each author. -/
theorem Authored.injOn_author (hm : Authored m) :
    Set.InjOn (fun l : AuthorizedListingV3 Cert => l.listing.author) (listings m) := by
  intro l hl h hh he
  have hl := hm.mem_listings.mp hl
  have hh := hm.mem_listings.mp hh
  have he : l.listing.author = h.listing.author := he
  rw [he, hh] at hl
  exact (Option.some.inj hl).symm

theorem Authored.card_authors (hm : Authored m) (hA : A ⊆ listings m) :
    (authors A).card = A.card :=
  Finset.card_image_of_injOn (hm.injOn_author.mono (Finset.coe_subset.mpr hA))

theorem author_mem (h : s.holds C l = true) (hs : s.Keyed) :
    l.listing.author ∈ authors (listings (s.tier l.isAnon)) := by
  obtain ⟨x, hx, -⟩ := holds_iff.mp h
  exact Finset.mem_image.mpr ⟨x, mem_listings.mpr ⟨_, hx⟩, (hs _ _ x hx).1⟩

theorem author_mem_above (hh : s.holds C h = true) (hs : s.Keyed) (hlt : l.orderKey < h.orderKey) :
    h.listing.author ∈ authors (above orderKey (listings (s.tier h.isAnon)) l) := by
  obtain ⟨x, hx, hle⟩ := holds_iff.mp hh
  have ha : x.listing.author = h.listing.author := (hs _ _ x hx).1
  refine Finset.mem_image.mpr ⟨x, mem_above.mpr ⟨mem_listings.mpr ⟨_, hx⟩, ?_⟩, ha⟩
  exact hlt.trans_le (orderKey_le_of_lww ha.symm hle)

theorem Keyed.holds_of_mem {b : Bool} (hs : s.Keyed) (hl : l ∈ listings (s.tier b)) :
    s.holds C l = true ∧ l.isAnon = b := by
  obtain ⟨hmem, ht⟩ := hs.mem_listings_iff.mp hl
  exact ⟨holds_iff.mpr ⟨l, hs.mem_entries.mp hmem, le_rfl⟩, ht⟩

/-! ## Seating only fills a tier -/

theorem Keyed.card_above_seated (hs : s.Keyed) (anon : Bool) (d : DirectoryDeltaV3 Cert) :
    (above orderKey (listings (s.tier anon)) l).card ≤
      (above orderKey (listings ((s.seated C d).tier anon)) l).card := by
  rw [← (hs.authored anon).card_authors above_subset,
    ← ((hs.seated d).authored anon).card_authors above_subset]
  refine Finset.card_le_card fun k hk => ?_
  obtain ⟨h, hh, rfl⟩ := Finset.mem_image.mp hk
  obtain ⟨hmem, hlt⟩ := mem_above.mp hh
  obtain ⟨hholds, rfl⟩ := hs.holds_of_mem (C := C) hmem
  exact author_mem_above (holds_seated hholds) (hs.seated d) hlt

theorem Keyed.authors_seated (hs : s.Keyed) (anon : Bool) (d : DirectoryDeltaV3 Cert) :
    authors (listings (s.tier anon)) ⊆ authors (listings ((s.seated C d).tier anon)) := by
  intro k hk
  obtain ⟨h, hh, rfl⟩ := Finset.mem_image.mp hk
  obtain ⟨hholds, rfl⟩ := hs.holds_of_mem (C := C) hh
  exact author_mem (holds_seated hholds) (hs.seated d)

theorem Keyed.card_seated (hs : s.Keyed) (anon : Bool) (d : DirectoryDeltaV3 Cert) :
    (listings (s.tier anon)).card ≤ (listings ((s.seated C d).tier anon)).card := by
  rw [← (hs.authored anon).card_authors Finset.Subset.rfl,
    ← ((hs.seated d).authored anon).card_authors Finset.Subset.rfl]
  exact Finset.card_le_card (hs.authors_seated anon d)

/-- The anonymous share only shrinks. -/
theorem Keyed.room_seated_le (hs : s.Keyed) (d : DirectoryDeltaV3 Cert) :
    (s.seated C d).canonicalize.room anon ≤ s.room anon := by
  have ha : Authored s.attested := hs.authored false
  have hatt : (listings s.attested).card ≤ (listings (s.seated C d).attested).card :=
    hs.card_seated false d
  rw [(hs.seated d).room_canonicalize, room, effectiveAnonShare, ← ha.card_listings]
  split
  · omega
  · exact le_rfl

/-! ## Eviction keeps the answer -/

/-- A directory that holds a listing or has no room for it is in the same position before the caps
are enforced. -/
theorem Keyed.held_or_full_canonicalize (hs : s.Keyed) :
    (s.canonicalize.holds C l = true ∨ s.canonicalize.room l.isAnon ≤
        (above orderKey (listings (s.canonicalize.tier l.isAnon)) l).card) ↔
      (s.holds C l = true ∨ s.canonicalize.room l.isAnon ≤
        (above orderKey (listings (s.tier l.isAnon)) l).card) := by
  have hd := (hs.authored l.isAnon).distinct
  have hfull : s.canonicalize.room l.isAnon ≤
      (above orderKey (listings (s.canonicalize.tier l.isAnon)) l).card ↔
      s.canonicalize.room l.isAnon ≤ (above orderKey (listings (s.tier l.isAnon)) l).card := by
    rw [hs.listings_canonicalize, card_above_highest hd, le_min_iff, and_iff_right le_rfl]
  have hmem {x : AuthorizedListingV3 Cert} : x ∈ listings (s.canonicalize.tier l.isAnon) ↔
      x ∈ listings (s.tier l.isAnon) ∧ (above orderKey (listings (s.tier l.isAnon)) x).card <
        s.canonicalize.room l.isAnon := by
    rw [hs.listings_canonicalize, mem_highest]
  rw [hfull]
  constructor
  · refine Or.imp_left fun h => ?_
    obtain ⟨x, hx, hle⟩ := holds_iff.mp h
    obtain ⟨ha, -⟩ := hs.canonicalize _ _ x hx
    have hx := (hmem.mp (mem_listings.mpr ⟨_, hx⟩)).1
    exact holds_iff.mpr ⟨x, ha ▸ (hs.authored _).mem_listings.mp hx, hle⟩
  · intro h
    by_cases hroom : s.canonicalize.room l.isAnon ≤
        (above orderKey (listings (s.tier l.isAnon)) l).card
    · exact .inr hroom
    · obtain ⟨x, hx, hle⟩ := holds_iff.mp (h.resolve_right hroom)
      have ha : x.listing.author = l.listing.author := (hs _ _ x hx).1
      have hsub : above orderKey (listings (s.tier l.isAnon)) x ⊆
          above orderKey (listings (s.tier l.isAnon)) l :=
        above_subset_above (orderKey_le_of_lww ha.symm hle)
      have hx := hmem.mpr ⟨mem_listings.mpr ⟨_, hx⟩,
        (Finset.card_le_card hsub).trans_lt (not_le.mp hroom)⟩
      exact .inl (holds_iff.mpr ⟨x, ha ▸ (hs.canonicalize.authored _).mem_listings.mp hx, hle⟩)

/-! ## One exchange -/

variable (C parameters) in
/-- `b` after it has applied what `a` answers to its summary. -/
def receive (b a : DirectoryStateV4 Cert) : Except String Unit × DirectoryStateV4 Cert :=
  match a.delta C (b.summarize C) with
  | none => (.ok (), b)
  | some d => b.applyDelta C parameters d

omit [DecidableEq Cert] in
/-- The answer is always applied, also an empty one. -/
theorem Valid.receive_eq (hb : b.Valid C parameters) (ha : a.Valid C parameters) :
    b.receive C parameters a = (.ok (), (b.seated C (a.answer C b)).canonicalize) := by
  rw [receive, delta_eq ha.keyed]
  by_cases hsend : !(a.answer C b).listings.isEmpty ∨ (a.answer C b).powDifficulty.isSome
  · rw [if_pos hsend]
    refine applyDelta_ok ?_ fun l hl => ha.checked (List.mem_of_mem_filter hl)
    exact (List.length_filter_le _ _).trans ha.length_asDelta
  · rw [if_neg hsend]
    obtain ⟨hlistings, hpow⟩ := not_or.mp hsend
    have hlistings : (a.answer C b).listings = [] := by simpa using hlistings
    have hpow : (a.answer C b).powDifficulty = none := by simpa using hpow
    rw [DirectoryStateV4.seated, hlistings, List.foldl_nil, latched, hpow, adoptDifficulty_none,
      hb.canonicalize]

section
variable (C) (b a)

/-- The bar of the later of two latches. -/
def laterBits : Nat :=
  difficultyBits C.toCrypto (adoptDifficulty C.toCrypto b.powDifficulty a.powDifficulty)

/-- The authors with an anonymous version above `l` that `b` has seated or may seat. -/
def crowd (l : AuthorizedListingV3 Cert) : Finset (Bytes 32) :=
  authors (above orderKey
    (listings b.anon ∪ (listings a.anon).filter fun h => h.clears C (laterBits C b a)) l)

/-- The anonymous share that the attested authors of both sides leave. -/
def jointShare : Nat :=
  min anonListings (maxListings - (authors (listings b.attested ∪ listings a.attested)).card)

end

omit [DecidableEq Cert] in
theorem latched_answer :
    (b.latched C (a.answer C b)).powDifficulty =
      adoptDifficulty C.toCrypto b.powDifficulty a.powDifficulty := by
  rw [latched, answer]
  split
  · rfl
  · rename_i hge
    exact (adoptDifficulty_of_seq_le (not_lt.mp hge)).symm

theorem mem_offered_answer : l ∈ b.offered C (a.answer C b) ↔
    l ∈ a.entries ∧ b.offers C l = true ∧ l.clears C (laterBits C b a) = true := by
  rw [mem_offered, mem_answer, admissionBits, latched_answer, laterBits, and_assoc]

section
variable (ha : a.Valid C parameters) (hb : b.Valid C parameters)
include hb

/-- A listing that clears the bar is seated, unless its tier is full above it. -/
theorem held_or_full_of_clears (hl : l ∈ a.entries) (hc : l.clears C (laterBits C b a) = true) :
    (b.seated C (a.answer C b)).holds C l = true ∨
      b.room l.isAnon ≤ (above orderKey (listings (b.tier l.isAnon)) l).card := by
  by_cases ho : b.offers C l = true
  · exact .inl (holds_seated_of_mem (mem_offered_answer.mpr ⟨hl, ho, hc⟩))
  · rw [offers_iff hb.keyed hb.capped, not_and_or, Bool.not_eq_false, not_lt] at ho
    exact ho.imp_left holds_seated

include ha

/-- A listing that does not clear the bar is held only if it was held before. -/
theorem holds_seated_iff (hl : l ∈ a.entries) (hc : ¬ l.clears C (laterBits C b a) = true) :
    (b.seated C (a.answer C b)).holds C l = true ↔ b.holds C l = true := by
  refine ⟨fun h => ?_, holds_seated⟩
  obtain ⟨x, hx, hle⟩ := holds_iff.mp h
  obtain ⟨hauthor, ht⟩ := hb.keyed.seated _ _ _ x hx
  have hmem := (hb.keyed.seated _).mem_entries.mpr (by rw [ht, hauthor]; exact hx)
  rcases Finset.mem_union.mp (hb.keyed.entries_seated_subset hmem) with hxb | hxa
  · refine holds_iff.mpr ⟨x, ?_, hle⟩
    rw [← ht, ← hauthor]
    exact hb.keyed.mem_entries.mp hxb
  · obtain ⟨hxa, -, hcx⟩ := mem_offered_answer.mp hxa
    rw [ha.keyed.eq_of_slot hxa hl ht hauthor] at hcx
    exact absurd hcx hc

/-- The attested tier ends with the authors of both sides, or full. -/
theorem room_receive :
    (b.seated C (a.answer C b)).canonicalize.room true = jointShare b a := by
  set S := b.seated C (a.answer C b) with hS
  have hk : S.Keyed := hb.keyed.seated _
  have hcard : (listings S.attested).card = (authors (listings S.attested)).card :=
    ((hk.authored false).card_authors Finset.Subset.rfl).symm
  have hsub : authors (listings S.attested) ⊆
      authors (listings b.attested ∪ listings a.attested) := by
    refine Finset.image_subset_image fun x hx => ?_
    obtain ⟨hx, ht⟩ := hk.mem_listings_iff (b := false) |>.mp hx
    rcases Finset.mem_union.mp (hb.keyed.entries_seated_subset hx) with hx | hx
    · exact Finset.mem_union_left _ (hb.keyed.mem_listings_iff (b := false) |>.mpr ⟨hx, ht⟩)
    · refine Finset.mem_union_right _ (ha.keyed.mem_listings_iff (b := false) |>.mpr ⟨?_, ht⟩)
      exact (mem_offered_answer.mp hx).1
  rw [hk.room_canonicalize, if_pos rfl, hcard, jointShare]
  by_cases hall : authors (listings b.attested ∪ listings a.attested) ⊆
      authors (listings S.attested)
  · rw [hsub.antisymm hall]
  · obtain ⟨k, hk', hout⟩ := Finset.not_subset.mp hall
    obtain ⟨x, hx, rfl⟩ := Finset.mem_image.mp hk'
    have hfull : maxListings ≤ (listings b.attested).card := by
      rcases Finset.mem_union.mp hx with hx | hx
      · exact absurd (hb.keyed.authors_seated false _
          (Finset.mem_image_of_mem _ hx)) hout
      · obtain ⟨hx, ht⟩ := ha.keyed.mem_listings_iff (b := false) |>.mp hx
        have hclears : x.clears C (laterBits C b a) = true := by rw [clears, ht]; rfl
        have h := held_or_full_of_clears hb hx hclears
        rw [ht] at h
        rcases h with h | h
        · refine absurd ?_ hout
          have h := author_mem h hk
          rwa [ht] at h
        · exact h.trans (Finset.card_le_card above_subset)
    have hle : (listings b.attested).card ≤ (authors (listings S.attested)).card :=
      hcard ▸ hb.keyed.card_seated false _
    have hle' := Finset.card_le_card hsub
    omega

omit ha in
/-- An anonymous listing that the crowd counts and the receiver lacks finds the share full. -/
theorem full_of_missing {x : AuthorizedListingV3 Cert}
    (hx : x ∈ listings b.anon ∪ (listings a.anon).filter fun h => h.clears C (laterBits C b a))
    (ha : a.Keyed) (hout : ¬ (b.seated C (a.answer C b)).holds C x = true) :
    b.room true ≤ (above orderKey (listings b.anon) x).card := by
  rcases Finset.mem_union.mp hx with hx | hx
  · exact absurd (holds_seated (hb.keyed.holds_of_mem (b := true) hx).1) hout
  · obtain ⟨hx, hc⟩ := Finset.mem_filter.mp hx
    obtain ⟨hx, ht⟩ := ha.mem_listings_iff (b := true) |>.mp hx
    have h := (held_or_full_of_clears hb hx hc).resolve_left hout
    rwa [ht] at h

/-- What the receiver has ahead of a listing fills the share exactly if the crowd does. -/
theorem full_seated_iff :
    jointShare b a ≤ (above orderKey (listings (b.seated C (a.answer C b)).anon) l).card ↔
      jointShare b a ≤ (crowd C b a l).card := by
  set S := b.seated C (a.answer C b) with hS
  have hk : S.Keyed := hb.keyed.seated _
  have hcard : (above orderKey (listings S.anon) l).card =
      (authors (above orderKey (listings S.anon) l)).card :=
    ((hk.authored true).card_authors above_subset).symm
  have hsub : authors (above orderKey (listings S.anon) l) ⊆ crowd C b a l := by
    refine Finset.image_subset_image fun x hx => ?_
    obtain ⟨hx, hlt⟩ := mem_above.mp hx
    obtain ⟨hx, ht⟩ := hk.mem_listings_iff (b := true) |>.mp hx
    refine mem_above.mpr ⟨?_, hlt⟩
    rcases Finset.mem_union.mp (hb.keyed.entries_seated_subset hx) with hx | hx
    · exact Finset.mem_union_left _ (hb.keyed.mem_listings_iff (b := true) |>.mpr ⟨hx, ht⟩)
    · obtain ⟨hx, -, hc⟩ := mem_offered_answer.mp hx
      refine Finset.mem_union_right _ (Finset.mem_filter.mpr ⟨?_, hc⟩)
      exact ha.keyed.mem_listings_iff (b := true) |>.mpr ⟨hx, ht⟩
  by_cases hall : crowd C b a l ⊆ authors (above orderKey (listings S.anon) l)
  · rw [hcard, hsub.antisymm hall]
  · obtain ⟨k, hk', hout⟩ := Finset.not_subset.mp hall
    obtain ⟨x, hx, rfl⟩ := Finset.mem_image.mp hk'
    obtain ⟨hx, hlt⟩ := mem_above.mp hx
    have ht : x.isAnon = true := by
      rcases Finset.mem_union.mp hx with hx | hx
      · exact (hb.keyed.mem_listings_iff (b := true) |>.mp hx).2
      · exact (ha.keyed.mem_listings_iff (b := true) |>.mp (Finset.mem_filter.mp hx).1).2
    have hmissing : ¬ S.holds C x = true := fun h => hout (by
      have h := author_mem_above h hk hlt
      rwa [ht] at h)
    have hfull : jointShare b a ≤ (above orderKey (listings S.anon) l).card := by
      calc jointShare b a = S.canonicalize.room true := (room_receive ha hb).symm
        _ ≤ b.room true := hb.keyed.room_seated_le _
        _ ≤ (above orderKey (listings b.anon) x).card := full_of_missing hb hx ha.keyed hmissing
        _ ≤ (above orderKey (listings b.anon) l).card :=
          Finset.card_le_card (above_subset_above hlt.le)
        _ ≤ (above orderKey (listings S.anon) l).card :=
          hb.keyed.card_above_seated true _
    exact iff_of_true hfull (hfull.trans (hcard ▸ Finset.card_le_card hsub))

end

/-- **After one exchange** the sender is silent exactly if each anonymous listing of it clears the
later bar, or is held by the receiver in a version that is not older, or has its share full of
versions above it. -/
theorem delta_receive_iff (ha : a.verify C parameters = .ok ()) (hb : b.verify C parameters = .ok ())
    (h : b.receive C parameters a = (.ok (), b')) :
    a.delta C (b'.summarize C) = none ↔
      ∀ (k : Bytes 32) (l : AuthorizedListingV3 Cert), a.anon[k]? = some l →
        meetsDirectory C.toCrypto k l.powNonce (laterBits C b a) = true ∨
          b.holds C l = true ∨ jointShare b a ≤ (crowd C b a l).card := by
  have ha := verify_iff.mp ha
  have hb := verify_iff.mp hb
  set S := b.seated C (a.answer C b) with hS
  have hk : S.Keyed := hb.keyed.seated _
  obtain rfl : S.canonicalize = b' := by
    rw [hb.receive_eq ha] at h
    exact (Prod.mk.inj h).2
  have hlatch : difficultySeq a.powDifficulty ≤ difficultySeq S.canonicalize.powDifficulty := by
    rw [hS, powDifficulty_step, latched_answer]
    exact le_difficultySeq_adopt _ ha.latch
  rw [delta_eq_none_iff ha.keyed hk.canonicalize hk.capped_canonicalize, and_iff_right hlatch]
  simp only [hk.held_or_full_canonicalize]
  constructor
  · intro hquiet k l hl
    obtain ⟨rfl, ht⟩ := ha.keyed true k l hl
    have hmem : l ∈ a.entries := ha.keyed.mem_entries.mpr (ht ▸ hl)
    rw [or_iff_not_imp_left]
    intro hbar
    have hc : ¬ l.clears C (laterBits C b a) = true := by rwa [clears, ht]
    have h := hquiet l hmem
    rw [holds_seated_iff ha hb hmem hc, ht, room_receive ha hb] at h
    exact h.imp_right (full_seated_iff ha hb).mp
  · intro hcond l hmem
    by_cases hc : l.clears C (laterBits C b a) = true
    · refine (held_or_full_of_clears hb hmem hc).imp_right fun hfull => ?_
      exact (hb.keyed.room_seated_le _).trans (hfull.trans (hb.keyed.card_above_seated _ _))
    · have ht : l.isAnon = true := by
        by_contra ht
        exact hc (by simp [clears, ht])
      have hl := ha.keyed.mem_entries.mp hmem
      rw [ht] at hl
      have hbar : ¬ meetsDirectory C.toCrypto l.listing.author l.powNonce (laterBits C b a) = true := by
        rwa [clears, ht] at hc
      rw [holds_seated_iff ha hb hmem hc, ht, room_receive ha hb]
      exact ((hcond _ l hl).resolve_left hbar).imp_right (full_seated_iff ha hb).mpr

end DirectoryStateV4

namespace Sample

/-- A directory that has latched a record and holds nothing. -/
def fresh : DirectoryStateV4 VerifyingKey := directoryState [] (some (record 1 26))

end Sample

namespace DirectoryStateV4

open Sample

theorem delta_receive_iff_stamped :
    let b' := (fresh.receive directoryCrypto directory (served 0 none)).2
    (served 0 none).delta directoryCrypto (b'.summarize directoryCrypto) = none ↔
      ∀ (k : Bytes 32) (l : AuthorizedListingV3 VerifyingKey), (served 0 none).anon[k]? = some l →
        meetsDirectory crypto k l.powNonce (laterBits directoryCrypto fresh (served 0 none)) = true ∨
          fresh.holds directoryCrypto l = true ∨
          jointShare fresh (served 0 none) ≤
            (crowd directoryCrypto fresh (served 0 none) l).card := by
  have hserved : (served 0 none).verify directoryCrypto directory = .ok () := by decide +kernel
  exact delta_receive_iff hserved (by decide +kernel) (by decide +kernel)

/-- A listing under the bar of the receiver is offered again after each exchange. -/
theorem delta_receive_repeats :
    (served (2 ^ 40) none).verify directoryCrypto directory = .ok () ∧
    fresh.verify directoryCrypto directory = .ok () ∧
    (fresh.receive directoryCrypto directory (served (2 ^ 40) none)).1 = .ok () ∧
    (served (2 ^ 40) none).delta directoryCrypto
      ((fresh.receive directoryCrypto directory (served (2 ^ 40) none)).2.summarize
        directoryCrypto) ≠ none :=
  ⟨by decide +kernel, by decide +kernel, by decide +kernel, by decide +kernel⟩

end DirectoryStateV4

end Freebird
