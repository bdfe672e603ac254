import Freebird.Directory.Slots
import Freebird.Retention.Tiers

/-!
# What the directory keeps

The slots, the tiers and the total are three nested layers under one priority: attested before
anonymous, then by activity, author and content hash. Seating a delta makes the choice of the slots
(`entries_seated`), the caps make the choice of the other two layers (`entries_canonicalize`), so a
call makes the choice of the policy from what is held and what is offered.
-/

namespace Freebird

open Retention AuthorizedListingV3

variable {Cert : Type} {C : DirectoryCrypto Cert} {parameters : DirectoryParametersV3}

namespace DirectoryStateV4

/-! ## The layers -/

section
variable (C)

/-- Activity, then author, then content hash. -/
def versionKey (l : AuthorizedListingV3 Cert) : U64 ×ₗ Bytes 32 ×ₗ Bytes 32 :=
  toLex (l.listing.lastActive, toLex (l.listing.author, C.blake3 (C.cborListing l)))

def prio : AuthorizedListingV3 Cert → Bool ×ₗ U64 ×ₗ Bytes 32 ×ₗ Bytes 32 :=
  standing isAnon (versionKey C)

end

def globalLayer : Layer (AuthorizedListingV3 Cert) := totalLayer maxListings

def tierLayer : Layer (AuthorizedListingV3 Cert) := shareLayer isAnon anonListings maxListings

/-- One version for each author and tier. -/
def slotLayer : Layer (AuthorizedListingV3 Cert) where
  Group := Bool × Bytes 32
  group l := (l.isAnon, l.listing.author)
  cap _ := 1

def caps : List (Layer (AuthorizedListingV3 Cert)) := [globalLayer, tierLayer, slotLayer]

theorem nested_caps : Nested (caps : List (Layer (AuthorizedListingV3 Cert))) := by
  simp only [Nested, caps, List.pairwise_cons, List.mem_cons, List.not_mem_nil, or_false,
    forall_eq_or_imp, forall_eq, List.Pairwise.nil, and_true, false_implies, implies_true]
  exact ⟨⟨fun _ _ _ => rfl, fun _ _ _ => rfl⟩, fun _ _ h => congrArg Prod.fst h⟩

variable {l h x : AuthorizedListingV3 Cert}

/-- In one slot the priority is the order of the versions. -/
theorem prio_lt_iff_lww (ht : l.isAnon = h.isAnon) (ha : l.listing.author = h.listing.author) :
    prio C l < prio C h ↔ l.lwwKey C < h.lwwKey C := by
  have hsome : l.attestation.isSome = h.attestation.isSome := by
    simpa [isAnon] using congrArg Bool.not ht
  rw [prio, standing_lt_iff, versionKey, versionKey, lwwKey, lwwKey, Prod.Lex.lt_iff,
    Prod.Lex.lt_iff]
  simp only [ofLex_toLex, ht, true_and, ha, hsome, Prod.Lex.lt_iff, lt_irrefl, false_or]
  cases h.isAnon <;> simp

/-! ## Entries -/

variable {s t : DirectoryStateV4 Cert} {d : DirectoryDeltaV3 Cert}

/-- Every listing is in the tier it belongs to, under its author. -/
def Keyed (s : DirectoryStateV4 Cert) : Prop :=
  ∀ (b : Bool) (k : Bytes 32) (l : AuthorizedListingV3 Cert), (s.tier b)[k]? = some l →
    l.listing.author = k ∧ l.isAnon = b

theorem Valid.keyed (hs : s.Valid C parameters) : s.Keyed :=
  fun b k l hl => ⟨(hs.listed b k l hl).1, (hs.listed b k l hl).2.1⟩

variable [DecidableEq Cert]

def listings (m : Tier Cert) : Finset (AuthorizedListingV3 Cert) := (Map.vals m).toFinset

def entries (s : DirectoryStateV4 Cert) : Finset (AuthorizedListingV3 Cert) :=
  listings s.attested ∪ listings s.anon

theorem mem_listings {m : Tier Cert} : l ∈ listings m ↔ ∃ k : Bytes 32, m[k]? = some l := by
  rw [listings, List.mem_toFinset, Map.mem_vals]

theorem Keyed.mem_tier (hs : s.Keyed) {b : Bool} :
    l ∈ listings (s.tier b) ↔ (s.tier b)[l.listing.author]? = some l ∧ l.isAnon = b := by
  rw [mem_listings]
  constructor
  · rintro ⟨k, hk⟩
    obtain ⟨rfl, hb⟩ := hs b k l hk
    exact ⟨hk, hb⟩
  · exact fun h => ⟨_, h.1⟩

theorem Keyed.mem_entries (hs : s.Keyed) :
    l ∈ s.entries ↔ (s.tier l.isAnon)[l.listing.author]? = some l := by
  have htiers : s.entries = listings (s.tier false) ∪ listings (s.tier true) := rfl
  rw [htiers, Finset.mem_union, hs.mem_tier, hs.mem_tier]
  cases h : l.isAnon <;> simp

theorem Keyed.mem_listings_iff (hs : s.Keyed) {b : Bool} :
    l ∈ listings (s.tier b) ↔ l ∈ s.entries ∧ l.isAnon = b := by
  rw [hs.mem_tier, hs.mem_entries]
  exact ⟨fun ⟨h, hb⟩ => ⟨hb ▸ h, hb⟩, fun ⟨h, hb⟩ => ⟨hb ▸ h, hb⟩⟩

/-- A keyed state is determined by its entries and its latch. -/
theorem Keyed.ext (hs : s.Keyed) (ht : t.Keyed) (he : s.entries = t.entries)
    (hl : s.powDifficulty = t.powDifficulty) : s = t := by
  have htier (b : Bool) : s.tier b = t.tier b := by
    refine Std.ExtTreeMap.ext_getElem? fun k => Option.ext fun l => ?_
    constructor
    · intro h
      obtain ⟨rfl, rfl⟩ := hs b k l h
      exact ht.mem_entries.mp (he ▸ hs.mem_entries.mpr h)
    · intro h
      obtain ⟨rfl, rfl⟩ := ht b k l h
      exact hs.mem_entries.mp (he ▸ ht.mem_entries.mpr h)
  obtain ⟨att, anon, latch⟩ := s
  obtain ⟨att', anon', latch'⟩ := t
  obtain rfl : latch = latch' := hl
  obtain rfl : att = att' := htier false
  obtain rfl : anon = anon' := htier true
  rfl

/-- In a keyed state a slot holds one listing. -/
theorem Keyed.eq_of_slot (hs : s.Keyed) (hl : l ∈ s.entries) (hh : h ∈ s.entries)
    (ht : l.isAnon = h.isAnon) (ha : l.listing.author = h.listing.author) : l = h := by
  have hl := hs.mem_entries.mp hl
  rw [ht, ha, hs.mem_entries.mp hh] at hl
  exact (Option.some.inj hl).symm

/-- The listings a keyed state holds differ in priority. -/
theorem Keyed.distinct (hs : s.Keyed) : Distinct (prio C) s.entries := by
  intro l hl h hh he
  have hanon : l.isAnon = h.isAnon := by
    simpa [prio, standing] using congrArg (fun k => (ofLex k).1) he
  have hauthor : l.listing.author = h.listing.author :=
    congrArg (fun k => (ofLex (ofLex (ofLex k).2).2).1) he
  exact hs.eq_of_slot hl hh hanon hauthor

/-! ## Eviction -/

/-- Every listing is stored under its author. -/
def Authored (m : Tier Cert) : Prop :=
  ∀ (k : Bytes 32) (l : AuthorizedListingV3 Cert), m[k]? = some l → l.listing.author = k

omit [DecidableEq Cert] in
theorem Keyed.authored (hs : s.Keyed) (b : Bool) : Authored (s.tier b) :=
  fun k l hl => (hs b k l hl).1

section
variable {m : Tier Cert} {n : Nat}

omit [DecidableEq Cert] in
theorem Authored.erase (hm : Authored m) (k : Bytes 32) : Authored (m.erase k) := by
  intro k' l hl
  rw [Std.ExtTreeMap.getElem?_erase] at hl
  split at hl
  · cases hl
  · exact hm k' l hl

theorem Authored.mem_listings (hm : Authored m) :
    l ∈ listings m ↔ m[l.listing.author]? = some l := by
  rw [DirectoryStateV4.mem_listings]
  constructor
  · rintro ⟨k, hk⟩
    obtain rfl := hm k l hk
    exact hk
  · exact fun h => ⟨_, h⟩

theorem Authored.card_listings (hm : Authored m) : (listings m).card = m.size := by
  rw [listings, List.toFinset_card_of_nodup (Map.nodup_vals hm), Map.length_vals]

/-- Listings of one tier differ in their order key, which names the author. -/
theorem Authored.distinct (hm : Authored m) : Distinct orderKey (listings m) := by
  intro l hl h hh he
  have hauthor : l.listing.author = h.listing.author := congrArg (fun k => (ofLex k).2) he
  have hl := hm.mem_listings.mp hl
  rw [hauthor, hm.mem_listings.mp hh] at hl
  exact (Option.some.inj hl).symm

theorem Authored.listings_erase (hm : Authored m) (hl : l ∈ listings m) :
    listings (m.erase l.listing.author) = (listings m).erase l := by
  ext h
  rw [(hm.erase _).mem_listings, Finset.mem_erase, hm.mem_listings,
    Std.ExtTreeMap.getElem?_erase]
  split
  · rename_i he
    have he : l.listing.author = h.listing.author := compare_eq_iff_eq.mp he
    refine iff_of_false (by simp) fun ⟨hne, hh⟩ => hne ?_
    rw [← he, hm.mem_listings.mp hl] at hh
    exact (Option.some.inj hh).symm
  · rename_i he
    exact ⟨fun h => ⟨fun hlh => he (hlh ▸ compare_eq_iff_eq.mpr rfl), h⟩, And.right⟩

omit [DecidableEq Cert] in
/-- Eviction only removes. -/
theorem getElem?_of_evictOldest {k : Bytes 32} (h : (evictOldest n m)[k]? = some l) :
    m[k]? = some l := by
  induction n generalizing m with
  | zero => exact h
  | succ n ih =>
    rw [evictOldest] at h
    split at h
    · exact h
    · have h := ih h
      rw [Std.ExtTreeMap.getElem?_erase] at h
      split at h
      · cases h
      · exact h

omit [DecidableEq Cert] in
theorem Authored.evictOldest (hm : Authored m) : Authored (evictOldest n m) :=
  fun k l hl => hm k l (getElem?_of_evictOldest hl)

/-- The loop removes the lowest order keys. -/
theorem Authored.listings_evictOldest (hm : Authored m) :
    listings (DirectoryStateV4.evictOldest n m) = highest orderKey (m.size - n) (listings m) := by
  induction n generalizing m with
  | zero =>
    rw [DirectoryStateV4.evictOldest, Nat.sub_zero, ← hm.card_listings]
    exact (Finset.filter_eq_self.mpr fun _ => card_above_lt).symm
  | succ n ih =>
    rw [DirectoryStateV4.evictOldest]
    split
    · rename_i hnone
      have hempty : listings m = ∅ := by
        rw [listings, List.map_eq_nil_iff.mp (List.min?_eq_none_iff.mp hnone)]
        rfl
      rw [hempty]
      rfl
    · rename_i oldest hmin
      obtain ⟨hmem, hle⟩ := List.min?_eq_some_iff.mp hmin
      obtain ⟨x, hx, rfl⟩ := List.mem_map.mp hmem
      have hx : x ∈ listings m := List.mem_toFinset.mpr hx
      have hlt : ∀ y ∈ listings m, y ≠ x → x.orderKey < y.orderKey := fun y hy hne =>
        lt_of_le_of_ne (hle _ (List.mem_map_of_mem (List.mem_toFinset.mp hy)))
          fun he => hne (hm.distinct hy hx he.symm)
      have hpos : 0 < m.size := hm.card_listings ▸ Finset.card_pos.mpr ⟨x, hx⟩
      have hsize : (m.erase (ofLex x.orderKey).2).size = m.size - 1 := by
        rw [← (hm.erase _).card_listings, ← hm.card_listings]
        exact (congrArg Finset.card (hm.listings_erase hx)).trans (Finset.card_erase_of_mem hx)
      rw [ih (hm.erase _), hsize, Nat.sub_sub, Nat.add_comm 1 n]
      refine (congrArg _ (hm.listings_erase hx)).trans (highest_erase hx hlt ?_)
      rw [hm.card_listings]
      omega

/-- A loop that turns until the tier is within `n`. -/
theorem Authored.listings_evict (hm : Authored m) :
    listings (DirectoryStateV4.evictOldest (m.size - n) m) = highest orderKey n (listings m) := by
  rw [hm.listings_evictOldest, ← highest_min_card n, hm.card_listings]
  congr 1
  omega

end

/-! ## The caps as layers -/

/-- The slots of a tier. -/
def room (s : DirectoryStateV4 Cert) (anon : Bool) : Nat :=
  if anon then s.effectiveAnonShare else maxListings

/-- Every tier is within its cap. -/
def Capped (s : DirectoryStateV4 Cert) : Prop := ∀ anon, (s.tier anon).size ≤ s.room anon

omit [DecidableEq Cert] in
theorem Valid.capped (hs : s.Valid C parameters) : s.Capped := by
  intro anon
  cases anon
  · exact hs.attested_le
  · exact hs.anon_le

omit [DecidableEq Cert] in
theorem attested_canonicalize : s.canonicalize.attested =
    evictOldest (s.attested.size - maxListings) s.attested := by
  rw [DirectoryStateV4.canonicalize]

omit [DecidableEq Cert] in
theorem anon_canonicalize : s.canonicalize.anon =
    evictOldest (s.anon.size - min anonListings (maxListings - s.canonicalize.attested.size))
      s.anon := by
  rw [attested_canonicalize, DirectoryStateV4.canonicalize, effectiveAnonShare]

omit [DecidableEq Cert] in
theorem getElem?_of_canonicalize {b : Bool} {k : Bytes 32}
    (hl : (s.canonicalize.tier b)[k]? = some l) : (s.tier b)[k]? = some l := by
  cases b with
  | false =>
    change s.canonicalize.attested[k]? = some l at hl
    rw [attested_canonicalize] at hl
    exact getElem?_of_evictOldest hl
  | true =>
    change s.canonicalize.anon[k]? = some l at hl
    rw [anon_canonicalize] at hl
    exact getElem?_of_evictOldest hl

omit [DecidableEq Cert] in
theorem Keyed.canonicalize (hs : s.Keyed) : s.canonicalize.Keyed :=
  fun b k l hl => hs b k l (getElem?_of_canonicalize hl)

/-- What eviction leaves of the attested tier. -/
theorem Keyed.listings_attested (hs : s.Keyed) :
    listings s.canonicalize.attested = highest orderKey maxListings (listings s.attested) := by
  have ha : Authored s.attested := hs.authored false
  rw [attested_canonicalize, ha.listings_evict]

theorem Keyed.room_canonicalize (hs : s.Keyed) (anon : Bool) : s.canonicalize.room anon =
    if anon then min anonListings (maxListings - (listings s.attested).card) else maxListings := by
  have ha : Authored s.attested := hs.authored false
  have ha' : Authored s.canonicalize.attested := hs.canonicalize.authored false
  have hshare : maxListings - min maxListings (listings s.attested).card =
      maxListings - (listings s.attested).card := by
    omega
  rw [room, effectiveAnonShare, ← ha'.card_listings, hs.listings_attested,
    card_highest ha.distinct, hshare]

/-- What eviction leaves of a tier. -/
theorem Keyed.listings_canonicalize (hs : s.Keyed) (anon : Bool) :
    listings (s.canonicalize.tier anon) =
      highest orderKey (s.canonicalize.room anon) (listings (s.tier anon)) := by
  cases anon
  · exact hs.listings_attested
  · have hn : Authored s.anon := hs.authored true
    rw [room, if_pos rfl, effectiveAnonShare, tier, if_pos rfl, tier, if_pos rfl, anon_canonicalize,
      hn.listings_evict]

theorem Keyed.capped_canonicalize (hs : s.Keyed) : s.canonicalize.Capped := by
  intro anon
  rw [← (hs.canonicalize.authored anon).card_listings, hs.listings_canonicalize,
    card_highest (hs.authored anon).distinct]
  exact min_le_left _ _

/-- In a keyed tier the versions are ordered by their order keys. -/
theorem Keyed.rivals_tier (hs : s.Keyed) (hl : l ∈ s.entries) :
    tierLayer.rivals (prio C) s.entries l = above orderKey (listings (s.tier l.isAnon)) l := by
  ext h
  rw [tierLayer, prio, mem_rivals_share, mem_above, hs.mem_listings_iff, and_assoc]
  refine and_congr_right fun hh => and_congr_right fun ht => ?_
  rw [versionKey, versionKey, orderKey, orderKey, Prod.Lex.lt_iff, Prod.Lex.lt_iff,
    Prod.Lex.lt_iff]
  simp only [ofLex_toLex]
  refine or_congr_right (and_congr_right fun _ => or_iff_left fun ⟨ha, hlt⟩ => ?_)
  obtain rfl := hs.eq_of_slot hh hl ht ha.symm
  exact lt_irrefl _ hlt

theorem Keyed.attested_eq_filter (hs : s.Keyed) :
    s.entries.filter (fun l => l.isAnon = false) = listings s.attested := by
  ext l
  rw [Finset.mem_filter]
  exact hs.mem_listings_iff.symm

/-- **The caps make the choice of the two coarser layers.** -/
theorem Keyed.entries_canonicalize (hs : s.Keyed) :
    s.canonicalize.entries = globalLayer.keep (prio C) (tierLayer.keep (prio C) s.entries) := by
  ext l
  have htier : l ∈ s.canonicalize.entries ↔ l ∈ listings (s.canonicalize.tier l.isAnon) := by
    rw [hs.canonicalize.mem_listings_iff, and_iff_left rfl]
  have hkeep := mem_keep_tiers (x := l) (m := anonListings) (n := maxListings)
    (hs.distinct (C := C))
  rw [htier, hs.listings_canonicalize, hs.room_canonicalize, mem_highest, hs.mem_listings_iff,
    and_iff_left rfl]
  refine Iff.trans (and_congr_right fun hl => ?_) hkeep.symm
  rw [hs.attested_eq_filter, ← hs.rivals_tier (C := C) hl]
  rfl

/-! ## The slots as a layer -/

omit [DecidableEq Cert] in
theorem mem_rivals_slot {A : Finset (AuthorizedListingV3 Cert)} :
    h ∈ slotLayer.rivals (prio C) A l ↔ h ∈ A ∧ h.isAnon = l.isAnon ∧
      h.listing.author = l.listing.author ∧ l.lwwKey C < h.lwwKey C := by
  rw [Layer.mem_rivals, and_congr_right_iff]
  intro _
  change (h.isAnon, h.listing.author) = (l.isAnon, l.listing.author) ∧ _ ↔ _
  rw [Prod.mk.injEq, and_assoc]
  exact and_congr_right fun ht => and_congr_right fun ha => prio_lt_iff_lww ht.symm ha.symm

variable (C) in
/-- The listings of a delta that clear the bar of the latch after adoption. -/
def offered (s : DirectoryStateV4 Cert) (d : DirectoryDeltaV3 Cert) :
    Finset (AuthorizedListingV3 Cert) :=
  (d.listings.filter (clears C ((s.latched C d).admissionBits C))).toFinset

theorem mem_offered : l ∈ s.offered C d ↔
    l ∈ d.listings ∧ l.clears C ((s.latched C d).admissionBits C) = true := by
  rw [offered, List.mem_toFinset, List.mem_filter]

theorem mem_filter_offeredTo {b : Bool} {k : Bytes 32} :
    l ∈ d.listings.filter (offeredTo C ((s.latched C d).admissionBits C) b k) ↔
      l ∈ s.offered C d ∧ l.isAnon = b ∧ l.listing.author = k := by
  rw [List.mem_filter, mem_offered, offeredTo, Bool.and_eq_true, Bool.and_eq_true, and_assoc,
    and_assoc, decide_eq_true_eq, decide_eq_true_eq]

theorem Keyed.seated (hs : s.Keyed) (d : DirectoryDeltaV3 Cert) : (s.seated C d).Keyed := by
  intro b k l hl
  rw [seated_slot] at hl
  rcases mem_of_foldl_newer hl with hl | hl
  · exact hs b k l hl
  · exact (mem_filter_offeredTo.mp hl).2.symm

theorem Keyed.entries_seated_subset (hs : s.Keyed) :
    (s.seated C d).entries ⊆ s.entries ∪ s.offered C d := by
  intro l hl
  have hl := (hs.seated d).mem_entries.mp hl
  rw [seated_slot] at hl
  rcases mem_of_foldl_newer hl with hl | hl
  · exact Finset.mem_union_left _ (hs.mem_entries.mpr hl)
  · exact Finset.mem_union_right _ (mem_filter_offeredTo.mp hl).1

omit [DecidableEq Cert] in
theorem holds_seated (h : s.holds C l = true) : (s.seated C d).holds C l = true := by
  obtain ⟨x, hx, hle⟩ := holds_iff.mp h
  obtain ⟨y, hy, hle'⟩ := le_foldl_newer
    (d.listings.filter (offeredTo C ((s.latched C d).admissionBits C) l.isAnon l.listing.author))
    hx
  refine holds_iff.mpr ⟨y, ?_, hle.trans hle'⟩
  rw [seated_slot]
  exact hy

theorem holds_seated_of_mem (h : l ∈ s.offered C d) : (s.seated C d).holds C l = true := by
  refine holds_iff.mpr ?_
  rw [seated_slot]
  exact le_foldl_newer_of_mem (mem_filter_offeredTo.mpr ⟨h, rfl, rfl⟩)

/-- **Seating a delta makes the choice of the slots.** -/
theorem Keyed.entries_seated (hs : s.Keyed) (hd : Distinct (prio C) (s.entries ∪ s.offered C d)) :
    (s.seated C d).entries = slotLayer.keep (prio C) (s.entries ∪ s.offered C d) := by
  -- A version that is held or offered is not newer than the one the slot ends with.
  have hle (h : AuthorizedListingV3 Cert) (hh : h ∈ s.entries ∪ s.offered C d) :
      ∃ x, ((s.seated C d).tier h.isAnon)[h.listing.author]? = some x ∧
        h.lwwKey C ≤ x.lwwKey C := by
    refine holds_iff.mp ?_
    rcases Finset.mem_union.mp hh with hh | hh
    · exact holds_seated (holds_iff.mpr ⟨h, hs.mem_entries.mp hh, le_rfl⟩)
    · exact holds_seated_of_mem hh
  have hsub := hs.entries_seated_subset (C := C) (d := d)
  ext l
  rw [Layer.mem_keep]
  change _ ↔ _ ∧ _ < 1
  rw [Nat.lt_one_iff, Finset.card_eq_zero, Finset.eq_empty_iff_forall_notMem]
  constructor
  · intro hl
    refine ⟨hsub hl, fun h hh => ?_⟩
    obtain ⟨hmem, ht, ha, hlt⟩ := mem_rivals_slot.mp hh
    obtain ⟨x, hx, hle⟩ := hle h hmem
    rw [ht, ha, (hs.seated d).mem_entries.mp hl] at hx
    exact absurd hle (not_le.mpr (Option.some.inj hx ▸ hlt))
  · rintro ⟨hl, hnone⟩
    obtain ⟨x, hx, hle⟩ := hle l hl
    obtain ⟨ha, ht⟩ := hs.seated d _ _ x hx
    have hxU : x ∈ (s.seated C d).entries := by
      rw [(hs.seated d).mem_entries, ht, ha]
      exact hx
    have hge : ¬ l.lwwKey C < x.lwwKey C := fun hlt =>
      hnone x (mem_rivals_slot.mpr ⟨hsub hxU, ht, ha, hlt⟩)
    have heq : prio C l = prio C x := by
      refine le_antisymm (not_lt.mp fun hlt => ?_) (not_lt.mp fun hlt => ?_)
      · exact absurd hle (not_le.mpr ((prio_lt_iff_lww ht ha).mp hlt))
      · exact hge ((prio_lt_iff_lww ht.symm ha.symm).mp hlt)
    rw [hd hl (hsub hxU) heq]
    exact hxU

/-! ## One call -/

/-- The policy of the directory. -/
def retention (C : DirectoryCrypto Cert) : Retention (AuthorizedListingV3 Cert) :=
  nested (prio C) caps nested_caps

/-- **One call makes the choice of the policy** from what is held and what clears the bar. -/
theorem Keyed.entries_step (hs : s.Keyed) (hd : Distinct (prio C) (s.entries ∪ s.offered C d)) :
    (s.seated C d).canonicalize.entries = (retention C).keep (s.entries ∪ s.offered C d) := by
  rw [(hs.seated d).entries_canonicalize (C := C), hs.entries_seated hd]
  rfl

omit [DecidableEq Cert] in
theorem powDifficulty_step :
    (s.seated C d).canonicalize.powDifficulty = (s.latched C d).powDifficulty := by
  rw [DirectoryStateV4.canonicalize, DirectoryStateV4.seated, powDifficulty_foldl_seat]

/-- A valid directory is within every cap. -/
theorem Valid.stable (hs : s.Valid C parameters) : (retention C).Stable s.entries := by
  have hk := hs.keyed
  have hcard (b : Bool) : (listings (s.tier b)).card = (s.tier b).size :=
    Authored.card_listings (hk.authored b)
  have htier (b : Bool) : (s.entries.filter fun l => l.isAnon = b).card = (s.tier b).size := by
    rw [← hcard]
    congr 1; ext l
    rw [Finset.mem_filter, hk.mem_listings_iff]
  have hatt : (s.tier false).size ≤ maxListings := hs.attested_le
  have hanon : (s.tier true).size ≤ min anonListings (maxListings - (s.tier false).size) := hs.anon_le
  refine stable_of_card_le nested_caps hk.distinct ?_
  rw [caps, List.forall_mem_cons, List.forall_mem_cons, List.forall_mem_singleton]
  refine ⟨fun l _ => ?_, fun l _ => ?_, fun l hl => ?_⟩
  · have htotal : s.entries.card ≤ (s.tier false).size + (s.tier true).size := by
      rw [← hcard, ← hcard]
      exact Finset.card_union_le _ _
    refine (Finset.card_filter_le _ _).trans (htotal.trans ?_)
    change _ ≤ maxListings
    omega
  · change (s.entries.filter fun h => h.isAnon = l.isAnon).card ≤
      if l.isAnon then anonListings else maxListings
    rw [htier]
    cases l.isAnon
    · exact hatt
    · exact hanon.trans (min_le_left _ _)
  · refine Finset.card_le_one.mpr fun x hx y hy => ?_
    obtain ⟨hx, hxl⟩ := Finset.mem_filter.mp hx
    obtain ⟨hy, hyl⟩ := Finset.mem_filter.mp hy
    obtain ⟨ht, ha⟩ := Prod.mk.inj (hxl.trans hyl.symm)
    exact hk.eq_of_slot hx hy ht ha

end DirectoryStateV4

end Freebird
