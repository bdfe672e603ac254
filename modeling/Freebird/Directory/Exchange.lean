import Freebird.Directory.Caps
import Freebird.Retention.Lists

/-!
# What a directory is offered

A summary speaks for the directory it was made of: a listing is offered exactly if the directory
neither holds a version that is not older nor has its tier full above the listing
(`offers_iff`). A peer whose summary makes us silent has latched a record that is no older, and
lacks room for every listing of ours that it does not hold (`delta_eq_none_iff`).
-/

namespace Freebird

open Retention AuthorizedListingV3

variable {Cert : Type} {C : DirectoryCrypto Cert} {parameters : DirectoryParametersV3}

namespace DirectoryStateV4

variable {s t a b : DirectoryStateV4 Cert} {l h : AuthorizedListingV3 Cert}

/-! ## Horizons -/

def tierHorizon (s : DirectoryStateV4 Cert) (anon : Bool) : TierHorizon ListingOrderKey :=
  if anon then s.tierHorizons.2 else s.tierHorizons.1

theorem tierHorizon_eq (s : DirectoryStateV4 Cert) (anon : Bool) :
    s.tierHorizon anon = horizon (s.room anon) ((Map.vals (s.tier anon)).map orderKey) := by
  have hlen (m : Tier Cert) : ((Map.vals m).map orderKey).length = m.size := by
    rw [List.length_map, Map.length_vals]
  cases anon
  · simp only [tierHorizon, tierHorizons, room, tier, horizon, hlen, Bool.false_eq_true, if_false]
    rw [if_neg (by decide : maxListings ≠ 0)]
    cases ((Map.vals s.attested).map orderKey).min? with
    | none => simp
    | some oldest => rfl
  · simp only [tierHorizon, tierHorizons, room, tier, horizon, hlen, if_true]
    cases ((Map.vals s.anon).map orderKey).min? with
    | none => simp
    | some oldest => rfl

/-! ## Offers -/

variable (C) in
/-- `l` is offered to the directory `s` on its summary. -/
def offers (s : DirectoryStateV4 Cert) (l : AuthorizedListingV3 Cert) : Bool :=
  match (s.tier l.isAnon)[l.listing.author]? with
  | some h => h.lwwKey C < l.lwwKey C
  | none => (s.tierHorizon l.isAnon).admits l.orderKey

variable (C) in
/-- What `a` answers to the summary of `s`. -/
def answer (a s : DirectoryStateV4 Cert) : DirectoryDeltaV3 Cert where
  listings := (Map.vals a.attested ++ Map.vals a.anon).filter (s.offers C)
  powDifficulty := if difficultySeq s.powDifficulty < difficultySeq a.powDifficulty then
    a.powDifficulty else none

theorem offer_eq (ha : a.Keyed) (anon : Bool) :
    offer C (a.tier anon) ((s.tier anon).map fun _ l => l.lwwKey C) (s.tierHorizon anon) =
      (Map.vals (a.tier anon)).filter (s.offers C) := by
  refine List.filter_congr fun l hl => ?_
  obtain ⟨k, hk⟩ := Map.mem_vals.mp hl
  obtain ⟨rfl, rfl⟩ := ha anon k l hk
  rw [offers, Std.ExtTreeMap.getElem?_map]
  cases (s.tier l.isAnon)[l.listing.author]? <;> rfl

theorem delta_eq (ha : a.Keyed) : a.delta C (s.summarize C) =
    if !(a.answer C s).listings.isEmpty ∨ (a.answer C s).powDifficulty.isSome then
      some (a.answer C s) else none := by
  have hanswer : a.answer C s =
      ⟨offer C a.attested (s.attested.map fun _ l => l.lwwKey C) s.tierHorizons.1 ++
        offer C a.anon (s.anon.map fun _ l => l.lwwKey C) s.tierHorizons.2,
        (a.answer C s).powDifficulty⟩ := by
    rw [answer, List.filter_append]
    exact congrArg (DirectoryDeltaV3.mk · _)
      (congrArg₂ _ (offer_eq ha false) (offer_eq ha true)).symm
  rw [hanswer]
  rfl

/-! ## Offers as counting -/

theorem orderKey_le_of_lww (ha : l.listing.author = h.listing.author)
    (hle : l.lwwKey C ≤ h.lwwKey C) : l.orderKey ≤ h.orderKey := by
  rw [orderKey, orderKey, ha, Prod.Lex.le_iff]
  rcases (Prod.Lex.le_iff.mp hle) with hlt | ⟨he, -⟩
  · exact .inl hlt
  · exact .inr ⟨he, le_rfl⟩

variable [DecidableEq Cert]

/-- **A summary is exact**: it asks for the listings the directory would seat and keep. -/
theorem offers_iff (hs : s.Keyed) (hcap : s.Capped) : s.offers C l = true ↔
    s.holds C l = false ∧ (above orderKey (listings (s.tier l.isAnon)) l).card < s.room l.isAnon := by
  have hm := hs.authored l.isAnon
  rw [offers, holds]
  cases hslot : (s.tier l.isAnon)[l.listing.author]? with
  | some h =>
    obtain ⟨ha, ht⟩ := hs _ _ h hslot
    rw [Option.any_some, decide_eq_true_eq, decide_eq_false_iff_not, not_le, iff_self_and]
    intro hlt
    have hmem : h ∈ listings (s.tier l.isAnon) := mem_listings.mpr ⟨_, hslot⟩
    have hsub : above orderKey (listings (s.tier l.isAnon)) l ⊆
        (listings (s.tier l.isAnon)).erase h := fun x hx => by
      obtain ⟨hx, hlx⟩ := mem_above.mp hx
      refine Finset.mem_erase.mpr ⟨?_, hx⟩
      rintro rfl
      exact absurd (orderKey_le_of_lww (C := C) ha hlt.le) (not_le.mpr hlx)
    refine (Finset.card_le_card hsub).trans_lt ?_
    rw [Finset.card_erase_of_mem hmem]
    refine (Nat.sub_lt (Finset.card_pos.mpr ⟨h, hmem⟩) Nat.one_pos).trans_le ?_
    rw [hm.card_listings]
    exact hcap l.isAnon
  | none =>
    have hkey : l.orderKey ∉ (Map.vals (s.tier l.isAnon)).map orderKey := by
      intro hk
      obtain ⟨x, hx, he⟩ := List.mem_map.mp hk
      have hauthor : x.listing.author = l.listing.author := congrArg (fun k => (ofLex k).2) he
      have hx := hm.mem_listings.mp (List.mem_toFinset.mpr hx)
      rw [hauthor, hslot] at hx
      cases hx
    have hlen : ((Map.vals (s.tier l.isAnon)).map orderKey).length ≤ s.room l.isAnon := by
      rw [List.length_map, Map.length_vals]
      exact hcap l.isAnon
    change (s.tierHorizon l.isAnon).admits l.orderKey = true ↔ false = false ∧ _
    rw [tierHorizon_eq, horizon_admits_iff hkey hlen, eq_self_iff_true, true_and, above, listings,
      card_filter_toFinset (Map.nodup_vals hm), List.countP_map]
    rfl

theorem mem_answer :
    l ∈ (a.answer C s).listings ↔ l ∈ a.entries ∧ s.offers C l = true := by
  rw [answer, List.mem_filter, List.mem_append, entries, Finset.mem_union, listings, listings,
    List.mem_toFinset, List.mem_toFinset]

/-- **Silence**: the peer has latched a record that is no older, and holds each listing or has no
room for it. -/
theorem delta_eq_none_iff (ha : a.Keyed) (hs : s.Keyed) (hcap : s.Capped) :
    a.delta C (s.summarize C) = none ↔
      difficultySeq a.powDifficulty ≤ difficultySeq s.powDifficulty ∧
      ∀ l ∈ a.entries, s.holds C l = true ∨
        s.room l.isAnon ≤ (above orderKey (listings (s.tier l.isAnon)) l).card := by
  have hlistings : (a.answer C s).listings.isEmpty = true ↔ ∀ l ∈ a.entries, s.holds C l = true ∨
      s.room l.isAnon ≤ (above orderKey (listings (s.tier l.isAnon)) l).card := by
    rw [List.isEmpty_iff, List.eq_nil_iff_forall_not_mem]
    refine forall_congr' fun l => ?_
    rw [mem_answer, offers_iff hs hcap, not_and, not_and_or, Bool.not_eq_false, not_lt]
  have hpow : (a.answer C s).powDifficulty.isSome = false ↔
      difficultySeq a.powDifficulty ≤ difficultySeq s.powDifficulty := by
    rw [answer]
    split
    · rename_i hlt
      refine iff_of_false (fun hnone => ?_) (not_le.mpr hlt)
      have hnone : a.powDifficulty = none := by simpa using hnone
      rw [hnone] at hlt
      exact absurd hlt (not_lt.mpr (Fin.zero_le _))
    · rename_i hge
      exact iff_of_true rfl (not_lt.mp hge)
  rw [delta_eq ha, ← hlistings, ← hpow, and_comm]
  cases (a.answer C s).listings.isEmpty <;> cases (a.answer C s).powDifficulty.isSome <;> simp

end DirectoryStateV4

end Freebird
