import Freebird.Directory.Quiescence

/-!
# What an answer leaves out

The answer to a summary leaves out the listings that the receiver holds or has no room for. Applied,
it comes to the same state as all that the sender holds (`receive_eq_merge`), and two directories
that leave out everything hold the same listings (`agree_of_quiet`).
-/

namespace Freebird

open Retention AuthorizedListingV3

variable {Cert : Type} {C : DirectoryCrypto Cert} {parameters : DirectoryParametersV3}

section
variable {held : Option (AuthorizedListingV3 Cert)} {l : AuthorizedListingV3 Cert}
  {ls : List (AuthorizedListingV3 Cert)}

theorem newerListing_idem : newerListing C (newerListing C held l) l = newerListing C held l := by
  by_cases h : held.any fun h => l.lwwKey C ≤ h.lwwKey C
  · have hheld : newerListing C held l = held := if_pos h
    rw [hheld, hheld]
  · have hnew : newerListing C held l = some l := if_neg h
    rw [hnew, newerListing_some, if_pos le_rfl]

/-- A listing offered many times is offered once. -/
theorem foldl_newer_of_eq (hl : l ∈ ls) (h : ∀ x ∈ ls, x = l) :
    ls.foldl (newerListing C) held = newerListing C held l := by
  induction ls generalizing held with
  | nil => cases hl
  | cons x ls ih =>
    obtain ⟨rfl, hls⟩ := List.forall_mem_cons.mp h
    rw [List.foldl_cons]
    cases ls with
    | nil => rfl
    | cons y ls =>
      have hy : x ∈ y :: ls := (hls y List.mem_cons_self) ▸ List.mem_cons_self
      rw [ih hy hls, newerListing_idem]

end

variable [DecidableEq Cert]

namespace DirectoryStateV4

variable {a b s t : DirectoryStateV4 Cert} {l x : AuthorizedListingV3 Cert}
  {d : DirectoryDeltaV3 Cert} {tier : Bool} {k : Bytes 32}

/-- A newer version of a held slot is offered whatever the horizon says. -/
theorem held_or_full_of_not_offers (hs : s.Keyed) (hcap : s.Capped) (h : ¬ s.offers C l = true) :
    s.holds C l = true ∨ (s.tier l.isAnon)[l.listing.author]? = none ∧
      s.room l.isAnon ≤ (above orderKey (listings (s.tier l.isAnon)) l).card := by
  cases hslot : (s.tier l.isAnon)[l.listing.author]? with
  | none =>
    rw [offers_iff hs hcap, not_and_or, Bool.not_eq_false, not_lt] at h
    exact h.imp_right fun hfull => ⟨rfl, hfull⟩
  | some x =>
    rw [offers, hslot] at h
    exact .inl (holds_iff.mpr ⟨x, hslot, not_lt.mp (by simpa using h)⟩)

/-! ## Slot by slot -/

/-- A listing of a directory that clears the bar is offered its slot alone. -/
theorem Keyed.seated_slot_of_mem (ha : a.Keyed) (hd : ∀ x ∈ d.listings, x ∈ a.entries)
    (hl : l ∈ b.offered C d) : ((b.seated C d).tier l.isAnon)[l.listing.author]? =
      newerListing C (b.tier l.isAnon)[l.listing.author]? l := by
  rw [seated_slot]
  refine foldl_newer_of_eq (mem_filter_offeredTo.mpr ⟨hl, rfl, rfl⟩) fun x hx => ?_
  obtain ⟨hx, ht, hauthor⟩ := mem_filter_offeredTo.mp hx
  exact ha.eq_of_slot (hd x (mem_offered.mp hx).1) (hd l (mem_offered.mp hl).1) ht hauthor

theorem seated_slot_of_none
    (h : ∀ x ∈ b.offered C d, x.isAnon = tier → x.listing.author ≠ k) :
    ((b.seated C d).tier tier)[k]? = (b.tier tier)[k]? := by
  have hnil : d.listings.filter (offeredTo C ((b.latched C d).admissionBits C) tier k) = [] := by
    refine List.eq_nil_iff_forall_not_mem.mpr fun x hx => ?_
    obtain ⟨hx, ht, hauthor⟩ := mem_filter_offeredTo.mp hx
    exact h x hx ht hauthor
  rw [seated_slot, hnil, List.foldl_nil]

theorem mem_offered_asDelta : l ∈ b.offered C a.asDelta ↔
    l ∈ a.entries ∧ l.clears C (laterBits C b a) = true := by
  rw [mem_offered, mem_asDelta]
  rfl

/-- **The answer misses only what finds its tier full**: a slot ends as it would if everything were
offered, unless it is empty and there is no room for the listing offered. -/
theorem Valid.slot_answer (ha : a.Valid C parameters) (hb : b.Valid C parameters) :
    ((b.seated C (a.answer C b)).tier tier)[k]? = ((b.seated C a.asDelta).tier tier)[k]? ∨
      ((b.seated C (a.answer C b)).tier tier)[k]? = none ∧
        ∃ l, ((b.seated C a.asDelta).tier tier)[k]? = some l ∧
          b.room tier ≤ (above orderKey (listings (b.tier tier)) l).card := by
  by_cases hslot : ∃ l ∈ b.offered C a.asDelta, l.isAnon = tier ∧ l.listing.author = k
  · obtain ⟨l, hl, rfl, rfl⟩ := hslot
    obtain ⟨hmem, hc⟩ := mem_offered_asDelta.mp hl
    have hall := ha.keyed.seated_slot_of_mem (fun x hx => mem_asDelta.mp hx) hl
    by_cases ho : b.offers C l = true
    · have hl' := mem_offered_answer.mpr ⟨hmem, ho, hc⟩
      rw [hall, ha.keyed.seated_slot_of_mem (fun x hx => (mem_answer.mp hx).1) hl']
      exact .inl rfl
    · have hkept : ((b.seated C (a.answer C b)).tier l.isAnon)[l.listing.author]? =
          (b.tier l.isAnon)[l.listing.author]? := by
        refine seated_slot_of_none fun x hx ht hauthor => ho ?_
        obtain ⟨hx, hox, -⟩ := mem_offered_answer.mp hx
        exact ha.keyed.eq_of_slot hx hmem ht hauthor ▸ hox
      rw [hkept, hall]
      refine (held_or_full_of_not_offers hb.keyed hb.capped ho).imp (fun hold => ?_) fun hfull => ?_
      · exact (if_pos hold).symm
      · rw [hfull.1]
        exact ⟨rfl, l, rfl, hfull.2⟩
  · push Not at hslot
    rw [seated_slot_of_none hslot, seated_slot_of_none fun x hx => hslot x ?_]
    · exact .inl rfl
    · obtain ⟨hx, -, hc⟩ := mem_offered_answer.mp hx
      exact mem_offered_asDelta.mpr ⟨hx, hc⟩

/-! ## The caps -/

section
variable (ha : a.Valid C parameters) (hb : b.Valid C parameters)
include ha hb

theorem Valid.listings_answer_subset (tier : Bool) :
    listings ((b.seated C (a.answer C b)).tier tier) ⊆
      listings ((b.seated C a.asDelta).tier tier) := by
  intro l hl
  obtain ⟨k, hk⟩ := mem_listings.mp hl
  rcases ha.slot_answer hb with he | ⟨hnone, -⟩
  · exact mem_listings.mpr ⟨k, he ▸ hk⟩
  · rw [hnone] at hk
    cases hk

theorem Valid.crowded_answer (tier : Bool)
    (hl : l ∈ listings ((b.seated C a.asDelta).tier tier))
    (hout : l ∉ listings ((b.seated C (a.answer C b)).tier tier)) : b.room tier ≤
      (above orderKey (listings ((b.seated C (a.answer C b)).tier tier)) l).card := by
  obtain ⟨k, hk⟩ := mem_listings.mp hl
  rcases ha.slot_answer hb with he | ⟨-, x, hx, hfull⟩
  · exact absurd (mem_listings.mpr ⟨k, he.trans hk⟩) hout
  · obtain rfl : x = l := Option.some.inj (hx.symm.trans hk)
    exact hfull.trans (hb.keyed.card_above_seated tier _)

/-- Attested listings are missing only where they leave no anonymous share anyway. -/
theorem Valid.room_answer (tier : Bool) : (b.seated C (a.answer C b)).canonicalize.room tier =
    (b.seated C a.asDelta).canonicalize.room tier := by
  rw [(hb.keyed.seated _).room_canonicalize, (hb.keyed.seated _).room_canonicalize]
  have hsub : listings (b.seated C (a.answer C b)).attested ⊆
      listings (b.seated C a.asDelta).attested := ha.listings_answer_subset hb false
  by_cases hall : listings (b.seated C a.asDelta).attested ⊆
      listings (b.seated C (a.answer C b)).attested
  · rw [hsub.antisymm hall]
  · obtain ⟨l, hl, hout⟩ := Finset.not_subset.mp hall
    have hfull : maxListings ≤
        (above orderKey (listings (b.seated C (a.answer C b)).attested) l).card :=
      ha.crowded_answer hb false hl hout
    have hle := hfull.trans (Finset.card_le_card above_subset)
    have hle' := hle.trans (Finset.card_le_card hsub)
    rw [Nat.sub_eq_zero_of_le hle, Nat.sub_eq_zero_of_le hle']

/-- Eviction undoes the difference. -/
theorem Valid.listings_answer (tier : Bool) :
    listings ((b.seated C (a.answer C b)).canonicalize.tier tier) =
      listings ((b.seated C a.asDelta).canonicalize.tier tier) := by
  rw [(hb.keyed.seated _).listings_canonicalize, (hb.keyed.seated _).listings_canonicalize,
    ha.room_answer hb]
  refine highest_of_crowded (ha.listings_answer_subset hb tier) fun l hl hout => ?_
  calc (b.seated C a.asDelta).canonicalize.room tier ≤ b.room tier := hb.keyed.room_seated_le _
    _ ≤ _ := ha.crowded_answer hb tier hl hout

end

/-- **An exchange of summary and answer is a merge**: both succeed, in the same state. -/
theorem receive_eq_merge (ha : a.verify C parameters = .ok ())
    (hb : b.verify C parameters = .ok ()) :
    ∃ b', b.receive C parameters a = (.ok (), b') ∧ b.merge C parameters a = (.ok (), b') := by
  have ha := verify_iff.mp ha
  have hb := verify_iff.mp hb
  refine ⟨_, hb.receive_eq ha, ?_⟩
  rw [ha.merge_eq]
  refine congrArg (Prod.mk _) (Keyed.ext (hb.keyed.seated _).canonicalize
    (hb.keyed.seated _).canonicalize ?_ ?_)
  · exact (congrArg₂ (· ∪ ·) (ha.listings_answer hb false) (ha.listings_answer hb true)).symm
  · rw [powDifficulty_step, powDifficulty_step, latched_answer]
    rfl

open Sample in
theorem receive_eq_merge_fresh :
    ∃ b', fresh.receive directoryCrypto directory (served 0 none) = (.ok (), b') ∧
      fresh.merge directoryCrypto directory (served 0 none) = (.ok (), b') :=
  receive_eq_merge (by decide +kernel) (by decide +kernel)

/-! ## Two directories that answer each other with nothing -/

/-- Each listing of `a` is one that `b` holds in a version that is no older, or has no room for. -/
theorem Valid.held_or_full_of_quiet (ha : a.Valid C parameters) (hb : b.Valid C parameters)
    (hab : ∀ d, a.delta C (b.summarize C) = some d → d.listings = []) (hl : l ∈ a.entries) :
    b.holds C l = true ∨ (b.tier l.isAnon)[l.listing.author]? = none ∧
      b.room l.isAnon ≤ (above orderKey (listings (b.tier l.isAnon)) l).card := by
  refine held_or_full_of_not_offers hb.keyed hb.capped fun ho => ?_
  have hmem : l ∈ (a.answer C b).listings := mem_answer.mpr ⟨hl, ho⟩
  have hne : (!(a.answer C b).listings.isEmpty) = true := by
    cases h : (a.answer C b).listings with
    | nil => rw [h] at hmem; cases hmem
    | cons => rfl
  rw [delta_eq ha.keyed, if_pos (.inl hne)] at hab
  rw [hab _ rfl] at hmem
  cases hmem

section
variable (ha : a.Valid C parameters) (hb : b.Valid C parameters)
  (hab : ∀ d, a.delta C (b.summarize C) = some d → d.listings = [])
  (hba : ∀ d, b.delta C (a.summarize C) = some d → d.listings = [])
include ha hb hab hba

/-- Where they have the same room, two quiet directories list the same authors. -/
theorem Valid.authors_of_quiet (hroom : a.room tier = b.room tier) :
    authors (listings (a.tier tier)) = authors (listings (b.tier tier)) := by
  have explained {a b : DirectoryStateV4 Cert} (ha : a.Valid C parameters)
      (hb : b.Valid C parameters)
      (hab : ∀ d, a.delta C (b.summarize C) = some d → d.listings = []) :
      ∀ l ∈ listings (a.tier tier), l.listing.author ∈ authors (listings (b.tier tier)) ∨
        b.room tier ≤ (above orderKey (listings (b.tier tier)) l).card := by
    intro l hl
    obtain ⟨hmem, rfl⟩ := ha.keyed.mem_listings_iff.mp hl
    exact (ha.held_or_full_of_quiet hb hab hmem).imp (author_mem · hb.keyed) And.right
  have hcard {a : DirectoryStateV4 Cert} (ha : a.Valid C parameters) :
      (listings (a.tier tier)).card ≤ a.room tier :=
    ((ha.keyed.authored tier).card_listings).trans_le (ha.capped tier)
  refine image_eq_of_full (ha.keyed.authored tier).injOn_author (hb.keyed.authored tier).injOn_author
    (hcard ha) ?_ ?_ (explained hb ha hba) <;> rw [hroom]
  · exact hcard hb
  · exact explained ha hb hab

/-- Two versions of one slot that are each no older than the other are one listing. -/
theorem Valid.slot_of_quiet
    (hauthors : authors (listings (a.tier tier)) = authors (listings (b.tier tier)))
    (hinj : ∀ l ∈ a.entries, ∀ x ∈ b.entries,
      C.blake3 (C.cborListing l) = C.blake3 (C.cborListing x) → l = x)
    (hl : (a.tier tier)[k]? = some l) : (b.tier tier)[k]? = some l := by
  obtain ⟨rfl, rfl⟩ := ha.keyed tier k l hl
  have hmem := ha.keyed.mem_entries.mpr hl
  have hauthor : l.listing.author ∈ authors (listings (b.tier l.isAnon)) :=
    hauthors ▸ Finset.mem_image_of_mem _ (mem_listings.mpr ⟨_, hl⟩)
  obtain ⟨x, hx, he⟩ := Finset.mem_image.mp hauthor
  obtain ⟨hxmem, ht⟩ := hb.keyed.mem_listings_iff.mp hx
  have hx : (b.tier l.isAnon)[l.listing.author]? = some x := he ▸ (hb.keyed.mem_tier.mp hx).1
  have hle : l.lwwKey C ≤ x.lwwKey C := by
    have hheld := (ha.held_or_full_of_quiet hb hab hmem).resolve_right fun h =>
      nomatch hx.symm.trans h.1
    obtain ⟨y, hy, hle⟩ := holds_iff.mp hheld
    exact Option.some.inj (hy.symm.trans hx) ▸ hle
  have hge : x.lwwKey C ≤ l.lwwKey C := by
    have hslot : (a.tier x.isAnon)[x.listing.author]? = some l := by rw [ht, he, hl]
    have hheld := (hb.held_or_full_of_quiet ha hba hxmem).resolve_right fun h =>
      nomatch hslot.symm.trans h.1
    obtain ⟨y, hy, hge⟩ := holds_iff.mp hheld
    exact Option.some.inj (hy.symm.trans hslot) ▸ hge
  have hhash := congrArg (fun k => (ofLex (ofLex k).2).2) (le_antisymm hle hge)
  rw [hx, hinj l hmem x hxmem hhash]

/-- Tiers of the same room are equal. -/
theorem Valid.tier_of_quiet (tier : Bool) (hroom : a.room tier = b.room tier)
    (hinj : Set.InjOn (fun l => C.blake3 (C.cborListing l)) ↑(a.entries ∪ b.entries)) :
    a.tier tier = b.tier tier := by
  have hauthors := ha.authors_of_quiet hb hab hba hroom
  have hinj' (l : AuthorizedListingV3 Cert) (hl : l ∈ a.entries) (x : AuthorizedListingV3 Cert)
      (hx : x ∈ b.entries) (he : C.blake3 (C.cborListing l) = C.blake3 (C.cborListing x)) : l = x :=
    hinj (Finset.mem_union_left _ hl) (Finset.mem_union_right _ hx) he
  refine Std.ExtTreeMap.ext_getElem? fun k => Option.ext fun l => ⟨fun hl => ?_, fun hl => ?_⟩
  · exact ha.slot_of_quiet hb hab hba hauthors hinj' hl
  · refine hb.slot_of_quiet ha hba hab hauthors.symm (fun x hx l hl he => ?_) hl
    exact (hinj' l hl x hx he.symm).symm

end

/-- **Silence is agreement**: two valid directories that answer each other with no listing hold the
same listings, if the content hash tells their listings apart. -/
theorem agree_of_quiet (ha : a.verify C parameters = .ok ()) (hb : b.verify C parameters = .ok ())
    (hinj : Set.InjOn (fun l => C.blake3 (C.cborListing l)) ↑(a.entries ∪ b.entries))
    (hab : ∀ d, a.delta C (b.summarize C) = some d → d.listings = [])
    (hba : ∀ d, b.delta C (a.summarize C) = some d → d.listings = []) :
    a.attested = b.attested ∧ a.anon = b.anon := by
  have ha := verify_iff.mp ha
  have hb := verify_iff.mp hb
  have hattested : a.attested = b.attested :=
    ha.tier_of_quiet hb hab hba false rfl hinj
  refine ⟨hattested, ha.tier_of_quiet hb hab hba true ?_ hinj⟩
  rw [room, room, effectiveAnonShare, effectiveAnonShare, hattested]

open Sample in
/-- Directories that differ in their latches only. -/
theorem agree_of_quiet_latched :
    (served 0 none).attested = (served 0 (some (record 1 26))).attested ∧
      (served 0 none).anon = (served 0 (some (record 1 26))).anon := by
  have hinj : ∀ l ∈ (served 0 none).entries ∪ (served 0 (some (record 1 26))).entries,
      ∀ h ∈ (served 0 none).entries ∪ (served 0 (some (record 1 26))).entries,
        directoryCrypto.blake3 (directoryCrypto.cborListing l) =
          directoryCrypto.blake3 (directoryCrypto.cborListing h) → l = h := by decide +kernel
  have hab : (served 0 none).delta directoryCrypto
      ((served 0 (some (record 1 26))).summarize directoryCrypto) = none := by decide +kernel
  have hserved : (served 0 none).verify directoryCrypto directory = .ok () := by decide +kernel
  have hba : (served 0 (some (record 1 26))).delta directoryCrypto
      ((served 0 none).summarize directoryCrypto) = some ⟨[], some (record 1 26)⟩ := by
    decide +kernel
  refine agree_of_quiet hserved (by decide +kernel) (fun l hl h hh => hinj l hl h hh)
    (fun d hd => ?_) fun d hd => ?_
  · exact nomatch hab.symm.trans hd
  · exact Option.some.inj (hba.symm.trans hd) ▸ rfl

end DirectoryStateV4

end Freebird
