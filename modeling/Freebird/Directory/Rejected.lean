import Freebird.Directory.Shell

/-!
# What a rejected delta leaves behind

`apply_delta` adopts the latch before it looks at the listings, and seats each of them before it
checks the next one. A rejection leaves the latch and the listings seated so far, so it is free of
traces only if the listing that fails comes before the first one that is seated
(`reject_unchanged_iff`).
-/

namespace Freebird

open AuthorizedListingV3

variable {Cert : Type} {C : DirectoryCrypto Cert} {parameters : DirectoryParametersV3}

namespace DirectoryStateV4

variable {s s' : DirectoryStateV4 Cert} {d : DirectoryDeltaV3 Cert}
  {ls : List (AuthorizedListingV3 Cert)} {l : AuthorizedListingV3 Cert} {bits : Nat}

/-! ## The loop -/

variable (C parameters) in
/-- The loop passes over the listing: its slot holds it already, or it does not clear the bar. -/
def Idle (bits : Nat) (s : DirectoryStateV4 Cert) (l : AuthorizedListingV3 Cert) : Prop :=
  s.holds C l = true ∨
    l.check C parameters.ghostkeyMaster = .ok () ∧ l.clears C bits = false

variable (C parameters) in
/-- The listing stops the loop. -/
def Stops (s : DirectoryStateV4 Cert) (l : AuthorizedListingV3 Cert) : Prop :=
  s.holds C l = false ∧ l.check C parameters.ghostkeyMaster ≠ .ok ()

variable (C parameters) in
/-- Every listing passes its check, or is no newer than the version its slot holds or one listed
before it. -/
def InOrder (bits : Nat) (s : DirectoryStateV4 Cert) (ls : List (AuthorizedListingV3 Cert)) : Prop :=
  ∀ as l bs, ls = as ++ l :: bs → l.check C parameters.ghostkeyMaster = .ok () ∨
    s.holds C l = true ∨
      ∃ x ∈ as, offeredTo C bits l.isAnon l.listing.author x = true ∧ l.lwwKey C ≤ x.lwwKey C

theorem Idle.seat_eq (h : s.Idle C parameters bits l) : s.seat C bits l = s := by
  rcases h with hold | ⟨-, hbar⟩
  · exact seat_of_holds hold
  · rw [seat, if_neg (by simp [hbar])]

/-- A slot holds a version if it did before, or if one no older was seated. -/
theorem holds_foldl_seat : (ls.foldl (seat C bits) s).holds C l = true ↔ s.holds C l = true ∨
    ∃ x ∈ ls, offeredTo C bits l.isAnon l.listing.author x = true ∧ l.lwwKey C ≤ x.lwwKey C := by
  rw [holds_iff, holds_iff, foldl_seat_slot]
  constructor
  · rintro ⟨x, hx, hle⟩
    rcases mem_of_foldl_newer hx with hheld | hmem
    · exact .inl ⟨x, hheld, hle⟩
    · obtain ⟨hmem, hoff⟩ := List.mem_filter.mp hmem
      exact .inr ⟨x, hmem, hoff, hle⟩
  · rintro (⟨h, hheld, hle⟩ | ⟨x, hmem, hoff, hle⟩)
    · obtain ⟨y, hy, hle'⟩ := le_foldl_newer _ hheld
      exact ⟨y, hy, hle.trans hle'⟩
    · obtain ⟨y, hy, hle'⟩ := le_foldl_newer_of_mem (List.mem_filter.mpr ⟨hmem, hoff⟩)
      exact ⟨y, hy, hle.trans hle'⟩

/-- One turn of the loop of a sound state, where skipping an attestation makes no difference. -/
theorem Sound.applyListings_cons (hs : s.Sound C parameters)
    (hcbor : Function.Injective C.cborAttestation) (bits : Nat) (l : AuthorizedListingV3 Cert)
    (ls : List (AuthorizedListingV3 Cert)) :
    (s.Stops C parameters l ∧
      ∃ e, DirectoryStateV4.applyListings C parameters bits (l :: ls) s = (.error e, s)) ∨
    ((s.holds C l = true ∨ l.check C parameters.ghostkeyMaster = .ok ()) ∧
      DirectoryStateV4.applyListings C parameters bits (l :: ls) s =
        DirectoryStateV4.applyListings C parameters bits ls (s.seat C bits l)) := by
  rw [DirectoryStateV4.applyListings_cons]
  by_cases hold : s.holds C l = true
  · refine .inr ⟨.inl hold, ?_⟩
    rw [if_pos hold, seat_of_holds hold]
  · rw [if_neg hold]
    by_cases hl : l.check C parameters.ghostkeyMaster = .ok ()
    · refine .inr ⟨.inr hl, ?_⟩
      rw [checkSkipping_eq_ok hl]
    · refine .inl ⟨⟨Bool.eq_false_iff.mpr hold, hl⟩, ?_⟩
      split
      · exact ⟨_, rfl⟩
      · rename_i hskip
        exact absurd (hs.check hcbor hskip) hl

/-- A listing that does not stop the loop leaves the state sound. -/
theorem Sound.seat_of_passed (hs : s.Sound C parameters) (hbits : powFloorBits ≤ bits)
    (hl : s.holds C l = true ∨ l.check C parameters.ghostkeyMaster = .ok ()) :
    (s.seat C bits l).Sound C parameters := by
  rcases hl with hold | hl
  · rw [seat_of_holds hold]
    exact hs
  · exact hs.seat hbits hl

/-- A list is in order if no listing stops the loop when its turn comes. -/
theorem inOrder_iff : InOrder C parameters bits s ls ↔
    ∀ as l bs, ls = as ++ l :: bs → ¬ (as.foldl (seat C bits) s).Stops C parameters l := by
  refine forall₄_congr fun as l bs _ => ?_
  rw [← holds_foldl_seat, Stops, not_and, not_not, ← Bool.not_eq_true, or_iff_not_imp_right]

theorem inOrder_cons : InOrder C parameters bits s (l :: ls) ↔
    ¬ s.Stops C parameters l ∧ InOrder C parameters bits (s.seat C bits l) ls := by
  rw [inOrder_iff, inOrder_iff]
  constructor
  · intro h
    refine ⟨h [] l ls rfl, ?_⟩
    rintro as x bs rfl
    exact h (l :: as) x bs rfl
  · rintro ⟨hl, h⟩ (_ | ⟨a, as⟩) x bs he
    · obtain ⟨rfl, -⟩ := List.cons.inj he
      exact hl
    · obtain ⟨rfl, rfl⟩ := List.cons.inj he
      exact h as x bs rfl

/-- The loop succeeds on the lists that are in order. -/
theorem Sound.applyListings_ok_iff (hs : s.Sound C parameters)
    (hcbor : Function.Injective C.cborAttestation) (hbits : powFloorBits ≤ bits) :
    (DirectoryStateV4.applyListings C parameters bits ls s).1 = .ok () ↔
      InOrder C parameters bits s ls := by
  induction ls generalizing s with
  | nil => simp [DirectoryStateV4.applyListings, inOrder_iff]
  | cons l ls ih =>
    rw [inOrder_cons]
    rcases hs.applyListings_cons hcbor bits l ls with
      ⟨hstops, e, he⟩ | ⟨hpass, he⟩
    · simp [he, hstops]
    · have hnot : ¬ s.Stops C parameters l := fun h => by
        rcases hpass with hold | hl
        · simp [h.1] at hold
        · exact h.2 hl
      rw [he, ih (hs.seat_of_passed hbits hpass), and_iff_right hnot]

/-- Wherever the loop stops, what it leaves is what the listings before were seated to. -/
theorem applyListings_prefix {r : Except String Unit}
    (h : applyListings C parameters bits ls s = (r, s')) :
    ∃ as, as <+: ls ∧ s' = as.foldl (seat C bits) s := by
  induction ls generalizing s with
  | nil => exact ⟨[], List.prefix_rfl, (Prod.mk.inj h).2.symm⟩
  | cons l ls ih =>
    rw [applyListings_cons] at h
    by_cases hold : s.holds C l = true
    · rw [if_pos hold] at h
      obtain ⟨as, has, rfl⟩ := ih h
      refine ⟨l :: as, List.cons_prefix_cons.mpr ⟨rfl, has⟩, ?_⟩
      rw [List.foldl_cons, seat_of_holds hold]
    · rw [if_neg hold] at h
      split at h
      · exact ⟨[], List.nil_prefix, (Prod.mk.inj h).2.symm⟩
      · obtain ⟨as, has, rfl⟩ := ih h
        exact ⟨l :: as, List.cons_prefix_cons.mpr ⟨rfl, has⟩, rfl⟩

/-- What was seated stays, in this version or a newer one. -/
theorem holds_of_applyListings {r : Except String Unit} (hclears : l.clears C bits = true)
    (h : applyListings C parameters bits ls (s.seat C bits l) = (r, s')) : s'.holds C l = true := by
  obtain ⟨as, -, rfl⟩ := applyListings_prefix h
  rw [← List.foldl_cons, holds_foldl_seat]
  exact .inr ⟨l, List.mem_cons_self, by simp [offeredTo, hclears], le_rfl⟩

/-- The loop fails without a trace if it has seated nothing when it stops. -/
theorem Sound.applyListings_error_iff (hs : s.Sound C parameters)
    (hcbor : Function.Injective C.cborAttestation)
    (h : DirectoryStateV4.applyListings C parameters bits ls s = (.error e, s')) :
    s' = s ↔ ∃ as l bs, ls = as ++ l :: bs ∧ (∀ x ∈ as, s.Idle C parameters bits x) ∧
      s.Stops C parameters l := by
  induction ls with
  | nil => simp [DirectoryStateV4.applyListings] at h
  | cons l ls ih =>
    rcases hs.applyListings_cons hcbor bits l ls with
      ⟨hstops, e', he⟩ | ⟨hpass, he⟩
    · rw [he] at h
      exact iff_of_true (Prod.mk.inj h).2.symm ⟨[], l, ls, rfl, by simp, hstops⟩
    · rw [he] at h
      have hnot : ¬ s.Stops C parameters l := fun h => by
        rcases hpass with hold | hl
        · simp [h.1] at hold
        · exact h.2 hl
      -- The head did not stop the loop, so a split has it among the listings passed over.
      have hshift : (∃ as x bs, l :: ls = as ++ x :: bs ∧
          (∀ y ∈ as, s.Idle C parameters bits y) ∧ s.Stops C parameters x) ↔
          s.Idle C parameters bits l ∧ ∃ as x bs, ls = as ++ x :: bs ∧
            (∀ y ∈ as, s.Idle C parameters bits y) ∧ s.Stops C parameters x := by
        constructor
        · rintro ⟨_ | ⟨a, as⟩, x, bs, hsplit, has, hx⟩
          · obtain ⟨rfl, -⟩ := List.cons.inj hsplit
            exact absurd hx hnot
          · obtain ⟨rfl, rfl⟩ := List.cons.inj hsplit
            obtain ⟨ha, has⟩ := List.forall_mem_cons.mp has
            exact ⟨ha, as, x, bs, rfl, has, hx⟩
        · rintro ⟨ha, as, x, bs, rfl, has, hx⟩
          exact ⟨l :: as, x, bs, rfl, List.forall_mem_cons.mpr ⟨ha, has⟩, hx⟩
      rw [hshift]
      by_cases hidle : s.Idle C parameters bits l
      · rw [hidle.seat_eq] at h
        rw [ih h, and_iff_right hidle]
      · rw [iff_false_intro (fun h' => hidle h'.1 : ¬ (_ ∧ _)), iff_false]
        intro heq
        have hold : ¬ s.holds C l = true := fun h' => hidle (.inl h')
        have hclears : l.clears C bits = true := by
          by_contra hbar
          exact hidle (.inr ⟨hpass.resolve_left hold, Bool.eq_false_iff.mpr hbar⟩)
        exact hold (heq ▸ holds_of_applyListings hclears h)

/-! ## One call -/

variable (C parameters) in
/-- The three ways one call goes. -/
theorem applyDelta_cases (s : DirectoryStateV4 Cert) (d : DirectoryDeltaV3 Cert) :
    (maxListings + anonListings < d.listings.length ∧
      s.applyDelta C parameters d = (.error "listing delta too large", s)) ∨
    (d.listings.length ≤ maxListings + anonListings ∧
      ((∃ e t, applyListings C parameters ((s.latched C d).admissionBits C) d.listings
          (s.latched C d) = (.error e, t) ∧ s.applyDelta C parameters d = (.error e, t)) ∨
        ∃ t, applyListings C parameters ((s.latched C d).admissionBits C) d.listings
          (s.latched C d) = (.ok (), t) ∧
            s.applyDelta C parameters d = (.ok (), t.canonicalize))) := by
  simp only [applyDelta]
  by_cases hlen : maxListings + anonListings < d.listings.length
  · rw [if_pos hlen]
    exact .inl ⟨hlen, rfl⟩
  · rw [if_neg hlen]
    refine .inr ⟨not_lt.mp hlen, ?_⟩
    rcases h : applyListings C parameters ((s.latched C d).admissionBits C) d.listings
      (s.latched C d) with ⟨e | ⟨⟩, t⟩
    · simp only [latched] at h
      exact .inl ⟨e, t, rfl, by rw [h]⟩
    · simp only [latched] at h
      exact .inr ⟨t, rfl, by rw [h]⟩

variable (C parameters) in
/-- The delta fails before anything is written: its record does not replace the latch, and the
listings up to the one that stops the loop are passed over. -/
def FailsFirst (s : DirectoryStateV4 Cert) (d : DirectoryDeltaV3 Cert) : Prop :=
  adoptDifficulty C.toCrypto s.powDifficulty d.powDifficulty = s.powDifficulty ∧
    ∃ as l bs, d.listings = as ++ l :: bs ∧
      (∀ x ∈ as, s.Idle C parameters ((s.latched C d).admissionBits C) x) ∧ s.Stops C parameters l

/-- A delta that stops in the loop leaves the state as it was exactly if it fails first. -/
theorem Valid.eq_self_iff (hs : s.Valid C parameters)
    (hcbor : Function.Injective C.cborAttestation)
    (h : applyListings C parameters ((s.latched C d).admissionBits C) d.listings (s.latched C d) =
      (.error e, s')) : s' = s ↔ s.FailsFirst C parameters d := by
  have hsound : (s.latched C d).Sound C parameters := fun b => hs.sound b
  have hloop := hsound.applyListings_error_iff hcbor h
  have hlatch : s'.powDifficulty = adoptDifficulty C.toCrypto s.powDifficulty d.powDifficulty := by
    obtain ⟨as, -, rfl⟩ := applyListings_prefix h
    exact powDifficulty_foldl_seat
  constructor
  · rintro rfl
    refine ⟨hlatch.symm, hloop.mp ?_⟩
    rw [latched, ← hlatch]
  · rintro ⟨hkept, hstops⟩
    refine (hloop.mpr hstops).trans ?_
    rw [latched, hkept]

/-- **When a rejected delta leaves the directory unchanged.** -/
theorem reject_unchanged_iff (hs : s.verify C parameters = .ok ())
    (hcbor : Function.Injective C.cborAttestation) :
    (∀ e s', s.applyDelta C parameters d = (.error e, s') → s' = s) ↔
      maxListings + anonListings < d.listings.length ∨
        s.InOrder C parameters ((s.latched C d).admissionBits C) d.listings ∨
          s.FailsFirst C parameters d := by
  have hv := verify_iff.mp hs
  have hsound : (s.latched C d).Sound C parameters := fun b => hv.sound b
  have hok : (applyListings C parameters ((s.latched C d).admissionBits C) d.listings
      (s.latched C d)).1 = .ok () ↔
        s.InOrder C parameters ((s.latched C d).admissionBits C) d.listings :=
    hsound.applyListings_ok_iff hcbor (floor_le_difficultyBits _)
  rcases applyDelta_cases C parameters s d with
    ⟨hlen, h⟩ | ⟨hlen, ⟨e, t, hloop, h⟩ | ⟨t, hloop, h⟩⟩
  · refine iff_of_true (fun e s' h' => ?_) (.inl hlen)
    exact (Prod.mk.inj (h.symm.trans h')).2.symm
  · have hfails : ¬ s.InOrder C parameters ((s.latched C d).admissionBits C) d.listings := by
      intro horder
      have hsucceeds := hok.mpr horder
      rw [hloop] at hsucceeds
      cases hsucceeds
    rw [or_iff_right (not_lt.mpr hlen), or_iff_right hfails, ← hv.eq_self_iff hcbor hloop]
    constructor
    · exact fun h' => h' e t h
    · rintro rfl e' s' h'
      exact (Prod.mk.inj (h.symm.trans h')).2.symm
  · refine iff_of_true (fun e s' h' => ?_) (.inr (.inl (hok.mp ?_)))
    · simp [h] at h'
    · exact congrArg Prod.fst hloop

end DirectoryStateV4

namespace Sample

/-- A listing of `key b` that its author did not sign. -/
def unsignedListing (b : U8) : AuthorizedListingV3 VerifyingKey :=
  { listing b 9 (some 8) 0 with signature := sign 0 0 }

/-- A listing in order, and one that is not. -/
def halfListed : DirectoryDeltaV3 VerifyingKey := ⟨[listing 2 6 (some 8) 0, unsignedListing 3], none⟩

end Sample

namespace DirectoryStateV4

open Sample

theorem reject_unchanged_iff_unsigned :
    let d : DirectoryDeltaV3 VerifyingKey := ⟨[unsignedListing 3, listing 2 6 (some 8) 0], none⟩
    (∀ e s', listed.applyDelta directoryCrypto directory d = (.error e, s') → s' = listed) ↔
      maxListings + anonListings < d.listings.length ∨
        listed.InOrder directoryCrypto directory
          ((listed.latched directoryCrypto d).admissionBits directoryCrypto) d.listings ∨
        listed.FailsFirst directoryCrypto directory d :=
  reject_unchanged_iff (by decide +kernel) cborAttestation_injective

/-- The delta is rejected for its second listing, and its first one stays. -/
theorem rejected_listing_stays : listed.verify directoryCrypto directory = .ok () ∧
    (listed.applyDelta directoryCrypto directory halfListed).1 =
      .error "listing signature invalid: bad signature" ∧
    (listed.applyDelta directoryCrypto directory halfListed).2 ≠ listed :=
  ⟨by decide +kernel, by decide +kernel, by decide +kernel⟩

end DirectoryStateV4

end Freebird
