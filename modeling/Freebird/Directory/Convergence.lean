import Freebird.Directory.Caps

/-!
# Convergence of the directory

Listings that pass their check and clear a bar that stays where it is are merged by the policy of
`Caps`, one call at a time (`Admissible.step`). The policy is path independent, so two runs over one
collection end in the same directory (`publish_converges`).
-/

namespace Freebird

open Retention AuthorizedListingV3

variable {Cert : Type} {C : DirectoryCrypto Cert} {parameters : DirectoryParametersV3}

namespace DirectoryStateV4

variable {s t u : DirectoryStateV4 Cert} {d : DirectoryDeltaV3 Cert}

section
variable (C parameters)

/-- Deltas applied in turn, up to the first that fails. -/
def run (s : DirectoryStateV4 Cert) :
    List (DirectoryDeltaV3 Cert) → Except String (DirectoryStateV4 Cert)
  | [] => .ok s
  | d :: ds =>
    match s.applyDelta C parameters d with
    | (.ok (), s) => run s ds
    | (.error e, _) => .error e

end

theorem run_cons_eq_ok {ds : List (DirectoryDeltaV3 Cert)} :
    run C parameters s (d :: ds) = .ok t ↔
      ∃ u, s.applyDelta C parameters d = (.ok (), u) ∧ run C parameters u ds = .ok t := by
  rw [run]
  split
  · rename_i u hu
    rw [hu]
    exact ⟨fun h => ⟨u, rfl, h⟩, fun ⟨_, he, h⟩ => (Prod.mk.inj he).2 ▸ h⟩
  · rename_i e u hu
    rw [hu]
    refine iff_of_false nofun fun ⟨_, he, _⟩ => ?_
    exact nomatch (Prod.mk.inj he).1

variable [DecidableEq Cert]

section
variable (C parameters) (s : DirectoryStateV4 Cert) (ls : Finset (AuthorizedListingV3 Cert))

/-- Listings that the directory may be sent while its bar stands. -/
structure Admissible : Prop where
  checked : ∀ l ∈ ls, l.check C parameters.ghostkeyMaster = .ok ()
  stamped : ∀ l ∈ ls, l.isAnon = true → meetsDirectory C.toCrypto l.listing.author l.powNonce
    (difficultyBits C.toCrypto s.powDifficulty) = true
  distinct : ∀ l ∈ ls ∪ s.entries, ∀ h ∈ ls ∪ s.entries,
    C.blake3 (C.cborListing l) = C.blake3 (C.cborListing h) → l = h

/-- A delta of bounded size that carries listings of the collection, and no new record. -/
structure Carries (d : DirectoryDeltaV3 Cert) : Prop where
  latch : adoptDifficulty C.toCrypto s.powDifficulty d.powDifficulty = s.powDifficulty
  listings : ∀ l ∈ d.listings, l ∈ ls
  size : d.listings.length ≤ maxListings + anonListings

/-- The states a run of such deltas goes through. -/
structure Stage (t : DirectoryStateV4 Cert) : Prop where
  keyed : t.Keyed
  latch : t.powDifficulty = s.powDifficulty
  entries : t.entries ⊆ s.entries ∪ ls

end

variable {ls : Finset (AuthorizedListingV3 Cert)}

theorem Valid.stage (hs : s.Valid C parameters) : Stage s ls s where
  keyed := hs.keyed
  latch := rfl
  entries := Finset.subset_union_left

namespace Admissible

theorem distinct_prio (h : Admissible C parameters s ls) : Distinct (prio C) (s.entries ∪ ls) := by
  intro l hl x hx he
  rw [Finset.union_comm] at hl hx
  exact h.distinct l hl x hx (congrArg (fun k => (ofLex (ofLex (ofLex k).2).2).2) he)

/-- Every listing of a delta clears the bar. -/
theorem offered_eq (h : Admissible C parameters s ls) (ht : Stage s ls t)
    (hd : Carries C s ls d) : t.offered C d = d.listings.toFinset := by
  have hbits : (t.latched C d).admissionBits C = difficultyBits C.toCrypto s.powDifficulty := by
    rw [admissionBits, latched, ht.latch, hd.latch]
  rw [offered, hbits]
  refine congrArg _ (List.filter_eq_self.mpr fun l hl => ?_)
  rw [clears]
  cases hanon : l.isAnon
  · rfl
  · exact h.stamped l (hd.listings l hl) hanon

/-- **One call**: it succeeds, and what is held is the choice from what was held and the delta. -/
theorem step (h : Admissible C parameters s ls) (ht : Stage s ls t) (hd : Carries C s ls d) :
    ∃ t', t.applyDelta C parameters d = (.ok (), t') ∧ Stage s ls t' ∧
      t'.entries = (retention C).keep (t.entries ∪ d.listings.toFinset) := by
  have hoffered := h.offered_eq ht hd
  have hsub : t.entries ∪ d.listings.toFinset ⊆ s.entries ∪ ls := by
    refine Finset.union_subset ht.entries fun l hl => Finset.mem_union_right _ ?_
    exact hd.listings l (List.mem_toFinset.mp hl)
  have hstep := ht.keyed.entries_step (hoffered ▸ h.distinct_prio.mono hsub)
  rw [hoffered] at hstep
  refine ⟨_, applyDelta_ok hd.size fun l hl => h.checked l (hd.listings l hl), ⟨?_, ?_, ?_⟩, hstep⟩
  · exact (ht.keyed.seated d).canonicalize
  · rw [powDifficulty_step, latched, ht.latch, hd.latch]
  · rw [hstep]
    exact ((retention C).keep_subset _).trans hsub

/-- **A run**: it succeeds, and what is held is the choice from everything that was offered. -/
theorem run (h : Admissible C parameters s ls) {ds : List (DirectoryDeltaV3 Cert)}
    (hds : ∀ d ∈ ds, Carries C s ls d) (ht : Stage s ls t) :
    ∃ t', DirectoryStateV4.run C parameters t ds = .ok t' ∧ Stage s ls t' ∧
      t'.entries = (retention C).run t.entries (ds.map fun d => d.listings.toFinset) := by
  induction ds generalizing t with
  | nil => exact ⟨t, rfl, ht, rfl⟩
  | cons d ds ih =>
    obtain ⟨hd, hds⟩ := List.forall_mem_cons.mp hds
    obtain ⟨u, hu, hstage, hentries⟩ := h.step ht hd
    obtain ⟨t', ht', hstage', hentries'⟩ := ih hds hstage
    refine ⟨t', run_cons_eq_ok.mpr ⟨u, hu, ht'⟩, hstage', ?_⟩
    rw [hentries', hentries]
    rfl

end Admissible

/-- **Convergence**: two runs over one collection of listings, in any order and any grouping, both
succeed and end in the same directory. -/
theorem publish_converges (hs : s.verify C parameters = .ok ()) (hls : Admissible C parameters s ls)
    {ds es : List (DirectoryDeltaV3 Cert)} (hds : ∀ d ∈ ds, Carries C s ls d)
    (hes : ∀ e ∈ es, Carries C s ls e) (hdsls : ∀ l ∈ ls, ∃ d ∈ ds, l ∈ d.listings)
    (hesls : ∀ l ∈ ls, ∃ e ∈ es, l ∈ e.listings) :
    ∃ s', DirectoryStateV4.run C parameters s ds = .ok s' ∧
      DirectoryStateV4.run C parameters s es = .ok s' := by
  have hv := verify_iff.mp hs
  obtain ⟨t, ht, hstage, hentries⟩ := hls.run hds hv.stage
  obtain ⟨u, hu, hstage', hentries'⟩ := hls.run hes hv.stage
  have hbatches {fs : List (DirectoryDeltaV3 Cert)} (hfs : ∀ f ∈ fs, Carries C s ls f) :
      ∀ B ∈ fs.map fun f => f.listings.toFinset, B ⊆ s.entries ∪ ls := by
    intro B hB
    obtain ⟨f, hf, rfl⟩ := List.mem_map.mp hB
    exact fun l hl => Finset.mem_union_right _ ((hfs f hf).listings l (List.mem_toFinset.mp hl))
  have hcover {fs : List (DirectoryDeltaV3 Cert)} (hfs : ∀ f ∈ fs, Carries C s ls f)
      (hfsls : ∀ l ∈ ls, ∃ f ∈ fs, l ∈ f.listings) (l : AuthorizedListingV3 Cert) :
      (∃ B ∈ fs.map fun f => f.listings.toFinset, l ∈ B) ↔ l ∈ ls := by
    simp only [List.mem_map, exists_exists_and_eq_and, List.mem_toFinset]
    exact ⟨fun ⟨f, hf, hl⟩ => (hfs f hf).listings l hl, hfsls l⟩
  have heq : t = u := by
    refine hstage.keyed.ext hstage'.keyed ?_ (hstage.latch.trans hstage'.latch.symm)
    rw [hentries, hentries']
    refine run_congr hv.stable hls.distinct_prio Finset.subset_union_left (hbatches hds)
      (hbatches hes) fun l => ?_
    rw [hcover hds hdsls, hcover hes hesls]
  exact ⟨t, ht, heq ▸ hu⟩

end DirectoryStateV4

namespace Sample

/-- A newer version of the seated listing, an anonymous one of its author, and another author. -/
def publications : Finset (AuthorizedListingV3 VerifyingKey) :=
  {listing 1 6 (some 7) 1, listing 1 5 none 0, listing 2 4 none 0}

def publishedApart : List (DirectoryDeltaV3 VerifyingKey) :=
  [⟨[listing 1 6 (some 7) 1], none⟩, ⟨[listing 1 5 none 0, listing 2 4 none 0], none⟩]

def publishedTogether : List (DirectoryDeltaV3 VerifyingKey) :=
  [⟨[listing 2 4 none 0, listing 1 5 none 0, listing 1 6 (some 7) 1, listing 2 4 none 0], none⟩]

end Sample

namespace DirectoryStateV4

open Sample

theorem publish_converges_versions :
    ∃ s', DirectoryStateV4.run directoryCrypto directory listed publishedApart = .ok s' ∧
      DirectoryStateV4.run directoryCrypto directory listed publishedTogether = .ok s' := by
  have carries : ∀ d ∈ publishedApart ++ publishedTogether,
      Carries directoryCrypto listed publications d := by
    have h : ∀ d ∈ publishedApart ++ publishedTogether,
        adoptDifficulty crypto listed.powDifficulty d.powDifficulty = listed.powDifficulty ∧
        (∀ l ∈ d.listings, l ∈ publications) ∧
        d.listings.length ≤ maxListings + anonListings := by decide +kernel
    exact fun d hd => ⟨(h d hd).1, (h d hd).2.1, (h d hd).2.2⟩
  exact publish_converges (by decide +kernel)
    ⟨by decide +kernel, by decide +kernel, by decide +kernel⟩
    (fun d hd => carries d (List.mem_append_left _ hd))
    (fun d hd => carries d (List.mem_append_right _ hd)) (by decide +kernel) (by decide +kernel)

end DirectoryStateV4

end Freebird
