import Freebird.Retention.Indexed
import Freebird.Register.Newest
import Freebird.Ui.LegacyInbox

/-!
# The mirror of the old directory

During the dual-read window the browser keeps a copy of the directory at the old contract too. There
an author has one slot, whether attested or not, and the caps of the two tiers are enforced over all
slots. A listing that fails its check is passed over, a newer one of its author takes its slot, and
then the oldest anonymous listings go, and attested ones only when no anonymous one is left.

What a merge leaves is the choice of the two tiers from the newest listings of the authors
(`mem_merges_concat`). The mirror is always a valid directory of the old contract, and a flood of
anonymous listings takes no attested one of another author (`attested_merges`). A mirror that was
handed the listings of a valid directory holds that directory, however they came in
(`merges_eq_of_covers`).
-/

namespace Freebird

open Retention Register

/-! ## The caps of the old generation -/

def legacyMaxListings : Nat := 1000

def legacyAnonListings : Nat := 250

/-! ## The records -/

structure LegacyListing where
  author : Bytes 32
  lastActive : U64
  deriving DecidableEq

/-- The signature covers the listing alone. -/
structure LegacyAuthorizedListing (Cert : Type) where
  listing : LegacyListing
  signature : Signature
  attestation : Option (AttestationV1 Cert)
  deriving DecidableEq

structure LegacyDirectoryState (Cert : Type) where
  listings : Map (Bytes 32) (LegacyAuthorizedListing Cert)
  deriving DecidableEq

instance : EmptyCollection (LegacyDirectoryState Cert) := ⟨⟨∅⟩⟩

abbrev LegacyDirectoryDelta (Cert : Type) := List (LegacyAuthorizedListing Cert)

/-- The encoders of a listing and of the signed listing. -/
structure LegacyDirectoryCrypto (Cert : Type) extends LegacyInboxCrypto Cert where
  cborLegacyListing : LegacyListing → List U8
  cborLegacyAuthorizedListing : LegacyAuthorizedListing Cert → List U8

section
variable {Cert : Type} (C : LegacyDirectoryCrypto Cert)

namespace LegacyAuthorizedListing

variable (l : LegacyAuthorizedListing Cert)

def check (master : VerifyingKey) : Except String Unit := do
  let vk ← mapErr "bad author key" (C.keyFromBytes l.listing.author)
  mapErr "listing signature invalid" (C.verifyStrict vk (C.cborLegacyListing l.listing) l.signature)
  match l.attestation with
  | some att =>
    let _ ← mapErr "listing attestation invalid" (att.verify C.toLegacyCrypto vk master)
  | none => pure ()

def lwwKey : U64 ×ₗ Bool ×ₗ Bytes 32 :=
  toLex (l.listing.lastActive,
    toLex (l.attestation.isSome, C.blake3 (C.cborLegacyAuthorizedListing l)))

def isAnon : Bool := l.attestation.isNone

/-- The order of eviction. -/
def orderKey : U64 ×ₗ Bytes 32 := toLex (l.listing.lastActive, l.listing.author)

/-- The key of its slot. -/
def slot : Bytes 32 := l.listing.author

end LegacyAuthorizedListing

namespace LegacyDirectoryState

open LegacyAuthorizedListing

def oldest (m : Map (Bytes 32) (LegacyAuthorizedListing Cert)) (anonOnly : Bool) :
    Option (U64 ×ₗ Bytes 32) :=
  (((m.toList.map Prod.snd).filter fun l => !anonOnly || l.isAnon).map orderKey).min?

def anonCount (m : Map (Bytes 32) (LegacyAuthorizedListing Cert)) : Nat :=
  (m.toList.map Prod.snd).countP isAnon

/-- The victim of the first loop of `canonicalize`. -/
def oldestAnon (m : Map (Bytes 32) (LegacyAuthorizedListing Cert)) : Option (Bytes 32) :=
  (oldest m true).map fun key => (ofLex key).2

/-- The victim of the second loop. -/
def oldestListing (m : Map (Bytes 32) (LegacyAuthorizedListing Cert)) : Option (Bytes 32) :=
  ((oldest m true).or (oldest m false)).map fun key => (ofLex key).2

/-- Each turn of the loops removes one listing where every listing is stored under its author. -/
def canonicalize (m : Map (Bytes 32) (LegacyAuthorizedListing Cert)) :
    Map (Bytes 32) (LegacyAuthorizedListing Cert) :=
  let m := evictWhile anonCount oldestAnon legacyAnonListings m.size m
  evictWhile Std.ExtTreeMap.size oldestListing legacyMaxListings m.size m

variable (master : VerifyingKey)

/-- The loop of `merge`. -/
def seat : LegacyDirectoryDelta Cert → Map (Bytes 32) (LegacyAuthorizedListing Cert) →
    Map (Bytes 32) (LegacyAuthorizedListing Cert)
  | [], m => m
  | l :: ls, m =>
    match l.check C master with
    | .error _ => seat ls m
    | .ok () =>
      if m[l.listing.author]?.all fun held => held.lwwKey C < l.lwwKey C then
        seat ls (m.insert l.listing.author l)
      else seat ls m

def merge (self : LegacyDirectoryState Cert) (incoming : LegacyDirectoryDelta Cert) :
    LegacyDirectoryState Cert :=
  ⟨canonicalize (seat C master incoming self.listings)⟩

/-- The mirror after some merges. -/
def merges (deltas : List (LegacyDirectoryDelta Cert)) : LegacyDirectoryState Cert :=
  deltas.foldl (fun self delta => self.merge C master delta) ∅

end LegacyDirectoryState

end

namespace Sample

def legacyDirectoryCrypto : LegacyDirectoryCrypto VerifyingKey where
  toLegacyInboxCrypto := legacyInboxCrypto
  cborLegacyListing l := l.author.toList ++ leBytes 8 l.lastActive
  cborLegacyAuthorizedListing l := l.signature.toList ++
    (l.attestation.elim [] legacyInboxCrypto.cborAttestationV1) ++ l.listing.author.toList ++
      leBytes 8 l.listing.lastActive

/-- The listing of `key b`, attested by `key 8` or not. -/
def oldListing (b : U8) (lastActive : U64) (attested : Bool) :
    LegacyAuthorizedListing VerifyingKey where
  listing := ⟨bytes 32 b, lastActive⟩
  signature := sign b 0
  attestation := if attested then (oldCred b).attestation else none

/-- An attested listing, and one of each kind after it. -/
def oldDeltas : List (LegacyDirectoryDelta VerifyingKey) :=
  [[oldListing 2 7 true], [oldListing 3 5 false, oldListing 4 6 true]]

def oldDirectory : LegacyDirectoryState VerifyingKey :=
  .merges legacyDirectoryCrypto (key 91) oldDeltas

end Sample

variable {Cert : Type} [DecidableEq Cert] {C : LegacyDirectoryCrypto Cert} {master : VerifyingKey}

namespace LegacyDirectoryState

open LegacyAuthorizedListing

variable {m : Map (Bytes 32) (LegacyAuthorizedListing Cert)}
  {l h x y : LegacyAuthorizedListing Cert} {ls : LegacyDirectoryDelta Cert}

/-! ## The caps -/

theorem oldest_spec (anonOnly : Bool) (hm : Indexed slot m) (hx : x ∈ entries m)
    (hpart : (!anonOnly || x.isAnon) = true) : ∃ y ∈ entries m, (!anonOnly || y.isAnon) = true ∧
      oldest m anonOnly = some y.orderKey ∧
      ∀ z ∈ entries m, (!anonOnly || z.isAnon) = true → z ≠ y → y.orderKey < z.orderKey := by
  have hmem (z : LegacyAuthorizedListing Cert) :
      z ∈ (m.toList.map Prod.snd).filter (fun l => !anonOnly || l.isAnon) ↔
        z ∈ entries m ∧ (!anonOnly || z.isAnon) = true := by
    rw [List.mem_filter, entries, List.mem_toFinset]
  have hne : oldest m anonOnly ≠ none := by
    intro hnone
    have hnil := List.map_eq_nil_iff.mp (List.min?_eq_none_iff.mp hnone)
    exact List.not_mem_nil (hnil ▸ (hmem x).mpr ⟨hx, hpart⟩)
  obtain ⟨key, hkey⟩ := Option.ne_none_iff_exists'.mp hne
  obtain ⟨hin, hle⟩ := List.min?_eq_some_iff.mp hkey
  obtain ⟨y, hy, rfl⟩ := List.mem_map.mp hin
  obtain ⟨hy, hypart⟩ := (hmem y).mp hy
  refine ⟨y, hy, hypart, hkey, fun z hz hzpart hzy => ?_⟩
  refine lt_of_le_of_ne (hle _ (List.mem_map_of_mem ((hmem z).mpr ⟨hz, hzpart⟩))) fun he => hzy ?_
  exact hm.injOn hz hy (congrArg (fun k => (ofLex k).2) he).symm

theorem evicts_anon : Evicts (slot : LegacyAuthorizedListing Cert → _) orderKey isAnon anonCount
    oldestAnon where
  count m hm := hm.countP_values isAnon
  victim m hm x hx hanon := by
    obtain ⟨y, hy, hypart, hkey, hlt⟩ := oldest_spec true hm hx hanon
    exact ⟨y, hy, hypart, congrArg (Option.map _) hkey, hlt⟩

theorem evicts_listing : Evicts (slot : LegacyAuthorizedListing Cert → _) (standing isAnon orderKey)
    (fun _ => true) Std.ExtTreeMap.size oldestListing where
  count m hm := by
    rw [← hm.card_entries, Finset.filter_true_of_mem fun _ _ => rfl]
  victim m hm x hx _ := by
    by_cases hanon : ∃ x ∈ entries m, x.isAnon = true
    · obtain ⟨x, hx, hanon⟩ := hanon
      obtain ⟨y, hy, hypart, hkey, hlt⟩ := oldest_spec true hm hx hanon
      have hy' : y.isAnon = true := hypart
      refine ⟨y, hy, rfl, ?_, fun z hz _ hne => standing_lt_iff.mpr ?_⟩
      · rw [oldestListing, hkey]
        rfl
      · cases hz' : z.isAnon with
        | false => exact .inl ⟨hy', rfl⟩
        | true => exact .inr ⟨hy', hlt z hz hz' hne⟩
    · push Not at hanon
      obtain ⟨y, hy, -, hkey, hlt⟩ := oldest_spec false hm hx rfl
      have hnone : oldest m true = none := by
        rw [oldest, List.min?_eq_none_iff, List.map_eq_nil_iff, List.filter_eq_nil_iff]
        exact fun z hz => hanon z (List.mem_toFinset.mpr hz)
      have hatt (z : LegacyAuthorizedListing Cert) (hz : z ∈ entries m) : z.isAnon = false :=
        Bool.eq_false_iff.mpr (hanon z hz)
      refine ⟨y, hy, rfl, ?_, fun z hz _ hne => standing_lt_iff.mpr (.inr ?_)⟩
      · rw [oldestListing, hnone, hkey]
        rfl
      · exact ⟨(hatt y hy).trans (hatt z hz).symm, hlt z hz rfl hne⟩

theorem distinct_orderKey (hm : Indexed slot m) : Distinct orderKey (entries m) :=
  fun _ hx _ hy he => hm.injOn hx hy (congrArg (fun k => (ofLex k).2) he)

theorem distinct_standing (hm : Indexed slot m) : Distinct (standing isAnon orderKey) (entries m) :=
  (distinct_orderKey hm).standing

omit [DecidableEq Cert] in
theorem indexed_canonicalize (hm : Indexed slot m) : Indexed slot (canonicalize m) :=
  hm.evictWhile.evictWhile

/-- **The caps make the choice of the two tiers.** -/
theorem entries_canonicalize (hm : Indexed slot m) : entries (canonicalize m) =
    (totalLayer legacyMaxListings).keep (standing isAnon orderKey)
      ((shareLayer isAnon legacyAnonListings legacyMaxListings).keep (standing isAnon orderKey)
        (entries m)) := by
  have hfuel : anonCount m ≤ m.size := by
    rw [anonCount, ← Std.ExtTreeMap.length_toList, ← List.length_map (f := Prod.snd)]
    exact List.countP_le_length
  rw [← keep_tiers_eq (distinct_standing hm), LegacyDirectoryState.canonicalize,
    hm.evictWhile.entries_evictWhile evicts_listing le_rfl, hm.entries_evictWhile evicts_anon hfuel]
  simp only [Bool.true_eq_false, Finset.filter_false, Finset.filter_true, Finset.empty_union]

/-- Where the caps hold nothing is evicted. -/
theorem canonicalize_of_fits (hm : Indexed slot m)
    (hanon : ((entries m).filter fun l => l.isAnon = true).card ≤ legacyAnonListings)
    (htotal : m.size ≤ legacyMaxListings) : canonicalize m = m := by
  have hcount : anonCount m ≤ legacyAnonListings := (evicts_anon.count m hm).trans_le hanon
  rw [canonicalize, evictWhile_of_le hcount, evictWhile_of_le htotal]

/-! ## The slots -/

variable (C master) in
/-- The listings of a delta that pass their checks. -/
def offered (delta : LegacyDirectoryDelta Cert) : LegacyDirectoryDelta Cert :=
  delta.filter fun l => l.check C master = .ok ()

omit [DecidableEq Cert] in
theorem mem_offered : l ∈ offered C master ls ↔ l ∈ ls ∧ l.check C master = .ok () := by
  rw [offered, List.mem_filter, decide_eq_true_eq]

omit [DecidableEq Cert] in
/-- A slot is a register. -/
theorem getElem?_seat (k : Bytes 32) : (seat C master ls m)[k]? =
    newest (slotKey (lwwKey C)) m[k]?
      (((offered C master ls).filter fun l => l.slot = k).map some) := by
  induction ls generalizing m with
  | nil => rfl
  | cons l ls ih =>
    rw [seat]
    split
    · rename_i e he
      have hskip : offered C master (l :: ls) = offered C master ls :=
        List.filter_cons_of_neg (by rw [he]; exact Bool.false_ne_true)
      rw [ih, hskip]
    · rename_i hok
      have htake : offered C master (l :: ls) = l :: offered C master ls :=
        List.filter_cons_of_pos (by rw [hok]; rfl)
      rw [htake]
      have hslot : m[l.listing.author]?.all (fun held => held.lwwKey C < l.lwwKey C) = true ↔
          slotKey (lwwKey C) m[l.slot]? < slotKey (lwwKey C) (some l) := by
        rw [slot]
        cases m[l.listing.author]? <;> simp [WithBot.bot_lt_coe]
      by_cases hk : l.slot = k
      · subst hk
        rw [List.filter_cons_of_pos (by simp), List.map_cons, newest_cons, newer]
        split
        · rename_i hnewer
          rw [ih, if_pos (hslot.mp hnewer), slot, Std.ExtTreeMap.getElem?_insert_self]
        · rename_i hold
          rw [ih, if_neg (mt hslot.mpr hold)]
      · rw [List.filter_cons_of_neg (by simpa using hk)]
        split
        · rw [ih, Std.ExtTreeMap.getElem?_insert, if_neg]
          exact fun he => hk (compare_eq_iff_eq.mp he)
        · exact ih

omit [DecidableEq Cert] in
/-- What a slot holds after a delta was held or is offered. -/
theorem of_getElem?_seat {k : Bytes 32} (hl : (seat C master ls m)[k]? = some l) :
    m[k]? = some l ∨ l ∈ offered C master ls ∧ l.slot = k := by
  rw [getElem?_seat] at hl
  have hmem := hl ▸ mem_newest (slotKey (lwwKey C)) m[k]?
    (((offered C master ls).filter fun x => slot x = k).map some)
  rcases List.mem_cons.mp hmem with h | h
  · exact .inl h.symm
  · obtain ⟨x, hx, he⟩ := List.mem_map.mp h
    obtain rfl := Option.some.inj he
    obtain ⟨hx, hslot⟩ := List.mem_filter.mp hx
    exact .inr ⟨hx, of_decide_eq_true hslot⟩

omit [DecidableEq Cert] in
theorem indexed_seat (hm : Indexed slot m) : Indexed slot (seat C master ls m) := by
  intro k l hl
  rcases of_getElem?_seat hl with h | h
  · exact hm k l h
  · exact h.2

variable (C master) in
/-- What is held and what is offered. -/
def candidates (m : Map (Bytes 32) (LegacyAuthorizedListing Cert))
    (delta : LegacyDirectoryDelta Cert) : Finset (LegacyAuthorizedListing Cert) :=
  entries m ∪ (offered C master delta).toFinset

variable (C) in
/-- The newest listing of each author. -/
def winners (U : Finset (LegacyAuthorizedListing Cert)) : Finset (LegacyAuthorizedListing Cert) :=
  U.filter fun l => ∀ h ∈ U, h.slot = l.slot → h.lwwKey C ≤ l.lwwKey C

/-- **Every author is left with the newest listing.** -/
theorem entries_seat (hm : Indexed slot m)
    (hinj : Set.InjOn (lwwKey C) (candidates C master m ls)) :
    entries (seat C master ls m) = winners C (candidates C master m ls) := by
  have hmem (x : LegacyAuthorizedListing Cert) (k : Bytes 32) :
      some x ∈ m[k]? :: ((offered C master ls).filter fun l => l.slot = k).map some ↔
        x ∈ candidates C master m ls ∧ x.slot = k := by
    rw [List.mem_cons, List.mem_map, candidates, Finset.mem_union, hm.mem_entries,
      List.mem_toFinset, or_and_right]
    refine or_congr ⟨fun h => ?_, fun ⟨h, hk⟩ => hk ▸ h.symm⟩ ?_
    · obtain rfl := hm k x h.symm
      exact ⟨h.symm, rfl⟩
    · simp only [List.mem_filter, decide_eq_true_eq, Option.some.injEq, exists_eq_right]
  ext l
  rw [(indexed_seat hm).mem_entries, getElem?_seat, newest_slot_eq_some, winners, Finset.mem_filter]
  · simp only [hmem, and_true, and_imp]
  · exact hinj.mono fun x hx => ((hmem x _).mp hx).1

/-! ## The invariant -/

variable (C master) in
/-- A valid directory of the old contract. -/
structure Valid (s : LegacyDirectoryState Cert) : Prop where
  indexed : Indexed slot s.listings
  checked : ∀ l ∈ entries s.listings, l.check C master = .ok ()
  anon : ((entries s.listings).filter fun l => l.isAnon = true).card ≤ legacyAnonListings
  total : s.listings.size ≤ legacyMaxListings

variable {s : LegacyDirectoryState Cert} {delta : LegacyDirectoryDelta Cert}

theorem valid_empty : (∅ : LegacyDirectoryState Cert).Valid C master where
  indexed k l hl := by
    rw [show (∅ : LegacyDirectoryState Cert).listings = ∅ from rfl, Map.getElem?_empty] at hl
    cases hl
  checked := nofun
  anon := Nat.zero_le _
  total := Nat.zero_le _

theorem Valid.merge (hs : s.Valid C master) : (s.merge C master delta).Valid C master := by
  have hseat : Indexed slot (seat C master delta s.listings) := indexed_seat hs.indexed
  have hindexed : Indexed slot (s.merge C master delta).listings := indexed_canonicalize hseat
  have hentries := entries_canonicalize hseat
  have hdistinct := distinct_standing hseat
  refine ⟨hindexed, fun l hl => ?_, ?_, ?_⟩
  · have hl := hindexed.mem_entries.mp hl
    rcases of_getElem?_seat (getElem?_of_evictWhile (getElem?_of_evictWhile hl)) with h | h
    · exact hs.checked l (hs.indexed.mem_entries.mpr h)
    · exact (mem_offered.mp h.1).2
  · have hshare := (shareLayer isAnon legacyAnonListings legacyMaxListings).card_keep_group
      hdistinct true
    refine (Finset.card_le_card (Finset.filter_subset_filter _ ?_)).trans
      (hshare.trans_le (min_le_left _ _))
    rw [LegacyDirectoryState.merge, hentries]
    exact Finset.filter_subset _ _
  · have hkept : Distinct (standing isAnon orderKey)
        ((shareLayer isAnon legacyAnonListings legacyMaxListings).keep (standing isAnon orderKey)
          (entries (seat C master delta s.listings))) :=
      hdistinct.mono (Finset.filter_subset _ _)
    rw [← hindexed.card_entries, LegacyDirectoryState.merge, hentries, keep_total, card_highest hkept]
    exact min_le_left _ _

omit [DecidableEq Cert] in
theorem merges_concat (deltas : List (LegacyDirectoryDelta Cert)) :
    merges C master (deltas ++ [delta]) = (merges C master deltas).merge C master delta := by
  rw [merges, List.foldl_append]
  rfl

theorem valid_merges (deltas : List (LegacyDirectoryDelta Cert)) :
    (merges C master deltas).Valid C master := by
  induction deltas using List.reverseRecOn with
  | nil => exact valid_empty
  | append_singleton deltas delta ih =>
    rw [merges_concat]
    exact ih.merge

/-- What a merge leaves: the newest listing of an author, if it is among the latest of the share
that the attested ones leave, or among the latest that fit. -/
theorem mem_merge (hs : s.Valid C master)
    (hinj : Set.InjOn (lwwKey C) (candidates C master s.listings delta)) :
    l ∈ entries (s.merge C master delta).listings ↔
      l ∈ winners C (candidates C master s.listings delta) ∧
        ((winners C (candidates C master s.listings delta)).filter fun h =>
          h.isAnon = l.isAnon ∧ l.orderKey < h.orderKey).card <
            if l.isAnon then min legacyAnonListings (legacyMaxListings -
              ((winners C (candidates C master s.listings delta)).filter fun h =>
                h.isAnon = false).card)
            else legacyMaxListings := by
  have hseat : Indexed slot (seat C master delta s.listings) := indexed_seat hs.indexed
  have hrivals : (shareLayer isAnon legacyAnonListings legacyMaxListings).rivals
      (standing isAnon orderKey) (entries (seat C master delta s.listings)) l =
        (entries (seat C master delta s.listings)).filter fun h =>
          h.isAnon = l.isAnon ∧ l.orderKey < h.orderKey := by
    ext h
    rw [mem_rivals_share, Finset.mem_filter]
  rw [merge, entries_canonicalize hseat, mem_keep_tiers (distinct_standing hseat), hrivals,
    entries_seat hs.indexed hinj]

/-- **What a merge leaves**, after any merges: the newest listing of an author stays if it is among
the latest of the share that the attested ones leave, an attested one if it is among the latest that
fit. -/
theorem mem_merges_concat (deltas : List (LegacyDirectoryDelta Cert))
    (hinj : Set.InjOn (lwwKey C) (candidates C master (merges C master deltas).listings delta)) :
    l ∈ entries (merges C master (deltas ++ [delta])).listings ↔
      l ∈ winners C (candidates C master (merges C master deltas).listings delta) ∧
        ((winners C (candidates C master (merges C master deltas).listings delta)).filter fun h =>
          h.isAnon = l.isAnon ∧ l.orderKey < h.orderKey).card <
            if l.isAnon then min legacyAnonListings (legacyMaxListings -
              ((winners C (candidates C master (merges C master deltas).listings delta)).filter
                fun h => h.isAnon = false).card)
            else legacyMaxListings := by
  rw [merges_concat]
  exact mem_merge (valid_merges deltas) hinj

open Sample in
/-- A newer anonymous listing takes the slot of the attested one. -/
theorem mem_merges_concat_stripped : oldListing 2 9 false ∈ entries
    (merges legacyDirectoryCrypto (key 91) (oldDeltas ++ [[oldListing 2 9 false]])).listings := by
  have hinj : ∀ x ∈ candidates legacyDirectoryCrypto (key 91)
        (merges legacyDirectoryCrypto (key 91) oldDeltas).listings [oldListing 2 9 false],
      ∀ y ∈ candidates legacyDirectoryCrypto (key 91)
        (merges legacyDirectoryCrypto (key 91) oldDeltas).listings [oldListing 2 9 false],
      x.lwwKey legacyDirectoryCrypto = y.lwwKey legacyDirectoryCrypto → x = y := by
    decide +kernel
  exact (mem_merges_concat oldDeltas fun x hx y hy => hinj x hx y hy).mpr (by decide +kernel)

/-! ## Anonymous deltas -/

/-- An attested listing stays if its author has no newer one and nothing attested is offered. -/
theorem Valid.getElem?_merge (hs : s.Valid C master)
    (hanon : ∀ h ∈ delta, h.check C master = .ok () → h.isAnon = true)
    (hl : s.listings[l.slot]? = some l) (hatt : l.isAnon = false)
    (hnewest : ∀ h ∈ delta, h.slot = l.slot → h.lwwKey C ≤ l.lwwKey C) :
    (s.merge C master delta).listings[l.slot]? = some l := by
  have hseat : Indexed slot (seat C master delta s.listings) := indexed_seat hs.indexed
  have hindexed : Indexed slot (s.merge C master delta).listings := indexed_canonicalize hseat
  have hheld : (seat C master delta s.listings)[l.slot]? = some l := by
    rw [getElem?_seat, hl]
    refine newest_of_le (List.forall_mem_map.mpr fun h hh => WithBot.coe_le_coe.mpr ?_)
    obtain ⟨hh, hslot⟩ := List.mem_filter.mp hh
    exact hnewest h (mem_offered.mp hh).1 (of_decide_eq_true hslot)
  have hmem := hseat.mem_entries.mpr hheld
  -- An attested listing in a slot was held before, so they are no more than before.
  have hold (h : LegacyAuthorizedListing Cert) (hh : h ∈ entries (seat C master delta s.listings))
      (ha : h.isAnon = false) : h ∈ entries s.listings := by
    rcases of_getElem?_seat (hseat.mem_entries.mp hh) with hh | hh
    · exact hs.indexed.mem_entries.mpr hh
    · obtain ⟨hin, hok⟩ := mem_offered.mp hh.1
      exact absurd (hanon h hin hok) (Bool.eq_false_iff.mp ha)
  refine hindexed.mem_entries.mp ?_
  rw [LegacyDirectoryState.merge, entries_canonicalize hseat,
    mem_keep_tiers (distinct_standing hseat), hatt, if_neg Bool.false_ne_true]
  refine ⟨hmem, (Finset.card_lt_card ?_).trans_le (hs.indexed.card_entries.trans_le hs.total)⟩
  refine Finset.ssubset_iff_subset_ne.mpr ⟨fun h hh => ?_, fun he => ?_⟩
  · obtain ⟨hh, ha, -⟩ := mem_rivals_share.mp hh
    exact hold h hh (ha.trans hatt)
  · have hself := mem_rivals_share.mp (he ▸ hs.indexed.mem_entries.mpr hl)
    exact lt_irrefl _ hself.2.2

/-- **The mirror is always a valid directory, and a flood of anonymous listings takes no attested
one** whose author did not send a newer one. -/
theorem attested_merges (deltas : List (LegacyDirectoryDelta Cert))
    (delta : LegacyDirectoryDelta Cert) :
    (merges C master deltas).Valid C master ∧
      ((∀ h ∈ delta, h.check C master = .ok () → h.isAnon = true) →
        ∀ l : LegacyAuthorizedListing Cert, (merges C master deltas).listings[l.slot]? = some l →
          l.isAnon = false → (∀ h ∈ delta, h.slot = l.slot → h.lwwKey C ≤ l.lwwKey C) →
            (merges C master (deltas ++ [delta])).listings[l.slot]? = some l) := by
  refine ⟨valid_merges deltas, fun hanon l hl hatt hnewest => ?_⟩
  rw [merges_concat]
  exact (valid_merges deltas).getElem?_merge hanon hl hatt hnewest

open Sample in
theorem attested_merges_stale :
    (merges legacyDirectoryCrypto (key 91) (oldDeltas ++ [[oldListing 2 6 false]])).listings[bytes 32
      2]? = some (oldListing 2 7 true) := by
  have hanon : ∀ h ∈ [oldListing 2 6 false], h.check legacyDirectoryCrypto (key 91) = .ok () →
      h.isAnon = true := by decide +kernel
  have hold : ∀ h ∈ [oldListing 2 6 false], h.slot = (oldListing 2 7 true).slot →
      h.lwwKey legacyDirectoryCrypto ≤ (oldListing 2 7 true).lwwKey legacyDirectoryCrypto := by
    decide +kernel
  exact (attested_merges oldDeltas _).2 hanon (oldListing 2 7 true) (by decide +kernel) rfl hold

/-! ## The listings of one directory -/

omit [DecidableEq Cert] in
/-- Listings of one directory do not compete for a slot. -/
theorem getElem?_seat_of_held {k : Bytes 32}
    (hm : ∀ (k : Bytes 32) (x : LegacyAuthorizedListing Cert), m[k]? = some x →
      s.listings[k]? = some x)
    (hls : ∀ l ∈ ls, l.check C master = .ok () ∧ s.listings[l.slot]? = some l) :
    (seat C master ls m)[k]? = some x ↔ m[k]? = some x ∨ x ∈ ls ∧ x.slot = k := by
  have hmem (y : LegacyAuthorizedListing Cert) :
      some y ∈ m[k]? :: ((offered C master ls).filter fun l => l.slot = k).map some ↔
        m[k]? = some y ∨ y ∈ ls ∧ y.slot = k := by
    rw [List.mem_cons, eq_comm, List.mem_map]
    refine or_congr_right ?_
    simp only [List.mem_filter, mem_offered, decide_eq_true_eq, Option.some.injEq, exists_eq_right]
    exact and_congr_left fun _ => and_iff_left_of_imp fun hy => (hls y hy).1
  have hheld (y : LegacyAuthorizedListing Cert) (hy : m[k]? = some y ∨ y ∈ ls ∧ y.slot = k) :
      s.listings[k]? = some y := by
    rcases hy with hy | ⟨hy, rfl⟩
    · exact hm k y hy
    · exact (hls y hy).2
  rw [getElem?_seat, newest_slot_eq_some, hmem]
  · refine and_iff_left_of_imp fun hx y hy => le_of_eq ?_
    rw [Option.some.inj ((hheld y ((hmem y).mp hy)).symm.trans (hheld x hx))]
  · intro y hy z hz _
    exact Option.some.inj ((hheld y ((hmem y).mp hy)).symm.trans (hheld z ((hmem z).mp hz)))

/-- After any listings of a valid directory the mirror holds these and no others. -/
theorem mem_merges_of_held {deltas : List (LegacyDirectoryDelta Cert)} (hs : s.Valid C master)
    (hsub : ∀ delta ∈ deltas, ∀ l ∈ delta, l ∈ entries s.listings) {k : Bytes 32} :
    (merges C master deltas).listings[k]? = some x ↔
      s.listings[k]? = some x ∧ ∃ delta ∈ deltas, x ∈ delta := by
  induction deltas using List.reverseRecOn generalizing k x with
  | nil => simp [merges, show (∅ : LegacyDirectoryState Cert).listings = ∅ from rfl]
  | append_singleton deltas delta ih =>
    obtain ⟨hdeltas, hdelta⟩ := List.forall_mem_append.mp hsub
    have hdelta := List.forall_mem_singleton.mp hdelta
    have ih {k : Bytes 32} {x : LegacyAuthorizedListing Cert} := ih hdeltas (k := k) (x := x)
    have hvalid : (merges C master deltas).Valid C master := valid_merges deltas
    have hseat : Indexed slot (seat C master delta (merges C master deltas).listings) :=
      indexed_seat hvalid.indexed
    have hslot {k : Bytes 32} {x : LegacyAuthorizedListing Cert} :
        (seat C master delta (merges C master deltas).listings)[k]? = some x ↔
          (merges C master deltas).listings[k]? = some x ∨ x ∈ delta ∧ x.slot = k :=
      getElem?_seat_of_held (fun k x hx => (ih.mp hx).1) fun l hl =>
        ⟨hs.checked l (hdelta l hl), hs.indexed.mem_entries.mp (hdelta l hl)⟩
    have hsubset : entries (seat C master delta (merges C master deltas).listings) ⊆
        entries s.listings := by
      intro x hx
      rcases hslot.mp (hseat.mem_entries.mp hx) with h | h
      · exact hs.indexed.mem_entries.mpr (ih.mp h).1
      · exact hdelta x h.1
    have hfits := canonicalize_of_fits hseat
      ((Finset.card_le_card (Finset.filter_subset_filter _ hsubset)).trans hs.anon) (by
        rw [← hseat.card_entries]
        exact (Finset.card_le_card hsubset).trans (hs.indexed.card_entries.trans_le hs.total))
    rw [merges_concat, LegacyDirectoryState.merge, hfits, hslot, ih]
    simp only [List.mem_append, List.mem_singleton, or_and_right, exists_or, exists_eq_left]
    rw [and_or_left]
    refine or_congr_right ⟨fun ⟨hx, hk⟩ => ⟨?_, hx⟩, fun ⟨hx, hin⟩ => ⟨hin, hs.indexed k x hx⟩⟩
    exact hk ▸ hs.indexed.mem_entries.mp (hdelta x hx)

/-- **A mirror of a valid directory holds that directory**, however its listings came in. -/
theorem merges_eq_of_covers {deltas : List (LegacyDirectoryDelta Cert)} (hs : s.Valid C master)
    (hcovers : ∀ l, l ∈ entries s.listings ↔ ∃ delta ∈ deltas, l ∈ delta) :
    merges C master deltas = s := by
  have hsub : ∀ delta ∈ deltas, ∀ l ∈ delta, l ∈ entries s.listings :=
    fun delta hdelta l hl => (hcovers l).mpr ⟨delta, hdelta, hl⟩
  refine congrArg LegacyDirectoryState.mk (Std.ExtTreeMap.ext_getElem? fun k => ?_)
  refine Option.ext fun x => ?_
  refine (mem_merges_of_held hs hsub).trans (and_iff_left_of_imp fun hx => (hcovers x).mp ?_)
  exact mem_entries.mpr ⟨k, hx⟩

open Sample in
/-- The directory of the samples again, in one delta, with one listing twice. -/
theorem merges_eq_of_covers_once : merges legacyDirectoryCrypto (key 91)
    [[oldListing 4 6 true, oldListing 3 5 false, oldListing 2 7 true, oldListing 3 5 false]] =
      oldDirectory := by
  refine merges_eq_of_covers (valid_merges oldDeltas) fun l => ?_
  have hentries : entries oldDirectory.listings =
      [oldListing 4 6 true, oldListing 3 5 false, oldListing 2 7 true].toFinset := by
    decide +kernel
  rw [hentries]
  simp only [List.mem_toFinset, exists_eq_left, List.mem_cons,
    List.not_mem_nil, or_false]
  tauto

end LegacyDirectoryState

end Freebird
