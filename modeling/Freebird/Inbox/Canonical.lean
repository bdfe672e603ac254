import Freebird.Inbox.State
import Freebird.Retention.Cuts

/-!
# What `canonicalize` keeps

`canonicalize` sorts, drops all but the first pointer of every reply post (`mem_dedup`), and then
cuts the log down three times: per fingerprint, to the anonymous share, and to the global cap. The
three cuts are nested layers under one priority, attested before anonymous and then newest first, so
what is left is the choice of a retention policy (`toFinset_canonicalize`).
-/

namespace Freebird

open Retention

namespace AuthorizedReplyPointerV3

/-- Attested pointers before anonymous ones, newer pointers before older ones. -/
def prio : AuthorizedReplyPointerV3 → Bool ×ₗ PointerOrderKey := standing isAnon orderKey

theorem prio_lt_iff {p q : AuthorizedReplyPointerV3} : p.prio < q.prio ↔
    (p.isAnon = true ∧ q.isAnon = false) ∨ p.isAnon = q.isAnon ∧ p.orderKey < q.orderKey :=
  standing_lt_iff

/-- Only attested pointers lie above an attested one. -/
theorem isAnon_of_prio_lt {p q : AuthorizedReplyPointerV3} (h : p.prio < q.prio)
    (hp : p.isAnon = false) : q.isAnon = false := by
  rcases prio_lt_iff.mp h with ⟨ha, -⟩ | ⟨he, -⟩
  · rw [hp] at ha
    cases ha
  · exact he ▸ hp

/-- Order keys carry the reply post. -/
theorem replyPost_of_orderKey {p q : AuthorizedReplyPointerV3} (h : p.orderKey = q.orderKey) :
    p.ptr.replyPost = q.ptr.replyPost := congrArg (fun k => (ofLex k).2) h

theorem orderKey_le_of_replyPost {p q : AuthorizedReplyPointerV3}
    (h : p.ptr.replyPost = q.ptr.replyPost) : p.orderKey ≤ q.orderKey ↔ p.ptr.time ≤ q.ptr.time := by
  rw [Prod.Lex.le_iff]
  simp only [orderKey, ofLex_toLex, h, le_refl, and_true]
  exact le_iff_lt_or_eq.symm

theorem isAnon_of_fingerprint {p q : AuthorizedReplyPointerV3}
    (h : p.ptr.fingerprint = q.ptr.fingerprint) : p.isAnon = q.isAnon :=
  congrArg isAnonFingerprint h

end AuthorizedReplyPointerV3

namespace PointersV3

open AuthorizedReplyPointerV3

/-! ## The caps as nested layers -/

/-- The cap on all pointers. -/
def globalLayer : Layer AuthorizedReplyPointerV3 := totalLayer maxPointers

/-- The anonymous share; attested pointers may take every slot. -/
def tierLayer : Layer AuthorizedReplyPointerV3 := shareLayer isAnon anonPointerSlots maxPointers

/-- The fairness cap of each fingerprint. -/
def fpLayer : Layer AuthorizedReplyPointerV3 where
  Group := String
  group p := p.ptr.fingerprint
  cap := fpCap

def caps : List (Layer AuthorizedReplyPointerV3) := [globalLayer, tierLayer, fpLayer]

theorem nested_caps : Nested caps := by
  simp only [Nested, caps, List.pairwise_cons, List.mem_cons, List.not_mem_nil, or_false,
    forall_eq_or_imp, forall_eq, List.Pairwise.nil, and_true, false_implies, implies_true]
  exact ⟨⟨fun _ _ _ => rfl, fun _ _ _ => rfl⟩, fun _ _ h => isAnon_of_fingerprint h⟩

/-- The retention policy of the inbox. -/
def retention : Retention AuthorizedReplyPointerV3 := nested prio caps nested_caps

/-- What the caps leave of a set of pointers. -/
abbrev capped (A : Finset AuthorizedReplyPointerV3) : Finset AuthorizedReplyPointerV3 :=
  keepAll prio caps A

/-- A sorted log without duplicates of a reply post. -/
def Sorted (ps : List AuthorizedReplyPointerV3) : Prop := Ascending orderKey ps

/-- No two pointers of a list share a reply post. -/
def UniquePosts (ps : List AuthorizedReplyPointerV3) : Prop :=
  ps.Pairwise fun p q => p.ptr.replyPost ≠ q.ptr.replyPost

theorem distinct_prio {A : Finset AuthorizedReplyPointerV3} (h : Distinct orderKey A) :
    Distinct prio A := h.standing

/-! ## Sorting and dropping duplicates -/

variable {ps qs : List AuthorizedReplyPointerV3} {p q : AuthorizedReplyPointerV3}

/-- The sort of `canonicalize`. -/
def sortKeys (ps : List AuthorizedReplyPointerV3) : List AuthorizedReplyPointerV3 :=
  ps.insertionSort fun p q => p.orderKey ≤ q.orderKey

/-- The first two steps of `canonicalize`. -/
def dedup (ps : List AuthorizedReplyPointerV3) : List AuthorizedReplyPointerV3 :=
  retainUnseen ∅ (sortKeys ps)

instance : Std.Total fun p q : AuthorizedReplyPointerV3 => p.orderKey ≤ q.orderKey :=
  ⟨fun p q => le_total p.orderKey q.orderKey⟩

instance : IsTrans AuthorizedReplyPointerV3 fun p q => p.orderKey ≤ q.orderKey :=
  ⟨fun _ _ _ => le_trans⟩

@[simp] theorem mem_sortKeys : p ∈ sortKeys ps ↔ p ∈ ps := List.mem_insertionSort _

theorem sortKeys_pairwise (ps : List AuthorizedReplyPointerV3) :
    (sortKeys ps).Pairwise fun p q => p.orderKey ≤ q.orderKey := List.pairwise_insertionSort _ ps

/-- The sort is stable: pointers with one order key stay in their order. -/
theorem filter_sortKeys (ps : List AuthorizedReplyPointerV3) (k : PointerOrderKey) :
    (sortKeys ps).filter (fun p => p.orderKey = k) = ps.filter fun p => p.orderKey = k := by
  have hsub : (ps.filter fun p => p.orderKey = k).Sublist (sortKeys ps) := by
    refine List.sublist_insertionSort ?_ List.filter_sublist
    refine List.pairwise_of_forall_mem_list fun p hp q hq => ?_
    simp only [List.mem_filter, decide_eq_true_eq] at hp hq
    rw [hp.2, hq.2]
  have hsub' := hsub.filter fun p : AuthorizedReplyPointerV3 => decide (p.orderKey = k)
  simp only [List.filter_filter, Bool.and_self] at hsub'
  refine (hsub'.eq_of_length ?_).symm
  exact ((List.perm_insertionSort _ ps).filter _).length_eq.symm

theorem retainUnseen_sublist :
    ∀ (seen : Std.ExtTreeSet PostId compare) (ps : List AuthorizedReplyPointerV3),
      (retainUnseen seen ps).Sublist ps
  | _, [] => .slnil
  | seen, p :: ps => by
    rw [retainUnseen]
    split
    · exact (retainUnseen_sublist seen ps).cons p
    · exact (retainUnseen_sublist _ ps).cons_cons p

/-- The first pointer of each reply post not yet seen is retained. -/
theorem mem_retainUnseen {seen : Std.ExtTreeSet PostId compare} :
    p ∈ retainUnseen seen ps ↔ p.ptr.replyPost ∉ seen ∧
      ∃ as bs, ps = as ++ p :: bs ∧ ∀ q ∈ as, q.ptr.replyPost ≠ p.ptr.replyPost := by
  induction ps generalizing seen with
  | nil => simp [retainUnseen]
  | cons a ps ih =>
    rw [retainUnseen]
    split
    · rename_i ha
      rw [ih]
      refine and_congr_right fun hp => ⟨?_, ?_⟩
      · rintro ⟨as, bs, rfl, h⟩
        refine ⟨a :: as, bs, rfl, ?_⟩
        rintro q (_ | ⟨_, hq⟩)
        · exact fun he => hp (he ▸ ha)
        · exact h q hq
      · rintro ⟨_ | ⟨b, as⟩, bs, he, h⟩
        · obtain ⟨rfl, rfl⟩ := List.cons.inj he
          exact absurd ha hp
        · obtain ⟨rfl, rfl⟩ := List.cons.inj he
          exact ⟨as, bs, rfl, fun q hq => h q (List.mem_cons_of_mem _ hq)⟩
    · rename_i ha
      rw [List.mem_cons, ih]
      constructor
      · rintro (rfl | ⟨hp, as, bs, rfl, h⟩)
        · exact ⟨ha, [], ps, rfl, by simp⟩
        · rw [Std.ExtTreeSet.mem_insert, not_or] at hp
          refine ⟨hp.2, a :: as, bs, rfl, ?_⟩
          rintro q (_ | ⟨_, hq⟩)
          · simpa [compare_eq_iff_eq] using hp.1
          · exact h q hq
      · rintro ⟨hp, _ | ⟨b, as⟩, bs, he, h⟩
        · exact .inl (List.cons.inj he).1.symm
        · obtain ⟨rfl, rfl⟩ := List.cons.inj he
          refine .inr ⟨?_, as, bs, rfl, fun q hq => h q (List.mem_cons_of_mem _ hq)⟩
          rw [Std.ExtTreeSet.mem_insert, not_or]
          exact ⟨by simpa [compare_eq_iff_eq] using h a List.mem_cons_self, hp⟩

theorem retainUnseen_unique (seen : Std.ExtTreeSet PostId compare) :
    UniquePosts (retainUnseen seen ps) := by
  induction ps generalizing seen with
  | nil => exact .nil
  | cons a ps ih =>
    rw [retainUnseen]
    split
    · exact ih seen
    · refine List.pairwise_cons.mpr ⟨fun q hq he => ?_, ih _⟩
      have := (mem_retainUnseen.mp hq).1
      simp [he] at this

theorem exists_mem_retainUnseen {id : PostId} (h : ∃ q ∈ ps, q.ptr.replyPost = id) :
    ∃ q ∈ retainUnseen ∅ ps, q.ptr.replyPost = id := by
  classical
  induction ps using List.reverseRecOn with
  | nil => simp at h
  | append_singleton ps a ih =>
    by_cases hps : ∃ q ∈ ps, q.ptr.replyPost = id
    · obtain ⟨q, hq, rfl⟩ := ih hps
      obtain ⟨-, as, bs, rfl, hnew⟩ := mem_retainUnseen.mp hq
      exact ⟨q, mem_retainUnseen.mpr ⟨by simp, as, bs ++ [a], by simp, hnew⟩, rfl⟩
    · obtain ⟨q, hq, rfl⟩ := h
      rcases List.mem_append.mp hq with hq | hq
      · exact absurd ⟨q, hq, rfl⟩ hps
      · obtain rfl := List.mem_singleton.mp hq
        refine ⟨q, mem_retainUnseen.mpr ⟨by simp, ps, [], rfl, fun r hr he => ?_⟩, rfl⟩
        exact hps ⟨r, hr, he⟩

theorem UniquePosts.eq_of_replyPost (h : UniquePosts ps) (hp : p ∈ ps) (hq : q ∈ ps)
    (he : p.ptr.replyPost = q.ptr.replyPost) : p = q := by
  have : Std.Symm fun p q : AuthorizedReplyPointerV3 => p.ptr.replyPost ≠ q.ptr.replyPost :=
    ⟨fun _ _ => Ne.symm⟩
  by_contra hne
  exact h.forall hp hq hne he

theorem dedup_unique : UniquePosts (dedup ps) := retainUnseen_unique ∅

theorem dedup_subset (h : p ∈ dedup ps) : p ∈ ps :=
  mem_sortKeys.mp ((retainUnseen_sublist ∅ _).subset h)

theorem exists_mem_dedup (h : p ∈ ps) : ∃ q ∈ dedup ps, q.ptr.replyPost = p.ptr.replyPost :=
  exists_mem_retainUnseen ⟨p, mem_sortKeys.mpr h, rfl⟩

/-- Distinct reply posts make distinct order keys. -/
theorem sorted_of_unique (h : ps.Pairwise fun p q => p.orderKey ≤ q.orderKey) (hu : UniquePosts ps) :
    Sorted ps :=
  (h.and hu).imp fun h => lt_of_le_of_ne h.1 fun he => h.2 (replyPost_of_orderKey he)

theorem dedup_sorted (ps : List AuthorizedReplyPointerV3) : Sorted (dedup ps) :=
  sorted_of_unique ((sortKeys_pairwise ps).sublist (retainUnseen_sublist ∅ _)) dedup_unique

/-- A pointer survives if it comes before every other pointer with its reply post: first by time,
then by its place in the list. -/
theorem mem_dedup : p ∈ dedup ps ↔ ∃ as bs, ps = as ++ p :: bs ∧
    (∀ q ∈ as, q.ptr.replyPost = p.ptr.replyPost → p.orderKey < q.orderKey) ∧
    ∀ q ∈ bs, q.ptr.replyPost = p.ptr.replyPost → p.orderKey ≤ q.orderKey := by
  have first {p} (hp : p ∈ dedup ps) : ∃ as bs, ps = as ++ p :: bs ∧
      (∀ q ∈ as, q.ptr.replyPost = p.ptr.replyPost → p.orderKey < q.orderKey) ∧
      ∀ q ∈ bs, q.ptr.replyPost = p.ptr.replyPost → p.orderKey ≤ q.orderKey := by
    obtain ⟨-, as, bs, hs, hnew⟩ := mem_retainUnseen.mp hp
    have hsorted := sortKeys_pairwise ps
    rw [hs, List.pairwise_append, List.pairwise_cons] at hsorted
    have hle : ∀ q ∈ ps, q.ptr.replyPost = p.ptr.replyPost → p.orderKey ≤ q.orderKey := by
      intro q hq he
      have hq' : q ∈ as ++ p :: bs := by rwa [← hs, mem_sortKeys]
      rcases List.mem_append.mp hq' with hq | hq
      · exact absurd he (hnew q hq)
      · rcases List.mem_cons.mp hq with rfl | hq
        · exact le_rfl
        · exact hsorted.2.1.1 q hq
    -- Among the pointers with the order key of `p`, the sort leaves `p` in the first place.
    have hfil := filter_sortKeys ps p.orderKey
    have has : as.filter (fun q => q.orderKey = p.orderKey) = [] :=
      List.filter_eq_nil_iff.mpr fun q hq he =>
        hnew q hq (replyPost_of_orderKey (of_decide_eq_true he))
    rw [hs, List.filter_append, has, List.nil_append,
      List.filter_cons_of_pos (by simp)] at hfil
    obtain ⟨cs, ds, hps, hcs, -, -⟩ := List.filter_eq_cons_iff.mp hfil.symm
    refine ⟨cs, ds, hps, fun q hq he => lt_of_le_of_ne (hle q (by simp [hps, hq]) he) ?_, ?_⟩
    · exact fun hk => hcs q hq (by simp [hk])
    · exact fun q hq => hle q (by simp [hps, hq])
  refine ⟨first, ?_⟩
  rintro ⟨as, bs, hps, has, hbs⟩
  -- The survivor `q` of the reply post of `p` comes first too, so it is `p`.
  obtain ⟨q, hq, he⟩ := exists_mem_dedup (hps ▸ List.mem_append_right as List.mem_cons_self : p ∈ ps)
  obtain ⟨cs, ds, hps', hcs, hds⟩ := first hq
  rcases List.append_eq_append_iff.mp (hps.symm.trans hps') with ⟨es, rfl, h⟩ | ⟨es, rfl, h⟩
  · rcases es with _ | ⟨e, es⟩
    · exact (List.cons.inj h).1 ▸ hq
    · obtain ⟨rfl, rfl⟩ := List.cons.inj h
      have h1 := hbs q (by simp) he
      have h2 := hcs p (by simp) he.symm
      exact absurd h1 h2.not_ge
  · rcases es with _ | ⟨e, es⟩
    · exact (List.cons.inj h).1.symm ▸ hq
    · obtain ⟨rfl, rfl⟩ := List.cons.inj h
      have h1 := has q (by simp) he
      have h2 := hds p (by simp) he.symm
      exact absurd h2 h1.not_ge

theorem le_of_mem_dedup (h : p ∈ dedup ps) (hq : q ∈ ps) (he : q.ptr.replyPost = p.ptr.replyPost) :
    p.orderKey ≤ q.orderKey := by
  obtain ⟨as, bs, rfl, has, hbs⟩ := mem_dedup.mp h
  rcases List.mem_append.mp hq with hq | hq
  · exact (has q hq he).le
  · rcases List.mem_cons.mp hq with rfl | hq
    · exact le_rfl
    · exact hbs q hq he

/-- A pointer of the log survives what is appended to it unless an older announcement of its reply
post is. -/
theorem mem_dedup_append (hu : UniquePosts ps) (hp : p ∈ ps) : p ∈ dedup (ps ++ qs) ↔
    ∀ q ∈ qs, q.ptr.replyPost = p.ptr.replyPost → p.orderKey ≤ q.orderKey := by
  refine ⟨fun h q hq => le_of_mem_dedup h (List.mem_append_right ps hq), fun h => ?_⟩
  obtain ⟨as, bs, rfl⟩ := List.append_of_mem hp
  obtain ⟨-, hbs, has⟩ := List.pairwise_append.mp hu
  refine mem_dedup.mpr ⟨as, bs ++ qs, by simp, fun q hq he => ?_, fun q hq he => ?_⟩
  · exact absurd he (has q hq p List.mem_cons_self)
  · rcases List.mem_append.mp hq with hq | hq
    · exact absurd he.symm ((List.pairwise_cons.mp hbs).1 q hq)
    · exact h q hq he

/-- A pointer that is appended to the log survives if it comes first among those appended and before
every announcement of its reply post in the log. -/
theorem mem_dedup_append_right (hp : p ∉ ps) : p ∈ dedup (ps ++ qs) ↔
    p ∈ dedup qs ∧ ∀ q ∈ ps, q.ptr.replyPost = p.ptr.replyPost → p.orderKey < q.orderKey := by
  rw [mem_dedup, mem_dedup]
  constructor
  · rintro ⟨as, bs, he, has, hbs⟩
    rcases List.append_eq_append_iff.mp he with ⟨es, rfl, rfl⟩ | ⟨es, rfl, hcut⟩
    · exact ⟨⟨es, bs, rfl, fun q hq => has q (List.mem_append_right ps hq), hbs⟩,
        fun q hq => has q (List.mem_append_left es hq)⟩
    · rcases es with _ | ⟨e, es⟩
      · refine ⟨⟨[], bs, hcut.symm, by simp, hbs⟩, fun q hq => has q ?_⟩
        simpa using hq
      · obtain ⟨rfl, -⟩ := List.cons.inj hcut
        exact absurd (by simp) hp
  · rintro ⟨⟨as, bs, rfl, has, hbs⟩, hps⟩
    refine ⟨ps ++ as, bs, by simp, fun q hq => ?_, hbs⟩
    rcases List.mem_append.mp hq with hq | hq
    · exact hps q hq
    · exact has q hq

/-! ## The cuts -/

theorem capFingerprints_eq (ps : List AuthorizedReplyPointerV3) :
    capFingerprints ps = capScan compare (·.ptr.fingerprint) fpCap ps := by
  induction ps with
  | nil => rfl
  | cons p ps ih => rw [capFingerprints, ih, capScan]

/-- The scan keeps the newest pointers of each fingerprint and counts what it kept. -/
theorem capFingerprints_spec (ps : List AuthorizedReplyPointerV3) :
    (capFingerprints ps).1 = newest fpLayer ps ∧ ∀ fp, (capFingerprints ps).2.getD fp 0 =
      min (fpCap fp) (ps.countP fun p => p.ptr.fingerprint = fp) := by
  rw [capFingerprints_eq]
  exact capScan_spec compare (·.ptr.fingerprint) fpCap ps

theorem dropOldestAnon_eq :
    ∀ (n : Nat) (ps : List AuthorizedReplyPointerV3), dropOldestAnon n ps = dropFirst isAnon n ps
  | _, [] => rfl
  | n, p :: ps => by
    rw [dropOldestAnon, dropFirst, dropOldestAnon_eq, dropOldestAnon_eq]

theorem evict_eq_evictFirst (n : Nat) (ps : List AuthorizedReplyPointerV3) :
    evict n ps = evictFirst isAnon n ps := by
  induction n generalizing ps with
  | zero => rfl
  | succ n ih => rw [evict, ih, evictFirst]

/-- The last two cuts of `canonicalize`: the anonymous share and the global cap. -/
def cutTiers (ps : List AuthorizedReplyPointerV3) : List AuthorizedReplyPointerV3 :=
  let shared := dropOldestAnon (ps.countP isAnon - anonPointerSlots) ps
  evict (shared.length - maxPointers) shared

theorem cutTiers_eq (ps : List AuthorizedReplyPointerV3) :
    cutTiers ps = cutShare isAnon anonPointerSlots maxPointers ps := by
  rw [cutTiers, dropOldestAnon_eq, evict_eq_evictFirst, cutShare]

theorem canonicalize_eq (self : PointersV3) :
    self.canonicalize.pointers = cutTiers (newest fpLayer (dedup self.pointers)) := by
  simp only [canonicalize, cutTiers, dedup, sortKeys, (capFingerprints_spec _).1]

/-- The pointers of `ps` in the tier of `p` that are newer than `p`. -/
def newerInTier (ps : List AuthorizedReplyPointerV3) (p : AuthorizedReplyPointerV3) : Nat :=
  ps.countP fun q => q.isAnon = p.isAnon ∧ p.orderKey < q.orderKey

theorem card_tier_rivals (h : Sorted ps) :
    (tierLayer.rivals prio ps.toFinset p).card = newerInTier ps p := card_rivals_share h

theorem card_attested (h : Sorted ps) :
    (ps.toFinset.filter fun q => q.isAnon = false).card = ps.countP fun q => !q.isAnon := card_high h

/-- The last two cuts are the two coarser layers. -/
theorem toFinset_cutTiers (h : Sorted ps) :
    (cutTiers ps).toFinset = globalLayer.keep prio (tierLayer.keep prio ps.toFinset) := by
  rw [cutTiers_eq]
  exact toFinset_cutShare h

/-! ## The canonical form -/

/-- The members of one fingerprint share a tier, so they are in ascending order of priority. -/
theorem Sorted.fp_ascending (h : Sorted ps) :
    ps.Pairwise fun p q => fpLayer.group p = fpLayer.group q → prio p < prio q :=
  List.Pairwise.imp (fun hlt hfp => prio_lt_iff.mpr (.inr ⟨isAnon_of_fingerprint hfp, hlt⟩)) h

/-- **`canonicalize` makes the choice of the retention policy.** -/
theorem toFinset_canonicalize (self : PointersV3) :
    self.canonicalize.pointers.toFinset = capped (dedup self.pointers).toFinset := by
  have hsorted := dedup_sorted self.pointers
  rw [canonicalize_eq, toFinset_cutTiers (hsorted.sublist (newest_sublist _ _)),
    toFinset_newest fpLayer hsorted.nodup hsorted.fp_ascending]
  rfl

theorem canonicalize_sublist (self : PointersV3) :
    self.canonicalize.pointers.Sublist (dedup self.pointers) := by
  rw [canonicalize_eq, cutTiers_eq]
  exact (cutShare_sublist _).trans (newest_sublist _ _)

theorem mem_of_mem_canonicalize {self : PointersV3} (h : p ∈ self.canonicalize.pointers) :
    p ∈ self.pointers := dedup_subset ((canonicalize_sublist self).subset h)

/-- A log in canonical form. -/
structure Settled (ps : List AuthorizedReplyPointerV3) : Prop where
  sorted : Sorted ps
  unique : UniquePosts ps
  stable : retention.Stable ps.toFinset

namespace Settled

theorem nil : Settled [] := ⟨.nil, .nil, rfl⟩

theorem distinct (h : Settled ps) : Distinct prio ps.toFinset := distinct_prio h.sorted.distinct

/-- Pruning leaves the canonical form intact. -/
theorem sublist (h : Settled ps) (hs : qs.Sublist ps) : Settled qs where
  sorted := h.sorted.sublist hs
  unique := h.unique.sublist hs
  stable := h.stable.mono h.distinct fun p hp => by simpa using hs.subset (List.mem_toFinset.mp hp)

theorem ext (hp : Settled ps) (hq : Settled qs) (h : ps.toFinset = qs.toFinset) : ps = qs :=
  hp.sorted.ext hq.sorted fun p => by simpa using Finset.ext_iff.mp h p

theorem eq_of_replyPost (h : Settled ps) (hp : p ∈ ps) (hq : q ∈ ps)
    (he : p.ptr.replyPost = q.ptr.replyPost) : p = q := h.unique.eq_of_replyPost hp hq he

theorem countP_le (h : Settled ps) (l : Layer AuthorizedReplyPointerV3) (hl : l ∈ caps)
    (c : l.Group) : (ps.countP fun p => l.group p = c) ≤ l.cap c := by
  rw [← card_filter_toFinset h.sorted.nodup, ← show capped ps.toFinset = ps.toFinset from h.stable]
  exact card_keepAll_le h.distinct hl c

theorem length_le (h : Settled ps) : ps.length ≤ maxPointers := by
  have hle := h.countP_le globalLayer (by simp [caps]) ()
  exact le_of_eq_of_le (List.countP_eq_length.mpr fun _ _ => rfl).symm hle

theorem anon_le (h : Settled ps) : ps.countP isAnon ≤ anonPointerSlots := by
  have hle := h.countP_le tierLayer (by simp [caps]) true
  exact (List.countP_mono_left fun _ _ => decide_eq_true).trans hle

theorem fp_le (h : Settled ps) (fp : String) :
    (ps.countP fun p => p.ptr.fingerprint = fp) ≤ fpCap fp :=
  h.countP_le fpLayer (by simp [caps]) fp

end Settled

/-- The caps `verify` checks are the ones the policy enforces. -/
theorem settled_of_caps (hs : Sorted ps) (hu : UniquePosts ps) (hlen : ps.length ≤ maxPointers)
    (hanon : ps.countP isAnon ≤ anonPointerSlots)
    (hfp : ∀ fp, (ps.countP fun p => p.ptr.fingerprint = fp) ≤ fpCap fp) : Settled ps where
  sorted := hs
  unique := hu
  stable := by
    refine stable_of_card_le nested_caps (distinct_prio hs.distinct) ?_
    simp only [caps, List.mem_cons, List.not_mem_nil, or_false, forall_eq_or_imp, forall_eq]
    refine ⟨fun p _ => ?_, fun p _ => ?_, fun p _ => ?_⟩ <;> rw [card_filter_toFinset hs.nodup]
    · exact List.countP_le_length.trans hlen
    · change ps.countP (fun q => q.isAnon = p.isAnon) ≤ if p.isAnon then _ else _
      split
      · rename_i hp
        simpa [hp] using hanon
      · exact List.countP_le_length.trans hlen
    · exact hfp _

theorem settled_canonicalize (self : PointersV3) : Settled self.canonicalize.pointers where
  sorted := (dedup_sorted _).sublist (canonicalize_sublist self)
  unique := dedup_unique.sublist (canonicalize_sublist self)
  stable := by
    rw [toFinset_canonicalize]
    exact retention.keep_stable (distinct_prio (dedup_sorted _).distinct)

/-- Equal reply posts are announced by equal pointers. -/
def Agree (ps : List AuthorizedReplyPointerV3) : Prop :=
  ∀ p ∈ ps, ∀ q ∈ ps, p.ptr.replyPost = q.ptr.replyPost → p = q

theorem Agree.mem_dedup (h : Agree ps) : p ∈ dedup ps ↔ p ∈ ps := by
  refine ⟨dedup_subset, fun hp => ?_⟩
  obtain ⟨q, hq, he⟩ := exists_mem_dedup hp
  exact h q (dedup_subset hq) p hp he ▸ hq

theorem Agree.distinct (h : Agree ps) : Distinct prio ps.toFinset := by
  refine distinct_prio fun p hp q hq he => ?_
  rw [Finset.mem_coe, List.mem_toFinset] at hp hq
  exact h p hp q hq (replyPost_of_orderKey he)

theorem Agree.toFinset_canonicalize (h : Agree ps) :
    (canonicalize ⟨ps⟩).pointers.toFinset = capped ps.toFinset := by
  rw [PointersV3.toFinset_canonicalize]
  congr 1; ext p
  simp [h.mem_dedup]

theorem Agree.subset (h : Agree ps) (hsub : qs ⊆ ps) : Agree qs :=
  fun p hp q hq => h p (hsub hp) q (hsub hq)

theorem UniquePosts.agree (h : UniquePosts ps) : Agree ps := fun _ hp _ hq =>
  h.eq_of_replyPost hp hq

theorem Settled.agree (h : Settled ps) : Agree ps := h.unique.agree

/-- Newcomers with reply posts of their own agree with the log. -/
theorem Settled.agree_append (hs : Settled ps) (hqs : UniquePosts qs)
    (hnew : ∀ q ∈ qs, ∀ p ∈ ps, p.ptr.replyPost ≠ q.ptr.replyPost) : Agree (ps ++ qs) := by
  refine UniquePosts.agree (List.pairwise_append.mpr ⟨hs.unique, hqs, ?_⟩)
  exact fun p hp q hq => hnew q hq p hp

/-- The canonical form is a fixpoint. -/
theorem Settled.canonicalize_eq (h : Settled ps) : canonicalize ⟨ps⟩ = ⟨ps⟩ := by
  have := (settled_canonicalize ⟨ps⟩).ext h (h.agree.toFinset_canonicalize.trans h.stable)
  generalize canonicalize ⟨ps⟩ = self at this ⊢
  rw [← this]

end PointersV3

end Freebird
