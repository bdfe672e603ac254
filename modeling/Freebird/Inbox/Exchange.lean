import Freebird.Inbox.Horizon
import Freebird.Inbox.Invariant

/-!
# What a state offers against a summary

The pointers offered against the summary of a valid state are the ones with a reply post it lacks
that it would keep (`mem_offers`); a credential is offered when it is newer than the one held, or
next to a pointer that references it (`offeredCred`).
-/

namespace Freebird

open Retention AuthorizedReplyPointerV3

variable {Cert : Type} {C : Crypto Cert} {parameters : InboxParametersV3}

namespace PointersV3

variable {self : PointersV3} {old : PointersV3Summary} {ps : List AuthorizedReplyPointerV3}
  {p : AuthorizedReplyPointerV3}

/-- The pointers offered against a summary. -/
def offers (self : PointersV3) (old : PointersV3Summary) : List AuthorizedReplyPointerV3 :=
  (self.pointers.filter fun p => p.ptr.replyPost ∉ old.ids).filter (retained old)

theorem delta_getD : (self.delta old).getD [] = self.offers old := getD_unless_nil (self.offers old)

theorem delta_eq_none : self.delta old = none ↔ self.offers old = [] := by
  change (if (self.offers old).isEmpty then none else some (self.offers old)) = none ↔ _
  simp

theorem mem_ids : p.ptr.replyPost ∈ (summarize ⟨ps⟩).ids ↔
    ∃ q ∈ ps, q.ptr.replyPost = p.ptr.replyPost := by
  rw [summarize, Std.ExtTreeSet.mem_ofList]
  simp

/-- What is offered to a log in canonical form is new to it and would be kept. -/
theorem mem_offers (h : Settled ps) : p ∈ self.offers (summarize ⟨ps⟩) ↔ p ∈ self.pointers ∧
    (∀ q ∈ ps, q.ptr.replyPost ≠ p.ptr.replyPost) ∧ p ∈ capped (insert p ps.toFinset) := by
  simp only [offers, List.mem_filter, decide_eq_true_eq, and_assoc]
  refine and_congr_right fun _ => ?_
  rw [mem_ids]
  push Not
  exact and_congr_right fun hnew => retained_iff h hnew

/-- A log offers another one nothing where the other would keep nothing of what is new to it. -/
theorem offers_eq_nil_iff (h : Settled ps) : self.offers (summarize ⟨ps⟩) = [] ↔
    ∀ p ∈ self.pointers, (∀ q ∈ ps, q.ptr.replyPost ≠ p.ptr.replyPost) →
      p ∉ capped (insert p ps.toFinset) := by
  rw [List.eq_nil_iff_forall_not_mem]
  refine forall_congr' fun p => ?_
  rw [mem_offers h, not_and, not_and]

end PointersV3

namespace InboxStateV3

variable {s t : InboxStateV3 Cert} {old : InboxStateV3Summary}

variable (C) in
/-- The credential offered for a key. -/
def offeredCred (s : InboxStateV3 Cert) (old : InboxStateV3Summary)
    (ps : List AuthorizedReplyPointerV3) (k : Bytes 32) : Option (ReplierCredV3 Cert) :=
  s.creds.creds[k]?.filter fun c =>
    match old.creds[k]? with
    | none => ∃ p ∈ ps, p.ptr.replier = k
    | some theirs => theirs < c.contentHash C

theorem credsDelta_getElem? (self : CredsV3 Cert) (old : Map (Bytes 32) (Bytes 32)) (k : Bytes 32) :
    ((self.delta C old).getD ∅)[k]? = self.creds[k]?.filter fun c =>
      match old[k]? with
      | none => true
      | some theirs => theirs < c.contentHash C := by
  rw [CredsV3.delta, Map.getD_unless_empty]
  exact Std.ExtTreeMap.getElem?_filter'

theorem offeredCreds_getElem? (ps : Option (List AuthorizedReplyPointerV3)) (k : Bytes 32) :
    ((s.offeredCreds C old ps).getD ∅)[k]? = s.offeredCred C old (ps.getD []) k := by
  have hbind (o : Option (Map (Bytes 32) (ReplierCredV3 Cert)))
      (f : Bytes 32 → ReplierCredV3 Cert → Bool) :
      (o.bind fun c => let c := c.filter f; if c.isEmpty then none else some c).getD ∅ =
        (o.getD ∅).filter f := by
    cases o with
    | none =>
      refine Std.ExtTreeMap.ext_getElem? fun k => ?_
      rw [Option.bind_none, Option.getD_none, Std.ExtTreeMap.getElem?_filter']
      simp
    | some m => exact Map.getD_unless_empty _
  rw [offeredCreds, hbind, Std.ExtTreeMap.getElem?_filter', credsDelta_getElem?, offeredCred,
    Option.filter_filter]
  congr 1; funext c
  have hmem : k ∈ old.creds ↔ (old.creds[k]?).isSome := Std.ExtTreeMap.mem_iff_isSome_getElem?
  cases h : old.creds[k]? with
  | none => cases ps <;> simp [hmem, h]
  | some theirs => simp [hmem, h]

theorem offeredCred_eq_some {ps : List AuthorizedReplyPointerV3} {k : Bytes 32}
    {c : ReplierCredV3 Cert} : s.offeredCred C old ps k = some c ↔ s.creds.creds[k]? = some c ∧
      (old.creds[k]? = none ∧ (∃ p ∈ ps, p.ptr.replier = k) ∨
        ∃ theirs, old.creds[k]? = some theirs ∧ theirs < c.contentHash C) := by
  rw [offeredCred, Option.filter_eq_some_iff]
  refine and_congr_right fun _ => ?_
  cases old.creds[k]? <;> simp

/-- What `delta` would send, also when there is nothing to send. -/
def offer (C : Crypto Cert) (s : InboxStateV3 Cert) (old : InboxStateV3Summary) :
    InboxStateV3Delta Cert where
  creds := s.offeredCreds C old (s.pointers.delta old.pointers)
  pointers := s.pointers.delta old.pointers
  powDifficulty := if old.powSeq < difficultySeq s.powDifficulty then s.powDifficulty else none

theorem delta_eq : s.delta C old =
    if (s.offer C old).creds.isSome ∨ (s.offer C old).pointers.isSome ∨
      (s.offer C old).powDifficulty.isSome
    then some (s.offer C old) else none := rfl

theorem offer_creds_getElem? (k : Bytes 32) : ((s.offer C old).creds.getD ∅)[k]? =
    s.offeredCred C old (s.pointers.offers old.pointers) k := by
  rw [← PointersV3.delta_getD]
  exact offeredCreds_getElem? _ k

theorem offer_creds_eq_none : (s.offer C old).creds = none ↔
    ∀ k, s.offeredCred C old (s.pointers.offers old.pointers) k = none := by
  constructor
  · intro h k
    rw [← offer_creds_getElem?, h, Option.getD_none, Std.ExtTreeMap.getElem?_empty]
  · intro h
    have hempty : (s.offer C old).creds.getD ∅ = ∅ := Std.ExtTreeMap.ext_getElem? fun k => by
      rw [offer_creds_getElem?, h k, Std.ExtTreeMap.getElem?_empty]
    cases hc : (s.offer C old).creds with
    | none => rfl
    | some m =>
      obtain rfl : m = ∅ := by simpa [hc] using hempty
      change Option.bind _ _ = _ at hc
      obtain ⟨m', -, hm'⟩ := Option.bind_eq_some_iff.mp hc
      simp only at hm'
      split at hm'
      · cases hm'
      · rename_i hne
        exact absurd (Option.some.inj hm' ▸ Std.ExtTreeMap.isEmpty_empty) hne

/-- A state is silent when it has nothing to offer. -/
theorem delta_eq_none : s.delta C old = none ↔ s.pointers.offers old.pointers = [] ∧
    (∀ k, s.offeredCred C old [] k = none) ∧ difficultySeq s.powDifficulty ≤ old.powSeq := by
  have hlatch : (s.offer C old).powDifficulty = none ↔
      difficultySeq s.powDifficulty ≤ old.powSeq := by
    change (if _ then _ else _) = none ↔ _
    split
    · rename_i h
      cases hp : s.powDifficulty with
      | none => simp [hp, difficultySeq] at h
      | some cell => simpa [hp] using h
    · rename_i h
      simpa using h
  have hpointers : (s.offer C old).pointers = none ↔ s.pointers.offers old.pointers = [] :=
    PointersV3.delta_eq_none
  rw [delta_eq, ite_eq_right_iff]
  simp only [reduceCtorEq, imp_false, not_or, Option.not_isSome_iff_eq_none, offer_creds_eq_none,
    hpointers, hlatch]
  constructor
  · rintro ⟨hc, hp, hl⟩
    exact ⟨hp, hp ▸ hc, hl⟩
  · rintro ⟨hp, hc, hl⟩
    exact ⟨hp ▸ hc, hp, hl⟩

end InboxStateV3

end Freebird
