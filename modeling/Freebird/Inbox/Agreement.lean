import Freebird.Inbox.Exchange

/-!
# What silence says

Two valid states that offer each other nothing hold credentials with the same content hashes, and
logs that keep nothing of each other. The ids of a summary are reply posts, so the logs are equal
exactly when no reply post stands for two records (`silent_agree_iff`).
-/

namespace Freebird

open Retention AuthorizedReplyPointerV3

variable {Cert : Type} {C : Crypto Cert} {parameters : InboxParametersV3}

namespace InboxStateV3

variable {a b : InboxStateV3 Cert}

/-- Across the two states a reply post stands for one record. -/
def SamePosts (a b : InboxStateV3 Cert) : Prop :=
  ∀ p ∈ a.pointers.pointers, ∀ q ∈ b.pointers.pointers, p.ptr.replyPost = q.ptr.replyPost → p = q

theorem SamePosts.symm (h : SamePosts a b) : SamePosts b a :=
  fun p hp q hq he => (h q hq p hp he.symm).symm

theorem SamePosts.eq_of_replyPost (h : SamePosts a b) (ha : a.Valid C parameters)
    (hb : b.Valid C parameters) {p q : AuthorizedReplyPointerV3}
    (hp : p ∈ a.pointers.pointers ∨ p ∈ b.pointers.pointers)
    (hq : q ∈ a.pointers.pointers ∨ q ∈ b.pointers.pointers)
    (he : p.ptr.replyPost = q.ptr.replyPost) : p = q := by
  rcases hp with hp | hp <;> rcases hq with hq | hq
  · exact ha.settled.eq_of_replyPost hp hq he
  · exact h p hp q hq he
  · exact h.symm p hp q hq he
  · exact hb.settled.eq_of_replyPost hp hq he

/-- The two logs together are told apart by their priorities. -/
theorem SamePosts.distinct (h : SamePosts a b) (ha : a.Valid C parameters)
    (hb : b.Valid C parameters) :
    Distinct prio (a.pointers.pointers.toFinset ∪ b.pointers.pointers.toFinset) := by
  refine PointersV3.distinct_prio fun p hp q hq he => ?_
  simp only [Finset.coe_union, Set.mem_union, Finset.mem_coe, List.mem_toFinset] at hp hq
  exact h.eq_of_replyPost ha hb hp hq (replyPost_of_orderKey he)

/-- A log that offers another one nothing has only pointers that the other would not keep. -/
theorem not_mem_capped_of_silent (hb : b.Valid C parameters)
    (hab : a.pointers.offers b.pointers.summarize = []) (h : SamePosts a b) :
    ∀ p ∈ a.pointers.pointers.toFinset, p ∉ b.pointers.pointers.toFinset →
      p ∉ PointersV3.retention.keep (insert p b.pointers.pointers.toFinset) := by
  intro p hp hpb
  have hp := List.mem_toFinset.mp hp
  refine (PointersV3.offers_eq_nil_iff hb.settled).mp hab p hp fun q hq he => hpb ?_
  exact List.mem_toFinset.mpr (h p hp q hq he.symm ▸ hq)

theorem pointers_eq_of_silent (ha : a.Valid C parameters) (hb : b.Valid C parameters)
    (hab : a.pointers.offers b.pointers.summarize = [])
    (hba : b.pointers.offers a.pointers.summarize = []) (h : SamePosts a b) :
    a.pointers = b.pointers := by
  have := ha.settled.ext hb.settled <| ha.settled.stable.eq_of_losing hb.settled.stable
    (h.distinct ha hb) (not_mem_capped_of_silent hb hab h) (not_mem_capped_of_silent ha hba h.symm)
  obtain ⟨_, ⟨_⟩, _⟩ := a
  obtain ⟨_, ⟨_⟩, _⟩ := b
  exact congrArg PointersV3.mk this

/-- A credential that is not offered for a key the summary has is not newer. -/
theorem contentHash_le_of_silent {ps : List AuthorizedReplyPointerV3}
    (hab : ∀ k, a.offeredCred C (b.summarize C) ps k = none) {k : Bytes 32}
    {c c' : ReplierCredV3 Cert} (hc : a.creds.creds[k]? = some c)
    (hc' : b.creds.creds[k]? = some c') : c.contentHash C ≤ c'.contentHash C := by
  by_contra hlt
  have hold : (b.summarize C).creds[k]? = some (c'.contentHash C) := by
    simp [summarize, CredsV3.summarize, hc']
  have hoffer : a.offeredCred C (b.summarize C) ps k = some c :=
    offeredCred_eq_some.mpr ⟨hc, .inr ⟨_, hold, not_le.mp hlt⟩⟩
  simp [hab k] at hoffer

/-- **Silent states agree exactly if no reply post stands for two records.** -/
theorem silent_agree_iff (ha : a.verify C parameters = .ok ()) (hb : b.verify C parameters = .ok ())
    (hhash : ∀ (k : Bytes 32) (c c' : ReplierCredV3 Cert), a.creds.creds[k]? = some c →
      b.creds.creds[k]? = some c' → c.contentHash C = c'.contentHash C → c = c')
    (hab : a.delta C (b.summarize C) = none) (hba : b.delta C (a.summarize C) = none) :
    (a.pointers = b.pointers ∧ a.creds = b.creds) ↔ ∀ p ∈ a.pointers.pointers,
      ∀ q ∈ b.pointers.pointers, p.ptr.replyPost = q.ptr.replyPost → p = q := by
  have ha := verify_iff.mp ha
  have hb := verify_iff.mp hb
  obtain ⟨hpa, hca, -⟩ := delta_eq_none.mp hab
  obtain ⟨hpb, hcb, -⟩ := delta_eq_none.mp hba
  constructor
  · rintro ⟨hp, -⟩ p hp' q hq
    exact ha.settled.eq_of_replyPost hp' (hp ▸ hq)
  · intro h
    have hp := pointers_eq_of_silent ha hb hpa hpb h
    refine ⟨hp, congrArg CredsV3.mk (Std.ExtTreeMap.ext_getElem? fun k => ?_)⟩
    have hkey : k ∈ a.creds.creds ↔ k ∈ b.creds.creds := by rw [ha.mem_creds, hb.mem_creds, hp]
    cases hc : a.creds.creds[k]? with
    | none =>
      refine (Std.ExtTreeMap.getElem?_eq_none fun hk => ?_).symm
      obtain ⟨c, hc'⟩ := Map.mem_iff.mp (hkey.mpr hk)
      simp [hc] at hc'
    | some c =>
      obtain ⟨c', hc'⟩ := Map.mem_iff.mp (hkey.mp (Map.mem_iff.mpr ⟨c, hc⟩))
      rw [hc', hhash k c c' hc hc' (le_antisymm (contentHash_le_of_silent hca hc hc')
        (contentHash_le_of_silent hcb hc' hc))]

end InboxStateV3

namespace Sample

/-- The pointer of `seated` under another time. -/
def reannounced : InboxStateV3 VerifyingKey :=
  inboxState [attested 1 7 1] [pointer (attested 1 7 1) 3 11 0] none

end Sample

namespace InboxStateV3

open Sample

theorem silent_agree_iff_reannounced :
    (seated.pointers = reannounced.pointers ∧ seated.creds = reannounced.creds) ↔
    ∀ p ∈ seated.pointers.pointers, ∀ q ∈ reannounced.pointers.pointers,
      p.ptr.replyPost = q.ptr.replyPost → p = q :=
  silent_agree_iff (by decide +kernel : seated.verify crypto inbox = .ok ()) (by decide +kernel)
    (fun _ _ _ hc hc' _ => Option.some.inj (hc.symm.trans hc')) (by decide +kernel)
    (by decide +kernel)

/-- Two silent states with different pointers. -/
theorem silent_disagreement :
    seated.verify crypto inbox = .ok () ∧ reannounced.verify crypto inbox = .ok () ∧
    seated.creds = reannounced.creds ∧
    seated.delta crypto (reannounced.summarize crypto) = none ∧
    reannounced.delta crypto (seated.summarize crypto) = none ∧
    seated.pointers ≠ reannounced.pointers := by
  decide +kernel

end InboxStateV3

end Freebird
