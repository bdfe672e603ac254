import Freebird.Inbox.Invariant

/-!
# Anonymous deltas and attested pointers

A delta of anonymous credentials and pointers takes no slot of an attested pointer: the caps count
attested pointers first. What it can do is announce the reply post of an attested pointer at an
earlier time; the deduplication then keeps the anonymous pointer (`attested_kept_iff`).
-/

namespace Freebird

open Retention AuthorizedReplyPointerV3

variable {Cert : Type} {C : Crypto Cert} {parameters : InboxParametersV3}

namespace InboxStateV3

section
variable (C parameters) (s : InboxStateV3 Cert) (d : InboxStateV3Delta Cert)

/-- The delta announces the reply post of `q` at an earlier time, in a pointer that clears the bar
under the latch and carries the fingerprint of its replier's credential. -/
def Predated (q : AuthorizedReplyPointerV3) : Prop :=
  ∃ p ∈ d.pointers.getD [], p.ptr.replyPost = q.ptr.replyPost ∧ p.ptr.time < q.ptr.time ∧
    meetsInbox C parameters.owner.asBytes p.ptr.replier p.powNonce
      (difficultyBits C (adoptDifficulty C s.powDifficulty d.powDifficulty)) = true ∧
    ∃ c, s.creds.creds[p.ptr.replier]?.or (d.creds.getD ∅)[p.ptr.replier]? = some c ∧
      p.ptr.fingerprint = c.fingerprint C

end

variable {s s' : InboxStateV3 Cert} {d : InboxStateV3Delta Cert} {p q : AuthorizedReplyPointerV3}

/-- An anonymous credential never replaces one that is held. -/
theorem newerCred_anonymous {held offered : Option (ReplierCredV3 Cert)}
    (h : ∀ c, offered = some c → c.attestation = none) :
    newerCred C held offered = held.or offered := by
  cases offered with
  | none => simp
  | some c =>
    have hc : c.contentHash C = Bytes.zeros 32 := by rw [ReplierCredV3.contentHash, h c rfl]
    cases held with
    | none => rfl
    | some held => simp [newerCred, hc, Bytes.zeros_le]

section
variable (hcreds : ∀ (k : Bytes 32) (c : ReplierCredV3 Cert),
  (d.creds.getD ∅)[k]? = some c → c.attestation = none)
include hcreds

theorem credAfter_anonymous (k : Bytes 32) : s.credAfter C parameters d k =
    s.creds.creds[k]?.or (s.vouched C parameters d k) :=
  newerCred_anonymous fun c hc => hcreds k c (vouched_eq_some.mp hc).2

theorem credAfter_held {k : Bytes 32} {c : ReplierCredV3 Cert} (h : s.creds.creds[k]? = some c) :
    s.credAfter C parameters d k = some c := by
  rw [credAfter_anonymous hcreds, h, Option.some_or]

/-- The pointers of an anonymous delta that are appended to the log. -/
theorem mem_accepted_anonymous (ha : s.Accepts C parameters d) (hanon : p.isAnon = true) :
    p ∈ s.accepted C parameters d ↔ p ∈ d.pointers.getD [] ∧
      meetsInbox C parameters.owner.asBytes p.ptr.replier p.powNonce
        (difficultyBits C (s.latchAfter C d)) = true ∧
      ∃ c, s.creds.creds[p.ptr.replier]?.or (d.creds.getD ∅)[p.ptr.replier]? = some c ∧
        p.ptr.fingerprint = c.fingerprint C := by
  have hadm : p ∈ s.admitted C parameters d ↔ p ∈ d.pointers.getD [] ∧
      meetsInbox C parameters.owner.asBytes p.ptr.replier p.powNonce
        (difficultyBits C (s.latchAfter C d)) = true := by
    refine ⟨fun h => ?_, fun h => mem_admitted.mpr ⟨h.1, by simp [admits, h.2]⟩⟩
    -- A pointer of another inbox would have made the call fail.
    obtain ⟨hp, hadmits⟩ := mem_admitted.mp h
    exact ⟨hp, by simpa [admits, hanon, (ha.signed p h).1] using hadmits⟩
  rw [mem_accepted, hadm, and_assoc]
  refine and_congr_right fun hp => and_congr_right fun hm => ?_
  rw [Resolved, credAfter_anonymous hcreds, vouched_of_admitted (hadm.mpr ⟨hp, hm⟩)]

theorem predated_iff (ha : s.Accepts C parameters d)
    (hptrs : ∀ p ∈ d.pointers.getD [], p.isAnon = true) :
    s.Predated C parameters d q ↔ ∃ p ∈ s.accepted C parameters d,
      p.ptr.replyPost = q.ptr.replyPost ∧ p.ptr.time < q.ptr.time := by
  constructor
  · rintro ⟨p, hp, hpost, htime, hm, hc⟩
    exact ⟨p, (mem_accepted_anonymous hcreds ha (hptrs p hp)).mpr ⟨hp, hm, hc⟩, hpost, htime⟩
  · rintro ⟨p, hp, hpost, htime⟩
    have hp' := (mem_admitted.mp (mem_accepted.mp hp).1).1
    obtain ⟨hp, hm, hc⟩ := (mem_accepted_anonymous hcreds ha (hptrs p hp')).mp hp
    exact ⟨p, hp, hpost, htime, hm, hc⟩

/-- An attested pointer stays exactly if it is not predated. -/
theorem mem_pointersAfter_attested (hs : s.Valid C parameters) (ha : s.Accepts C parameters d)
    (hptrs : ∀ p ∈ d.pointers.getD [], p.isAnon = true) (hq : q ∈ s.pointers.pointers)
    (hqa : q.isAnon = false) :
    q ∈ s.pointersAfter C parameters d ↔ ¬ s.Predated C parameters d q := by
  have hacc : ∀ p ∈ s.accepted C parameters d, p.isAnon = true := fun p hp =>
    hptrs p (mem_admitted.mp (mem_accepted.mp hp).1).1
  have hdedup : q ∈ PointersV3.dedup (s.pointers.pointers ++ s.accepted C parameters d) ↔
      ¬ s.Predated C parameters d q := by
    rw [PointersV3.mem_dedup_append hs.settled.unique hq, predated_iff hcreds ha hptrs]
    push Not
    refine forall₂_congr fun p _ => forall_congr' fun he => ?_
    exact orderKey_le_of_replyPost he.symm
  rw [pointersAfter, List.mem_filter, decide_eq_true_eq, ← hdedup, ← List.mem_toFinset,
    PointersV3.toFinset_canonicalize]
  set D := PointersV3.dedup (s.pointers.pointers ++ s.accepted C parameters d) with hD
  constructor
  · exact fun h => List.mem_toFinset.mp (keepAll_subset _ _ h.1)
  · intro h
    obtain ⟨c, hc, hfp⟩ := hs.resolved q hq
    refine ⟨?_, c, credAfter_held hcreds hc, hfp⟩
    have hdistinct := PointersV3.distinct_prio (PointersV3.dedup_sorted
      (s.pointers.pointers ++ s.accepted C parameters d)).distinct
    refine mem_keepAll_of_above PointersV3.nested_caps hdistinct hs.settled.stable
      hs.settled.distinct (List.mem_toFinset.mpr h) (List.mem_toFinset.mpr hq) fun r hr => ?_
    -- Whatever comes before an attested pointer is attested, hence from the old log.
    obtain ⟨hr, hlt⟩ := mem_above.mp hr
    have hra : r.isAnon = false := by
      rcases prio_lt_iff.mp hlt with ⟨hq', -⟩ | ⟨he, -⟩
      · simp [hqa] at hq'
      · rw [← he, hqa]
    rcases List.mem_append.mp (PointersV3.dedup_subset (List.mem_toFinset.mp hr)) with hr | hr
    · exact List.mem_toFinset.mpr hr
    · simp [hacc r hr] at hra

end

/-- **Attested pointers survive an anonymous delta exactly if it predates none of them.** -/
theorem attested_kept_iff (hs : s.verify C parameters = .ok ())
    (hcreds : ∀ (k : Bytes 32) (c : ReplierCredV3 Cert),
      (d.creds.getD ∅)[k]? = some c → c.attestation = none)
    (hptrs : ∀ p ∈ d.pointers.getD [], p.isAnon = true)
    (h : s.applyDelta C parameters (some d) = (.ok (), s')) :
    (∀ q ∈ s.pointers.pointers, q.isAnon = false → q ∈ s'.pointers.pointers) ↔
      ∀ q ∈ s.pointers.pointers, q.isAnon = false → ¬ s.Predated C parameters d q := by
  have hv := verify_iff.mp hs
  obtain ⟨ha, happ⟩ := (applyDelta_eq_ok hv.settled).mp h
  rw [happ.pointers]
  exact forall₂_congr fun q hq => forall_congr' fun hqa =>
    mem_pointersAfter_attested hcreds hv ha hptrs hq hqa

end InboxStateV3

namespace Sample

open InboxStateV3

/-- An anonymous key announces a reply post. -/
def announce (post : U8) (time : U64) : InboxStateV3Delta VerifyingKey :=
  inboxDelta [anonymous 2] [pointer (anonymous 2) post time 0]

end Sample

namespace InboxStateV3

open Sample

theorem attested_kept_iff_fresh_post :
    (∀ q ∈ seated.pointers.pointers, q.isAnon = false →
      q ∈ (seated.applyDelta crypto inbox (some (announce 4 5))).2.pointers.pointers) ↔
    ∀ q ∈ seated.pointers.pointers, q.isAnon = false →
      ¬ seated.Predated crypto inbox (announce 4 5) q := by
  have hcreds : ∀ kc ∈ (announce 4 5).creds.getD ∅ |>.toList, kc.2.attestation = none := by
    decide +kernel
  refine attested_kept_iff (by decide +kernel) (fun k c hc => hcreds (k, c) ?_) (by decide +kernel)
    (by decide +kernel)
  exact Std.ExtTreeMap.mem_toList_iff_getElem?_eq_some.mpr hc

/-- The anonymous announcement of the reply post at time 5 takes the place of the attested one. -/
theorem attested_displaced :
    seated.verify crypto inbox = .ok () ∧
    (∀ kc ∈ ((announce 3 5).creds.getD ∅).toList, kc.2.attestation = none) ∧
    (∀ p ∈ (announce 3 5).pointers.getD [], p.isAnon = true) ∧
    (seated.applyDelta crypto inbox (some (announce 3 5))).1 = .ok () ∧
    pointer (attested 1 7 1) 3 10 0 ∈ seated.pointers.pointers ∧
    (pointer (attested 1 7 1) 3 10 0).isAnon = false ∧
    pointer (attested 1 7 1) 3 10 0 ∉
      (seated.applyDelta crypto inbox (some (announce 3 5))).2.pointers.pointers := by
  decide +kernel

end InboxStateV3

end Freebird
