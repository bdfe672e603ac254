import Freebird.Inbox.Exchange

/-!
# When an exchange goes quiet

A merge of valid states never fails (`Valid.merge`). A pointer is live where its fingerprint is that
of the newer credential of its key, and a merge should leave what the caps keep of the live pointers.
It does so if these clear the bar and what it is about to drop takes none of their places, and loses
one of them otherwise (`Valid.toFinset_merge_iff`).

Two states that merge each other in turn and lose nothing are silent afterwards exactly if the records
that one side did not take over are not offered either (`Lossless.quiet_iff`). If something was lost,
a side that still has it offers it again (`exists_lost_of_quiet`).
-/

namespace Freebird

open Retention AuthorizedReplyPointerV3

variable {Cert : Type} {C : Crypto Cert} {parameters : InboxParametersV3}

/-- An exchange back and forth. -/
theorem adoptDifficulty_adopt (held incoming : Option SignedCellV1) :
    adoptDifficulty C held (adoptDifficulty C incoming held) = adoptDifficulty C held incoming := by
  rcases adoptDifficulty_cases (C := C) incoming held with h | ⟨cell, rfl, h, hlt, -⟩
  · rw [h]
  · rw [h, adoptDifficulty_of_seq_le le_rfl, adoptDifficulty_of_seq_le hlt.le]

theorem difficultySeq_adopt_comm {held incoming : Option SignedCellV1}
    (h : ∀ cell, held = some cell → cell.genuine C = true) :
    difficultySeq (adoptDifficulty C held incoming) ≤
      difficultySeq (adoptDifficulty C incoming held) := by
  rcases adoptDifficulty_cases (C := C) held incoming with he | ⟨cell, rfl, he, -, -⟩
  · rw [he]
    exact le_difficultySeq_adopt _ h
  · rw [he]
    exact difficultySeq_adopt_le _ _

theorem newerCred_newerCred {held offered : Option (ReplierCredV3 Cert)}
    (h : ∀ c c', held = some c → offered = some c' → c.contentHash C = c'.contentHash C → c = c') :
    newerCred C offered (newerCred C held offered) = newerCred C held offered := by
  cases offered with
  | none => cases held <;> rfl
  | some c' =>
    cases held with
    | none => simp [newerCred]
    | some c =>
      by_cases hle : c'.contentHash C ≤ c.contentHash C
      · by_cases hge : c.contentHash C ≤ c'.contentHash C
        · simp [newerCred, h c c' rfl rfl (le_antisymm hge hle)]
        · simp [newerCred, hle, hge]
      · simp [newerCred, hle]

namespace InboxStateV3

variable {s o s' a b : InboxStateV3 Cert} {p : AuthorizedReplyPointerV3}

/-! ## One merge -/

variable (C) in
/-- What `o` sends to `s`, also when it is nothing. -/
def answer (o s : InboxStateV3 Cert) : InboxStateV3Delta Cert := o.offer C (s.summarize C)

theorem latchAfter_answer : s.latchAfter C (o.answer C s) =
    adoptDifficulty C s.powDifficulty o.powDifficulty := by
  rw [latchAfter, answer, offer]
  split
  · rfl
  · rename_i hge
    exact (adoptDifficulty_of_seq_le (not_lt.mp hge)).symm

theorem mem_admitted_answer : p ∈ s.admitted C parameters (o.answer C s) ↔
    p ∈ o.pointers.offers s.pointers.summarize ∧ admits C parameters.owner.asBytes
      (difficultyBits C (adoptDifficulty C s.powDifficulty o.powDifficulty)) p = true := by
  rw [mem_admitted, latchAfter_answer]
  exact and_congr_left fun _ => iff_of_eq (congrArg (p ∈ ·) PointersV3.delta_getD)

theorem mem_of_mem_offers {old : PointersV3Summary} {self : PointersV3}
    (h : p ∈ self.offers old) : p ∈ self.pointers :=
  List.mem_of_mem_filter (List.mem_of_mem_filter h)

theorem creds_answer {k : Bytes 32} {c : ReplierCredV3 Cert}
    (h : ((o.answer C s).creds.getD ∅)[k]? = some c) : o.creds.creds[k]? = some c := by
  rw [answer, offer_creds_getElem?] at h
  exact (offeredCred_eq_some.mp h).1

/-- A key whose credential is wanted gets the newer one of the two. -/
theorem credAfter_answer {k : Bytes 32} (hs : s.Valid C parameters)
    (h : (∃ q ∈ s.pointers.pointers, q.ptr.replier = k) ∨
      ∃ q ∈ s.admitted C parameters (o.answer C s), q.ptr.replier = k) :
    s.credAfter C parameters (o.answer C s) k =
      newerCred C s.creds.creds[k]? o.creds.creds[k]? := by
  have hold : (s.summarize C).creds[k]? = (s.creds.creds[k]?).map (·.contentHash C) := by
    simp [summarize, CredsV3.summarize]
  rw [credAfter, vouched, if_pos (by simpa only [List.mem_append, or_and_right, exists_or] using
    h.symm), answer, offer_creds_getElem?, offeredCred, hold]
  cases hc : s.creds.creds[k]? with
  | none =>
    have hadm := h.resolve_left fun hq => by
      obtain ⟨c, hc'⟩ := Map.mem_iff.mp ((hs.mem_creds k).mpr hq)
      simp [hc] at hc'
    have hoffered : ∃ q ∈ o.pointers.offers (s.summarize C).pointers, q.ptr.replier = k := by
      obtain ⟨q, hq, hk⟩ := hadm
      exact ⟨q, (mem_admitted_answer.mp hq).1, hk⟩
    cases o.creds.creds[k]? with
    | none => rfl
    | some c => rw [Option.filter_some, if_pos (by simpa using hoffered)]
  | some c =>
    cases o.creds.creds[k]? with
    | none => rfl
    | some c' =>
      by_cases hle : c'.contentHash C ≤ c.contentHash C
      · simp [Option.filter_some, newerCred, hle, not_lt.mpr hle]
      · simp [Option.filter_some, newerCred, hle, not_le.mp hle]

theorem Valid.accepts_answer (hs : s.Valid C parameters) (ho : o.Valid C parameters) :
    s.Accepts C parameters (o.answer C s) where
  size := by
    refine (size_le_of_referenced (l := o.pointers.pointers.map (·.ptr.replier)) fun k hk => ?_).trans
      ((List.length_map _).trans_le ho.settled.length_le)
    obtain ⟨c, hc⟩ := Map.mem_iff.mp hk
    simpa using ho.referenced k (Map.mem_iff.mpr ⟨c, creds_answer hc⟩)
  stapled p hp := by
    have hp := mem_of_mem_offers (mem_admitted_answer.mp hp).1
    refine ⟨(ho.genuine p hp).owned, fun c hc => ?_⟩
    rw [ho.keyed _ _ (creds_answer hc)]
    exact (ho.genuine p hp).signed
  checked k c hc _ := ho.checked k c (creds_answer (vouched_eq_some.mp hc).2)
  signed p hp := by
    have hpo := mem_of_mem_offers (mem_admitted_answer.mp hp).1
    refine ⟨(ho.genuine p hpo).owned, fun c hc => ?_⟩
    have hkey : c.postingKey = ⟨p.ptr.replier⟩ := by
      rcases credAfter_cases hc with hc | hc
      · exact hs.keyed _ _ hc
      · exact ho.keyed _ _ (creds_answer (vouched_eq_some.mp hc).2)
    rw [hkey]
    exact (ho.genuine p hpo).signed

/-- Nothing sent, nothing changed. -/
theorem Valid.applied_nothing (hs : s.Valid C parameters) :
    s.Applied C parameters ⟨none, none, none⟩ s := by
  refine hs.applied_self rfl (funext fun k => ?_) rfl
  rw [credAfter, vouched]
  split <;> rfl

/-- **A merge never fails.** -/
theorem Valid.merge (hs : s.Valid C parameters) (ho : o.Valid C parameters) :
    ∃ s', s.merge C parameters o = (.ok (), s') ∧ s'.Valid C parameters ∧
      s.Applied C parameters (o.answer C s) s' := by
  rw [InboxStateV3.merge, delta_eq]
  by_cases hsend : (o.offer C (s.summarize C)).creds.isSome ∨
      (o.offer C (s.summarize C)).pointers.isSome ∨ (o.offer C (s.summarize C)).powDifficulty.isSome
  · have hacc := hs.accepts_answer ho
    obtain ⟨s', h, happ⟩ := hacc.applyDelta hs.settled
    rw [if_pos hsend]
    exact ⟨s', h, hs.applied hacc happ, happ⟩
  · have hanswer : o.answer C s = ⟨none, none, none⟩ := by
      simp only [not_or, Option.not_isSome_iff_eq_none] at hsend
      obtain ⟨hc, hp, hl⟩ := hsend
      rw [answer, ← hc, ← hp, ← hl]
    rw [if_neg hsend]
    exact ⟨s, rfl, hs, hanswer ▸ hs.applied_nothing⟩

/-- **An honest peer is never refused**: a state that verifies takes what any other state that
verifies sends it, and verifies again. -/
theorem merge_of_verify (hs : s.verify C parameters = .ok ()) (ho : o.verify C parameters = .ok ()) :
    ∃ s', s.merge C parameters o = (.ok (), s') ∧ s'.verify C parameters = .ok () := by
  obtain ⟨s', h, hs', -⟩ := (verify_iff.mp hs).merge (verify_iff.mp ho)
  exact ⟨s', h, verify_iff.mpr hs'⟩

open Sample in
/-- Two credentials for key 2, a latched bar on one side only. -/
theorem merge_of_verify_upgrade :
    ∃ s', (inboxState [anonymous 2] [pointer (anonymous 2) 4 5 0] (some (record 1 26))).merge crypto
        inbox (inboxState [attested 2 8 1] [pointer (attested 2 8 1) 5 6 0] none) = (.ok (), s') ∧
      s'.verify crypto inbox = .ok () :=
  merge_of_verify (by decide +kernel) (by decide +kernel)

/-! ## What stays -/

section
variable (C) (s o : InboxStateV3 Cert)

/-- The newer of the credentials two states hold for a key. -/
def later (k : Bytes 32) : Option (ReplierCredV3 Cert) :=
  newerCred C s.creds.creds[k]? o.creds.creds[k]?

/-- The bar of the later of two latches. -/
def laterBits : Nat :=
  difficultyBits C (adoptDifficulty C s.powDifficulty o.powDifficulty)

end

/-- The pointers of `O` whose reply post `S` lacks. -/
def unseen (S O : Finset AuthorizedReplyPointerV3) : Finset AuthorizedReplyPointerV3 :=
  O.filter fun p => ∀ q ∈ S, q.ptr.replyPost ≠ p.ptr.replyPost

section
variable (C parameters) (creds : Bytes 32 → Option (ReplierCredV3 Cert)) (bits : Nat)
  (S O : Finset AuthorizedReplyPointerV3)

/-- The pointers of `S` and those that are new to it, as far as credentials resolve them. -/
def live : Finset AuthorizedReplyPointerV3 :=
  (S ∪ unseen S O).filter fun p => p.Resolved C creds

/-- What the caps keep of the live pointers gets its place in `S`: the stamps clear the bar, and what
is about to be dropped takes the place of none of it. -/
structure SeatsLive : Prop where
  stamped : ∀ p ∈ PointersV3.capped (live C creds S O), p ∉ S →
    admits C parameters.owner.asBytes bits p = true
  room : PointersV3.capped (live C creds S O) ⊆ PointersV3.capped (live C creds S O ∪ S)

end

theorem mem_unseen {S O : Finset AuthorizedReplyPointerV3} : p ∈ unseen S O ↔
    p ∈ O ∧ ∀ q ∈ S, q.ptr.replyPost ≠ p.ptr.replyPost := Finset.mem_filter

/-- What is new to a log has reply posts of its own. -/
theorem agree_union_unseen {ps qs : List AuthorizedReplyPointerV3} (hps : PointersV3.UniquePosts ps)
    (hqs : PointersV3.UniquePosts qs) :
    ∀ p ∈ ps.toFinset ∪ unseen ps.toFinset qs.toFinset,
      ∀ q ∈ ps.toFinset ∪ unseen ps.toFinset qs.toFinset,
        p.ptr.replyPost = q.ptr.replyPost → p = q := by
  intro p hp q hq he
  simp only [Finset.mem_union, mem_unseen, List.mem_toFinset] at hp hq
  rcases hp with hp | ⟨hp, hpnew⟩ <;> rcases hq with hq | ⟨hq, hqnew⟩
  · exact hps.eq_of_replyPost hp hq he
  · exact absurd he (hqnew p hp)
  · exact absurd he.symm (hpnew q hq)
  · exact hqs.eq_of_replyPost hp hq he

section
variable (hs : s.Valid C parameters) (ho : o.Valid C parameters)
include hs

theorem Valid.mem_accepted_answer : p ∈ s.accepted C parameters (o.answer C s) ↔
    p ∈ unseen s.pointers.pointers.toFinset o.pointers.pointers.toFinset ∧
      p.Resolved C (later C s o) ∧ admits C parameters.owner.asBytes (laterBits C s o) p = true ∧
      p ∈ PointersV3.capped (insert p s.pointers.pointers.toFinset) := by
  have hoffers : p ∈ o.pointers.offers s.pointers.summarize ↔
      p ∈ unseen s.pointers.pointers.toFinset o.pointers.pointers.toFinset ∧
        p ∈ PointersV3.capped (insert p s.pointers.pointers.toFinset) := by
    rw [PointersV3.mem_offers hs.settled, mem_unseen, and_assoc, List.mem_toFinset]
    simp only [List.mem_toFinset]
  have hres (hp : p ∈ s.admitted C parameters (o.answer C s)) :
      p.Resolved C (s.credAfter C parameters (o.answer C s)) ↔ p.Resolved C (later C s o) :=
    resolved_congr (credAfter_answer hs (.inr ⟨p, hp, rfl⟩))
  rw [mem_accepted, and_congr_right hres, mem_admitted_answer, hoffers, laterBits]
  tauto

include ho

theorem Valid.distinct_unseen : Distinct prio (s.pointers.pointers.toFinset ∪
    unseen s.pointers.pointers.toFinset o.pointers.pointers.toFinset) :=
  PointersV3.distinct_prio fun p hp q hq he =>
    agree_union_unseen hs.settled.unique ho.settled.unique p hp q hq (replyPost_of_orderKey he)

variable (happ : s.Applied C parameters (o.answer C s) s')
include happ

/-- One merge takes what `s` would keep, and drops what is not live. -/
theorem Valid.toFinset_merge : s'.pointers.pointers.toFinset =
    (PointersV3.capped (s.pointers.pointers.toFinset ∪
      (s.accepted C parameters (o.answer C s)).toFinset)).filter
        fun p => p.Resolved C (later C s o) := by
  have hagree : PointersV3.Agree
      (s.pointers.pointers ++ s.accepted C parameters (o.answer C s)) := by
    have hmem {p : AuthorizedReplyPointerV3}
        (hp : p ∈ s.pointers.pointers ++ s.accepted C parameters (o.answer C s)) :
        p ∈ s.pointers.pointers.toFinset ∪
          unseen s.pointers.pointers.toFinset o.pointers.pointers.toFinset := by
      rcases List.mem_append.mp hp with hp | hp
      · exact Finset.mem_union_left _ (List.mem_toFinset.mpr hp)
      · exact Finset.mem_union_right _ (hs.mem_accepted_answer.mp hp).1
    exact fun p hp q hq =>
      agree_union_unseen hs.settled.unique ho.settled.unique p (hmem hp) q (hmem hq)
  rw [happ.pointers, pointersAfter, List.toFinset_filter, hagree.toFinset_canonicalize,
    List.toFinset_append]
  refine Finset.filter_congr fun p hp => ?_
  rw [decide_eq_true_eq]
  refine resolved_congr (credAfter_answer hs ?_)
  refine (Finset.mem_union.mp (keepAll_subset _ _ hp)).imp (fun hp => ?_) fun hp => ?_
  · exact ⟨p, List.mem_toFinset.mp hp, rfl⟩
  · exact ⟨p, (mem_accepted.mp (List.mem_toFinset.mp hp)).1, rfl⟩

/-- **One merge, exactly**: it leaves what the caps keep of the live pointers if all of that gets its
place, and loses some of it otherwise. -/
theorem Valid.toFinset_merge_iff : s'.pointers.pointers.toFinset = PointersV3.capped
      (live C (later C s o) s.pointers.pointers.toFinset o.pointers.pointers.toFinset) ↔
    SeatsLive C parameters (later C s o) (laterBits C s o) s.pointers.pointers.toFinset
      o.pointers.pointers.toFinset := by
  rw [hs.toFinset_merge ho happ]
  refine (filter_keep_iff (R := PointersV3.retention) (hs.distinct_unseen ho) fun p => ?_).trans
    ⟨fun h => ⟨h.1, h.2⟩, fun h => ⟨h.stamped, h.room⟩⟩
  rw [List.mem_toFinset]
  exact hs.mem_accepted_answer

/-- What a merge loses of what the caps keep of the live pointers is missed afterwards. -/
theorem Valid.exists_missed (hs' : s'.Valid C parameters)
    (h : s'.pointers.pointers.toFinset ≠ PointersV3.capped
      (live C (later C s o) s.pointers.pointers.toFinset o.pointers.pointers.toFinset)) :
    ∃ p ∈ PointersV3.capped
        (live C (later C s o) s.pointers.pointers.toFinset o.pointers.pointers.toFinset),
      p ∉ s'.pointers.pointers ∧ (∀ q ∈ s'.pointers.pointers, q.ptr.replyPost ≠ p.ptr.replyPost) ∧
        p ∈ PointersV3.capped (insert p s'.pointers.pointers.toFinset) := by
  have hsub : s'.pointers.pointers.toFinset ⊆
      live C (later C s o) s.pointers.pointers.toFinset o.pointers.pointers.toFinset := by
    rw [hs.toFinset_merge ho happ, live]
    refine Finset.filter_subset_filter _ ((keepAll_subset _ _).trans ?_)
    refine Finset.union_subset_union_right fun p hp => ?_
    exact (hs.mem_accepted_answer.mp (List.mem_toFinset.mp hp)).1
  have hd := hs.distinct_unseen ho
  obtain ⟨p, hp, hlost, hkeep⟩ := exists_lost (R := PointersV3.retention)
    (Distinct.mono (Finset.filter_subset _ _) hd) hs'.settled.stable hsub h
  rw [List.mem_toFinset] at hlost
  refine ⟨p, hp, hlost, fun q hq he => hlost ?_, hkeep⟩
  have hqp := agree_union_unseen hs.settled.unique ho.settled.unique q
    (Finset.mem_filter.mp (hsub (List.mem_toFinset.mpr hq))).1 p
    (Finset.mem_filter.mp (keepAll_subset _ _ hp)).1 he
  exact hqp ▸ hq

end

/-- After a merge each key of the log has the newer of the two credentials. -/
theorem Applied.creds_merge (hs : s.Valid C parameters)
    (h : s.Applied C parameters (o.answer C s) s') {k : Bytes 32} : s'.creds.creds[k]? =
      if ∃ p ∈ s'.pointers.pointers, p.ptr.replier = k then later C s o k else none := by
  rw [h.creds, ← h.pointers]
  split
  · rename_i href
    obtain ⟨p, hp, hk⟩ := href
    refine credAfter_answer hs ?_
    rcases (mem_pointersAfter (h.pointers ▸ hp)).1 with hp | hp
    · exact .inl ⟨p, hp, hk⟩
    · exact .inr ⟨p, (mem_accepted.mp hp).1, hk⟩
  · rfl

/-! ## The exchange -/

section
variable (C) (a b : InboxStateV3 Cert)

/-- What the first merge should leave: the live pointers of the two states, as far as the caps keep
them. -/
def firstLog : Finset AuthorizedReplyPointerV3 :=
  PointersV3.capped
    (live C (later C a b) a.pointers.pointers.toFinset b.pointers.pointers.toFinset)

/-- The credential of a key after that: the newer one if a pointer that is left needs it. -/
def laterCred (k : Bytes 32) : Option (ReplierCredV3 Cert) :=
  if ∃ p ∈ firstLog C a b, p.ptr.replier = k then later C a b k else b.creds.creds[k]?

/-- What the second merge should leave: what is live of `b` and the first log. -/
def secondLog : Finset AuthorizedReplyPointerV3 :=
  PointersV3.capped (live C (laterCred C a b) b.pointers.pointers.toFinset (firstLog C a b))

variable (parameters)

/-- Nothing live is lost when `a` takes what it lacks of `b`, and `b` then takes what it lacks of
`a`. -/
structure Lossless : Prop where
  first : SeatsLive C parameters (later C a b) (laterBits C a b) a.pointers.pointers.toFinset
    b.pointers.pointers.toFinset
  second : SeatsLive C parameters (laterCred C a b) (laterBits C b a) b.pointers.pointers.toFinset
    (firstLog C a b)

/-- What one side does not take over from the other is not offered either. -/
structure Reconciled : Prop where
  /-- Of `b`: pointers that `a` has another record of, or an upgraded key. -/
  first : ∀ p ∈ secondLog C a b, p ∈ b.pointers.pointers →
    p ∉ live C (later C a b) a.pointers.pointers.toFinset b.pointers.pointers.toFinset →
    (∀ q ∈ firstLog C a b, q.ptr.replyPost ≠ p.ptr.replyPost) →
    p ∉ PointersV3.capped (insert p (firstLog C a b))
  /-- Of `a`: pointers that `b` has another record of. -/
  second : ∀ p ∈ firstLog C a b, ∀ q ∈ b.pointers.pointers, q.ptr.replyPost = p.ptr.replyPost →
    q ≠ p → (∀ r ∈ secondLog C a b, r.ptr.replyPost ≠ p.ptr.replyPost) →
    p ∉ PointersV3.capped (insert p (secondLog C a b))

end

theorem mem_live {creds : Bytes 32 → Option (ReplierCredV3 Cert)}
    {S O : Finset AuthorizedReplyPointerV3} :
    p ∈ live C creds S O ↔ (p ∈ S ∨ p ∈ unseen S O) ∧ p.Resolved C creds := by
  rw [live, Finset.mem_filter, Finset.mem_union]

/-- What the caps leave of the live pointers of two logs is all they would keep of them. -/
theorem mem_capped_live {creds : Bytes 32 → Option (ReplierCredV3 Cert)}
    {ps qs : List AuthorizedReplyPointerV3} (hps : PointersV3.UniquePosts ps)
    (hqs : PointersV3.UniquePosts qs) (hp : p ∈ live C creds ps.toFinset qs.toFinset)
    (h : p ∈ PointersV3.capped
      (insert p (PointersV3.capped (live C creds ps.toFinset qs.toFinset)))) :
    p ∈ PointersV3.capped (live C creds ps.toFinset qs.toFinset) := by
  refine mem_of_mem_keep_insert (R := PointersV3.retention) ?_ hp h
  refine Distinct.mono (Finset.filter_subset _ _) (PointersV3.distinct_prio fun p hp q hq he => ?_)
  exact agree_union_unseen hps hqs p hp q hq (replyPost_of_orderKey he)

section
variable {a1 b1 : InboxStateV3 Cert} (ha : a.Valid C parameters)
  (happ : a.Applied C parameters (b.answer C a) a1)
include happ

theorem laterBits_second : laterBits C b a1 = laterBits C b a := by
  rw [laterBits, happ.latch, latchAfter_answer, adoptDifficulty_adopt, laterBits]

variable (hfirst : a1.pointers.pointers.toFinset = firstLog C a b)
include ha hfirst

/-- What `a` hands on are pointers that stay, and the credentials they need. -/
theorem creds_first (k : Bytes 32) : a1.creds.creds[k]? =
    if ∃ p ∈ firstLog C a b, p.ptr.replier = k then later C a b k else none := by
  rw [happ.creds_merge ha]
  simp only [← hfirst, List.mem_toFinset]

theorem later_second (hhash : ∀ (k : Bytes 32) (c c' : ReplierCredV3 Cert),
    a.creds.creds[k]? = some c → b.creds.creds[k]? = some c' →
      c.contentHash C = c'.contentHash C → c = c') : later C b a1 = laterCred C a b := by
  funext k
  rw [later, creds_first ha happ hfirst, laterCred]
  split
  · exact newerCred_newerCred (hhash k)
  · exact newerCred_none _

theorem toFinset_second_iff (hb : b.Valid C parameters) (ha1 : a1.Valid C parameters)
    (hhash : ∀ (k : Bytes 32) (c c' : ReplierCredV3 Cert),
      a.creds.creds[k]? = some c → b.creds.creds[k]? = some c' →
        c.contentHash C = c'.contentHash C → c = c')
    (happ' : b.Applied C parameters (a1.answer C b) b1) :
    b1.pointers.pointers.toFinset = secondLog C a b ↔
      SeatsLive C parameters (laterCred C a b) (laterBits C b a) b.pointers.pointers.toFinset
        (firstLog C a b) := by
  have h := hb.toFinset_merge_iff ha1 happ'
  rwa [later_second ha happ hfirst hhash, laterBits_second happ, hfirst] at h

end

/-- Two states whose credentials agree, with records of one age, offer each other pointers or
nothing. -/
theorem delta_eq_none_iff (ha : a.Valid C parameters)
    (hcreds : ∀ (k : Bytes 32) (c c' : ReplierCredV3 Cert), b.creds.creds[k]? = some c →
      a.creds.creds[k]? = some c' → c = c')
    (hseq : difficultySeq b.powDifficulty ≤ difficultySeq a.powDifficulty) :
    b.delta C (a.summarize C) = none ↔ ∀ p ∈ b.pointers.pointers,
      (∀ q ∈ a.pointers.pointers, q.ptr.replyPost ≠ p.ptr.replyPost) →
        p ∉ PointersV3.capped (insert p a.pointers.pointers.toFinset) := by
  have hcreds (k : Bytes 32) : b.offeredCred C (a.summarize C) [] k = none := by
    refine Option.eq_none_iff_forall_ne_some.mpr fun c hc => ?_
    obtain ⟨hc, ⟨-, hno⟩ | ⟨hash, hhash, hlt⟩⟩ := offeredCred_eq_some.mp hc
    · simp at hno
    · have hhash : (a.creds.creds[k]?).map (·.contentHash C) = some hash := by
        simpa [summarize, CredsV3.summarize] using hhash
      obtain ⟨c', hc', rfl⟩ := Option.map_eq_some_iff.mp hhash
      exact absurd hlt (hcreds k c c' hc hc' ▸ lt_irrefl _)
  rw [delta_eq_none, and_iff_left ⟨hcreds, hseq⟩]
  exact PointersV3.offers_eq_nil_iff ha.settled

section
variable {a1 : InboxStateV3 Cert} (hb : b.Valid C parameters)
include hb

/-- What is left of `b` is offered to what is left of `a` only if it was not live. -/
theorem silent_first_iff (ha : a.Valid C parameters) : (∀ p ∈ secondLog C a b,
      (∀ q ∈ firstLog C a b, q.ptr.replyPost ≠ p.ptr.replyPost) →
        p ∉ PointersV3.capped (insert p (firstLog C a b))) ↔
    ∀ p ∈ secondLog C a b, p ∈ b.pointers.pointers →
      p ∉ live C (later C a b) a.pointers.pointers.toFinset b.pointers.pointers.toFinset →
      (∀ q ∈ firstLog C a b, q.ptr.replyPost ≠ p.ptr.replyPost) →
      p ∉ PointersV3.capped (insert p (firstLog C a b)) := by
  refine ⟨fun h p hp _ _ => h p hp, fun h p hp hnew hkeep => ?_⟩
  have hnot : p ∉ firstLog C a b := fun hmem => hnew p hmem rfl
  obtain ⟨hpb | hpf, -⟩ := mem_live.mp (keepAll_subset _ _ hp)
  · refine h p hp (List.mem_toFinset.mp hpb) (fun hlive => hnot ?_) hnew hkeep
    exact mem_capped_live ha.settled.unique hb.settled.unique hlive hkeep
  · exact hnot (mem_unseen.mp hpf).1

/-- What is left of `a` is offered to what is left of `b` only if `b` had another record. -/
theorem silent_second_iff (hfirst : a1.pointers.pointers.toFinset = firstLog C a b)
    (ha1 : a1.Valid C parameters) : (∀ p ∈ firstLog C a b,
      (∀ q ∈ secondLog C a b, q.ptr.replyPost ≠ p.ptr.replyPost) →
        p ∉ PointersV3.capped (insert p (secondLog C a b))) ↔
    ∀ p ∈ firstLog C a b, ∀ q ∈ b.pointers.pointers, q.ptr.replyPost = p.ptr.replyPost →
      q ≠ p → (∀ r ∈ secondLog C a b, r.ptr.replyPost ≠ p.ptr.replyPost) →
      p ∉ PointersV3.capped (insert p (secondLog C a b)) := by
  refine ⟨fun h p hp _ _ _ _ => h p hp, fun h p hp hnew hkeep => ?_⟩
  have hnot : p ∉ secondLog C a b := fun hmem => hnew p hmem rfl
  have hlive (hp' : p ∈ b.pointers.pointers.toFinset ∨
      p ∈ unseen b.pointers.pointers.toFinset (firstLog C a b)) : p ∈ secondLog C a b := by
    have hres : p.Resolved C (laterCred C a b) := by
      refine (resolved_congr ?_).mpr (mem_live.mp (keepAll_subset _ _ hp)).2
      exact if_pos ⟨p, hp, rfl⟩
    rw [secondLog, ← hfirst] at hkeep ⊢
    exact mem_capped_live hb.settled.unique ha1.settled.unique
      (mem_live.mpr ⟨hfirst.symm ▸ hp', hres⟩) hkeep
  by_cases hq : ∃ q ∈ b.pointers.pointers, q.ptr.replyPost = p.ptr.replyPost
  · obtain ⟨q, hq, he⟩ := hq
    refine h p hp q hq he ?_ hnew hkeep
    rintro rfl
    exact hnot (hlive (.inl (List.mem_toFinset.mpr hq)))
  · refine hnot (hlive (.inr (mem_unseen.mpr ⟨hp, fun q hqb he => hq ?_⟩)))
    exact ⟨q, List.mem_toFinset.mp hqb, he⟩

end

section
variable {a1 b1 : InboxStateV3 Cert} (ha : a.Valid C parameters) (hb : b.Valid C parameters)
  (happ : a.Applied C parameters (b.answer C a) a1) (ha1 : a1.Valid C parameters)
  (happ' : b.Applied C parameters (a1.answer C b) b1) (hb1 : b1.Valid C parameters)
  (hhash : ∀ (k : Bytes 32) (c c' : ReplierCredV3 Cert), a.creds.creds[k]? = some c →
    b.creds.creds[k]? = some c' → c.contentHash C = c'.contentHash C → c = c')
include ha hb happ ha1 happ' hhash

/-- The exchange keeps what it should exactly if each side gets its part seated. -/
theorem lossless_iff : Lossless C parameters a b ↔
    a1.pointers.pointers.toFinset = firstLog C a b ∧
      b1.pointers.pointers.toFinset = secondLog C a b := by
  have hone := ha.toFinset_merge_iff hb happ
  constructor
  · rintro ⟨h1, h2⟩
    have hfirst := hone.mpr h1
    exact ⟨hfirst, (toFinset_second_iff ha happ hfirst hb ha1 hhash happ').mpr h2⟩
  · rintro ⟨hfirst, hsecond⟩
    exact ⟨hone.mp hfirst, (toFinset_second_iff ha happ hfirst hb ha1 hhash happ').mp hsecond⟩

include hb1

theorem Lossless.quiet_iff (h : Lossless C parameters a b) :
    b1.delta C (a1.summarize C) = none ∧ a1.delta C (b1.summarize C) = none ↔
      Reconciled C a b := by
  obtain ⟨hfirst, hsecond⟩ := (lossless_iff ha hb happ ha1 happ' hhash).mp h
  have hcreds (k : Bytes 32) (c c' : ReplierCredV3 Cert) (hc : b1.creds.creds[k]? = some c)
      (hc' : a1.creds.creds[k]? = some c') : c = c' := by
    rw [happ'.creds_merge hb, Option.ite_none_right_eq_some,
      later_second ha happ hfirst hhash] at hc
    rw [creds_first ha happ hfirst, Option.ite_none_right_eq_some] at hc'
    have hk : laterCred C a b k = later C a b k := if_pos hc'.1
    exact Option.some.inj (hc.2.symm.trans (hk.trans hc'.2))
  have hlatch : a1.powDifficulty = adoptDifficulty C a.powDifficulty b.powDifficulty :=
    happ.latch.trans latchAfter_answer
  have hlatch' : b1.powDifficulty = adoptDifficulty C b.powDifficulty a.powDifficulty := by
    rw [happ'.latch, latchAfter_answer, hlatch, adoptDifficulty_adopt]
  have hseq : difficultySeq b1.powDifficulty ≤ difficultySeq a1.powDifficulty := by
    rw [hlatch, hlatch']
    exact difficultySeq_adopt_comm hb.latch
  have hseq' : difficultySeq a1.powDifficulty ≤ difficultySeq b1.powDifficulty := by
    rw [hlatch, hlatch']
    exact difficultySeq_adopt_comm ha.latch
  rw [delta_eq_none_iff ha1 hcreds hseq,
    delta_eq_none_iff hb1 (fun k c c' hc hc' => (hcreds k c' c hc' hc).symm) hseq']
  simp only [← List.mem_toFinset (l := a1.pointers.pointers),
    ← List.mem_toFinset (l := b1.pointers.pointers), hfirst, hsecond]
  rw [silent_first_iff hb ha, silent_second_iff hb hfirst ha1]
  exact ⟨fun h => ⟨h.1, h.2⟩, fun h => ⟨h.first, h.second⟩⟩

/-- What should have been kept and was not is offered again by a side that still has it. -/
theorem exists_lost_of_quiet (h : ¬Lossless C parameters a b)
    (hquiet : b1.delta C (a1.summarize C) = none ∧ a1.delta C (b1.summarize C) = none) :
    ∃ p ∈ firstLog C a b ∪ secondLog C a b,
      p ∉ a1.pointers.pointers ∧ p ∉ b1.pointers.pointers := by
  have hoffered := (PointersV3.offers_eq_nil_iff ha1.settled).mp (delta_eq_none.mp hquiet.1).1
  have hoffered' := (PointersV3.offers_eq_nil_iff hb1.settled).mp (delta_eq_none.mp hquiet.2).1
  by_cases hfirst : a1.pointers.pointers.toFinset = firstLog C a b
  · have hsecond : b1.pointers.pointers.toFinset ≠ secondLog C a b := fun hsecond =>
      h ((lossless_iff ha hb happ ha1 happ' hhash).mpr ⟨hfirst, hsecond⟩)
    rw [secondLog, ← later_second ha happ hfirst hhash, ← hfirst] at hsecond
    obtain ⟨p, hp, hlost, hnew, hkeep⟩ := hb.exists_missed ha1 happ' hb1 hsecond
    rw [later_second ha happ hfirst hhash, hfirst] at hp
    exact ⟨p, Finset.mem_union_right _ hp, fun hpa => hoffered' p hpa hnew hkeep, hlost⟩
  · obtain ⟨p, hp, hlost, hnew, hkeep⟩ := ha.exists_missed hb happ ha1 hfirst
    exact ⟨p, Finset.mem_union_left _ hp, hlost, fun hpb => hoffered p hpb hnew hkeep⟩

end

/-- **When an exchange goes quiet**: where each side gets its part seated, exactly if what one side
did not take over from the other is not offered either; and elsewhere only if both sides have lost
the same pointer that they should have kept. -/
theorem exchange_quiet (ha : a.verify C parameters = .ok ()) (hb : b.verify C parameters = .ok ())
    (hhash : ∀ (k : Bytes 32) (c c' : ReplierCredV3 Cert), a.creds.creds[k]? = some c →
      b.creds.creds[k]? = some c' → c.contentHash C = c'.contentHash C → c = c') :
    ∃ a1 b1, a.merge C parameters b = (.ok (), a1) ∧ b.merge C parameters a1 = (.ok (), b1) ∧
      (Lossless C parameters a b →
        (b1.delta C (a1.summarize C) = none ∧ a1.delta C (b1.summarize C) = none ↔
          Reconciled C a b)) ∧
      (¬Lossless C parameters a b →
        b1.delta C (a1.summarize C) = none ∧ a1.delta C (b1.summarize C) = none →
          ∃ p ∈ firstLog C a b ∪ secondLog C a b,
            p ∉ a1.pointers.pointers ∧ p ∉ b1.pointers.pointers) := by
  have ha := verify_iff.mp ha
  have hb := verify_iff.mp hb
  obtain ⟨a1, hmerge, ha1, happ⟩ := ha.merge hb
  obtain ⟨b1, hmerge', hb1, happ'⟩ := hb.merge ha1
  exact ⟨a1, b1, hmerge, hmerge', Lossless.quiet_iff ha hb happ ha1 happ' hb1 hhash,
    exists_lost_of_quiet ha hb happ ha1 happ' hb1 hhash⟩

end InboxStateV3

namespace Sample

/-- Key 2 has been attested; a bar of 26 bits is latched. -/
def upgraded : InboxStateV3 VerifyingKey :=
  inboxState [attested 2 8 1] [pointer (attested 2 8 1) 5 6 0] (some (record 1 26))

/-- Key 2 is still anonymous; one stamp has 23 bits. -/
def outdated (nonce : U64) : InboxStateV3 VerifyingKey :=
  inboxState [anonymous 2, attested 1 7 1]
    [pointer (anonymous 2) 4 5 nonce, pointer (attested 1 7 1) 3 10 0] none

end Sample

namespace InboxStateV3

open Sample

theorem exchange_quiet_upgraded : ∃ a1 b1,
    (outdated (2 ^ 40)).merge crypto inbox upgraded = (.ok (), a1) ∧
    upgraded.merge crypto inbox a1 = (.ok (), b1) ∧
    b1.delta crypto (a1.summarize crypto) = none ∧
    a1.delta crypto (b1.summarize crypto) = none := by
  have hkeys : ∀ kc ∈ (outdated (2 ^ 40)).creds.creds.toList, ∀ kc' ∈ upgraded.creds.creds.toList,
      kc.1 = kc'.1 → kc.2.contentHash crypto ≠ kc'.2.contentHash crypto := by
    decide +kernel
  have hmem {m : Map (Bytes 32) (ReplierCredV3 VerifyingKey)} {k : Bytes 32}
      {c : ReplierCredV3 VerifyingKey} (hc : m[k]? = some c) : (k, c) ∈ m.toList :=
    Std.ExtTreeMap.mem_toList_iff_getElem?_eq_some.mpr hc
  have hlossless : Lossless crypto inbox (outdated (2 ^ 40)) upgraded :=
    ⟨⟨by decide +kernel, by decide +kernel⟩, ⟨by decide +kernel, by decide +kernel⟩⟩
  have hreconciled : Reconciled crypto (outdated (2 ^ 40)) upgraded :=
    ⟨by decide +kernel, by decide +kernel⟩
  have houtdated : (outdated (2 ^ 40)).verify crypto inbox = .ok () := by decide +kernel
  have hupgraded : upgraded.verify crypto inbox = .ok () := by decide +kernel
  obtain ⟨a1, b1, hmerge, hmerge', hquiet, -⟩ := exchange_quiet houtdated hupgraded
    fun k c c' hc hc' he => absurd he (hkeys _ (hmem hc) _ (hmem hc') rfl)
  exact ⟨a1, b1, hmerge, hmerge', (hquiet hlossless).mpr hreconciled⟩

/-- A pointer under the bar of the other side is offered again after each exchange. -/
theorem exchange_repeats :
    let a := inboxState [] [] (some (record 1 26))
    let a1 := (a.merge crypto inbox (outdated (2 ^ 40))).2
    let b1 := ((outdated (2 ^ 40)).merge crypto inbox a1).2
    a.verify crypto inbox = .ok () ∧ (outdated (2 ^ 40)).verify crypto inbox = .ok () ∧
    (a.merge crypto inbox (outdated (2 ^ 40))).1 = .ok () ∧
    ((outdated (2 ^ 40)).merge crypto inbox a1).1 = .ok () ∧
    b1.delta crypto (a1.summarize crypto) ≠ none := by
  decide +kernel

end InboxStateV3

end Freebird
