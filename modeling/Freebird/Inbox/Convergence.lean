import Freebird.Inbox.Invariant

/-!
# Convergence for stable identities

While every posting key keeps its credential, the log after a call is the choice of the retention
policy from the old log and the delta (`Compatible.step`), and the credentials follow from the log.
Path independence of the policy then makes the final state depend only on the set of pointers that
were ever offered (`run_converges`).
-/

namespace Freebird

open Retention AuthorizedReplyPointerV3

variable {Cert : Type} {C : Crypto Cert} {parameters : InboxParametersV3}

namespace InboxStateV3

section
variable {s : InboxStateV3 Cert} {d : InboxStateV3Delta Cert} {p : AuthorizedReplyPointerV3}

/-- Where every pointer of the log and of the delta stays resolved, the log after the delta is the
choice from both. -/
theorem toFinset_pointersAfter
    (hagree : PointersV3.Agree (s.pointers.pointers ++ s.accepted C parameters d))
    (hres : ∀ p ∈ s.pointers.pointers, p.Resolved C (s.credAfter C parameters d)) :
    (s.pointersAfter C parameters d).toFinset = PointersV3.capped
      (s.pointers.pointers.toFinset ∪ (s.accepted C parameters d).toFinset) := by
  have hall : ∀ p ∈ (PointersV3.canonicalize
      ⟨s.pointers.pointers ++ s.accepted C parameters d⟩).pointers,
      p.Resolved C (s.credAfter C parameters d) := by
    intro p hp
    rcases List.mem_append.mp (PointersV3.mem_of_mem_canonicalize hp) with hp | hp
    · exact hres p hp
    · exact (mem_accepted.mp hp).2
  rw [pointersAfter, List.filter_eq_self.mpr fun p hp => decide_eq_true (hall p hp),
    hagree.toFinset_canonicalize, List.toFinset_append]

/-- The credentials of a valid state are determined by its pointers and a choice of one credential
for each key. -/
theorem Valid.ext {t : InboxStateV3 Cert} (hs : s.Valid C parameters) (ht : t.Valid C parameters)
    {credOf : Bytes 32 → ReplierCredV3 Cert}
    (hsc : ∀ (k : Bytes 32) (c : ReplierCredV3 Cert), s.creds.creds[k]? = some c → c = credOf k)
    (htc : ∀ (k : Bytes 32) (c : ReplierCredV3 Cert), t.creds.creds[k]? = some c → c = credOf k)
    (hlatch : s.powDifficulty = t.powDifficulty)
    (hps : s.pointers.pointers.toFinset = t.pointers.pointers.toFinset) : s = t := by
  have hkeys (k : Bytes 32) : k ∈ s.creds.creds ↔ k ∈ t.creds.creds := by
    rw [hs.mem_creds, ht.mem_creds, hs.settled.ext ht.settled hps]
  obtain ⟨⟨creds⟩, ⟨ps⟩, l⟩ := s
  obtain ⟨⟨creds'⟩, ⟨ps'⟩, l'⟩ := t
  obtain rfl : ps = ps' := hs.settled.ext ht.settled hps
  obtain rfl : l = l' := hlatch
  obtain rfl : creds = creds' := by
    refine Std.ExtTreeMap.ext_getElem? fun k => Option.ext fun c => ?_
    constructor
    · intro hc
      obtain ⟨c', hc'⟩ := Map.mem_iff.mp ((hkeys k).mp (Map.mem_iff.mpr ⟨c, hc⟩))
      rw [hsc k c hc, ← htc k c' hc']
      exact hc'
    · intro hc
      obtain ⟨c', hc'⟩ := Map.mem_iff.mp ((hkeys k).mpr (Map.mem_iff.mpr ⟨c, hc⟩))
      rw [htc k c hc, ← hsc k c' hc']
      exact hc'
  rfl

end

section
variable (C parameters) (s : InboxStateV3 Cert) (credOf : Bytes 32 → ReplierCredV3 Cert)
  (ps : Finset AuthorizedReplyPointerV3)

/-- Pointers that may be sent to the inbox `s` while every key keeps its credential. -/
structure Compatible : Prop where
  checked : ∀ p ∈ ps,
    (credOf p.ptr.replier).check C p.ptr.replier parameters.ghostkeyMaster = .ok ()
  held : ∀ p ∈ ps, ∀ c, s.creds.creds[p.ptr.replier]? = some c → c = credOf p.ptr.replier
  owned : ∀ p ∈ ps, p.ptr.owner = parameters.owner.asBytes
  signed : ∀ p ∈ ps, p.verifySignature C (credOf p.ptr.replier).postingKey = .ok ()
  fingerprint : ∀ p ∈ ps, p.ptr.fingerprint = (credOf p.ptr.replier).fingerprint C
  stamped : ∀ p ∈ ps, p.isAnon = true → meetsInbox C parameters.owner.asBytes p.ptr.replier
    p.powNonce (difficultyBits C s.powDifficulty) = true
  agree : ∀ p ∈ ps, ∀ q, q ∈ ps ∨ q ∈ s.pointers.pointers →
    p.ptr.replyPost = q.ptr.replyPost → p = q

/-- A delta that carries pointers of the collection with their credentials, and no new record. -/
structure Carries (d : InboxStateV3Delta Cert) : Prop where
  latch : adoptDifficulty C s.powDifficulty d.powDifficulty = s.powDifficulty
  pointers : ∀ p ∈ d.pointers.getD [], p ∈ ps
  creds : ∀ p ∈ d.pointers.getD [],
    (d.creds.getD ∅)[p.ptr.replier]? = some (credOf p.ptr.replier)
  credOf : ∀ (k : Bytes 32) (c : ReplierCredV3 Cert), (d.creds.getD ∅)[k]? = some c →
    ∃ p ∈ ps, p.ptr.replier = k ∧ c = credOf k
  size : (d.creds.getD ∅).size ≤ maxPointers

/-- The states a run of such deltas goes through. -/
structure Stage (t : InboxStateV3 Cert) : Prop where
  valid : t.Valid C parameters
  latch : t.powDifficulty = s.powDifficulty
  pointers : t.pointers.pointers.toFinset ⊆ s.pointers.pointers.toFinset ∪ ps
  creds : ∀ (k : Bytes 32) (c : ReplierCredV3 Cert), t.creds.creds[k]? = some c →
    c = (s.creds.creds[k]?).getD (credOf k)

end

variable {s t : InboxStateV3 Cert} {credOf : Bytes 32 → ReplierCredV3 Cert}
  {ps : Finset AuthorizedReplyPointerV3} {d : InboxStateV3Delta Cert}
  {p q : AuthorizedReplyPointerV3}

theorem Valid.stage (hs : s.Valid C parameters) : Stage C parameters s credOf ps s where
  valid := hs
  latch := rfl
  pointers := Finset.subset_union_left
  creds k c hc := by rw [hc]; rfl

namespace Compatible

/-- The credential of a key of the collection. -/
theorem getD_held (h : Compatible C parameters s credOf ps) (hp : p ∈ ps) :
    (s.creds.creds[p.ptr.replier]?).getD (credOf p.ptr.replier) = credOf p.ptr.replier := by
  cases hc : s.creds.creds[p.ptr.replier]? with
  | none => rfl
  | some c => exact h.held p hp c hc

theorem eq_of_replyPost (h : Compatible C parameters s credOf ps) (hs : s.Valid C parameters)
    (hp : p ∈ s.pointers.pointers.toFinset ∪ ps) (hq : q ∈ s.pointers.pointers.toFinset ∪ ps)
    (he : p.ptr.replyPost = q.ptr.replyPost) : p = q := by
  simp only [Finset.mem_union, List.mem_toFinset] at hp hq
  rcases hp with hp | hp
  · rcases hq with hq | hq
    · exact hs.settled.eq_of_replyPost hp hq he
    · exact (h.agree q hq p (.inr hp) he.symm).symm
  · exact h.agree p hp q hq.symm he

theorem distinct (h : Compatible C parameters s credOf ps) (hs : s.Valid C parameters) :
    Distinct prio (s.pointers.pointers.toFinset ∪ ps) :=
  PointersV3.distinct_prio fun _ hp _ hq he =>
    h.eq_of_replyPost hs hp hq (replyPost_of_orderKey he)

/-! ## One call -/

section
variable (h : Compatible C parameters s credOf ps) (ht : Stage C parameters s credOf ps t)
  (hd : Carries C s credOf ps d)
include ht hd

theorem latchAfter_eq : t.latchAfter C d = s.powDifficulty := by
  rw [latchAfter, ht.latch, hd.latch]

include h

/-- The bar keeps no pointer of the delta out. -/
theorem admitted_eq : t.admitted C parameters d = d.pointers.getD [] := by
  have hall : ∀ p ∈ d.pointers.getD [], admits C parameters.owner.asBytes
      (difficultyBits C (t.latchAfter C d)) p = true := fun p hp => by
    rw [latchAfter_eq ht hd, admits]
    cases hanon : p.isAnon with
    | false => rfl
    | true => simp [h.stamped p (hd.pointers p hp) hanon]
  rw [admitted, admitted?]
  cases hps : d.pointers with
  | none => rfl
  | some l => exact List.filter_eq_self.mpr fun p hp => hall p (by simpa [hps] using hp)

/-- No key ever has another credential than its own. -/
theorem eq_of_credAfter {k : Bytes 32} {c : ReplierCredV3 Cert}
    (hc : t.credAfter C parameters d k = some c) : c = (s.creds.creds[k]?).getD (credOf k) := by
  rcases credAfter_cases hc with hc | hc
  · exact ht.creds k c hc
  · obtain ⟨p, hp, rfl, rfl⟩ := hd.credOf k c (vouched_eq_some.mp hc).2
    exact (h.getD_held hp).symm

theorem resolved_held (hp : p ∈ t.pointers.pointers) :
    p.Resolved C (t.credAfter C parameters d) := by
  obtain ⟨c, hc, hfp⟩ := ht.valid.resolved p hp
  obtain ⟨c', hc'⟩ : ∃ c', t.credAfter C parameters d p.ptr.replier = some c' :=
    Option.isSome_iff_exists.mp (credAfter_isSome (.inl (Option.isSome_of_mem hc)))
  exact ⟨c', hc', by rw [h.eq_of_credAfter ht hd hc', ← ht.creds _ c hc, hfp]⟩

theorem resolved_offered (hp : p ∈ d.pointers.getD []) :
    p.Resolved C (t.credAfter C parameters d) := by
  have hv : t.vouched C parameters d p.ptr.replier = some (credOf p.ptr.replier) := by
    rw [vouched_of_admitted (h.admitted_eq ht hd ▸ hp), hd.creds p hp]
  obtain ⟨c, hc⟩ := Option.isSome_iff_exists.mp
    (credAfter_isSome (.inr (Option.isSome_of_mem hv)))
  refine ⟨c, hc, ?_⟩
  rw [h.eq_of_credAfter ht hd hc, h.getD_held (hd.pointers p hp)]
  exact h.fingerprint p (hd.pointers p hp)

theorem accepted_eq : t.accepted C parameters d = d.pointers.getD [] := by
  have hadmitted := h.admitted_eq ht hd
  rw [accepted_eq_admitted fun p hp => h.resolved_offered ht hd (hadmitted ▸ hp), hadmitted]

theorem accepts : t.Accepts C parameters d := by
  refine ⟨hd.size, fun p hp => ?_, fun k c hc _ => ?_, fun p hp => ?_⟩
  · rw [h.admitted_eq ht hd] at hp
    refine ⟨h.owned p (hd.pointers p hp), fun c hc => ?_⟩
    obtain rfl := Option.some.inj ((hd.creds p hp).symm.trans hc)
    exact h.signed p (hd.pointers p hp)
  · obtain ⟨p, hp, rfl, rfl⟩ := hd.credOf k c (vouched_eq_some.mp hc).2
    exact h.checked p hp
  · rw [h.admitted_eq ht hd] at hp
    refine ⟨h.owned p (hd.pointers p hp), fun c hc => ?_⟩
    rw [h.eq_of_credAfter ht hd hc, h.getD_held (hd.pointers p hp)]
    exact h.signed p (hd.pointers p hp)

end

/-- **One call**: it succeeds, and the log is the choice from the old log and the delta. -/
theorem step (h : Compatible C parameters s credOf ps) (hs : s.Valid C parameters)
    (ht : Stage C parameters s credOf ps t) (hd : Carries C s credOf ps d) :
    ∃ t', t.applyDelta C parameters (some d) = (.ok (), t') ∧ Stage C parameters s credOf ps t' ∧
      t'.pointers.pointers.toFinset = PointersV3.retention.keep
        (t.pointers.pointers.toFinset ∪ (d.pointers.getD []).toFinset) := by
  have haccepts := h.accepts ht hd
  have hsub : t.pointers.pointers.toFinset ∪ (d.pointers.getD []).toFinset ⊆
      s.pointers.pointers.toFinset ∪ ps := by
    refine Finset.union_subset ht.pointers fun p hp => Finset.mem_union_right _ ?_
    exact hd.pointers p (List.mem_toFinset.mp hp)
  have hagree : PointersV3.Agree (t.pointers.pointers ++ t.accepted C parameters d) := by
    rw [h.accepted_eq ht hd]
    intro p hp q hq he
    rw [← List.mem_toFinset, List.toFinset_append] at hp hq
    exact h.eq_of_replyPost hs (hsub hp) (hsub hq) he
  have hlog := toFinset_pointersAfter hagree fun p hp => h.resolved_held ht hd hp
  rw [h.accepted_eq ht hd] at hlog
  obtain ⟨t', hrun, happ⟩ := haccepts.applyDelta ht.valid.settled
  refine ⟨t', hrun, ⟨ht.valid.applied haccepts happ, happ.latch.trans (latchAfter_eq ht hd), ?_,
    fun k c hc => h.eq_of_credAfter ht hd (happ.credAfter hc).2⟩, ?_⟩
  · rw [happ.pointers, hlog]
    exact (keepAll_subset _ _).trans hsub
  · rw [happ.pointers, hlog]
    rfl

/-- **A run**: it succeeds, and the log is the choice from everything that was offered. -/
theorem run (h : Compatible C parameters s credOf ps) (hs : s.Valid C parameters)
    {ds : List (InboxStateV3Delta Cert)} (hds : ∀ d ∈ ds, Carries C s credOf ps d)
    (ht : Stage C parameters s credOf ps t) :
    ∃ t', InboxStateV3.run C parameters t ds = .ok t' ∧ Stage C parameters s credOf ps t' ∧
      t'.pointers.pointers.toFinset = PointersV3.retention.run t.pointers.pointers.toFinset
        (ds.map fun d => (d.pointers.getD []).toFinset) := by
  induction ds generalizing t with
  | nil => exact ⟨t, rfl, ht, rfl⟩
  | cons d ds ih =>
    obtain ⟨hd, hds⟩ := List.forall_mem_cons.mp hds
    obtain ⟨u, hu, hstage, hlog⟩ := h.step hs ht hd
    obtain ⟨t', ht', hstage', hlog'⟩ := ih hds hstage
    refine ⟨t', run_cons_eq_ok.mpr ⟨u, hu, ht'⟩, hstage', ?_⟩
    rw [hlog', hlog]
    rfl

end Compatible

/-- **Convergence**: two runs over one collection of pointers, in any order and any grouping, both
succeed and end in the same state. -/
theorem run_converges (hs : s.verify C parameters = .ok ())
    (hps : Compatible C parameters s credOf ps) {ds es : List (InboxStateV3Delta Cert)}
    (hds : ∀ d ∈ ds, Carries C s credOf ps d) (hes : ∀ e ∈ es, Carries C s credOf ps e)
    (hdsps : ∀ p ∈ ps, ∃ d ∈ ds, p ∈ d.pointers.getD [])
    (hesps : ∀ p ∈ ps, ∃ e ∈ es, p ∈ e.pointers.getD []) :
    ∃ s', InboxStateV3.run C parameters s ds = .ok s' ∧
      InboxStateV3.run C parameters s es = .ok s' := by
  have hv := verify_iff.mp hs
  obtain ⟨t, ht, hstage, hlog⟩ := hps.run hv hds hv.stage
  obtain ⟨u, hu, hstage', hlog'⟩ := hps.run hv hes hv.stage
  have hbatches {fs : List (InboxStateV3Delta Cert)} (hfs : ∀ f ∈ fs, Carries C s credOf ps f) :
      ∀ B ∈ fs.map fun f => (f.pointers.getD []).toFinset,
        B ⊆ s.pointers.pointers.toFinset ∪ ps := by
    intro B hB
    obtain ⟨f, hf, rfl⟩ := List.mem_map.mp hB
    exact fun p hp => Finset.mem_union_right _ ((hfs f hf).pointers p (List.mem_toFinset.mp hp))
  have hcover {fs : List (InboxStateV3Delta Cert)} (hfs : ∀ f ∈ fs, Carries C s credOf ps f)
      (hfsps : ∀ p ∈ ps, ∃ f ∈ fs, p ∈ f.pointers.getD []) (p : AuthorizedReplyPointerV3) :
      (∃ B ∈ fs.map fun f => (f.pointers.getD []).toFinset, p ∈ B) ↔ p ∈ ps := by
    simp only [List.mem_map, exists_exists_and_eq_and, List.mem_toFinset]
    exact ⟨fun ⟨f, hf, hp⟩ => (hfs f hf).pointers p hp, hfsps p⟩
  have heq : t = u := by
    refine hstage.valid.ext hstage'.valid hstage.creds hstage'.creds
      (hstage.latch.trans hstage'.latch.symm) ?_
    rw [hlog, hlog']
    refine run_congr hv.settled.stable (hps.distinct hv) Finset.subset_union_left (hbatches hds)
      (hbatches hes) fun p => ?_
    rw [hcover hds hdsps, hcover hes hesps]
  exact ⟨t, ht, heq ▸ hu⟩

end InboxStateV3

namespace Sample

/-- A second pointer of the seated key and one of an anonymous key. -/
def replies : Finset AuthorizedReplyPointerV3 :=
  {pointer (attested 1 7 1) 5 11 0, pointer (anonymous 2) 4 5 0}

def credOf (k : Bytes 32) : ReplierCredV3 VerifyingKey :=
  if k = bytes 32 1 then attested 1 7 1 else anonymous 2

def oneByOne : List (InboxStateV3Delta VerifyingKey) :=
  [inboxDelta [attested 1 7 1] [pointer (attested 1 7 1) 5 11 0],
    inboxDelta [anonymous 2] [pointer (anonymous 2) 4 5 0]]

def atOnce : List (InboxStateV3Delta VerifyingKey) :=
  [inboxDelta [attested 1 7 1, anonymous 2] [pointer (anonymous 2) 4 5 0,
    pointer (attested 1 7 1) 5 11 0, pointer (anonymous 2) 4 5 0]]

end Sample

namespace InboxStateV3

open Sample

theorem run_converges_replies : ∃ s', InboxStateV3.run crypto inbox seated oneByOne = .ok s' ∧
    InboxStateV3.run crypto inbox seated atOnce = .ok s' := by
  have hcreds : ∀ d ∈ oneByOne ++ atOnce, ∀ kc ∈ (d.creds.getD ∅).toList,
      ∃ p ∈ replies, p.ptr.replier = kc.1 ∧ kc.2 = credOf kc.1 := by decide +kernel
  have carries : ∀ d ∈ oneByOne ++ atOnce, Carries crypto seated credOf replies d := by
    have h : ∀ d ∈ oneByOne ++ atOnce,
        adoptDifficulty crypto seated.powDifficulty d.powDifficulty = seated.powDifficulty ∧
        (∀ p ∈ d.pointers.getD [], p ∈ replies) ∧ (∀ p ∈ d.pointers.getD [],
          (d.creds.getD ∅)[p.ptr.replier]? = some (credOf p.ptr.replier)) ∧
        (d.creds.getD ∅).size ≤ maxPointers := by decide +kernel
    intro d hd
    obtain ⟨hl, hp, hc, hsize⟩ := h d hd
    refine ⟨hl, hp, hc, fun k c hkc => hcreds d hd (k, c) ?_, hsize⟩
    exact Std.ExtTreeMap.mem_toList_iff_getElem?_eq_some.mpr hkc
  have hheld : ∀ p ∈ replies, ∀ c ∈ seated.creds.creds[p.ptr.replier]?,
      c = credOf p.ptr.replier := by decide +kernel
  have hagree : ∀ p ∈ replies, ∀ q ∈ replies ∪ seated.pointers.pointers.toFinset,
      p.ptr.replyPost = q.ptr.replyPost → p = q := by decide +kernel
  have compatible : Compatible crypto inbox seated credOf replies := by
    refine ⟨by decide +kernel, fun p hp c hc => hheld p hp c hc, by decide +kernel,
      by decide +kernel, by decide +kernel, by decide +kernel, fun p hp q hq => hagree p hp q ?_⟩
    simpa using hq
  exact run_converges (by decide +kernel) compatible
    (fun d hd => carries d (List.mem_append_left _ hd))
    (fun d hd => carries d (List.mem_append_right _ hd)) (by decide +kernel) (by decide +kernel)

end InboxStateV3

end Freebird
