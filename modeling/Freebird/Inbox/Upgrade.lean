import Freebird.Inbox.Stale
import Freebird.Inbox.Convergence

/-!
# Upgrading a credential

A key that posted anonymously is attested. A delta with its anonymous credential and pointers and one
with its attested credential and pointers commute exactly if the anonymous pointers leave no trace
(`upgrade_commutes`): before the attested delta they must cost nobody a place and make none free, and
after it they must come too late, since the key is attested by then or its log has no place for them.
-/

namespace Freebird

open Retention

namespace PointersV3

open AuthorizedReplyPointerV3

variable {fp : String} {ps qs : List AuthorizedReplyPointerV3} {A U T : Finset AuthorizedReplyPointerV3}

/-! ## Finding a place -/

/-- The newest of some attested pointers of one fingerprint is kept, if what may lie above it leaves
room in its fingerprint and in the log. -/
theorem exists_mem_capped (hA : Distinct prio A) (hT : T.Nonempty) (hTA : T ⊆ A)
    (hfp : ∀ x ∈ T, x.ptr.fingerprint = fp) (hatt : isAnonFingerprint fp = false)
    (habove : ∀ m ∈ T, (∀ x ∈ T, x.orderKey ≤ m.orderKey) → above prio A m ⊆ U)
    (hgroup : (U.filter fun x => x.ptr.fingerprint = fp).card < fpCap fp)
    (htotal : (U.filter fun x => x.isAnon = false).card < maxPointers) :
    ∃ m ∈ T, m ∈ capped A := by
  obtain ⟨m, hm, hmax⟩ := T.exists_max_image orderKey hT
  have ham : m.isAnon = false := by rw [isAnon, hfp m hm, hatt]
  have hU {x : AuthorizedReplyPointerV3} (hx : x ∈ capped A) (hlt : m.prio < x.prio) : x ∈ U :=
    habove m hm hmax (mem_above.mpr ⟨keepAll_subset _ _ hx, hlt⟩)
  have htier : (tierLayer.rivals prio (capped A) m).card < maxPointers := by
    refine (Finset.card_le_card fun x hx => ?_).trans_lt htotal
    obtain ⟨hx, -, hlt⟩ := Layer.mem_rivals.mp hx
    exact Finset.mem_filter.mpr ⟨hU hx hlt, isAnon_of_prio_lt hlt ham⟩
  refine ⟨m, hm, (mem_keepAll_iff nested_caps hA (hTA hm)).mpr ?_⟩
  rw [caps, List.forall_mem_cons, List.forall_mem_cons, List.forall_mem_singleton]
  refine ⟨?_, ?_, ?_⟩
  · refine (Finset.card_le_card fun x hx => ?_).trans_lt htotal
    obtain ⟨hx, -, hlt⟩ := Layer.mem_rivals.mp hx
    exact Finset.mem_filter.mpr ⟨hU hx hlt, isAnon_of_prio_lt hlt ham⟩
  · change _ < if m.isAnon then anonPointerSlots else maxPointers
    rw [ham]
    exact htier
  · change _ < fpCap m.ptr.fingerprint
    rw [hfp m hm]
    refine (Finset.card_le_card fun x hx => ?_).trans_lt hgroup
    obtain ⟨hx, hg, hlt⟩ := Layer.mem_rivals.mp hx
    have hg : x.ptr.fingerprint = m.ptr.fingerprint := hg
    exact Finset.mem_filter.mpr ⟨hU hx hlt, hg.trans (hfp m hm)⟩

section
variable (key : Bytes 32) (fp : String) (A : Finset AuthorizedReplyPointerV3)
  (qs : List AuthorizedReplyPointerV3)

/-- The caps keep one of the pointers `qs` when they join the log. -/
def FindsPlace : Prop := ∃ q ∈ qs, q ∈ capped (firsts A qs)

/-- What the caps keep then, if the key keeps no pointers but those of the fingerprint. -/
def upgradedLog : Finset AuthorizedReplyPointerV3 :=
  (capped (firsts A qs)).filter fun p => p.ptr.replier = key → p.ptr.fingerprint = fp

end

section
variable (hps : Settled ps) (hqs : ∀ q ∈ qs, q.ptr.fingerprint = fp)
  (hatt : isAnonFingerprint fp = false)
include hps hqs hatt

/-- A key that has pointers of the fingerprint in the log keeps one when it adds others. -/
theorem exists_kept_of_mem {k : Bytes 32} {p : AuthorizedReplyPointerV3} (hp : p ∈ ps)
    (hpk : p.ptr.replier = k) (hpfp : p.ptr.fingerprint = fp) (hqk : ∀ q ∈ qs, q.ptr.replier = k) :
    ∃ q, q ∈ (canonicalize ⟨ps ++ qs⟩).pointers ∧ q.ptr.replier = k ∧ q.ptr.fingerprint = fp := by
  set A := (dedup (ps ++ qs)).toFinset with hA
  set T := A.filter fun x => x.ptr.replier = k ∧ x.ptr.fingerprint = fp with hT
  have hpa : p.isAnon = false := by rw [isAnon, hpfp, hatt]
  have hown {x : AuthorizedReplyPointerV3} (hx : x ∈ A) (hxq : x ∈ qs ∨ x = p) : x ∈ T := by
    rcases hxq with hxq | rfl
    · exact Finset.mem_filter.mpr ⟨hx, hqk x hxq, hqs x hxq⟩
    · exact Finset.mem_filter.mpr ⟨hx, hpk, hpfp⟩
  have hfrom {x : AuthorizedReplyPointerV3} (hx : x ∈ A) : x ∈ ps ∨ x ∈ qs :=
    List.mem_append.mp (dedup_subset (List.mem_toFinset.mp hx))
  obtain ⟨r, hr, he⟩ := exists_mem_dedup (List.mem_append_left qs hp)
  have hrA : r ∈ A := List.mem_toFinset.mpr hr
  have hrT : r ∈ T := hown hrA ((hfrom hrA).elim (fun h => .inr (hps.eq_of_replyPost h hp he)) .inl)
  have habove : ∀ m ∈ T, (∀ x ∈ T, x.orderKey ≤ m.orderKey) →
      above prio A m ⊆ ps.toFinset.erase p := by
    intro m hm hmax x hx
    obtain ⟨hxA, hlt⟩ := mem_above.mp hx
    have hxT : x ∉ T := fun hxT => by
      have hsame : m.isAnon = x.isAnon := isAnon_of_fingerprint
        ((Finset.mem_filter.mp hm).2.2.trans (Finset.mem_filter.mp hxT).2.2.symm)
      rcases prio_lt_iff.mp hlt with ⟨ha, hb⟩ | ⟨-, hlt⟩
      · rw [hsame, hb] at ha
        cases ha
      · exact absurd (hmax x hxT) (not_le.mpr hlt)
    refine Finset.mem_erase.mpr ⟨fun he => hxT (hown hxA (.inr he)), ?_⟩
    exact List.mem_toFinset.mpr ((hfrom hxA).resolve_right fun hxq => hxT (hown hxA (.inl hxq)))
  have hcount (f : AuthorizedReplyPointerV3 → Prop) [DecidablePred f] (hf : f p) :
      ((ps.toFinset.erase p).filter f).card < ps.countP fun x => f x := by
    rw [Finset.filter_erase, ← card_filter_toFinset hps.sorted.nodup]
    exact Finset.card_erase_lt_of_mem (Finset.mem_filter.mpr ⟨List.mem_toFinset.mpr hp, hf⟩)
  obtain ⟨m, hm, hkept⟩ := exists_mem_capped (distinct_prio (dedup_sorted _).distinct) ⟨r, hrT⟩
    (Finset.filter_subset _ _) (fun x hx => (Finset.mem_filter.mp hx).2.2) hatt habove
    ((hcount _ hpfp).trans_le (hps.fp_le fp))
    ((hcount (fun x => x.isAnon = false) hpa).trans_le (List.countP_le_length.trans hps.length_le))
  refine ⟨m, ?_, (Finset.mem_filter.mp hm).2⟩
  rw [← List.mem_toFinset, toFinset_canonicalize]
  exact hkept

end

end PointersV3

/-! ## Deltas of one key -/

variable {Cert : Type} {C : Crypto Cert} {parameters : InboxParametersV3}

def anonymousCred (key : Bytes 32) : ReplierCredV3 Cert := ⟨⟨key⟩, none⟩

def attestedCred (key : Bytes 32) (att : AttestationV2 Cert) : ReplierCredV3 Cert :=
  ⟨⟨key⟩, some att⟩

/-- A delta that carries a credential with pointers signed under it. -/
def bundle (cred : ReplierCredV3 Cert) (ps : List AuthorizedReplyPointerV3) :
    InboxStateV3Delta Cert :=
  ⟨some ((∅ : Map _ _).insert cred.postingKey.asBytes cred), some ps, none⟩

variable (C) in
/-- The pointers are those of one credential. -/
def Under (cred : ReplierCredV3 Cert) (ps : List AuthorizedReplyPointerV3) : Prop :=
  ∀ p ∈ ps, p.ptr.replier = cred.postingKey.asBytes ∧ p.ptr.fingerprint = cred.fingerprint C

theorem isAnonFingerprint_anonymous (C : Crypto Cert) (key : Bytes 32) :
    isAnonFingerprint ((anonymousCred key : ReplierCredV3 Cert).fingerprint C) = true := by
  rw [isAnonFingerprint, List.isPrefixOf_iff_prefix]
  change anonFpPrefix.toList <+: (anonFpPrefix ++ _).toList
  rw [String.toList_append]
  exact List.prefix_append _ _

/-- Where no encoding contains the prefix of anonymous fingerprints, attested ones are not taken for
such. -/
theorem attested_fingerprint (hbs : ∀ input, isAnonFingerprint (C.bs58 input) = false)
    {c : ReplierCredV3 Cert} (hc : c.attestation.isSome) :
    isAnonFingerprint (c.fingerprint C) = false := by
  obtain ⟨att, hatt⟩ := Option.isSome_iff_exists.mp hc
  rw [ReplierCredV3.fingerprint, hatt]
  exact hbs _

namespace InboxStateV3

variable {s t t' : InboxStateV3 Cert} {cred : ReplierCredV3 Cert} {key : Bytes 32}
  {att : AttestationV2 Cert} {ps : List AuthorizedReplyPointerV3}

theorem vouched_bundle (k : Bytes 32) : t.vouched C parameters (bundle cred ps) k =
    if k = cred.postingKey.asBytes ∧ ∃ p ∈ t.admitted C parameters (bundle cred ps) ++
      t.pointers.pointers, p.ptr.replier = k then some cred else none := by
  have hget : ((bundle cred ps).creds.getD ∅)[k]? =
      if k = cred.postingKey.asBytes then some cred else none := by
    rw [bundle, Option.getD_some, Std.ExtTreeMap.getElem?_insert]
    simp only [compare_eq_iff_eq, eq_comm (b := k), Map.getElem?_empty]
  rw [vouched, hget]
  by_cases hk : k = cred.postingKey.asBytes
  · rw [if_pos hk]
    exact if_congr (and_iff_right hk).symm rfl rfl
  · rw [if_neg hk, ite_self, if_neg fun h => hk h.1]

/-- Other keys keep their credentials. -/
theorem credAfter_bundle_of_ne {k : Bytes 32} (hk : k ≠ cred.postingKey.asBytes) :
    t.credAfter C parameters (bundle cred ps) k = t.creds.creds[k]? := by
  rw [credAfter, vouched_bundle, if_neg fun h => hk h.1, newerCred_none]

theorem admitted_bundle : t.admitted C parameters (bundle cred ps) =
    ps.filter (admits C parameters.owner.asBytes (difficultyBits C t.powDifficulty)) := rfl

theorem anonymous_of_held (ht : t.Valid C parameters)
    (hheld : ∀ c, t.creds.creds[key]? = some c → c.attestation = none)
    {c : ReplierCredV3 Cert} (hc : t.creds.creds[key]? = some c) : c = anonymousCred key := by
  have hpk := ht.keyed key c hc
  have hatt := hheld c hc
  obtain ⟨pk, att⟩ := c
  obtain rfl : att = none := hatt
  obtain rfl : pk = ⟨key⟩ := hpk
  rfl

/-- An old pointer of the key has its anonymous fingerprint. -/
theorem fingerprint_of_anonymous (ht : t.Valid C parameters)
    (hheld : ∀ c, t.creds.creds[key]? = some c → c.attestation = none)
    {p : AuthorizedReplyPointerV3} (hp : p ∈ t.pointers.pointers) (hk : p.ptr.replier = key) :
    p.ptr.fingerprint = (anonymousCred key).fingerprint C := by
  obtain ⟨c, hc, hfp⟩ := ht.resolved p hp
  rw [hk] at hc
  rw [hfp, anonymous_of_held ht hheld hc]

/-! ## Anonymous pointers of an attested key -/

/-- A delta that carries nothing the state would take. -/
theorem applyDelta_anonymous_noop (hbs : ∀ input, isAnonFingerprint (C.bs58 input) = false)
    (ht : t.Valid C parameters) (hps : Under C (anonymousCred key) ps)
    (h : t.admitted C parameters (bundle (anonymousCred key) ps) = [] ∨
      ∃ c, t.creds.creds[key]? = some c ∧ c.attestation.isSome)
    (happ : t.applyDelta C parameters (some (bundle (anonymousCred key) ps)) = (.ok (), t')) :
    t' = t := by
  have hcreds : t.credAfter C parameters (bundle (anonymousCred key) ps) = (t.creds.creds[·]?) := by
    funext k
    by_cases hk : k = key
    · subst hk
      rw [credAfter, vouched_bundle]
      split
      · rename_i href
        cases hc : t.creds.creds[k]? with
        | some c =>
          have hle : (anonymousCred k : ReplierCredV3 Cert).contentHash C ≤ c.contentHash C :=
            Bytes.zeros_le _
          simp [newerCred, hle]
        | none =>
          -- Nothing is admitted, and no pointer of the log has the key.
          have hadm := h.resolve_right (by rintro ⟨c, hc', -⟩; simp [hc] at hc')
          rw [hadm, List.nil_append] at href
          obtain ⟨c, hc'⟩ := Map.mem_iff.mp ((ht.mem_creds k).mpr href.2)
          simp [hc] at hc'
      · rfl
    · exact credAfter_bundle_of_ne hk
  have haccepted : t.accepted C parameters (bundle (anonymousCred key) ps) = [] := by
    rw [accepted, hcreds]
    rcases h with h | ⟨c, hc, hatt⟩
    · rw [h]
      rfl
    · refine List.filter_eq_nil_iff.mpr fun p hp hr => ?_
      obtain ⟨c', hc', hfp⟩ := of_decide_eq_true hr
      obtain ⟨hrep, hanon⟩ := hps p (mem_admitted.mp hp).1
      have hrep : p.ptr.replier = key := hrep
      rw [hrep] at hc'
      obtain rfl : c = c' := Option.some.inj (hc.symm.trans hc')
      have hfalse := attested_fingerprint hbs hatt
      rw [← hfp, hanon, isAnonFingerprint_anonymous] at hfalse
      cases hfalse
  exact ((applyDelta_eq_ok ht.settled).mp happ).2.unique (ht.applied_self rfl hcreds haccepted)

/-! ## Attested pointers of an anonymous key -/

/-- Attested pointers need no stamp. -/
theorem admitted_attested (hbs : ∀ input, isAnonFingerprint (C.bs58 input) = false)
    (hps : Under C (attestedCred key att) ps) (t : InboxStateV3 Cert)
    (parameters : InboxParametersV3) :
    t.admitted C parameters (bundle (attestedCred key att) ps) = ps := by
  rw [admitted_bundle]
  refine List.filter_eq_self.mpr fun p hp => ?_
  rw [admits, AuthorizedReplyPointerV3.isAnon, (hps p hp).2, attested_fingerprint hbs rfl]
  rfl

/-- Attested pointers are appended to the log if the key has their fingerprint afterwards. -/
theorem accepted_attested (hbs : ∀ input, isAnonFingerprint (C.bs58 input) = false)
    (hps : Under C (attestedCred key att) ps) {c : ReplierCredV3 Cert}
    (hc : t.credAfter C parameters (bundle (attestedCred key att) ps) key = some c)
    (hfp : c.fingerprint C = (attestedCred key att).fingerprint C) :
    t.accepted C parameters (bundle (attestedCred key att) ps) = ps := by
  have hadm := admitted_attested hbs hps t parameters
  rw [accepted_eq_admitted, hadm]
  rw [hadm]
  refine fun p hp => ⟨c, ?_, (hps p hp).2.trans hfp.symm⟩
  rw [(hps p hp).1]
  exact hc

theorem fingerprint_ne (hbs : ∀ input, isAnonFingerprint (C.bs58 input) = false) (key : Bytes 32)
    (att : AttestationV2 Cert) :
    (attestedCred key att).fingerprint C ≠ (anonymousCred key).fingerprint C := fun he => by
  have hattested : isAnonFingerprint ((attestedCred key att).fingerprint C) = false :=
    attested_fingerprint hbs rfl
  rw [he, isAnonFingerprint_anonymous] at hattested
  cases hattested

section
variable (hbs : ∀ input, isAnonFingerprint (C.bs58 input) = false) (ht : t.Valid C parameters)
  (hps : Under C (attestedCred key att) ps)
include hbs hps

/-- The attestation replaces an anonymous credential, if a pointer references the key. -/
theorem credAfter_attested (hheld : ∀ c, t.creds.creds[key]? = some c → c.attestation = none)
    (hhash : att.contentHash C ≠ Bytes.zeros 32) {p : AuthorizedReplyPointerV3}
    (hp : p ∈ t.pointers.pointers ∨ p ∈ ps) (hk : p.ptr.replier = key) :
    t.credAfter C parameters (bundle (attestedCred key att) ps) key =
      some (attestedCred key att) := by
  have href : ∃ p ∈ t.admitted C parameters (bundle (attestedCred key att) ps) ++
      t.pointers.pointers, p.ptr.replier = key := by
    refine ⟨p, List.mem_append.mpr (hp.symm.imp_left fun hp => ?_), hk⟩
    rwa [admitted_attested hbs hps]
  rw [credAfter, vouched_bundle, if_pos ⟨rfl, href⟩]
  refine if_neg fun hany => ?_
  obtain ⟨c, hc, hle⟩ := (Option.any_eq_true _ _).mp hany
  have hzero : c.contentHash C = Bytes.zeros 32 := by
    rw [ReplierCredV3.contentHash, hheld c hc]
  exact hhash (le_antisymm (hzero ▸ of_decide_eq_true hle) (Bytes.zeros_le _))

variable (hheld : ∀ c, t.creds.creds[key]? = some c → c.attestation = none)
  (hown : ∀ p ∈ t.pointers.pointers,
    p.ptr.fingerprint = (anonymousCred key).fingerprint C → p.ptr.replier = key)
  (hhash : att.contentHash C ≠ Bytes.zeros 32)
include ht hheld hown hhash

/-- What resolves under the attestation is what does not have the anonymous fingerprint. -/
theorem resolved_attested_iff {p : AuthorizedReplyPointerV3}
    (hp : p ∈ t.pointers.pointers ∨ p ∈ ps) :
    p.Resolved C (t.credAfter C parameters (bundle (attestedCred key att) ps)) ↔
      p.ptr.fingerprint ≠ (anonymousCred key).fingerprint C := by
  have hne := fingerprint_ne hbs key att
  by_cases hk : p.ptr.replier = key
  · have hkey : t.credAfter C parameters (bundle (attestedCred key att) ps) key =
        some (attestedCred key att) := credAfter_attested hbs hps hheld hhash hp hk
    rcases hp with hp | hp
    · have hfp := fingerprint_of_anonymous ht hheld hp hk
      refine iff_of_false ?_ (fun h => h hfp)
      rintro ⟨c', hc', hfp'⟩
      refine hne ?_
      rw [hk, hkey] at hc'
      obtain rfl := Option.some.inj hc'
      exact hfp'.symm.trans hfp
    · exact iff_of_true ⟨_, hk ▸ hkey, (hps p hp).2⟩ fun he => hne ((hps p hp).2.symm.trans he)
  · have hp := hp.resolve_right fun hp => hk (hps p hp).1
    obtain ⟨c, hc, hfp⟩ := ht.resolved p hp
    exact iff_of_true ⟨c, (credAfter_bundle_of_ne hk).trans hc, hfp⟩ fun he => hk (hown p hp he)

/-- The attested credential of a key that has none yet, and what is dropped with the anonymous one. -/
theorem applyDelta_attested
    (happ : t.applyDelta C parameters (some (bundle (attestedCred key att) ps)) = (.ok (), t')) :
    t'.Valid C parameters ∧ t'.powDifficulty = t.powDifficulty ∧
      t'.pointers.pointers = (PointersV3.canonicalize ⟨t.pointers.pointers ++ ps⟩).pointers.filter
        (fun p => p.ptr.fingerprint ≠ (anonymousCred key).fingerprint C) ∧
      ∀ (k : Bytes 32) (c : ReplierCredV3 Cert), t'.creds.creds[k]? = some c →
        if k = key then c = attestedCred key att else t.creds.creds[k]? = some c := by
  obtain ⟨haccepts, happ⟩ := (applyDelta_eq_ok ht.settled).mp happ
  have haccepted : t.accepted C parameters (bundle (attestedCred key att) ps) = ps := by
    have hadm := admitted_attested hbs hps t parameters
    rw [accepted_eq_admitted, hadm]
    rw [hadm]
    refine fun p hp => (resolved_attested_iff hbs ht hps hheld hown hhash (.inr hp)).mpr fun he => ?_
    exact fingerprint_ne hbs key att ((hps p hp).2.symm.trans he)
  have hvalid := ht.applied haccepts happ
  refine ⟨hvalid, happ.latch, ?_, fun k c hc => ?_⟩
  · rw [happ.pointers, pointersAfter, haccepted]
    refine List.filter_congr fun p hp => decide_eq_decide.mpr ?_
    exact resolved_attested_iff hbs ht hps hheld hown hhash
      (List.mem_append.mp (PointersV3.mem_of_mem_canonicalize hp))
  · obtain ⟨⟨p, hp, hpk⟩, hc⟩ := happ.credAfter hc
    split
    · rename_i hk
      rw [happ.pointers] at hp
      have hp := (mem_pointersAfter hp).1.imp_right fun hp => haccepted ▸ hp
      rw [hk, credAfter_attested hbs hps hheld hhash hp (hpk.trans hk)] at hc
      exact (Option.some.inj hc).symm
    · rename_i hk
      rwa [credAfter_bundle_of_ne hk] at hc

end

/-- An attested credential of a key with pointers meets another one: the higher hash wins. -/
theorem credAfter_attested_again {c : ReplierCredV3 Cert}
    (hc : t.creds.creds[key]? = some c) {p : AuthorizedReplyPointerV3} (hp : p ∈ t.pointers.pointers)
    (hpk : p.ptr.replier = key) :
    t.credAfter C parameters (bundle (attestedCred key att) ps) key =
      if (attestedCred key att).contentHash C ≤ c.contentHash C then some c
      else some (attestedCred key att) := by
  rw [credAfter, vouched_bundle, if_pos ⟨rfl, p, List.mem_append_right _ hp, hpk⟩, hc]
  simp [newerCred]

/-- A key that is attested stays attested, if a new attestation does not cost it all its pointers. -/
theorem applyDelta_attested_again (hbs : ∀ input, isAnonFingerprint (C.bs58 input) = false)
    (ht : t.Valid C parameters) (hps : Under C (attestedCred key att) ps)
    {c : ReplierCredV3 Cert} (hc : t.creds.creds[key]? = some c) (hatt : c.attestation.isSome)
    (hseat : c.fingerprint C = (attestedCred key att).fingerprint C ∨
      (attestedCred key att).contentHash C ≤ c.contentHash C ∨
      PointersV3.FindsPlace t.pointers.pointers.toFinset ps)
    (happ : t.applyDelta C parameters (some (bundle (attestedCred key att) ps)) = (.ok (), t')) :
    ∃ c', t'.creds.creds[key]? = some c' ∧ c'.attestation.isSome := by
  obtain ⟨-, happ⟩ := (applyDelta_eq_ok ht.settled).mp happ
  obtain ⟨p, hp, hpk⟩ := (ht.mem_creds key).mp (Map.mem_iff.mpr ⟨c, hc⟩)
  have hpfp : p.ptr.fingerprint = c.fingerprint C := ht.fingerprint_of_held hp (hpk ▸ hc)
  have hafter : t.credAfter C parameters (bundle (attestedCred key att) ps) key =
      if (attestedCred key att).contentHash C ≤ c.contentHash C then some c
      else some (attestedCred key att) := credAfter_attested_again hc hp hpk
  -- It is enough that one pointer of the key is left.
  suffices ∃ q ∈ t.pointersAfter C parameters (bundle (attestedCred key att) ps),
      q.ptr.replier = key by
    obtain ⟨q, hq, hqk⟩ := this
    rw [happ.creds, if_pos ⟨q, hq, hqk⟩, hafter]
    split
    · exact ⟨c, rfl, hatt⟩
    · exact ⟨_, rfl, rfl⟩
  have hqs : ∀ q ∈ ps, q.ptr.fingerprint = (attestedCred key att).fingerprint C :=
    fun q hq => (hps q hq).2
  have hfalse : isAnonFingerprint ((attestedCred key att).fingerprint C) = false :=
    attested_fingerprint hbs rfl
  have hmem {q : AuthorizedReplyPointerV3} {qs : List AuthorizedReplyPointerV3}
      {c' : ReplierCredV3 Cert}
      (hqs : t.accepted C parameters (bundle (attestedCred key att) ps) = qs)
      (hq : q ∈ (PointersV3.canonicalize ⟨t.pointers.pointers ++ qs⟩).pointers)
      (hqk : q.ptr.replier = key)
      (hc' : t.credAfter C parameters (bundle (attestedCred key att) ps) key = some c')
      (hfp : q.ptr.fingerprint = c'.fingerprint C) :
      q ∈ t.pointersAfter C parameters (bundle (attestedCred key att) ps) := by
    rw [pointersAfter, hqs]
    exact List.mem_filter.mpr ⟨hq, decide_eq_true ⟨c', hqk ▸ hc', hfp⟩⟩
  by_cases hsame : c.fingerprint C = (attestedCred key att).fingerprint C
  · obtain ⟨c', hc', hfp⟩ : ∃ c', t.credAfter C parameters (bundle (attestedCred key att) ps) key =
        some c' ∧ c'.fingerprint C = (attestedCred key att).fingerprint C := by
      rw [hafter]
      split
      · exact ⟨c, rfl, hsame⟩
      · exact ⟨_, rfl, rfl⟩
    obtain ⟨q, hq, hqk, hqfp⟩ := PointersV3.exists_kept_of_mem ht.settled hqs hfalse hp hpk
      (hpfp.trans hsame) fun q hq => (hps q hq).1
    exact ⟨q, hmem (accepted_attested hbs hps hc' hfp) hq hqk hc' (hqfp.trans hfp.symm), hqk⟩
  · by_cases hle : (attestedCred key att).contentHash C ≤ c.contentHash C
    · rw [if_pos hle] at hafter
      have hnone : t.accepted C parameters (bundle (attestedCred key att) ps) = [] := by
        rw [accepted, admitted_attested hbs hps t parameters]
        refine List.filter_eq_nil_iff.mpr fun q hq hr => hsame ?_
        obtain ⟨c', hc', hfp⟩ := of_decide_eq_true hr
        have hk : q.ptr.replier = key := (hps q hq).1
        rw [hk, hafter] at hc'
        rw [Option.some.inj hc', ← hfp, hqs q hq]
      refine ⟨p, hmem hnone ?_ hpk hafter hpfp, hpk⟩
      rw [List.append_nil, ht.settled.canonicalize_eq]
      exact hp
    · rw [if_neg hle] at hafter
      obtain ⟨q, hq, hkept⟩ := (hseat.resolve_left hsame).resolve_left hle
      have hqk : q.ptr.replier = key := (hps q hq).1
      have hkept := (PointersV3.mem_canonicalize_append ht.settled.unique).mpr hkept
      exact ⟨q, hmem (accepted_attested hbs hps hafter rfl) hkept hqk hafter (hqs q hq), hqk⟩

/-- A newer attestation of a key that is attested drops the pointers of the old one. -/
theorem applyDelta_reattested (hbs : ∀ input, isAnonFingerprint (C.bs58 input) = false)
    (ht : t.Valid C parameters) (hps : Under C (attestedCred key att) ps)
    {c : ReplierCredV3 Cert} (hc : t.creds.creds[key]? = some c)
    (hlt : ¬(attestedCred key att).contentHash C ≤ c.contentHash C)
    (happ : t.applyDelta C parameters (some (bundle (attestedCred key att) ps)) = (.ok (), t')) :
    t'.pointers.pointers.toFinset = PointersV3.upgradedLog key
      ((attestedCred key att).fingerprint C) t.pointers.pointers.toFinset ps := by
  obtain ⟨-, happ⟩ := (applyDelta_eq_ok ht.settled).mp happ
  obtain ⟨p, hp, hpk⟩ := (ht.mem_creds key).mp (Map.mem_iff.mpr ⟨c, hc⟩)
  have hafter : t.credAfter C parameters (bundle (attestedCred key att) ps) key =
      some (attestedCred key att) := by rw [credAfter_attested_again hc hp hpk, if_neg hlt]
  rw [happ.pointers, pointersAfter, accepted_attested hbs hps hafter rfl, List.toFinset_filter,
    PointersV3.toFinset_canonicalize_append ht.settled.unique]
  refine Finset.filter_congr fun q hq => ?_
  rw [decide_eq_true_eq]
  by_cases hk : q.ptr.replier = key
  · rw [AuthorizedReplyPointerV3.Resolved, hk, hafter]
    simp
  · refine iff_of_true ?_ fun h => absurd h hk
    have hq := (PointersV3.mem_of_mem_firsts (keepAll_subset _ _ hq)).resolve_right
      fun hq => hk (hps q hq).1
    obtain ⟨c', hc', hfp⟩ := ht.resolved q (List.mem_toFinset.mp hq)
    exact ⟨c', (credAfter_bundle_of_ne hk).trans hc', hfp⟩

/-! ## The two orders -/

section
variable (C parameters) (s : InboxStateV3 Cert) (key : Bytes 32) (att : AttestationV2 Cert)
  (ps qs : List AuthorizedReplyPointerV3)

/-- What the contract relies on of its hash and of base 58, for one key. -/
structure Unambiguous : Prop where
  bs58 : ∀ input, isAnonFingerprint (C.bs58 input) = false
  own : ∀ p ∈ s.pointers.pointers,
    p.ptr.fingerprint = (anonymousCred key).fingerprint C → p.ptr.replier = key
  hash : att.contentHash C ≠ Bytes.zeros 32

/-- The pointers of the anonymous delta that clear the bar. -/
abbrev anonymousPointers : List AuthorizedReplyPointerV3 :=
  s.admitted C parameters (bundle (anonymousCred key) ps)

/-- What the caps keep when the anonymous pointers join the log. -/
abbrev anonymousLog : Finset AuthorizedReplyPointerV3 :=
  PointersV3.capped
    (PointersV3.firsts s.pointers.pointers.toFinset (s.anonymousPointers C parameters key ps))

/-- What the caps keep when the attested pointers join it, without what the attestation drops. -/
abbrev attestedLog : Finset AuthorizedReplyPointerV3 :=
  PointersV3.upgradedLog key ((attestedCred key att).fingerprint C) s.pointers.pointers.toFinset qs

/-- An attested key is attested after the attested delta as well, or its anonymous pointers come too
late. -/
def StaysAttested (c : ReplierCredV3 Cert) : Prop :=
  c.fingerprint C = (attestedCred key att).fingerprint C ∨
    (attestedCred key att).contentHash C ≤ c.contentHash C ∨
    PointersV3.FindsPlace s.pointers.pointers.toFinset qs ∨
    PointersV3.Ignored (s.attestedLog C key att qs) (s.anonymousPointers C parameters key ps) ∧
      PointersV3.spared (s.attestedLog C key att qs) (s.anonymousPointers C parameters key ps) =
        s.attestedLog C key att qs

/-- The anonymous pointers of a key that is not attested leave no trace before the attested delta; and
they come too late after it, where the key is forgotten. -/
def LeavesNoTrace : Prop :=
  let anon := s.anonymousPointers C parameters key ps
  let log := s.anonymousLog C parameters key ps
  let fp := (anonymousCred key : ReplierCredV3 Cert).fingerprint C
  PointersV3.FindsPlace s.pointers.pointers.toFinset qs ∧
      PointersV3.Traceless fp log qs (s.attestedLog C key att qs) ∨
    ¬PointersV3.FindsPlace s.pointers.pointers.toFinset qs ∧
      PointersV3.Ignored (s.attestedLog C key att qs) anon ∧
      PointersV3.Traceless fp log qs (PointersV3.spared (s.attestedLog C key att qs) anon)

/-- The anonymous delta adds nothing; or the key is attested, and stays so; or it is not, and the
anonymous pointers leave no trace. -/
def Independent : Prop :=
  s.anonymousPointers C parameters key ps = [] ∨
  (∃ c, s.creds.creds[key]? = some c ∧ c.attestation.isSome ∧
    s.StaysAttested C parameters key att ps qs c) ∨
  (∀ c, s.creds.creds[key]? = some c → c.attestation = none) ∧
    s.LeavesNoTrace C parameters key att ps qs

end

variable {u v : InboxStateV3 Cert} {d e : InboxStateV3Delta Cert}
  {qs : List AuthorizedReplyPointerV3}

theorem run_two_eq_ok : run C parameters s [d, e] = .ok u ↔
    ∃ t, s.applyDelta C parameters (some d) = (.ok (), t) ∧
      t.applyDelta C parameters (some e) = (.ok (), u) := by
  simp only [run_cons_eq_ok]
  refine exists_congr fun t => and_congr_right fun _ => ⟨?_, fun h => ⟨u, h, rfl⟩⟩
  rintro ⟨u', h, he⟩
  rwa [← Except.ok.inj he]

theorem Valid.powDifficulty_bundle (ht : t.Valid C parameters)
    (h : t.applyDelta C parameters (some (bundle cred ps)) = (.ok (), t')) :
    t'.powDifficulty = t.powDifficulty := ((applyDelta_eq_ok ht.settled).mp h).2.latch

/-- A key that is not attested has its anonymous credential, whether held or sent. -/
theorem anonymous_of_credAfter (hs : s.Valid C parameters)
    (hheld : ∀ c, s.creds.creds[key]? = some c → c.attestation = none) {c : ReplierCredV3 Cert}
    (hc : s.credAfter C parameters (bundle (anonymousCred key) ps) key = some c) :
    c = anonymousCred key := by
  rcases credAfter_cases hc with hc | hc
  · exact anonymous_of_held hs hheld hc
  · rw [vouched_bundle, Option.ite_none_right_eq_some] at hc
    exact (Option.some.inj hc.2).symm

/-- An anonymous delta leaves nothing unresolved. -/
theorem resolved_anonymous (hs : s.Valid C parameters) (hps : Under C (anonymousCred key) ps)
    (hheld : ∀ c, s.creds.creds[key]? = some c → c.attestation = none)
    {p : AuthorizedReplyPointerV3} (hp : p ∈ s.pointers.pointers ∨
      p ∈ s.admitted C parameters (bundle (anonymousCred key) ps)) :
    p.Resolved C (s.credAfter C parameters (bundle (anonymousCred key) ps)) := by
  by_cases hk : p.ptr.replier = key
  · have hsome : (s.credAfter C parameters (bundle (anonymousCred key) ps) key).isSome := by
      refine credAfter_isSome (hp.imp (fun hp => ?_) fun hp => ?_)
      · exact Option.isSome_iff_exists.mpr (hk ▸ ⟨_, (hs.resolved p hp).choose_spec.1⟩)
      · rw [vouched_bundle, if_pos ⟨rfl, p, List.mem_append_left _ hp, hk⟩]
        rfl
    obtain ⟨c, hc⟩ := Option.isSome_iff_exists.mp hsome
    refine ⟨c, hk ▸ hc, ?_⟩
    rw [anonymous_of_credAfter hs hheld hc]
    rcases hp with hp | hp
    · exact fingerprint_of_anonymous hs hheld hp hk
    · exact (hps p (mem_admitted.mp hp).1).2
  · have hp := hp.resolve_right fun hp => hk (hps p (mem_admitted.mp hp).1).1
    obtain ⟨c, hc, hfp⟩ := hs.resolved p hp
    exact ⟨c, (credAfter_bundle_of_ne hk).trans hc, hfp⟩

/-- What the anonymous delta leaves of a key that is not attested. -/
theorem applyDelta_anonymous (hs : s.Valid C parameters) (hps : Under C (anonymousCred key) ps)
    (hheld : ∀ c, s.creds.creds[key]? = some c → c.attestation = none)
    (h : s.applyDelta C parameters (some (bundle (anonymousCred key) ps)) = (.ok (), t)) :
    t.pointers.pointers = (PointersV3.canonicalize ⟨s.pointers.pointers ++
        s.admitted C parameters (bundle (anonymousCred key) ps)⟩).pointers ∧
      ∀ (k : Bytes 32) (c : ReplierCredV3 Cert), t.creds.creds[k]? = some c →
        if k = key then c.attestation = none else s.creds.creds[k]? = some c := by
  obtain ⟨haccepts, happ⟩ := (applyDelta_eq_ok hs.settled).mp h
  have haccepted : s.accepted C parameters (bundle (anonymousCred key) ps) =
      s.admitted C parameters (bundle (anonymousCred key) ps) :=
    accepted_eq_admitted fun p hp => resolved_anonymous hs hps hheld (.inr hp)
  refine ⟨?_, fun k c hc => ?_⟩
  · rw [happ.pointers, pointersAfter, haccepted]
    refine List.filter_eq_self.mpr fun p hp => decide_eq_true (resolved_anonymous hs hps hheld ?_)
    exact List.mem_append.mp (PointersV3.mem_of_mem_canonicalize hp)
  · have hc := (happ.credAfter hc).2
    split
    · rename_i hk
      rw [hk] at hc
      rw [anonymous_of_credAfter hs hheld hc]
      rfl
    · rename_i hk
      rwa [credAfter_bundle_of_ne hk] at hc

theorem eq_upgraded {k : Bytes 32} {c : ReplierCredV3 Cert}
    (h : if k = key then c = cred else s.creds.creds[k]? = some c) :
    c = if k = key then cred else (s.creds.creds[k]?).getD cred := by
  split at h
  · exact h.trans (if_pos ‹_›).symm
  · rw [if_neg ‹_›, h, Option.getD_some]

/-- Pointers of the key in the log of the attested delta come with it, if the old ones are dropped. -/
theorem not_mem_attestedLog (hold : ∀ p ∈ s.pointers.pointers, p.ptr.replier = key →
      p.ptr.fingerprint ≠ (attestedCred key att).fingerprint C)
    (hno : ¬PointersV3.FindsPlace s.pointers.pointers.toFinset qs) {p : AuthorizedReplyPointerV3}
    (hp : p ∈ s.attestedLog C key att qs) : p.ptr.replier ≠ key := by
  intro hk
  obtain ⟨hp, hfp⟩ := Finset.mem_filter.mp hp
  rcases PointersV3.mem_of_mem_firsts (keepAll_subset _ _ hp) with hps | hq
  · exact hold p (List.mem_toFinset.mp hps) hk (hfp hk)
  · exact hno ⟨p, hq, hp⟩

section
variable {t t' : InboxStateV3 Cert} (hs : s.Valid C parameters)
  (hps : Under C (anonymousCred key) ps) (hqs : Under C (attestedCred key att) qs)
  (hC : Unambiguous C s key att)

include hps in
theorem fingerprint_of_anonymousPointers {k : AuthorizedReplyPointerV3}
    (hk : k ∈ s.anonymousPointers C parameters key ps) : k.ptr.replier = key ∧
      k.ptr.fingerprint = (anonymousCred key : ReplierCredV3 Cert).fingerprint C :=
  hps k (mem_admitted.mp hk).1

include hps hC in
theorem anonymous_not_mem_attestedLog {k : AuthorizedReplyPointerV3}
    (hk : k ∈ s.anonymousPointers C parameters key ps) : k ∉ s.attestedLog C key att qs := by
  intro hmem
  obtain ⟨hkey, hfp⟩ := fingerprint_of_anonymousPointers hps hk
  have hatt := (Finset.mem_filter.mp hmem).2 hkey
  exact fingerprint_ne hC.bs58 key att (hatt.symm.trans hfp)

variable (ht : s.applyDelta C parameters (some (bundle (anonymousCred key) ps)) = (.ok (), t))
  (hu : t.applyDelta C parameters (some (bundle (attestedCred key att) qs)) = (.ok (), u))
  (ht' : s.applyDelta C parameters (some (bundle (attestedCred key att) qs)) = (.ok (), t'))
  (hv : t'.applyDelta C parameters (some (bundle (anonymousCred key) ps)) = (.ok (), v))

/-! ### The attested delta first -/

include hs hps ht' hv in
/-- The anonymous delta finds the key forgotten. -/
theorem applyDelta_anonymous_forgotten
    (hlog : t'.pointers.pointers.toFinset = s.attestedLog C key att qs)
    (hold : ∀ p ∈ s.pointers.pointers, p.ptr.replier = key →
      p.ptr.fingerprint ≠ (attestedCred key att).fingerprint C)
    (hno : ¬PointersV3.FindsPlace s.pointers.pointers.toFinset qs) :
    v.pointers.pointers = (PointersV3.canonicalize ⟨t'.pointers.pointers ++
        s.anonymousPointers C parameters key ps⟩).pointers ∧
      ∀ (k : Bytes 32) (c : ReplierCredV3 Cert), v.creds.creds[k]? = some c →
        if k = key then c.attestation = none else t'.creds.creds[k]? = some c := by
  have hvt' := hs.applyDelta ht'
  have hnone (c : ReplierCredV3 Cert) : t'.creds.creds[key]? ≠ some c := fun hc => by
    obtain ⟨p, hp, hpk⟩ := (hvt'.mem_creds key).mp (Map.mem_iff.mpr ⟨c, hc⟩)
    exact not_mem_attestedLog hold hno (hlog ▸ List.mem_toFinset.mpr hp) hpk
  have h := applyDelta_anonymous hvt' hps (fun c hc => absurd hc (hnone c)) hv
  have hadm : t'.admitted C parameters (bundle (anonymousCred key) ps) =
      s.anonymousPointers C parameters key ps := by
    rw [anonymousPointers, admitted_bundle, admitted_bundle, hs.powDifficulty_bundle ht']
  rwa [hadm] at h

include hs hps hqs hC ht hu ht' hv in
/-- The key is attested: the anonymous delta does nothing at first, and nothing later if the key stays
attested or has no place for its pointers. -/
theorem upgrade_of_attested {c : ReplierCredV3 Cert} (hc : s.creds.creds[key]? = some c)
    (hatt : c.attestation.isSome) : u = v ↔ s.StaysAttested C parameters key att ps qs c := by
  obtain rfl := applyDelta_anonymous_noop hC.bs58 hs hps (.inr ⟨c, hc, hatt⟩) ht
  obtain rfl : u = t' := (Prod.mk.inj (hu.symm.trans ht')).2
  have hvu := hs.applyDelta hu
  by_cases hstay : c.fingerprint C = (attestedCred key att).fingerprint C ∨
      (attestedCred key att).contentHash C ≤ c.contentHash C ∨
      PointersV3.FindsPlace t.pointers.pointers.toFinset qs
  · have hagain := applyDelta_attested_again hC.bs58 hs hqs hc hatt hstay hu
    obtain rfl := applyDelta_anonymous_noop hC.bs58 hvu hps (.inr hagain) hv
    exact iff_of_true rfl (hstay.imp_right (Or.imp_right .inl))
  · simp only [not_or] at hstay
    obtain ⟨hne, hlt, hno⟩ := hstay
    have hlog : u.pointers.pointers.toFinset = t.attestedLog C key att qs :=
      applyDelta_reattested hC.bs58 hs hqs hc hlt hu
    have hold (p : AuthorizedReplyPointerV3) (hp : p ∈ t.pointers.pointers)
        (hk : p.ptr.replier = key) :
        p.ptr.fingerprint ≠ (attestedCred key att).fingerprint C := by
      rw [hs.fingerprint_of_held hp (hk ▸ hc)]
      exact hne
    obtain ⟨hvlog, hvcreds⟩ := applyDelta_anonymous_forgotten hs hps hu hv hlog hold hno
    have hlate : ∀ k ∈ t.anonymousPointers C parameters key ps, k ∉ u.pointers.pointers.toFinset :=
      fun k hk => hlog ▸ anonymous_not_mem_attestedLog hps hC hk
    rw [StaysAttested, or_iff_right hne, or_iff_right hlt, or_iff_right hno, ← hlog,
      ← PointersV3.toFinset_canonicalize_append_iff hvu.settled hlate, ← hvlog]
    refine ⟨fun h => by rw [← h], fun h => ?_⟩
    have hvv := hvu.applyDelta hv
    let credOf (k : Bytes 32) := (u.creds.creds[k]?).getD (attestedCred key att)
    have hcu (k : Bytes 32) (c' : ReplierCredV3 Cert) (hc' : u.creds.creds[k]? = some c') :
        c' = credOf k := by
      simp only [credOf, hc', Option.getD_some]
    have hcv (k : Bytes 32) (c' : ReplierCredV3 Cert) (hc' : v.creds.creds[k]? = some c') :
        c' = credOf k := by
      by_cases hk : k = key
      · subst hk
        obtain ⟨p, hp, hpk⟩ := (hvv.mem_creds k).mp (Map.mem_iff.mpr ⟨c', hc'⟩)
        rw [← List.mem_toFinset, h, hlog] at hp
        exact absurd hpk (not_mem_attestedLog hold hno hp)
      · have hcred := hvcreds k c' hc'
        rw [if_neg hk] at hcred
        exact hcu k c' hcred
    exact hvu.ext hvv hcu hcv (hvu.powDifficulty_bundle hv).symm h.symm

variable (hheld : ∀ c, s.creds.creds[key]? = some c → c.attestation = none)

include hs hC hheld in
theorem fingerprint_ne_of_anonymous {p : AuthorizedReplyPointerV3} (hp : p ∈ s.pointers.pointers)
    (hk : p.ptr.replier = key) : p.ptr.fingerprint ≠ (attestedCred key att).fingerprint C := by
  rw [fingerprint_of_anonymous hs hheld hp hk]
  exact (fingerprint_ne hC.bs58 key att).symm

include hs hqs hC hheld ht' in
/-- What the attested delta leaves of a key that is not attested. -/
theorem applyDelta_attested_first : t'.Valid C parameters ∧ t'.powDifficulty = s.powDifficulty ∧
    t'.pointers.pointers.toFinset = s.attestedLog C key att qs ∧
    (∀ x ∈ s.attestedLog C key att qs,
      x.ptr.fingerprint ≠ (anonymousCred key : ReplierCredV3 Cert).fingerprint C) ∧
    ∀ (k : Bytes 32) (c : ReplierCredV3 Cert), t'.creds.creds[k]? = some c →
      if k = key then c = attestedCred key att else s.creds.creds[k]? = some c := by
  obtain ⟨hvalid, hpow, hfilter, hcreds⟩ :=
    applyDelta_attested hC.bs58 hs hqs hheld hC.own hC.hash ht'
  have hlog : t'.pointers.pointers.toFinset = s.attestedLog C key att qs := by
    rw [hfilter, List.toFinset_filter, PointersV3.toFinset_canonicalize_append hs.settled.unique]
    refine Finset.filter_congr fun p hp => ?_
    rw [decide_eq_true_eq]
    rcases PointersV3.mem_of_mem_firsts (keepAll_subset _ _ hp) with hp | hp
    · rw [List.mem_toFinset] at hp
      by_cases hk : p.ptr.replier = key
      · have hfp := fingerprint_of_anonymous hs hheld hp hk
        exact iff_of_false (fun h => h hfp) fun h =>
          fingerprint_ne_of_anonymous hs hC hheld hp hk (h hk)
      · exact iff_of_true (fun hfp => hk (hC.own p hp hfp)) fun h => absurd h hk
    · refine iff_of_true (fun hfp => ?_) fun _ => (hqs p hp).2
      exact fingerprint_ne hC.bs58 key att ((hqs p hp).2.symm.trans hfp)
  refine ⟨hvalid, hpow, hlog, fun x hx => ?_, hcreds⟩
  rw [← hlog, List.mem_toFinset, hfilter] at hx
  exact of_decide_eq_true (List.mem_filter.mp hx).2

/-! ### The anonymous delta first -/

include hs hps hqs hC hheld ht hu in
/-- The anonymous pointers leave with the upgrade. -/
theorem applyDelta_attested_second : u.Valid C parameters ∧ u.powDifficulty = s.powDifficulty ∧
    (∀ x ∈ u.pointers.pointers.toFinset,
      x.ptr.fingerprint ≠ (anonymousCred key : ReplierCredV3 Cert).fingerprint C) ∧
    (∀ X, (∀ x ∈ X, x.ptr.fingerprint ≠ (anonymousCred key : ReplierCredV3 Cert).fingerprint C) →
      (u.pointers.pointers.toFinset = X ↔
        PointersV3.Traceless ((anonymousCred key : ReplierCredV3 Cert).fingerprint C)
          (s.anonymousLog C parameters key ps) qs X)) ∧
    ∀ (k : Bytes 32) (c : ReplierCredV3 Cert), u.creds.creds[k]? = some c →
      if k = key then c = attestedCred key att else s.creds.creds[k]? = some c := by
  obtain ⟨hlog, hcreds⟩ := applyDelta_anonymous hs hps hheld ht
  have hown : ∀ p ∈ t.pointers.pointers,
      p.ptr.fingerprint = (anonymousCred key : ReplierCredV3 Cert).fingerprint C →
        p.ptr.replier = key := by
    intro p hp hfp
    rw [hlog] at hp
    rcases List.mem_append.mp (PointersV3.mem_of_mem_canonicalize hp) with hp | hp
    · exact hC.own p hp hfp
    · exact (fingerprint_of_anonymousPointers hps hp).1
  have hheld' : ∀ c, t.creds.creds[key]? = some c → c.attestation = none := fun c hc => by
    have h := hcreds key c hc
    rwa [if_pos rfl] at h
  obtain ⟨hvalid, hpow, hfilter, hcredsu⟩ :=
    applyDelta_attested hC.bs58 (hs.applyDelta ht) hqs hheld' hown hC.hash hu
  have hvt := hs.applyDelta ht
  have hseated : t.pointers.pointers.toFinset = s.anonymousLog C parameters key ps := by
    rw [hlog, PointersV3.toFinset_canonicalize_append hs.settled.unique]
  refine ⟨hvalid, hpow.trans (hs.powDifficulty_bundle ht), fun x hx => ?_, fun X hX => ?_,
    fun k c hc => ?_⟩
  · rw [List.mem_toFinset, hfilter] at hx
    exact of_decide_eq_true (List.mem_filter.mp hx).2
  · rw [hfilter, PointersV3.toFinset_filter_canonicalize_iff hvt.settled.unique hX, hseated]
  · have hcu := hcredsu k c hc
    split at hcu
    · rwa [if_pos ‹_›]
    · rename_i hk
      rw [if_neg hk]
      have hct := hcreds k c hcu
      rwa [if_neg hk] at hct

/-! ### Both -/

include hs hps hqs hC ht hu ht' hv hheld

/-- The key is seated, and the anonymous delta comes too late. -/
theorem upgrade_of_seated (hplace : PointersV3.FindsPlace s.pointers.pointers.toFinset qs) :
    u = v ↔ PointersV3.Traceless ((anonymousCred key : ReplierCredV3 Cert).fingerprint C)
      (s.anonymousLog C parameters key ps) qs (s.attestedLog C key att qs) := by
  obtain ⟨hvu, hpow, -, hleft, hcreds⟩ := applyDelta_attested_second hs hps hqs hC ht hu hheld
  obtain ⟨hvt', hpow', hlog, hother, hcreds'⟩ := applyDelta_attested_first hs hqs hC ht' hheld
  have hattested : ∃ c, t'.creds.creds[key]? = some c ∧ c.attestation.isSome := by
    obtain ⟨q, hq, hkept⟩ := hplace
    have hqt' : q ∈ t'.pointers.pointers := by
      rw [← List.mem_toFinset, hlog]
      exact Finset.mem_filter.mpr ⟨hkept, fun _ => (hqs q hq).2⟩
    obtain ⟨c, hc, -⟩ := hvt'.resolved q hqt'
    have hk : q.ptr.replier = key := (hqs q hq).1
    rw [hk] at hc
    have hcatt := hcreds' key c hc
    rw [if_pos rfl] at hcatt
    exact ⟨c, hc, by rw [hcatt]; rfl⟩
  obtain rfl := applyDelta_anonymous_noop hC.bs58 hvt' hps (.inr hattested) hv
  rw [← hleft _ hother, ← hlog]
  refine ⟨fun h => by rw [h], fun h => ?_⟩
  exact hvu.ext hvt' (fun k c hc => eq_upgraded (hcreds k c hc))
    (fun k c hc => eq_upgraded (hcreds' k c hc)) (hpow.trans hpow'.symm) h

/-- The key is forgotten, and the anonymous delta must find no place for its pointers. -/
theorem upgrade_of_forgotten (hno : ¬PointersV3.FindsPlace s.pointers.pointers.toFinset qs) :
    u = v ↔
      PointersV3.Ignored (s.attestedLog C key att qs) (s.anonymousPointers C parameters key ps) ∧
      PointersV3.Traceless ((anonymousCred key : ReplierCredV3 Cert).fingerprint C)
        (s.anonymousLog C parameters key ps) qs
        (PointersV3.spared (s.attestedLog C key att qs)
          (s.anonymousPointers C parameters key ps)) := by
  obtain ⟨hvu, hpow, hothers, hleft, hcreds⟩ :=
    applyDelta_attested_second hs hps hqs hC ht hu hheld
  obtain ⟨hvt', hpow', hlog, hother, hcreds'⟩ := applyDelta_attested_first hs hqs hC ht' hheld
  have hold (p : AuthorizedReplyPointerV3) (hp : p ∈ s.pointers.pointers)
      (hk : p.ptr.replier = key) : p.ptr.fingerprint ≠ (attestedCred key att).fingerprint C :=
    fingerprint_ne_of_anonymous hs hC hheld hp hk
  obtain ⟨hvlog, hvcreds⟩ := applyDelta_anonymous_forgotten hs hps ht' hv hlog hold hno
  have hiff {X : Finset AuthorizedReplyPointerV3} (hX : ∀ x ∈ X,
      x.ptr.fingerprint ≠ (anonymousCred key : ReplierCredV3 Cert).fingerprint C) :
      v.pointers.pointers.toFinset = X ↔
        PointersV3.Ignored (s.attestedLog C key att qs) (s.anonymousPointers C parameters key ps) ∧
        PointersV3.spared (s.attestedLog C key att qs)
          (s.anonymousPointers C parameters key ps) = X := by
    have hlate : ∀ k ∈ s.anonymousPointers C parameters key ps, k ∉ X := fun k hk hkX =>
      hX k hkX (fingerprint_of_anonymousPointers hps hk).2
    rw [hvlog, PointersV3.toFinset_canonicalize_append_iff hvt'.settled hlate, hlog]
  have hspared : ∀ x ∈ PointersV3.spared (s.attestedLog C key att qs)
      (s.anonymousPointers C parameters key ps),
      x.ptr.fingerprint ≠ (anonymousCred key : ReplierCredV3 Cert).fingerprint C := fun x hx =>
    hother x (Finset.mem_filter.mp hx).1
  rw [← hleft _ hspared]
  constructor
  · rintro rfl
    obtain ⟨hign, he⟩ := (hiff hothers).mp rfl
    exact ⟨hign, he.symm⟩
  · rintro ⟨hign, he⟩
    have hv' := (hiff hspared).mpr ⟨hign, rfl⟩
    have hvv := hvt'.applyDelta hv
    refine hvu.ext hvv (fun k c hc => eq_upgraded (hcreds k c hc))
      (fun k c hc => eq_upgraded ?_)
      (hpow.trans (hpow'.symm.trans (hvt'.powDifficulty_bundle hv).symm)) (he.trans hv'.symm)
    by_cases hk : k = key
    · subst hk
      obtain ⟨p, hp, hpk⟩ := (hvv.mem_creds k).mp (Map.mem_iff.mpr ⟨c, hc⟩)
      rw [← List.mem_toFinset, hv'] at hp
      exact absurd hpk (not_mem_attestedLog hold hno (Finset.mem_filter.mp hp).1)
    · have h := hvcreds k c hc
      rw [if_neg hk] at h
      have h := hcreds' k c h
      rwa [if_neg hk] at h ⊢

end

end InboxStateV3

namespace Sample

open InboxStateV3

theorem bs58_not_anon (input : List U8) : isAnonFingerprint (crypto.bs58 input) = false :=
  anon_isPrefixOf_bs58 input

/-- Key 2 announces a reply post anonymously. -/
def before (post : U8) (time : U64) : List AuthorizedReplyPointerV3 :=
  [pointer (anonymousCred (bytes 32 2)) post time 0]

/-- Key 2 announces a reply post with its attestation. -/
def afterwards (post : U8) (time : U64) : List AuthorizedReplyPointerV3 :=
  [pointer (attestedCred (bytes 32 2) (attestation 2 8 1)) post time 0]

theorem exists_pointers {x : Except String (InboxStateV3 VerifyingKey)}
    (ps : List AuthorizedReplyPointerV3) (h : x.toOption.map (·.pointers.pointers) = some ps) :
    ∃ u, x = .ok u ∧ u.pointers.pointers = ps := by
  cases x with
  | error e => cases h
  | ok u => exact ⟨u, rfl, Option.some.inj h⟩

end Sample

namespace InboxStateV3

open Sample

end InboxStateV3

end Freebird
