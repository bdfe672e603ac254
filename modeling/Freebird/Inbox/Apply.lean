import Freebird.Inbox.Verify

/-!
# What `apply_delta` does

A successful `apply_delta` is determined by three things it works out from the state and the delta:
the pointers that pass the proof-of-work bar (`admitted`), the credentials that win under
last-writer-wins (`credAfter`), and the admitted pointers those credentials resolve (`accepted`).
`Accepts` says when it succeeds, `Applied` what it then leaves (`applyDelta_eq_ok`).
-/

namespace Freebird

open Retention AuthorizedReplyPointerV3

variable {Cert : Type} {C : Crypto Cert} {parameters : InboxParametersV3}

/-! ## Last-writer-wins -/

variable (C) in
/-- The credential of a key that is held after another one was offered. -/
def newerCred (held offered : Option (ReplierCredV3 Cert)) : Option (ReplierCredV3 Cert) :=
  match offered with
  | none => held
  | some c => if held.any fun h => c.contentHash C ≤ h.contentHash C then held else some c

@[simp] theorem newerCred_none (held : Option (ReplierCredV3 Cert)) : newerCred C held none = held :=
  rfl

theorem newerCred_eq_or (held offered : Option (ReplierCredV3 Cert)) :
    newerCred C held offered = held ∨ newerCred C held offered = offered := by
  cases offered with
  | none => exact .inl rfl
  | some c =>
    rw [newerCred]
    split
    · exact .inl rfl
    · exact .inr rfl

theorem newerCred_isSome {held offered : Option (ReplierCredV3 Cert)}
    (h : held.isSome ∨ offered.isSome) : (newerCred C held offered).isSome := by
  cases offered with
  | none => simpa using h
  | some c =>
    rw [newerCred]
    split
    · rename_i hany
      obtain ⟨c', hc', -⟩ := (Option.any_eq_true _ _).mp hany
      simp [hc']
    · rfl

namespace CredsV3

variable {es : List (Bytes 32 × ReplierCredV3 Cert)} {self : CredsV3 Cert}

variable (C parameters) in
/-- An offered credential that would replace the one held is in order. -/
def Admissible (self : CredsV3 Cert) (k : Bytes 32) (c : ReplierCredV3 Cert) : Prop :=
  (∀ h, self.creds[k]? = some h → h.contentHash C < c.contentHash C) →
    c.check C k parameters.ghostkeyMaster = .ok ()

variable (C parameters self) in
theorem applyAll_spec (hnd : (es.map Prod.fst).Nodup) :
    ((applyAll C parameters es self).1 = .ok () ↔
      ∀ kc ∈ es, self.Admissible C parameters kc.1 kc.2) ∧
    ((applyAll C parameters es self).1 = .ok () → ∀ k,
      (applyAll C parameters es self).2.creds[k]? =
        newerCred C self.creds[k]? (es.lookup k)) := by
  induction es generalizing self with
  | nil => simp [applyAll]
  | cons kc es ih =>
    obtain ⟨key, cred⟩ := kc
    obtain ⟨hkey, hnd⟩ := List.nodup_cons.mp hnd
    have hlookup : es.lookup key = none :=
      List.lookup_eq_none_iff.mpr fun kc hkc => by
        simpa using fun he : key = kc.1 => hkey (List.mem_map.mpr ⟨kc, hkc, he.symm⟩)
    have hcons (k : Bytes 32) : ((key, cred) :: es).lookup k =
        if k = key then some cred else es.lookup k := by
      by_cases h : k = key
      · rw [h, List.lookup_cons_self, if_pos rfl]
      · rw [List.lookup_cons, beq_false_of_ne h, if_neg h]
    simp only [applyAll, List.forall_mem_cons, hcons]
    by_cases hold : self.creds[key]?.any fun held => cred.contentHash C ≤ held.contentHash C
    · -- The credential held wins.
      obtain ⟨held, hheld, hle⟩ := (Option.any_eq_true _ _).mp hold
      have hadm : self.Admissible C parameters key cred := fun h =>
        absurd (h held hheld) (not_lt.mpr (of_decide_eq_true hle))
      simp only [hold, if_true, hadm, true_and]
      refine ⟨(ih self hnd).1, fun hok k => ?_⟩
      rw [(ih self hnd).2 hok]
      by_cases hk : k = key
      · subst hk
        rw [hlookup, if_pos rfl, newerCred_none, newerCred, if_pos hold]
      · rw [if_neg hk]
    · have hadm : self.Admissible C parameters key cred ↔
          cred.check C key parameters.ghostkeyMaster = .ok () := by
        refine ⟨fun h => h fun held hheld => ?_, fun h _ => h⟩
        simpa [hheld] using hold
      simp only [hold, Bool.false_eq_true, if_false, hadm]
      cases hcheck : cred.check C key parameters.ghostkeyMaster with
      | error e => simp
      | ok u =>
        simp only [true_and]
        obtain ⟨hiff, hget⟩ := ih ⟨self.creds.insert key cred⟩ hnd
        have hother (k : Bytes 32) (hk : k ≠ key) :
            (self.creds.insert key cred)[k]? = self.creds[k]? := by
          rw [Std.ExtTreeMap.getElem?_insert, if_neg (by simpa using hk.symm)]
        refine ⟨hiff.trans (forall₂_congr fun kc hkc => ?_), fun hok k => ?_⟩
        · have hne : kc.1 ≠ key := fun he => hkey (List.mem_map.mpr ⟨kc, hkc, he⟩)
          simp only [Admissible, hother _ hne]
        · rw [hget hok]
          by_cases hk : k = key
          · subst hk
            simp [hlookup, newerCred, hold]
          · rw [if_neg hk, hother k hk]

end CredsV3

/-! ## The pointers of a delta -/

variable (C parameters) in
/-- The pointer is bound to this inbox, and signed if its replier has a credential. -/
def SignedUnder (creds : Bytes 32 → Option (ReplierCredV3 Cert)) (p : AuthorizedReplyPointerV3) :
    Prop :=
  p.ptr.owner = parameters.owner.asBytes ∧
    ∀ cred, creds p.ptr.replier = some cred → p.verifySignature C cred.postingKey = .ok ()

theorem signedUnder_congr {f g : Bytes 32 → Option (ReplierCredV3 Cert)}
    {p : AuthorizedReplyPointerV3} (h : f p.ptr.replier = g p.ptr.replier) :
    SignedUnder C parameters f p ↔ SignedUnder C parameters g p := by
  rw [SignedUnder, SignedUnder, h]

theorem accept_eq_ok {creds : Map (Bytes 32) (ReplierCredV3 Cert)}
    {ps acc : List AuthorizedReplyPointerV3} :
    PointersV3.accept C creds parameters ps = .ok acc ↔
      (∀ p ∈ ps, SignedUnder C parameters (creds[·]?) p) ∧
        acc = ps.filter fun p => p.Resolved C (creds[·]?) := by
  induction ps generalizing acc with
  | nil => simp [PointersV3.accept, eq_comm]
  | cons p ps ih =>
    simp only [PointersV3.accept, bind_eq_ok, checkPointer_eq_ok, ih, pure_eq_ok, Except.ok.injEq,
      List.forall_mem_cons, List.filter_cons]
    constructor
    · rintro ⟨_, ⟨hp, rfl⟩, _, ⟨hps, rfl⟩, rfl⟩
      exact ⟨⟨hp, hps⟩, rfl⟩
    · rintro ⟨⟨hp, hps⟩, rfl⟩
      exact ⟨_, ⟨hp, rfl⟩, _, ⟨hps, rfl⟩, rfl⟩

theorem staples_eq_ok {creds : Map (Bytes 32) (ReplierCredV3 Cert)}
    {ps : List AuthorizedReplyPointerV3} {ks : List (Bytes 32)} :
    InboxStateV3.staples C parameters creds ps = .ok ks ↔
      (∀ p ∈ ps, SignedUnder C parameters (creds[·]?) p) ∧
        ks = (ps.filter fun p => p.ptr.replier ∈ creds).map (·.ptr.replier) := by
  induction ps generalizing ks with
  | nil => simp [InboxStateV3.staples, eq_comm]
  | cons p ps ih =>
    simp only [InboxStateV3.staples, throw_bind, guard_eq_ok, not_not, List.forall_mem_cons,
      SignedUnder, and_assoc]
    refine and_congr_right fun _ => ?_
    cases hc : creds[p.ptr.replier]? with
    | none =>
      have hp : p.ptr.replier ∉ creds := fun h => by simp [Map.mem_iff, hc] at h
      simp [hp, ih, SignedUnder]
    | some cred =>
      have hp : p.ptr.replier ∈ creds := Map.mem_iff.mpr ⟨cred, hc⟩
      simp only [seq_eq_ok]
      simp only [bind_eq_ok, ih, pure_eq_ok, Except.ok.injEq, SignedUnder]
      constructor
      · rintro ⟨hs, _, ⟨hps, rfl⟩, rfl⟩
        exact ⟨by simpa using hs, hps, by simp [hp]⟩
      · rintro ⟨hs, hps, rfl⟩
        exact ⟨hs cred rfl, _, ⟨hps, rfl⟩, by simp [hp]⟩

/-! ## A delta read against a state -/

namespace InboxStateV3

section
variable (C parameters) (s : InboxStateV3 Cert) (d : InboxStateV3Delta Cert)

/-- The latch after the delta, under which its pointers are admitted. -/
def latchAfter : Option SignedCellV1 := adoptDifficulty C s.powDifficulty d.powDifficulty

/-- The pointers of the delta that clear the bar. -/
def admitted? : Option (List AuthorizedReplyPointerV3) :=
  d.pointers.map
    (·.filter (admits C parameters.owner.asBytes (difficultyBits C (s.latchAfter C d))))

@[inherit_doc admitted?]
def admitted : List AuthorizedReplyPointerV3 := (s.admitted? C parameters d).getD []

/-- The credential the delta offers for a key, if a pointer references the key. -/
def vouched (k : Bytes 32) : Option (ReplierCredV3 Cert) :=
  if ∃ p ∈ s.admitted C parameters d ++ s.pointers.pointers, p.ptr.replier = k then
    (d.creds.getD ∅)[k]?
  else none

/-- The credential of a key under which the pointers are resolved. -/
def credAfter (k : Bytes 32) : Option (ReplierCredV3 Cert) :=
  newerCred C s.creds.creds[k]? (s.vouched C parameters d k)

/-- The pointers of the delta that are appended to the log. -/
def accepted : List AuthorizedReplyPointerV3 :=
  (s.admitted C parameters d).filter fun p => p.Resolved C (s.credAfter C parameters d)

/-- The deltas `apply_delta` does not reject. -/
structure Accepts : Prop where
  size : (d.creds.getD ∅).size ≤ maxPointers
  stapled : ∀ p ∈ s.admitted C parameters d, SignedUnder C parameters ((d.creds.getD ∅)[·]?) p
  checked : ∀ (k : Bytes 32) (c : ReplierCredV3 Cert), s.vouched C parameters d k = some c →
    s.creds.Admissible C parameters k c
  signed : ∀ p ∈ s.admitted C parameters d, SignedUnder C parameters (s.credAfter C parameters d) p

/-- The log after the delta. -/
def pointersAfter : List AuthorizedReplyPointerV3 :=
  (PointersV3.canonicalize ⟨s.pointers.pointers ++ s.accepted C parameters d⟩).pointers.filter
    fun p => p.Resolved C (s.credAfter C parameters d)

/-- The state a delta leaves. -/
structure Applied (s' : InboxStateV3 Cert) : Prop where
  latch : s'.powDifficulty = s.latchAfter C d
  pointers : s'.pointers.pointers = s.pointersAfter C parameters d
  creds : ∀ k, s'.creds.creds[k]? =
    if ∃ p ∈ s.pointersAfter C parameters d, p.ptr.replier = k then s.credAfter C parameters d k
    else none

end

variable {s s' : InboxStateV3 Cert} {d : InboxStateV3Delta Cert}

theorem ext_parts {t : InboxStateV3 Cert} (hcreds : s.creds.creds = t.creds.creds)
    (hpointers : s.pointers.pointers = t.pointers.pointers)
    (hlatch : s.powDifficulty = t.powDifficulty) : s = t := by
  obtain ⟨⟨c⟩, ⟨ps⟩, l⟩ := s
  obtain ⟨⟨c'⟩, ⟨ps'⟩, l'⟩ := t
  obtain rfl : c = c' := hcreds
  obtain rfl : ps = ps' := hpointers
  obtain rfl : l = l' := hlatch
  rfl

theorem Applied.unique {t : InboxStateV3 Cert} (h : s.Applied C parameters d s')
    (h' : s.Applied C parameters d t) : s' = t :=
  ext_parts (Std.ExtTreeMap.ext_getElem? fun k => (h.creds k).trans (h'.creds k).symm)
    (h.pointers.trans h'.pointers.symm) (h.latch.trans h'.latch.symm)

@[simp] theorem getD_admitted? :
    (s.admitted? C parameters d).getD [] = s.admitted C parameters d := rfl

theorem mem_admitted {p : AuthorizedReplyPointerV3} : p ∈ s.admitted C parameters d ↔
    p ∈ d.pointers.getD [] ∧
      admits C parameters.owner.asBytes (difficultyBits C (s.latchAfter C d)) p = true := by
  rw [admitted, admitted?]
  cases d.pointers <;> simp

theorem vouched_eq_some {k : Bytes 32} {c : ReplierCredV3 Cert} :
    s.vouched C parameters d k = some c ↔
      (∃ p ∈ s.admitted C parameters d ++ s.pointers.pointers, p.ptr.replier = k) ∧
        (d.creds.getD ∅)[k]? = some c := by
  rw [vouched, Option.ite_none_right_eq_some]

/-- An admitted pointer vouches for the credential of its key. -/
theorem vouched_of_admitted {p : AuthorizedReplyPointerV3} (hp : p ∈ s.admitted C parameters d) :
    s.vouched C parameters d p.ptr.replier = (d.creds.getD ∅)[p.ptr.replier]? :=
  if_pos ⟨p, List.mem_append_left _ hp, rfl⟩

/-- A credential afterwards was held before, or comes with the delta. -/
theorem credAfter_cases {k : Bytes 32} {c : ReplierCredV3 Cert}
    (h : s.credAfter C parameters d k = some c) :
    s.creds.creds[k]? = some c ∨ s.vouched C parameters d k = some c :=
  (newerCred_eq_or s.creds.creds[k]? (s.vouched C parameters d k)).imp
    (fun he => he.symm.trans h) (fun he => he.symm.trans h)

theorem credAfter_isSome {k : Bytes 32}
    (h : (s.creds.creds[k]?).isSome ∨ (s.vouched C parameters d k).isSome) :
    (s.credAfter C parameters d k).isSome := newerCred_isSome h

/-- The steps of a successful `apply_delta`. -/
theorem applyDelta_steps : s.applyDelta C parameters (some d) = (.ok (), s') ↔
    ∃ offered creds pointers,
      s.vouchedCreds C parameters d.creds (s.admitted? C parameters d) = .ok offered ∧
      s.creds.applyDelta C parameters offered = (.ok (), creds) ∧
      s.pointers.applyDelta C ⟨creds, s.pointers, s.latchAfter C d⟩ parameters
        (s.admitted? C parameters d) = (.ok (), pointers) ∧
      postApplyCleanup C ⟨creds, pointers, s.latchAfter C d⟩ = s' := by
  constructor
  · intro h
    simp only [applyDelta] at h
    split at h
    · simp at h
    · rename_i offered hoffered
      split at h
      · simp at h
      · rename_i creds hcreds
        split at h
        · simp at h
        · rename_i pointers hpointers
          exact ⟨offered, creds, pointers, hoffered, hcreds, hpointers, (Prod.mk.inj h).2⟩
  · rintro ⟨offered, creds, pointers, hoffered, hcreds, hpointers, rfl⟩
    have hoffered' : ({ s with powDifficulty := s.latchAfter C d }).vouchedCreds C parameters
      d.creds (s.admitted? C parameters d) = .ok offered := hoffered
    simp only [latchAfter, admitted?] at hoffered' hpointers
    simp only [applyDelta, hoffered', hcreds, hpointers, latchAfter]

/-- The first step succeeds on a delta of bounded size with signed pointers. -/
theorem vouchedCreds_ok_iff :
    (∃ offered, s.vouchedCreds C parameters d.creds (s.admitted? C parameters d) = .ok offered) ↔
      (d.creds.getD ∅).size ≤ maxPointers ∧ (d.creds.isSome → ∀ p ∈ s.admitted C parameters d,
        SignedUnder C parameters ((d.creds.getD ∅)[·]?) p) := by
  cases hd : d.creds with
  | none => simp [vouchedCreds]
  | some c =>
    simp only [vouchedCreds, throw_bind, guard_eq_ok, not_lt, bind_eq_ok, staples_eq_ok, getD_admitted?,
      Option.getD_some, Option.isSome_some, forall_const]
    constructor
    · rintro ⟨_, hsize, _, ⟨hp, -⟩, -⟩
      exact ⟨hsize, hp⟩
    · rintro ⟨hsize, hp⟩
      exact ⟨_, hsize, _, ⟨hp, rfl⟩, rfl⟩

theorem vouchedCreds_getElem? {offered : Option (Map (Bytes 32) (ReplierCredV3 Cert))}
    (h : s.vouchedCreds C parameters d.creds (s.admitted? C parameters d) = .ok offered) :
    (offered.getD ∅).size ≤ maxPointers ∧
      ∀ k, (offered.getD ∅)[k]? = s.vouched C parameters d k := by
  cases hd : d.creds with
  | none =>
    rw [hd] at h
    obtain rfl : none = offered := Except.ok.inj h
    simp [vouched, hd]
  | some creds =>
    rw [hd] at h
    simp only [vouchedCreds, throw_bind, guard_eq_ok, not_lt, bind_eq_ok, staples_eq_ok, getD_admitted?,
      pure_eq_ok, Except.ok.injEq] at h
    obtain ⟨hsize, _, ⟨-, rfl⟩, rfl⟩ := h
    rw [Map.getD_unless_empty]
    refine ⟨Std.ExtTreeMap.size_filter_le_size.trans hsize, fun k => ?_⟩
    rw [Std.ExtTreeMap.getElem?_filter', vouched, hd, Option.getD_some]
    cases hk : creds[k]? with
    | none => simp
    | some cred =>
      have hmem : k ∈ creds := Map.mem_iff.mpr ⟨cred, hk⟩
      rw [Option.filter_some]
      refine if_congr ?_ rfl rfl
      simp only [decide_eq_true_eq, List.mem_map, List.mem_filter, List.any_eq_true,
        List.mem_append, or_and_right, exists_or]
      refine or_congr_left (exists_congr fun p => ⟨fun h => ⟨h.1.1, h.2⟩, fun h => ?_⟩)
      exact ⟨⟨h.1, h.2 ▸ hmem⟩, h.2⟩

end InboxStateV3

/-- What the credential component does with the credentials it is offered. -/
theorem CredsV3.applyDelta_spec (C : Crypto Cert) (parameters : InboxParametersV3)
    (self : CredsV3 Cert)
    {offered : Option (Map (Bytes 32) (ReplierCredV3 Cert))}
    (hsize : (offered.getD ∅).size ≤ maxPointers) :
    ((self.applyDelta C parameters offered).1 = .ok () ↔
      ∀ (k : Bytes 32) (c : ReplierCredV3 Cert), (offered.getD ∅)[k]? = some c →
        self.Admissible C parameters k c) ∧
    ((self.applyDelta C parameters offered).1 = .ok () → ∀ k : Bytes 32,
      (self.applyDelta C parameters offered).2.creds[k]? =
        newerCred C self.creds[k]? (offered.getD ∅)[k]?) := by
  cases offered with
  | none => simp [CredsV3.applyDelta]
  | some m =>
    rw [Option.getD_some] at hsize ⊢
    rw [CredsV3.applyDelta, if_neg (not_lt.mpr hsize)]
    obtain ⟨hiff, hget⟩ := applyAll_spec C parameters self (Map.nodup_keys m)
    refine ⟨hiff.trans ?_, fun hok k => (hget hok k).trans (by rw [Map.toList_lookup])⟩
    simp [Prod.forall, Std.ExtTreeMap.mem_toList_iff_getElem?_eq_some]

/-- What the pointer component does with the pointers it is offered. -/
theorem PointersV3.applyDelta_eq_ok {self self' : PointersV3} (hs : Settled self.pointers)
    {parent : InboxStateV3 Cert} {offered : Option (List AuthorizedReplyPointerV3)} :
    self.applyDelta C parent parameters offered = (.ok (), self') ↔
      (∀ p ∈ offered.getD [], SignedUnder C parameters (parent.creds.creds[·]?) p) ∧
      self' = canonicalize ⟨self.pointers ++
        (offered.getD []).filter fun p => p.Resolved C (parent.creds.creds[·]?)⟩ := by
  cases offered with
  | none => simpa [PointersV3.applyDelta, hs.canonicalize_eq] using eq_comm
  | some ps =>
    rw [PointersV3.applyDelta, Option.getD_some]
    cases h : accept C parent.creds.creds parameters ps with
    | error e =>
      simp only [Prod.mk.injEq, reduceCtorEq, false_and, false_iff, not_and]
      intro hps
      have := accept_eq_ok.mpr ⟨hps, rfl⟩
      simp [h] at this
    | ok acc =>
      obtain ⟨hps, rfl⟩ := accept_eq_ok.mp h
      simp only [Prod.mk.injEq, true_and]
      exact ⟨fun h => ⟨hps, h.symm⟩, fun h => h.2.symm⟩

namespace InboxStateV3

variable {s s' : InboxStateV3 Cert} {d : InboxStateV3Delta Cert}

/-- The cleanup of a log in canonical form only drops what is not resolved, or not referenced. -/
theorem postApplyCleanup_pointers (h : PointersV3.Settled s.pointers.pointers) :
    (s.postApplyCleanup C).pointers.pointers =
      s.pointers.pointers.filter fun p => p.Resolved C (s.creds.creds[·]?) := by
  have hmatching : (s.pointers.pointers.filter fun p =>
      s.creds.creds[p.ptr.replier]?.any fun c => c.fingerprint C = p.ptr.fingerprint) =
      s.pointers.pointers.filter fun p => p.Resolved C (s.creds.creds[·]?) :=
    List.filter_congr fun p _ => by
      rw [Bool.eq_iff_iff, Option.any_eq_true, decide_eq_true_eq, Resolved]
      simp [eq_comm]
  rw [postApplyCleanup, hmatching, (h.sublist List.filter_sublist).canonicalize_eq]

theorem postApplyCleanup_creds (k : Bytes 32) :
    (s.postApplyCleanup C).creds.creds[k]? =
      if ∃ p ∈ (s.postApplyCleanup C).pointers.pointers, p.ptr.replier = k then s.creds.creds[k]?
      else none := by
  have hcreds : (s.postApplyCleanup C).creds.creds = s.creds.creds.filter fun k _ =>
    k ∈ (s.postApplyCleanup C).pointers.pointers.map (·.ptr.replier) := rfl
  rw [hcreds, Std.ExtTreeMap.getElem?_filter']
  cases s.creds.creds[k]? with
  | none => rw [Option.filter_none, ite_self]
  | some cred =>
    rw [Option.filter_some]
    exact if_congr (by simp) rfl rfl

theorem credAfter_of_steps {offered : Option (Map (Bytes 32) (ReplierCredV3 Cert))}
    {creds : CredsV3 Cert}
    (hoffered : s.vouchedCreds C parameters d.creds (s.admitted? C parameters d) = .ok offered)
    (hcreds : s.creds.applyDelta C parameters offered = (.ok (), creds)) :
    (creds.creds[·]?) = s.credAfter C parameters d := by
  obtain ⟨hsize, hget⟩ := vouchedCreds_getElem? hoffered
  have h := (CredsV3.applyDelta_spec C parameters s.creds hsize).2
  rw [hcreds] at h
  funext k
  rw [h rfl k, hget, credAfter]

/-- The cleanup reads the credentials of the pointers in the log only. -/
theorem applied_cleanup {creds : CredsV3 Cert}
    (hlook : ∀ p, p ∈ s.pointers.pointers ∨ p ∈ s.accepted C parameters d →
      creds.creds[p.ptr.replier]? = s.credAfter C parameters d p.ptr.replier) :
    s.Applied C parameters d (postApplyCleanup C ⟨creds, PointersV3.canonicalize
      ⟨s.pointers.pointers ++ s.accepted C parameters d⟩, s.latchAfter C d⟩) := by
  have hmem {p} (hp : p ∈ (PointersV3.canonicalize
      ⟨s.pointers.pointers ++ s.accepted C parameters d⟩).pointers) :
      creds.creds[p.ptr.replier]? = s.credAfter C parameters d p.ptr.replier :=
    hlook p (List.mem_append.mp (PointersV3.mem_of_mem_canonicalize hp))
  have hps := postApplyCleanup_pointers (C := C) (s := ⟨creds, PointersV3.canonicalize
    ⟨s.pointers.pointers ++ s.accepted C parameters d⟩, s.latchAfter C d⟩)
    (PointersV3.settled_canonicalize _)
  have hresolved : (PointersV3.canonicalize
      ⟨s.pointers.pointers ++ s.accepted C parameters d⟩).pointers.filter
        (fun p => p.Resolved C (creds.creds[·]?)) = s.pointersAfter C parameters d :=
    List.filter_congr fun p hp => decide_eq_decide.mpr (resolved_congr (hmem hp))
  replace hps := hps.trans hresolved
  refine ⟨rfl, hps, fun k => ?_⟩
  rw [postApplyCleanup_creds, hps]
  refine ite_congr rfl (fun hk => ?_) fun _ => rfl
  obtain ⟨p, hp, rfl⟩ := hk
  exact hmem (List.mem_filter.mp hp).1

/-- An accepted delta is applied. -/
theorem Accepts.applyDelta (ha : s.Accepts C parameters d)
    (hs : PointersV3.Settled s.pointers.pointers) :
    ∃ s', s.applyDelta C parameters (some d) = (.ok (), s') ∧ s.Applied C parameters d s' := by
  obtain ⟨offered, hoffered⟩ := vouchedCreds_ok_iff.mpr ⟨ha.size, fun _ => ha.stapled⟩
  obtain ⟨hsize, hget⟩ := vouchedCreds_getElem? hoffered
  have hspec := CredsV3.applyDelta_spec C parameters s.creds hsize
  have hok := hspec.1.mpr fun k c hk => ha.checked k c ((hget k).symm.trans hk)
  obtain ⟨creds, hcreds⟩ : ∃ creds, s.creds.applyDelta C parameters offered = (.ok (), creds) :=
    ⟨_, Prod.ext hok rfl⟩
  have hlook := credAfter_of_steps hoffered hcreds
  refine ⟨_, applyDelta_steps.mpr ⟨offered, creds, _, hoffered, hcreds, ?_, rfl⟩,
    applied_cleanup fun p _ => congrFun hlook _⟩
  refine (PointersV3.applyDelta_eq_ok hs).mpr ⟨fun p hp => ?_, ?_⟩
  · exact congrArg (SignedUnder C parameters · p) hlook ▸ ha.signed p hp
  · simp only [hlook, getD_admitted?, accepted]

/-- **`apply_delta`, exactly**: it succeeds on the deltas `Accepts` describes, and leaves what
`Applied` describes. -/
theorem applyDelta_eq_ok (hs : PointersV3.Settled s.pointers.pointers) :
    s.applyDelta C parameters (some d) = (.ok (), s') ↔
      s.Accepts C parameters d ∧ s.Applied C parameters d s' := by
  constructor
  · intro h
    obtain ⟨offered, creds, pointers, hoffered, hcreds, hpointers, rfl⟩ := applyDelta_steps.mp h
    have hlook := credAfter_of_steps hoffered hcreds
    obtain ⟨hsigned, rfl⟩ := (PointersV3.applyDelta_eq_ok hs).mp hpointers
    simp only [hlook, getD_admitted?] at hsigned ⊢
    obtain ⟨hsize, hstapled⟩ := vouchedCreds_ok_iff.mp ⟨offered, hoffered⟩
    refine ⟨⟨hsize, fun p hp => ?_, fun k c hk => ?_, hsigned⟩,
      applied_cleanup fun p _ => congrFun hlook _⟩
    · cases hd : d.creds with
      | none => exact ⟨(hsigned p hp).1, fun cred hcred => by simp at hcred⟩
      | some creds => simpa [hd] using hstapled (by simp [hd]) p hp
    · obtain ⟨hsize', hget⟩ := vouchedCreds_getElem? hoffered
      have hadm := (CredsV3.applyDelta_spec C parameters s.creds hsize').1
      rw [hcreds] at hadm
      exact hadm.mp rfl k c ((hget k).trans hk)
  · rintro ⟨ha, happlied⟩
    obtain ⟨t, ht, happlied'⟩ := ha.applyDelta hs
    exact happlied.unique happlied' ▸ ht

end InboxStateV3

end Freebird
