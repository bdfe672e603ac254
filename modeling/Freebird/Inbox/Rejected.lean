import Freebird.Inbox.Invariant

/-!
# What a rejected delta leaves behind

`apply_delta` writes as it goes: the latch before the first check, then one credential after the
other, and the pointers last. A rejection leaves what was written so far, so it is free of traces
only if the failing check comes before the first write (`reject_untouched_iff`).
-/

namespace Freebird

open AuthorizedReplyPointerV3

variable {Cert : Type} {C : Crypto Cert} {parameters : InboxParametersV3}

namespace CredsV3

variable {es : List (Bytes 32 × ReplierCredV3 Cert)} {self : CredsV3 Cert} {k : Bytes 32}
  {c : ReplierCredV3 Cert}

variable (C) in
/-- The credential would replace the one held. -/
def Wins (self : CredsV3 Cert) (k : Bytes 32) (c : ReplierCredV3 Cert) : Prop :=
  ∀ h, self.creds[k]? = some h → h.contentHash C < c.contentHash C

variable (C parameters) in
/-- A credential is seated before any other one fails its check. -/
def SeatsFrom (self : CredsV3 Cert) (es : List (Bytes 32 × ReplierCredV3 Cert)) : Prop :=
  ∃ as k c bs, es = as ++ (k, c) :: bs ∧ (∀ kc ∈ as, self.Admissible C parameters kc.1 kc.2) ∧
    self.Wins C k c ∧ c.check C k parameters.ghostkeyMaster = .ok ()

theorem wins_iff : self.Wins C k c ↔
    ¬ self.creds[k]?.any (fun held => c.contentHash C ≤ held.contentHash C) = true := by
  rw [Wins, Option.any_eq_true]
  simp

theorem not_seatsFrom_nil : ¬ self.SeatsFrom C parameters [] := by
  rintro ⟨as, k, c, bs, h, -⟩
  simp at h

/-- The first credential is seated, or the rest seats one after it passed. -/
theorem seatsFrom_cons : self.SeatsFrom C parameters ((k, c) :: es) ↔
    (self.Wins C k c ∧ c.check C k parameters.ghostkeyMaster = .ok ()) ∨
      self.Admissible C parameters k c ∧ self.SeatsFrom C parameters es := by
  constructor
  · rintro ⟨as, k', c', bs, h, has, hwins⟩
    rcases as with _ | ⟨a, as⟩
    · obtain ⟨he, -⟩ := List.cons.inj h
      obtain ⟨rfl, rfl⟩ := Prod.mk.inj he
      exact .inl hwins
    · obtain ⟨rfl, rfl⟩ := List.cons.inj h
      obtain ⟨ha, has⟩ := List.forall_mem_cons.mp has
      exact .inr ⟨ha, as, k', c', bs, rfl, has, hwins⟩
  · rintro (hwins | ⟨ha, as, k', c', bs, rfl, has, hwins⟩)
    · exact ⟨[], k, c, es, rfl, by simp, hwins⟩
    · exact ⟨(k, c) :: as, k', c', bs, rfl, List.forall_mem_cons.mpr ⟨ha, has⟩, hwins⟩

/-- The loop leaves the other keys alone, also where it fails. -/
theorem applyAll_other (hk : ∀ kc ∈ es, kc.1 ≠ k) :
    (applyAll C parameters es self).2.creds[k]? = self.creds[k]? := by
  induction es generalizing self with
  | nil => rfl
  | cons kc es ih =>
    obtain ⟨hkey, hk⟩ := List.forall_mem_cons.mp hk
    rw [applyAll]
    split
    · exact ih hk
    · split
      · rfl
      · rw [ih hk, Std.ExtTreeMap.getElem?_insert, if_neg (by simpa using hkey)]

/-- The loop writes nothing exactly if it seats nothing before it fails. -/
theorem applyAll_eq_self_iff (hnd : (es.map Prod.fst).Nodup) :
    (applyAll C parameters es self).2 = self ↔ ¬ self.SeatsFrom C parameters es := by
  induction es with
  | nil => simpa [applyAll] using not_seatsFrom_nil
  | cons kc es ih =>
    obtain ⟨k, c⟩ := kc
    obtain ⟨hkey, hnd⟩ := List.nodup_cons.mp hnd
    rw [applyAll, seatsFrom_cons]
    by_cases hwins : self.Wins C k c
    · rw [if_neg (wins_iff.mp hwins)]
      cases hcheck : c.check C k parameters.ghostkeyMaster with
      | error e =>
        have hadm : ¬ self.Admissible C parameters k c := fun h => by
          have := h hwins
          rw [hcheck] at this
          cases this
        simp [hadm]
      | ok u =>
        simp only [hwins, true_and, true_or, not_true_eq_false, iff_false]
        intro heq
        -- The credential that was seated is still there, and is not the one held before.
        have hget : (applyAll C parameters es ⟨self.creds.insert k c⟩).2.creds[k]? = some c := by
          rw [applyAll_other fun kc hkc he => hkey (List.mem_map.mpr ⟨kc, hkc, he⟩),
            Std.ExtTreeMap.getElem?_insert_self]
        rw [heq] at hget
        exact lt_irrefl _ (hwins c hget)
    · have hheld := not_not.mp (mt wins_iff.mpr hwins)
      have hadm : self.Admissible C parameters k c := fun h => absurd h hwins
      rw [if_pos hheld, ih hnd]
      simp [hwins, hadm]

end CredsV3

namespace InboxStateV3

variable {s s' : InboxStateV3 Cert} {d : InboxStateV3Delta Cert} {p : AuthorizedReplyPointerV3}

variable (C parameters) in
/-- The delta fails before its credentials are looked at: it is too large, or one of its pointers is
not signed under the credential it comes with. -/
def FailsEarly (s : InboxStateV3 Cert) (d : InboxStateV3Delta Cert) : Prop :=
  maxPointers < (d.creds.getD ∅).size ∨ d.creds.isSome ∧
    ∃ p ∈ s.admitted C parameters d, ¬ SignedUnder C parameters ((d.creds.getD ∅)[·]?) p

variable (C parameters) in
/-- A credential that a pointer references wins and passes its check, and so does every other one up
to it in the order of the keys. -/
def Seats (s : InboxStateV3 Cert) (d : InboxStateV3Delta Cert) : Prop :=
  ∃ k c, s.vouched C parameters d k = some c ∧ s.creds.Wins C k c ∧
    ∀ k' c', k' ≤ k → s.vouched C parameters d k' = some c' →
      s.creds.Admissible C parameters k' c'

/-- The order of the loop is the order of the keys. -/
theorem seatsFrom_toList_iff {m : Map (Bytes 32) (ReplierCredV3 Cert)}
    (hget : ∀ k, m[k]? = s.vouched C parameters d k) :
    s.creds.SeatsFrom C parameters m.toList ↔ s.Seats C parameters d := by
  have hmem (k : Bytes 32) (c : ReplierCredV3 Cert) :
      (k, c) ∈ m.toList ↔ s.vouched C parameters d k = some c := by
    rw [Std.ExtTreeMap.mem_toList_iff_getElem?_eq_some, hget]
  have hsorted : m.toList.Pairwise fun a b => a.1 < b.1 :=
    Std.ExtTreeMap.ordered_keys_toList.imp fun h => compare_lt_iff_lt.mp h
  constructor
  · rintro ⟨as, k, c, bs, hm, has, hwins, hcheck⟩
    refine ⟨k, c, (hmem k c).mp (by simp [hm]), hwins, fun k' c' hle hk' => ?_⟩
    rw [hm, List.pairwise_append, List.pairwise_cons] at hsorted
    have hk' := (hmem k' c').mpr hk'
    rw [hm, List.mem_append, List.mem_cons] at hk'
    rcases hk' with hk' | hk' | hk'
    · exact has _ hk'
    · obtain ⟨rfl, rfl⟩ := Prod.mk.inj hk'
      exact fun _ => hcheck
    · exact absurd (hsorted.2.1.1 _ hk') (not_lt.mpr hle)
  · rintro ⟨k, c, hk, hwins, hbefore⟩
    obtain ⟨as, bs, hm⟩ := List.append_of_mem ((hmem k c).mpr hk)
    rw [hm, List.pairwise_append] at hsorted
    refine ⟨as, k, c, bs, hm, fun kc hkc => ?_, hwins, hbefore k c le_rfl hk hwins⟩
    refine hbefore kc.1 kc.2 (hsorted.2.2 kc hkc (k, c) List.mem_cons_self).le ?_
    exact (hmem kc.1 kc.2).mp (by simp [hm, hkc])

/-- The first step succeeds unless the delta fails early. -/
theorem failsEarly_iff : s.FailsEarly C parameters d ↔
    ¬ ∃ offered, s.vouchedCreds C parameters d.creds (s.admitted? C parameters d) = .ok offered := by
  rw [vouchedCreds_ok_iff, FailsEarly, not_and_or, not_le]
  simp only [Classical.not_imp, not_forall]

/-- The credentials that are left, whether or not the component fails. -/
theorem creds_eq_self_iff {offered : Option (Map (Bytes 32) (ReplierCredV3 Cert))}
    (h : s.vouchedCreds C parameters d.creds (s.admitted? C parameters d) = .ok offered) :
    (s.creds.applyDelta C parameters offered).2 = s.creds ↔ ¬ s.Seats C parameters d := by
  obtain ⟨hsize, hget⟩ := vouchedCreds_getElem? h
  rw [← seatsFrom_toList_iff hget, ← CredsV3.applyAll_eq_self_iff (Map.nodup_keys _)]
  cases offered with
  | none =>
    rw [Option.getD_none, Std.ExtTreeMap.toList_eq_nil_iff.mpr rfl]
    exact Iff.rfl
  | some m =>
    rw [Option.getD_some] at hsize ⊢
    rw [CredsV3.applyDelta, if_neg (not_lt.mpr hsize)]

end InboxStateV3

theorem PointersV3.applyDelta_error {self self' : PointersV3} {parent : InboxStateV3 Cert}
    {offered : Option (List AuthorizedReplyPointerV3)}
    (h : self.applyDelta C parent parameters offered = (.error e, self')) : self' = self := by
  cases offered with
  | none => simp [applyDelta] at h
  | some ps =>
    rw [applyDelta] at h
    split at h
    · exact (Prod.mk.inj h).2.symm
    · simp at h

namespace InboxStateV3

variable {s s' : InboxStateV3 Cert} {d : InboxStateV3Delta Cert}

/-- What a rejected delta leaves: the latch it brought and, unless it failed early, the credentials
seated so far. -/
theorem applyDelta_error (h : s.applyDelta C parameters (some d) = (.error e, s')) :
    (s.FailsEarly C parameters d ∧ s' = { s with powDifficulty := s.latchAfter C d }) ∨
      ∃ offered, s.vouchedCreds C parameters d.creds (s.admitted? C parameters d) = .ok offered ∧
        s' = ⟨(s.creds.applyDelta C parameters offered).2, s.pointers, s.latchAfter C d⟩ := by
  simp only [applyDelta] at h
  split at h
  · rename_i e' hearly
    refine .inl ⟨failsEarly_iff.mpr ?_, (Prod.mk.inj h).2.symm⟩
    rintro ⟨offered, hoffered⟩
    exact absurd (hearly.symm.trans hoffered) (by simp)
  · rename_i offered hoffered
    refine .inr ⟨offered, hoffered, ?_⟩
    split at h
    · rename_i creds hcreds
      rw [show s.creds.applyDelta C parameters offered = _ from hcreds]
      exact (Prod.mk.inj h).2.symm
    · rename_i creds hcreds
      rw [show s.creds.applyDelta C parameters offered = _ from hcreds]
      split at h
      · rename_i pointers hpointers
        obtain rfl := PointersV3.applyDelta_error hpointers
        exact (Prod.mk.inj h).2.symm
      · simp at h

/-- A rejected delta leaves the state as it was exactly if nothing was written before it failed. -/
theorem eq_self_of_error_iff (h : s.applyDelta C parameters (some d) = (.error e, s')) :
    s' = s ↔ s.latchAfter C d = s.powDifficulty ∧
      (s.FailsEarly C parameters d ∨ ¬ s.Seats C parameters d) := by
  have hparts (creds : CredsV3 Cert) : (⟨creds, s.pointers, s.latchAfter C d⟩ : InboxStateV3 Cert) =
      s ↔ s.latchAfter C d = s.powDifficulty ∧ creds = s.creds := by
    constructor
    · intro h
      exact ⟨congrArg powDifficulty h, congrArg InboxStateV3.creds h⟩
    · rintro ⟨hlatch, rfl⟩
      exact ext_parts rfl rfl hlatch
  rcases applyDelta_error h with ⟨hearly, rfl⟩ | ⟨offered, hoffered, rfl⟩
  · exact (hparts s.creds).trans (and_congr_right fun _ => iff_of_true rfl (.inl hearly))
  · rw [hparts, creds_eq_self_iff hoffered]
    have hearly : ¬ s.FailsEarly C parameters d := fun h => failsEarly_iff.mp h ⟨offered, hoffered⟩
    rw [or_iff_right hearly]

/-- **When a rejected delta leaves no trace.** -/
theorem reject_untouched_iff (hs : s.verify C parameters = .ok ()) :
    (∀ e s', s.applyDelta C parameters (some d) = (.error e, s') → s' = s) ↔
      s.Accepts C parameters d ∨ s.latchAfter C d = s.powDifficulty ∧
        (s.FailsEarly C parameters d ∨ ¬ s.Seats C parameters d) := by
  have hsettled := (verify_iff.mp hs).settled
  constructor
  · intro h
    rcases happly : s.applyDelta C parameters (some d) with ⟨e | ⟨⟩, s'⟩
    · exact .inr ((eq_self_of_error_iff happly).mp (h e s' happly))
    · exact .inl ((applyDelta_eq_ok hsettled).mp happly).1
  · rintro (ha | hclean) e s' h
    · obtain ⟨t, ht, -⟩ := ha.applyDelta hsettled
      simp [ht] at h
    · exact (eq_self_of_error_iff h).mpr hclean

end InboxStateV3

namespace Sample

/-- A pointer of the replier of `seated` that nobody signed. -/
def unsigned : AuthorizedReplyPointerV3 :=
  { pointer (attested 1 7 1) 5 20 0 with signature := sign 0 0 }

def unsignedDelta : InboxStateV3Delta VerifyingKey := ⟨none, some [unsigned], none⟩

/-- A credential with a pointer of its own, next to a pointer of another replier that nobody
signed. -/
def halfBad : InboxStateV3Delta VerifyingKey :=
  inboxDelta [anonymous 2] [pointer (anonymous 2) 4 5 0, unsigned]

end Sample

namespace InboxStateV3

open Sample

theorem reject_untouched_iff_unsigned :
    (∀ e s', seated.applyDelta crypto inbox (some unsignedDelta) = (.error e, s') → s' = seated) ↔
      seated.Accepts crypto inbox unsignedDelta ∨
        seated.latchAfter crypto unsignedDelta = seated.powDifficulty ∧
          (seated.FailsEarly crypto inbox unsignedDelta ∨
            ¬ seated.Seats crypto inbox unsignedDelta) :=
  reject_untouched_iff (by decide +kernel)

/-- The delta is rejected for the unsigned pointer, and its credential stays, without a pointer that
references it. -/
theorem rejected_cred_stays : seated.verify crypto inbox = .ok () ∧
    (∃ e, (seated.applyDelta crypto inbox (some halfBad)).1 = .error e) ∧
    (seated.applyDelta crypto inbox (some halfBad)).2 ≠ seated ∧
    (seated.applyDelta crypto inbox (some halfBad)).2.verify crypto inbox ≠ .ok () :=
  ⟨by decide +kernel, ⟨"pointer signature invalid: bad signature", by decide +kernel⟩,
    by decide +kernel, by decide +kernel⟩

end InboxStateV3

end Freebird
