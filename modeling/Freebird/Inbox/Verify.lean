import Freebird.Inbox.Canonical

/-!
# What `verify` accepts

`verify` runs over credentials and pointers in loops of its own; `Valid` collects what they check
(`verify_iff`). Because a credential is stored under its posting key, a pointer's signature is
checked under the replier it names, whichever credential is held (`Genuine`).
-/

namespace Freebird

open Retention

variable {Cert : Type} {C : Crypto Cert}

/-- Every credential is stored under its posting key. -/
def Keyed (creds : Map (Bytes 32) (ReplierCredV3 Cert)) : Prop :=
  ∀ (k : Bytes 32) (c : ReplierCredV3 Cert), creds[k]? = some c → c.postingKey = ⟨k⟩

theorem ReplierCredV3.check_key {cred : ReplierCredV3 Cert} (h : cred.check C k master = .ok ()) :
    cred.postingKey = ⟨k⟩ := by
  simp only [check, throw_bind, guard_eq_ok, not_not] at h
  exact congrArg VerifyingKey.mk h.1

/-! ## Pointers -/

namespace AuthorizedReplyPointerV3

variable (C)

/-- The checks of a pointer that no credential takes part in. -/
structure Genuine (parameters : InboxParametersV3) (p : AuthorizedReplyPointerV3) : Prop where
  owned : p.ptr.owner = parameters.owner.asBytes
  signed : p.verifySignature C ⟨p.ptr.replier⟩ = .ok ()
  floor : p.isAnon = true →
    meetsInbox C parameters.owner.asBytes p.ptr.replier p.powNonce powFloorBits = true

/-- The replier's credential carries the pointer's fingerprint. -/
def Resolved (creds : Bytes 32 → Option (ReplierCredV3 Cert)) (p : AuthorizedReplyPointerV3) :
    Prop := ∃ cred, creds p.ptr.replier = some cred ∧ p.ptr.fingerprint = cred.fingerprint C

instance (creds : Bytes 32 → Option (ReplierCredV3 Cert)) (p : AuthorizedReplyPointerV3) :
    Decidable (p.Resolved C creds) :=
  decidable_of_iff ((creds p.ptr.replier).any fun c => p.ptr.fingerprint = c.fingerprint C)
    (by simp [Resolved, Option.any_eq_true])

variable {C} in
theorem resolved_congr {f g : Bytes 32 → Option (ReplierCredV3 Cert)}
    {p : AuthorizedReplyPointerV3} (h : f p.ptr.replier = g p.ptr.replier) :
    p.Resolved C f ↔ p.Resolved C g := by
  rw [Resolved, Resolved, h]

end AuthorizedReplyPointerV3

open AuthorizedReplyPointerV3

/-- `checkPointer` answers whether the pointer is resolved, unless it fails. -/
theorem checkPointer_eq_ok {p : AuthorizedReplyPointerV3}
    {creds : Map (Bytes 32) (ReplierCredV3 Cert)} {parameters : InboxParametersV3} {b : Bool} :
    checkPointer C p creds parameters = .ok b ↔
      (p.ptr.owner = parameters.owner.asBytes ∧
        ∀ cred, creds[p.ptr.replier]? = some cred → p.verifySignature C cred.postingKey = .ok ()) ∧
      b = decide (p.Resolved C (creds[·]?)) := by
  simp only [checkPointer, throw_bind, guard_eq_ok, not_not, pure_eq_ok, and_assoc]
  refine and_congr_right fun _ => ?_
  cases hc : creds[p.ptr.replier]? with
  | none => simp [Resolved, hc, eq_comm]
  | some cred => simp [Resolved, hc, seq_eq_ok, eq_comm (b := b)]

namespace PointersV3

variable {ps : List AuthorizedReplyPointerV3}

theorem verifyCaps_eq_ok {perFp : Map String Nat} : verifyCaps ps perFp = .ok () ↔
    ∀ p ∈ ps, perFp.getD p.ptr.fingerprint 0 +
      (ps.countP fun q => q.ptr.fingerprint = p.ptr.fingerprint) ≤ fpCap p.ptr.fingerprint := by
  induction ps generalizing perFp with
  | nil => simp [verifyCaps]
  | cons a ps ih =>
    have hcount (fp : String) : (perFp.insert a.ptr.fingerprint
        (perFp.getD a.ptr.fingerprint 0 + 1)).getD fp 0 +
          (ps.countP fun q => q.ptr.fingerprint = fp) =
        perFp.getD fp 0 + ((a :: ps).countP fun q => q.ptr.fingerprint = fp) := by
      rw [Std.ExtTreeMap.getD_insert, List.countP_cons]
      by_cases hfp : a.ptr.fingerprint = fp
      · subst hfp
        simp; omega
      · simp [hfp]
    have htail : (∀ p ∈ ps, perFp.getD p.ptr.fingerprint 0 +
        ((a :: ps).countP fun q => q.ptr.fingerprint = p.ptr.fingerprint) ≤
          fpCap p.ptr.fingerprint) ↔
        verifyCaps ps (perFp.insert a.ptr.fingerprint (perFp.getD a.ptr.fingerprint 0 + 1)) =
          .ok () := by
      rw [ih]
      exact forall₂_congr fun p _ => by rw [hcount]
    rw [verifyCaps, List.forall_mem_cons, htail, ← hcount]
    by_cases hlt : fpCap a.ptr.fingerprint < perFp.getD a.ptr.fingerprint 0 + 1
    · simp [hlt]; omega
    · rw [if_neg hlt, iff_and_self, ih]
      intro h
      by_cases ha : ∃ p ∈ ps, p.ptr.fingerprint = a.ptr.fingerprint
      · obtain ⟨p, hp, hfp⟩ := ha
        exact hfp ▸ h p hp
      · have hzero : (ps.countP fun q => q.ptr.fingerprint = a.ptr.fingerprint) = 0 :=
          List.countP_eq_zero.mpr fun p hp hfp => ha ⟨p, hp, of_decide_eq_true hfp⟩
        simp; omega

theorem verifySorted_eq_ok :
    verifySorted ps = .ok () ↔ ps.Pairwise fun p q => p.orderKey ≤ q.orderKey :=
  windows_eq_ok rfl (fun _ => rfl) fun _ _ _ => rfl

theorem verifyEach_eq_ok {creds : Map (Bytes 32) (ReplierCredV3 Cert)} (hk : Keyed creds)
    {parameters : InboxParametersV3} {seen : Std.ExtTreeSet PostId compare} :
    verifyEach C creds parameters ps seen = .ok () ↔
      (∀ p ∈ ps, p.Genuine C parameters ∧ p.Resolved C (creds[·]?) ∧ p.ptr.replyPost ∉ seen) ∧
        UniquePosts ps := by
  induction ps generalizing seen with
  | nil => simp [verifyEach, UniquePosts]
  | cons p ps ih =>
    have hcheck : checkPointer C p creds parameters = .ok true ∧
        (p.isAnon = true → meetsInbox C parameters.owner.asBytes p.ptr.replier p.powNonce
          powFloorBits = true) ↔ p.Genuine C parameters ∧ p.Resolved C (creds[·]?) := by
      rw [checkPointer_eq_ok]
      constructor
      · rintro ⟨⟨⟨ho, hs⟩, hr⟩, hfloor⟩
        obtain ⟨c, hc, hfp⟩ := of_decide_eq_true hr.symm
        exact ⟨⟨ho, hk _ _ hc ▸ hs c hc, hfloor⟩, c, hc, hfp⟩
      · rintro ⟨⟨ho, hs, hfloor⟩, hr⟩
        exact ⟨⟨⟨ho, fun c hc => by rw [hk _ _ hc, hs]⟩, (decide_eq_true hr).symm⟩, hfloor⟩
    have hrest : verifyEach C creds parameters (p :: ps) seen = .ok () ↔
        (checkPointer C p creds parameters = .ok true ∧
          (p.isAnon = true → meetsInbox C parameters.owner.asBytes p.ptr.replier p.powNonce
            powFloorBits = true)) ∧ p.ptr.replyPost ∉ seen ∧
        verifyEach C creds parameters ps (seen.insert p.ptr.replyPost) = .ok () := by
      rw [verifyEach]
      simp only [bind_eq_ok, throw_bind, guard_eq_ok]
      constructor
      · rintro ⟨b, hb, hbt, hfloor, hs⟩
        exact ⟨⟨by simpa [hb] using hbt, by simpa using hfloor⟩, hs⟩
      · rintro ⟨⟨hb, hfloor⟩, hs⟩
        exact ⟨true, hb, by simp, by simpa using hfloor, hs⟩
    rw [hrest, ih, hcheck, List.forall_mem_cons, UniquePosts, UniquePosts, List.pairwise_cons]
    simp only [Std.ExtTreeSet.mem_insert, compare_eq_iff_eq, not_or]
    constructor
    · rintro ⟨⟨hg, hr⟩, hs, hps, hu⟩
      refine ⟨⟨⟨hg, hr, hs⟩, fun q hq => ⟨(hps q hq).1, (hps q hq).2.1, (hps q hq).2.2.2⟩⟩, ?_, hu⟩
      exact fun q hq => (hps q hq).2.2.1
    · rintro ⟨⟨⟨hg, hr, hs⟩, hps⟩, hne, hu⟩
      exact ⟨⟨hg, hr⟩, hs, fun q hq => ⟨(hps q hq).1, (hps q hq).2.1, hne q hq, (hps q hq).2.2⟩, hu⟩

end PointersV3

/-! ## The state -/

namespace InboxStateV3

variable (C)

/-- The states `verify` accepts. The bound on the credentials follows: each has a pointer. -/
structure Valid (parameters : InboxParametersV3) (s : InboxStateV3 Cert) : Prop where
  latch : ∀ cell, s.powDifficulty = some cell → cell.genuine C = true
  checked : ∀ (k : Bytes 32) (c : ReplierCredV3 Cert), s.creds.creds[k]? = some c →
    c.check C k parameters.ghostkeyMaster = .ok ()
  referenced : ∀ k ∈ s.creds.creds, ∃ p ∈ s.pointers.pointers, p.ptr.replier = k
  settled : PointersV3.Settled s.pointers.pointers
  genuine : ∀ p ∈ s.pointers.pointers, p.Genuine C parameters
  resolved : ∀ p ∈ s.pointers.pointers, p.Resolved C (s.creds.creds[·]?)

/-- A valid state, but for credentials that no pointer references. -/
structure Sound (parameters : InboxParametersV3) (s : InboxStateV3 Cert) : Prop where
  latch : ∀ cell, s.powDifficulty = some cell → cell.genuine C = true
  checked : ∀ (k : Bytes 32) (c : ReplierCredV3 Cert), s.creds.creds[k]? = some c →
    c.check C k parameters.ghostkeyMaster = .ok ()
  settled : PointersV3.Settled s.pointers.pointers
  genuine : ∀ p ∈ s.pointers.pointers, p.Genuine C parameters
  resolved : ∀ p ∈ s.pointers.pointers, p.Resolved C (s.creds.creds[·]?)

variable {C} {parameters : InboxParametersV3} {s : InboxStateV3 Cert}

theorem Valid.sound (h : s.Valid C parameters) : s.Sound C parameters :=
  ⟨h.latch, h.checked, h.settled, h.genuine, h.resolved⟩

theorem Sound.valid (h : s.Sound C parameters)
    (href : ∀ k ∈ s.creds.creds, ∃ p ∈ s.pointers.pointers, p.ptr.replier = k) :
    s.Valid C parameters :=
  ⟨h.latch, h.checked, href, h.settled, h.genuine, h.resolved⟩

theorem Valid.keyed (h : s.Valid C parameters) : Keyed s.creds.creds :=
  fun k c hc => ReplierCredV3.check_key (h.checked k c hc)

/-- The credentials of a valid state are those of its pointers. -/
theorem Valid.mem_creds (h : s.Valid C parameters) (k : Bytes 32) :
    k ∈ s.creds.creds ↔ ∃ p ∈ s.pointers.pointers, p.ptr.replier = k := by
  refine ⟨h.referenced k, ?_⟩
  rintro ⟨p, hp, rfl⟩
  obtain ⟨c, hc, -⟩ := h.resolved p hp
  exact Std.ExtTreeMap.mem_iff_isSome_getElem?.mpr (by simp [hc])

/-- Pointers carry the fingerprint of their replier's credential. -/
theorem Valid.fingerprint_of_held (h : s.Valid C parameters) {p : AuthorizedReplyPointerV3}
    (hp : p ∈ s.pointers.pointers) {c : ReplierCredV3 Cert}
    (hc : s.creds.creds[p.ptr.replier]? = some c) : p.ptr.fingerprint = c.fingerprint C := by
  obtain ⟨c', hc', hfp⟩ := h.resolved p hp
  rw [hfp, Option.some.inj (hc.symm.trans hc')]

/-- A map whose keys all occur in a list has at most as many entries. -/
theorem size_le_of_referenced {creds : Map (Bytes 32) (ReplierCredV3 Cert)} {l : List (Bytes 32)}
    (h : ∀ k ∈ creds, k ∈ l) : creds.size ≤ l.length := by
  rw [← Std.ExtTreeMap.length_keys]
  refine (List.subperm_of_subset ?_ fun k hk => h k (Std.ExtTreeMap.mem_keys.mp hk)).length_le
  exact Std.ExtTreeMap.nodup_keys

theorem Valid.size_le (h : s.Valid C parameters) : s.creds.creds.size ≤ maxPointers := by
  refine (size_le_of_referenced (l := s.pointers.pointers.map (·.ptr.replier)) fun k hk => ?_).trans
    ((List.length_map _).trans_le h.settled.length_le)
  simpa using h.referenced k hk

theorem credsVerify_eq_ok : s.creds.verify C s parameters = .ok () ↔
    s.creds.creds.size ≤ maxPointers ∧
      (∀ (k : Bytes 32) (c : ReplierCredV3 Cert), s.creds.creds[k]? = some c →
        c.check C k parameters.ghostkeyMaster = .ok ()) ∧
      ∀ k ∈ s.creds.creds, ∃ p ∈ s.pointers.pointers, p.ptr.replier = k := by
  simp only [CredsV3.verify, throw_bind, guard_eq_ok, forM_eq_ok, not_not, not_lt, Prod.forall,
    Std.ExtTreeMap.mem_toList_iff_getElem?_eq_some, List.mem_map]
  refine and_congr_right fun _ => ⟨fun h => ⟨fun k c hc => (h k c hc).2, fun k hk => ?_⟩, ?_⟩
  · exact (h k _ (Std.ExtTreeMap.getElem?_eq_some_getElem hk)).1
  · rintro ⟨hcheck, href⟩ k c hc
    exact ⟨href k (Std.ExtTreeMap.mem_iff_isSome_getElem?.mpr (by simp [hc])), hcheck k c hc⟩

theorem pointersVerify_eq_ok (hk : Keyed s.creds.creds) :
    s.pointers.verify C s parameters = .ok () ↔ PointersV3.Settled s.pointers.pointers ∧
      ∀ p ∈ s.pointers.pointers, p.Genuine C parameters ∧ p.Resolved C (s.creds.creds[·]?) := by
  simp only [PointersV3.verify, throw_bind, guard_eq_ok, seq_eq_ok, not_lt,
    PointersV3.verifyCaps_eq_ok, PointersV3.verifySorted_eq_ok, PointersV3.verifyEach_eq_ok hk]
  constructor
  · rintro ⟨hlen, hanon, hfp, hle, hp, hu⟩
    refine ⟨PointersV3.settled_of_caps (PointersV3.sorted_of_unique hle hu) hu hlen hanon ?_,
      fun p h => ⟨(hp p h).1, (hp p h).2.1⟩⟩
    intro fp
    by_cases h : ∃ p ∈ s.pointers.pointers, p.ptr.fingerprint = fp
    · obtain ⟨p, hp, rfl⟩ := h
      simpa using hfp p hp
    · refine le_of_eq_of_le (List.countP_eq_zero.mpr fun p hp he => h ⟨p, hp, ?_⟩) (Nat.zero_le _)
      exact of_decide_eq_true he
  · rintro ⟨hs, hp⟩
    refine ⟨hs.length_le, hs.anon_le, fun p _ => ?_, hs.sorted.imp le_of_lt, fun p h => ?_, hs.unique⟩
    · simpa using hs.fp_le p.ptr.fingerprint
    · exact ⟨(hp p h).1, (hp p h).2, Std.ExtTreeSet.not_mem_empty⟩

theorem verify_iff : s.verify C parameters = .ok () ↔ s.Valid C parameters := by
  have hlatch : s.verify C parameters = .ok () ↔
      (∀ cell, s.powDifficulty = some cell → cell.genuine C = true) ∧
        s.creds.verify C s parameters = .ok () ∧ s.pointers.verify C s parameters = .ok () := by
    rw [verify]
    cases s.powDifficulty <;> simp [seq_eq_ok, SignedCellV1.genuine_iff]
  rw [hlatch, credsVerify_eq_ok]
  constructor
  · rintro ⟨hl, ⟨-, hc, hr⟩, hp⟩
    obtain ⟨hs, hp⟩ := (pointersVerify_eq_ok fun k c h => ReplierCredV3.check_key (hc k c h)).mp hp
    exact ⟨hl, hc, hr, hs, fun p h => (hp p h).1, fun p h => (hp p h).2⟩
  · intro h
    exact ⟨h.latch, ⟨h.size_le, h.checked, h.referenced⟩,
      (pointersVerify_eq_ok h.keyed).mpr ⟨h.settled, fun p hp => ⟨h.genuine p hp, h.resolved p hp⟩⟩⟩

end InboxStateV3

end Freebird
