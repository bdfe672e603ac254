import Freebird.Inbox.Apply

/-!
# `apply_delta` preserves validity

Whatever a delta contains, a successful `apply_delta` leaves a state that `verify` accepts; so does
any run of them.
-/

namespace Freebird

open Retention AuthorizedReplyPointerV3

variable {Cert : Type} {C : Crypto Cert} {parameters : InboxParametersV3}

namespace InboxStateV3

variable {s s' : InboxStateV3 Cert} {d : InboxStateV3Delta Cert} {p : AuthorizedReplyPointerV3}

theorem Sound.latchAfter (hs : s.Sound C parameters) (cell : SignedCellV1)
    (hc : s.latchAfter C d = some cell) : cell.genuine C = true :=
  genuine_adoptDifficulty hs.latch cell hc

/-- Whichever credential wins, it was checked. -/
theorem credAfter_checked (hs : s.Sound C parameters) (ha : s.Accepts C parameters d)
    {k : Bytes 32} {c : ReplierCredV3 Cert} (hc : s.credAfter C parameters d k = some c) :
    c.check C k parameters.ghostkeyMaster = .ok () := by
  unfold credAfter newerCred at hc
  split at hc
  · exact hs.checked k c hc
  · rename_i c' hoffered
    split at hc
    · exact hs.checked k c hc
    · rename_i hold
      obtain rfl := Option.some.inj hc
      exact ha.checked k c' hoffered fun h hheld => by simpa [hheld] using hold

theorem credAfter_key (hs : s.Sound C parameters) (ha : s.Accepts C parameters d) {k : Bytes 32}
    {c : ReplierCredV3 Cert} (hc : s.credAfter C parameters d k = some c) : c.postingKey = ⟨k⟩ :=
  ReplierCredV3.check_key (credAfter_checked hs ha hc)

theorem mem_accepted : p ∈ s.accepted C parameters d ↔
    p ∈ s.admitted C parameters d ∧ p.Resolved C (s.credAfter C parameters d) := by
  simp [accepted]

theorem accepted_eq_admitted
    (h : ∀ p ∈ s.admitted C parameters d, p.Resolved C (s.credAfter C parameters d)) :
    s.accepted C parameters d = s.admitted C parameters d :=
  List.filter_eq_self.mpr fun p hp => decide_eq_true (h p hp)

/-- A pointer that is appended to the log passes the checks of `verify`. -/
theorem accepted_genuine (hs : s.Sound C parameters) (ha : s.Accepts C parameters d)
    (hp : p ∈ s.accepted C parameters d) : p.Genuine C parameters := by
  obtain ⟨hadm, c, hc, -⟩ := mem_accepted.mp hp
  obtain ⟨howner, hsigned⟩ := ha.signed p hadm
  refine ⟨howner, credAfter_key hs ha hc ▸ hsigned c hc, fun hanon => ?_⟩
  have := (mem_admitted.mp hadm).2
  simp only [admits, hanon, howner, Bool.not_true, Bool.false_or, ne_eq, not_true_eq_false,
    decide_false] at this
  exact meetsInbox_floor this

theorem mem_pointersAfter (hp : p ∈ s.pointersAfter C parameters d) :
    (p ∈ s.pointers.pointers ∨ p ∈ s.accepted C parameters d) ∧
      p.Resolved C (s.credAfter C parameters d) := by
  obtain ⟨hp, hr⟩ := List.mem_filter.mp hp
  exact ⟨List.mem_append.mp (PointersV3.mem_of_mem_canonicalize hp), of_decide_eq_true hr⟩

theorem Applied.credsAt (h : s.Applied C parameters d s') (hp : p ∈ s'.pointers.pointers) :
    s'.creds.creds[p.ptr.replier]? = s.credAfter C parameters d p.ptr.replier := by
  rw [h.creds, if_pos ⟨p, h.pointers ▸ hp, rfl⟩]

/-- A credential that is left is referenced by a pointer that is left. -/
theorem Applied.credAfter (h : s.Applied C parameters d s') {k : Bytes 32} {c : ReplierCredV3 Cert}
    (hc : s'.creds.creds[k]? = some c) :
    (∃ p ∈ s'.pointers.pointers, p.ptr.replier = k) ∧ s.credAfter C parameters d k = some c := by
  rwa [h.creds, Option.ite_none_right_eq_some, ← h.pointers] at hc

/-- One call restores validity, and drops the credentials no pointer references. -/
theorem Sound.applied (hs : s.Sound C parameters) (ha : s.Accepts C parameters d)
    (h : s.Applied C parameters d s') : s'.Valid C parameters where
  latch cell hc := hs.latchAfter cell (h.latch ▸ hc)
  checked k c hc := credAfter_checked hs ha (h.credAfter hc).2
  referenced k hk := by
    obtain ⟨c, hc⟩ := Map.mem_iff.mp hk
    exact (h.credAfter hc).1
  settled := h.pointers ▸ (PointersV3.settled_canonicalize _).sublist List.filter_sublist
  genuine p hp := by
    obtain ⟨hp | hp, -⟩ := mem_pointersAfter (h.pointers ▸ hp)
    · exact hs.genuine p hp
    · exact accepted_genuine hs ha hp
  resolved p hp := by
    obtain ⟨-, c, hc, hfp⟩ := mem_pointersAfter (h.pointers ▸ hp)
    exact ⟨c, (h.credsAt hp).trans hc, hfp⟩

/-- A delta that changes no credential and adds no pointer leaves the state as it is. -/
theorem Valid.applied_self (hs : s.Valid C parameters) (hlatch : s.latchAfter C d = s.powDifficulty)
    (hcreds : s.credAfter C parameters d = (s.creds.creds[·]?))
    (haccepted : s.accepted C parameters d = []) : s.Applied C parameters d s := by
  have hpointers : s.pointersAfter C parameters d = s.pointers.pointers := by
    rw [pointersAfter, haccepted, List.append_nil, hs.settled.canonicalize_eq, hcreds]
    exact List.filter_eq_self.mpr fun p hp => decide_eq_true (hs.resolved p hp)
  refine ⟨hlatch.symm, hpointers.symm, fun k => ?_⟩
  rw [hpointers, hcreds]
  split
  · rfl
  · rename_i hno
    exact Std.ExtTreeMap.getElem?_eq_none fun hk => hno ((hs.mem_creds k).mp hk)

/-- **One call preserves validity.** -/
theorem Valid.applied (hs : s.Valid C parameters) (ha : s.Accepts C parameters d)
    (h : s.Applied C parameters d s') : s'.Valid C parameters := hs.sound.applied ha h

theorem Sound.applyDelta (hs : s.Sound C parameters)
    (h : s.applyDelta C parameters (some d) = (.ok (), s')) : s'.Valid C parameters :=
  have ⟨ha, h'⟩ := (applyDelta_eq_ok hs.settled).mp h
  hs.applied ha h'

theorem Valid.applyDelta (hs : s.Valid C parameters)
    (h : s.applyDelta C parameters (some d) = (.ok (), s')) : s'.Valid C parameters :=
  hs.sound.applyDelta h

/-- **`apply_delta` preserves validity**, for every delta. -/
theorem verify_applyDelta {d : Option (InboxStateV3Delta Cert)}
    (hs : s.verify C parameters = .ok ()) (h : s.applyDelta C parameters d = (.ok (), s')) :
    s'.verify C parameters = .ok () := by
  cases d with
  | none => exact (Prod.mk.inj h).2 ▸ hs
  | some d => exact verify_iff.mpr ((verify_iff.mp hs).applyDelta h)

open Sample in
theorem verify_applyDelta_seated :
    (seated.applyDelta crypto inbox (some (inboxDelta [anonymous 2]
      [pointer (anonymous 2) 4 5 0]))).2.verify crypto inbox = .ok () :=
  verify_applyDelta (s := seated)
    (d := some (inboxDelta [anonymous 2] [pointer (anonymous 2) 4 5 0]))
    (by decide +kernel) (by decide +kernel)

/-- The state after a list of deltas, if none is rejected. -/
def run (C : Crypto Cert) (parameters : InboxParametersV3) :
    InboxStateV3 Cert → List (InboxStateV3Delta Cert) → Except String (InboxStateV3 Cert)
  | s, [] => .ok s
  | s, d :: ds =>
    match s.applyDelta C parameters (some d) with
    | (.error e, _) => .error e
    | (.ok (), s') => run C parameters s' ds

/-- A run step by step. -/
theorem run_cons_eq_ok {ds : List (InboxStateV3Delta Cert)} :
    run C parameters s (d :: ds) = .ok s' ↔
      ∃ t, s.applyDelta C parameters (some d) = (.ok (), t) ∧ run C parameters t ds = .ok s' := by
  rw [run]
  rcases s.applyDelta C parameters (some d) with ⟨e | ⟨⟩, t⟩ <;> simp

theorem Valid.run {ds : List (InboxStateV3Delta Cert)} (hs : s.Valid C parameters)
    (h : run C parameters s ds = .ok s') : s'.Valid C parameters := by
  induction ds generalizing s with
  | nil => exact Except.ok.inj h ▸ hs
  | cons d ds ih =>
    obtain ⟨t, ht, hrun⟩ := run_cons_eq_ok.mp h
    exact ih (hs.applyDelta ht) hrun

end InboxStateV3

end Freebird
