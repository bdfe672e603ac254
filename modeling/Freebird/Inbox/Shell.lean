import Freebird.Contract.Shell
import Freebird.Inbox.Exchange

/-!
# The shell of the inbox contract

`update_state` first drops the stored pointers that lie beyond the future bound. Their credentials
stay behind, for the cleanup that ends every `apply_delta` to drop. So the result is valid exactly if
no credential was left behind or some update brings the cleanup about (`update_valid_iff`).
-/

namespace Freebird

open Retention AuthorizedReplyPointerV3

variable {Cert : Type} (C : Crypto Cert)

/-- Drops the pointers beyond the future bound. -/
def InboxStateV3.scrubFuture (now : U64) (self : InboxStateV3 Cert) : InboxStateV3 Cert :=
  { self with pointers := ⟨self.pointers.pointers.filter fun p => p.ptr.time.val ≤ futureBound now⟩ }

abbrev InboxUpdate (Cert : Type) := UpdateData (InboxStateV3 Cert) (InboxStateV3Delta Cert)

namespace InboxContract

def scrubDelta (now : U64) (delta : InboxStateV3Delta Cert) : InboxStateV3Delta Cert :=
  { delta with
    pointers := delta.pointers.map (·.filter fun p => p.ptr.time.val ≤ futureBound now) }

def validateState [DecidableEq Cert] (parameters : InboxParametersV3) (now : U64)
    (state : Option (InboxStateV3 Cert)) : ValidateResult :=
  match state with
  | none => .valid
  | some inbox =>
    if inbox.scrubFuture now ≠ inbox then .invalid
    else match inbox.verify C parameters with
      | .ok () => .valid
      | .error _ => .invalid

def shell (parameters : InboxParametersV3) (now : U64) :
    Shell (InboxStateV3 Cert) (InboxStateV3 Cert) (InboxStateV3Delta Cert) where
  receive inbox incoming := orInvalid (inbox.merge C parameters (incoming.scrubFuture now))
  apply inbox delta := orInvalid (inbox.applyDelta C parameters (some (scrubDelta now delta)))

def updateState (parameters : InboxParametersV3) (now : U64) (state : Option (InboxStateV3 Cert))
    (data : List (InboxUpdate Cert)) : Except ContractError (InboxStateV3 Cert) :=
  (shell C parameters now).loop ((state.getD ∅).scrubFuture now) data

end InboxContract

variable {C} {parameters : InboxParametersV3} {now : U64}

namespace InboxStateV3

variable {s s' o : InboxStateV3 Cert} {d : InboxStateV3Delta Cert}

/-- No pointer lies beyond the future bound. -/
def Timely (now : U64) (s : InboxStateV3 Cert) : Prop :=
  ∀ p ∈ s.pointers.pointers, p.ptr.time.val ≤ futureBound now

theorem timely_scrubFuture (s : InboxStateV3 Cert) : (s.scrubFuture now).Timely now :=
  fun _ hp => of_decide_eq_true (List.mem_filter.mp hp).2

theorem scrubFuture_eq_self_iff : s.scrubFuture now = s ↔ s.Timely now := by
  constructor
  · intro h
    exact h ▸ timely_scrubFuture s
  · intro h
    obtain ⟨creds, ⟨ps⟩, latch⟩ := s
    have hps : ps.filter (fun p => p.ptr.time.val ≤ futureBound now) = ps :=
      List.filter_eq_self.mpr fun p hp => decide_eq_true (h p hp)
    simp [scrubFuture, hps]

theorem Sound.scrubFuture (h : s.Sound C parameters) : (s.scrubFuture now).Sound C parameters where
  latch := h.latch
  checked := h.checked
  settled := h.settled.sublist List.filter_sublist
  genuine p hp := h.genuine p (List.mem_filter.mp hp).1
  resolved p hp := h.resolved p (List.mem_filter.mp hp).1

theorem valid_empty : (∅ : InboxStateV3 Cert).Valid C parameters where
  latch _ h := nomatch h
  checked k c h := by
    change (∅ : Map (Bytes 32) (ReplierCredV3 Cert))[k]? = _ at h
    simp at h
  referenced k h := absurd h Std.ExtTreeMap.not_mem_empty
  settled := .nil
  genuine p hp := nomatch hp
  resolved p hp := nomatch hp

/-- Every pointer of the state after a delta was there before, or is one of the delta's. -/
theorem mem_of_applyDelta (hs : s.Sound C parameters)
    (h : s.applyDelta C parameters (some d) = (.ok (), s')) {p : AuthorizedReplyPointerV3}
    (hp : p ∈ s'.pointers.pointers) : p ∈ s.pointers.pointers ∨ p ∈ d.pointers.getD [] := by
  obtain ⟨-, happ⟩ := (applyDelta_eq_ok hs.settled).mp h
  obtain ⟨hp | hp, -⟩ := mem_pointersAfter (happ.pointers ▸ hp)
  · exact .inl hp
  · exact .inr (mem_admitted.mp (mem_accepted.mp hp).1).1

theorem delta_pointers_subset {old : InboxStateV3Summary} (h : o.delta C old = some d)
    {p : AuthorizedReplyPointerV3} (hp : p ∈ d.pointers.getD []) : p ∈ o.pointers.pointers := by
  rw [delta_eq] at h
  split at h
  · obtain rfl := Option.some.inj h
    change p ∈ (o.pointers.delta old.pointers).getD [] at hp
    rw [PointersV3.delta_getD] at hp
    exact (List.mem_filter.mp (List.mem_filter.mp hp).1).1
  · cases h

end InboxStateV3

namespace InboxContract

open InboxStateV3

variable {s s' incoming out : InboxStateV3 Cert} {d : InboxStateV3Delta Cert}

/-- What `validate_state` accepts. -/
def Accepted (C : Crypto Cert) (parameters : InboxParametersV3) (now : U64)
    (s : InboxStateV3 Cert) : Prop := s.Timely now ∧ s.Valid C parameters

theorem validateState_eq_valid [DecidableEq Cert] :
    validateState C parameters now (some s) = .valid ↔ Accepted C parameters now s := by
  rw [Accepted, ← scrubFuture_eq_self_iff, ← verify_iff]
  exact verdict_eq_valid.trans (and_congr_left' not_not)

/-- A delta leaves an acceptable state, also where a scrub left credentials behind. -/
theorem accepted_apply (hs : s.Sound C parameters) (ht : s.Timely now)
    (h : (shell C parameters now).apply s d = .ok s') : Accepted C parameters now s' := by
  have h := orInvalid_eq_ok.mp h
  refine ⟨fun p hp => ?_, hs.applyDelta h⟩
  rcases mem_of_applyDelta hs h hp with hp | hp
  · exact ht p hp
  · exact of_decide_eq_true (mem_scrubbed.mp hp).2

/-- So does an incoming state, unless it offers nothing. -/
theorem accepted_receive (hs : s.Sound C parameters) (ht : s.Timely now)
    (h : (shell C parameters now).receive s incoming = .ok s') :
    (incoming.scrubFuture now).delta C (s.summarize C) = none ∧ s' = s ∨
      (incoming.scrubFuture now).delta C (s.summarize C) ≠ none ∧
        Accepted C parameters now s' := by
  have h := orInvalid_eq_ok.mp h
  rw [merge] at h
  cases hd : (incoming.scrubFuture now).delta C (s.summarize C) with
  | none =>
    rw [hd] at h
    exact .inl ⟨rfl, (Prod.mk.inj h).2.symm⟩
  | some d =>
    rw [hd] at h
    refine .inr ⟨nofun, fun p hp => ?_, hs.applyDelta h⟩
    rcases mem_of_applyDelta hs h hp with hp | hp
    · exact ht p hp
    · exact timely_scrubFuture incoming p (delta_pointers_subset hd hp)

theorem accepted_part {a : InboxStateV3 Cert ⊕ InboxStateV3Delta Cert}
    (hs : Accepted C parameters now s) (h : (shell C parameters now).part s a = .ok s') :
    Accepted C parameters now s' := by
  cases a with
  | inl incoming =>
    rcases accepted_receive hs.2.sound hs.1 h with ⟨-, rfl⟩ | ⟨-, h⟩
    · exact hs
    · exact h
  | inr d => exact accepted_apply hs.2.sound hs.1 h

variable {state : Option (InboxStateV3 Cert)} {data : List (InboxUpdate Cert)}

/-- **When `update_state` leaves what `validate_state` accepts**: no stored credential has lost all
its pointers to the scrub, or an update carries a delta, or an incoming state offers something. -/
theorem update_valid_iff [DecidableEq Cert] (hs : ∀ s, state = some s → s.verify C parameters = .ok ())
    (h : updateState C parameters now state data = .ok out) :
    validateState C parameters now (some out) = .valid ↔
      (∀ k ∈ (state.getD ∅).creds.creds, ∃ p ∈ (state.getD ∅).pointers.pointers,
        p.ptr.replier = k ∧ p.ptr.time.val ≤ futureBound now) ∨
      (∃ update ∈ data, ∃ d, .inr d ∈ update.parts) ∨
      ∃ update ∈ data, ∃ incoming, .inl incoming ∈ update.parts ∧
        (incoming.scrubFuture now).delta C (((state.getD ∅).scrubFuture now).summarize C) ≠
          none := by
  have hvalid : (state.getD ∅).Valid C parameters := by
    cases state with
    | none => exact valid_empty
    | some s => exact verify_iff.mp (hs s rfl)
  have hsound : ((state.getD ∅).scrubFuture now).Sound C parameters := hvalid.sound.scrubFuture
  have htimely : ((state.getD ∅).scrubFuture now).Timely now := timely_scrubFuture (state.getD ∅)
  have hrun := Shell.loop_eq_ok h
  have hstep : ∀ a ∈ data.flatMap UpdateData.parts, ∀ u v, Accepted C parameters now u →
      (shell C parameters now).part u a = .ok v → Accepted C parameters now v :=
    fun _ _ _ _ => accepted_part
  have hfirst : ∀ a ∈ data.flatMap UpdateData.parts, ∀ u,
      (shell C parameters now).part ((state.getD ∅).scrubFuture now) a = .ok u →
        u = (state.getD ∅).scrubFuture now ∨ Accepted C parameters now u := by
    rintro (incoming | d) - u hu
    · rcases accepted_receive hsound htimely hu with ⟨-, rfl⟩ | ⟨-, hu⟩
      · exact .inl rfl
      · exact .inr hu
    · exact .inr (accepted_apply hsound htimely hu)
  rw [validateState_eq_valid]
  constructor
  · intro hout
    by_contra! hno
    obtain ⟨hlost, hdelta, hincoming⟩ := hno
    -- Nothing brings the cleanup about, so the scrubbed state is returned as it is.
    have hidle : out = (state.getD ∅).scrubFuture now := by
      refine Shell.run_idle (fun a ha u hu => ?_) hrun
      obtain ⟨update, hmem, ha⟩ := List.mem_flatMap.mp ha
      cases a with
      | inl incoming =>
        rcases accepted_receive hsound htimely hu with ⟨-, rfl⟩ | ⟨hne, -⟩
        · rfl
        · exact absurd (hincoming update hmem incoming ha) hne
      | inr d => exact absurd ha (hdelta update hmem d)
    obtain ⟨k, hk, hlost⟩ := hlost
    obtain ⟨p, hp, hpk⟩ := (hidle ▸ hout.2).referenced k hk
    obtain ⟨hp, htime⟩ := List.mem_filter.mp hp
    exact absurd (of_decide_eq_true htime) (not_le.mpr (hlost p hp hpk))
  · rintro (hkept | ⟨update, hmem, d, hd⟩ | ⟨update, hmem, incoming, hin, hne⟩)
    · refine Shell.run_invariant hstep ⟨htimely, hsound.valid fun k hk => ?_⟩ hrun
      obtain ⟨p, hp, hpk, htime⟩ := hkept k hk
      exact ⟨p, List.mem_filter.mpr ⟨hp, decide_eq_true htime⟩, hpk⟩
    · refine Shell.run_reaches hstep hfirst ⟨.inr d, ?_, fun u hu => ?_⟩ hrun
      · exact List.mem_flatMap.mpr ⟨update, hmem, hd⟩
      · exact accepted_apply hsound htimely hu
    · refine Shell.run_reaches hstep hfirst ⟨.inl incoming, ?_, fun u hu => ?_⟩ hrun
      · exact List.mem_flatMap.mpr ⟨update, hmem, hin⟩
      · rcases accepted_receive hsound htimely hu with ⟨hnone, -⟩ | ⟨-, hu⟩
        · exact absurd hnone hne
        · exact hu

end InboxContract

/-! ## Samples -/

namespace Sample

/-- Two attested pointers, the second one announced more than ten minutes ahead of time 0. -/
def ahead : InboxStateV3 VerifyingKey :=
  inboxState [attested 1 7 1, attested 2 8 1]
    [pointer (attested 1 7 1) 3 10 0, pointer (attested 2 8 1) 4 700000 0] none

/-- A delta without entries, which is not one of zero bytes. -/
def emptyDelta : List (InboxUpdate VerifyingKey) := [.delta (some (inboxDelta [] []))]

end Sample

namespace InboxContract

open Sample

theorem update_valid_iff_empty_delta : ∃ out,
    updateState crypto inbox 0 (some ahead) emptyDelta = .ok out ∧
    (validateState crypto inbox 0 (some out) = .valid ↔
      (∀ k ∈ ahead.creds.creds, ∃ p ∈ ahead.pointers.pointers,
        p.ptr.replier = k ∧ p.ptr.time.val ≤ futureBound 0) ∨
      (∃ update ∈ emptyDelta, ∃ d, .inr d ∈ update.parts) ∨
      ∃ update ∈ emptyDelta, ∃ incoming, .inl incoming ∈ update.parts ∧
        (incoming.scrubFuture 0).delta crypto ((ahead.scrubFuture 0).summarize crypto) ≠ none) := by
  have h : updateState crypto inbox 0 (some ahead) emptyDelta = .ok seated := by decide +kernel
  refine ⟨seated, h, update_valid_iff (fun s hs => ?_) h⟩
  obtain rfl := Option.some.inj hs
  decide +kernel

/-- Without an update the credential that lost its pointer is returned, and rejected. -/
theorem unreferenced_returned : ahead.verify crypto inbox = .ok () ∧
    ∃ out, updateState crypto inbox 0 (some ahead) [.delta none] = .ok out ∧
      validateState crypto inbox 0 (some out) = .invalid :=
  ⟨by decide +kernel, ahead.scrubFuture 0, by decide +kernel, by decide +kernel⟩

end InboxContract

end Freebird
