import Freebird.Contract.Shell
import Freebird.Directory.Bootstrap
import Freebird.Directory.Invariant

/-!
# The shell of the directory contract

Dropping listings beyond the future bound leaves the caps and every other listing in order, and
every delta that is applied, also that of a merge, preserves validity. So what `update_state` leaves
is what `validate_state` accepts at that time (`update_valid`).
-/

namespace Freebird

variable {Cert : Type} (C : DirectoryCrypto Cert)

/-- Drops the listings beyond the future bound. -/
def DirectoryStateV4.scrubFuture (now : U64) (self : DirectoryStateV4 Cert) :
    DirectoryStateV4 Cert :=
  { self with
    attested := self.attested.filter fun _ l => l.listing.lastActive.val ≤ futureBound now
    anon := self.anon.filter fun _ l => l.listing.lastActive.val ≤ futureBound now }

abbrev DirectoryUpdate (Cert : Type) := UpdateData (DirectoryStateV4 Cert) (DirectoryDeltaV3 Cert)

namespace DirectoryContract

def scrubDelta (now : U64) (delta : DirectoryDeltaV3 Cert) : DirectoryDeltaV3 Cert :=
  { delta with
    listings := delta.listings.filter fun l => l.listing.lastActive.val ≤ futureBound now }

def validateState [DecidableEq Cert] (parameters : DirectoryParametersV3) (now : U64)
    (state : Option (DirectoryStateV4 Cert)) : ValidateResult :=
  match state with
  | none => .valid
  | some dir =>
    if dir.scrubFuture now ≠ dir then .invalid
    else match dir.verify C parameters with
      | .ok () => .valid
      | .error _ => .invalid

def shell (parameters : DirectoryParametersV3) (now : U64) :
    Shell (DirectoryStateV4 Cert) (DirectoryStateV4 Cert) (DirectoryDeltaV3 Cert) where
  receive dir incoming := orInvalid (dir.merge C parameters (incoming.scrubFuture now))
  apply dir delta := orInvalid (dir.applyDelta C parameters (scrubDelta now delta))

def updateState (parameters : DirectoryParametersV3) (now : U64)
    (state : Option (DirectoryStateV4 Cert)) (data : List (DirectoryUpdate Cert)) :
    Except ContractError (DirectoryStateV4 Cert) :=
  (shell C parameters now).loop ((state.getD ∅).scrubFuture now) data

end DirectoryContract

variable {C} {parameters : DirectoryParametersV3} {now : U64}

namespace DirectoryStateV4

variable {s s' o : DirectoryStateV4 Cert} {d : DirectoryDeltaV3 Cert} {b : Bool} {k : Bytes 32}
  {l : AuthorizedListingV3 Cert}

/-- No listing lies beyond the future bound. -/
def Timely (now : U64) (s : DirectoryStateV4 Cert) : Prop :=
  ∀ (b : Bool) (k : Bytes 32) (l : AuthorizedListingV3 Cert), (s.tier b)[k]? = some l →
    l.listing.lastActive.val ≤ futureBound now

theorem tier_scrubFuture (s : DirectoryStateV4 Cert) (b : Bool) : (s.scrubFuture now).tier b =
    (s.tier b).filter fun _ l => l.listing.lastActive.val ≤ futureBound now := by
  cases b <;> rfl

/-- A slot of the scrubbed state is a slot of the state, within the bound. -/
theorem getElem?_scrubFuture : ((s.scrubFuture now).tier b)[k]? = some l ↔
    (s.tier b)[k]? = some l ∧ l.listing.lastActive.val ≤ futureBound now := by
  rw [tier_scrubFuture, Std.ExtTreeMap.getElem?_filter', Option.filter_eq_some_iff,
    decide_eq_true_eq]

theorem timely_scrubFuture (s : DirectoryStateV4 Cert) : (s.scrubFuture now).Timely now :=
  fun _ _ _ hl => (getElem?_scrubFuture.mp hl).2

theorem scrubFuture_eq_self_iff : s.scrubFuture now = s ↔ s.Timely now := by
  constructor
  · intro h
    exact h ▸ timely_scrubFuture s
  · intro h
    have htier (b : Bool) : (s.scrubFuture now).tier b = s.tier b := by
      refine Std.ExtTreeMap.ext_getElem? fun k => Option.ext fun l => ?_
      rw [getElem?_scrubFuture]
      exact and_iff_left_of_imp (h b k l)
    have ha : (s.scrubFuture now).attested = s.attested := htier false
    have hn : (s.scrubFuture now).anon = s.anon := htier true
    obtain ⟨attested, anon, latch⟩ := s
    simp_all [scrubFuture]

/-- A scrub makes room for anonymous listings, and takes none up. -/
theorem Valid.scrubFuture (hs : s.Valid C parameters) : (s.scrubFuture now).Valid C parameters where
  latch := hs.latch
  listed b k l hl := hs.listed b k l (getElem?_scrubFuture.mp hl).1
  floor k l hl := hs.floor k l (getElem?_scrubFuture (b := true).mp hl).1
  attested_le := Std.ExtTreeMap.size_filter_le_size.trans hs.attested_le
  anon_le := by
    have ha : (s.scrubFuture now).attested.size ≤ s.attested.size :=
      Std.ExtTreeMap.size_filter_le_size
    have hn : (s.scrubFuture now).anon.size ≤ s.anon.size := Std.ExtTreeMap.size_filter_le_size
    have hle := hs.anon_le
    unfold effectiveAnonShare at hle ⊢
    omega

theorem valid_empty : (∅ : DirectoryStateV4 Cert).Valid C parameters where
  latch _ h := nomatch h
  listed b k _ hl := nomatch (getElem?_empty_tier b k).symm.trans hl
  floor k _ hl := nomatch (getElem?_empty_tier true k).symm.trans hl
  attested_le := Nat.zero_le _
  anon_le := Nat.zero_le _

/-- Every listing of the state after a delta was there before, or is one of the delta's. -/
theorem mem_of_applyDelta (h : s.applyDelta C parameters d = (.ok (), s'))
    (hl : (s'.tier b)[k]? = some l) : (s.tier b)[k]? = some l ∨ l ∈ d.listings := by
  rw [applyDelta_eq_ok h] at hl
  have hl := getElem?_of_canonicalize hl
  rw [seated_slot] at hl
  exact (mem_of_foldl_newer hl).imp_right fun h => (List.mem_filter.mp h).1

end DirectoryStateV4

namespace DirectoryContract

open DirectoryStateV4

variable {s s' out : DirectoryStateV4 Cert} {d : DirectoryDeltaV3 Cert}

/-- What `validate_state` accepts. -/
def Accepted (C : DirectoryCrypto Cert) (parameters : DirectoryParametersV3) (now : U64)
    (s : DirectoryStateV4 Cert) : Prop := s.Timely now ∧ s.Valid C parameters

variable [DecidableEq Cert]

theorem validateState_eq_valid :
    validateState C parameters now (some s) = .valid ↔ Accepted C parameters now s := by
  rw [Accepted, ← scrubFuture_eq_self_iff, ← verify_iff]
  exact verdict_eq_valid.trans (and_congr_left' not_not)

/-- A delta within the bound leaves an acceptable state. -/
theorem Accepted.applyDelta (hcbor : Function.Injective C.cborAttestation)
    (hs : Accepted C parameters now s)
    (hd : ∀ l ∈ d.listings, l.listing.lastActive.val ≤ futureBound now)
    (h : s.applyDelta C parameters d = (.ok (), s')) : Accepted C parameters now s' := by
  refine ⟨fun b k l hl => ?_, hs.2.applyDelta hcbor h⟩
  rcases mem_of_applyDelta h hl with hl | hl
  · exact hs.1 b k l hl
  · exact hd l hl

theorem Accepted.part {a : DirectoryStateV4 Cert ⊕ DirectoryDeltaV3 Cert}
    (hcbor : Function.Injective C.cborAttestation) (hs : Accepted C parameters now s)
    (h : (shell C parameters now).part s a = .ok s') : Accepted C parameters now s' := by
  cases a with
  | inl incoming =>
    refine hs.applyDelta hcbor (fun l hl => ?_) (orInvalid_eq_ok.mp h)
    rw [List.mem_append, Map.mem_vals, Map.mem_vals] at hl
    rcases hl with ⟨k, hk⟩ | ⟨k, hk⟩
    · exact timely_scrubFuture incoming false k l hk
    · exact timely_scrubFuture incoming true k l hk
  | inr d =>
    refine hs.applyDelta hcbor (fun l hl => ?_) (orInvalid_eq_ok.mp h)
    exact of_decide_eq_true (List.mem_filter.mp hl).2

/-- **What `update_state` leaves, `validate_state` accepts**; every attestation in it is genuine and
its author's. -/
theorem update_valid {state : Option (DirectoryStateV4 Cert)} {data : List (DirectoryUpdate Cert)}
    (hcbor : Function.Injective C.cborAttestation)
    (hs : ∀ s, state = some s → s.verify C parameters = .ok ())
    (h : updateState C parameters now state data = .ok out) :
    validateState C parameters now (some out) = .valid ∧ out.verify C parameters = .ok () ∧
      (∀ (b : Bool) (k : Bytes 32) (l : AuthorizedListingV3 Cert), (out.tier b)[k]? = some l →
        l.listing.lastActive.val ≤ futureBound now) ∧
      ∀ (k : Bytes 32) (l : AuthorizedListingV3 Cert), out.attested[k]? = some l →
        ∃ att vk tier, l.attestation = some att ∧ C.keyFromBytes k = .ok vk ∧
          att.verify C.toCrypto vk parameters.ghostkeyMaster = .ok tier := by
  have hvalid : (state.getD ∅).Valid C parameters := by
    cases state with
    | none => exact valid_empty
    | some s => exact verify_iff.mp (hs s rfl)
  have hstart : Accepted C parameters now ((state.getD ∅).scrubFuture now) :=
    ⟨timely_scrubFuture _, hvalid.scrubFuture⟩
  have hout : Accepted C parameters now out :=
    Shell.run_invariant (fun _ _ _ _ hu hv => hu.part hcbor hv) hstart (Shell.loop_eq_ok h)
  refine ⟨validateState_eq_valid.mpr hout, verify_iff.mpr hout.2, hout.1, fun k l hl => ?_⟩
  obtain ⟨hauthor, htier, hcheck⟩ := hout.2.listed false k l hl
  obtain ⟨att, hatt⟩ : ∃ att, l.attestation = some att := by
    simpa [AuthorizedListingV3.isAnon, Option.isSome_iff_exists] using htier
  obtain ⟨vk, tier, hvk, hverify⟩ := AuthorizedListingV3.attestation_verified hcheck hatt
  exact ⟨att, vk, tier, hatt, hauthor ▸ hvk, hverify⟩

end DirectoryContract

/-! ## Samples -/

namespace Sample

/-- The certificate and the two signatures have fixed widths. -/
theorem cborAttestation_injective : Function.Injective crypto.cborAttestation := by
  rintro ⟨payload, sig, pop, cert⟩ ⟨payload', sig', pop', cert'⟩ h
  obtain ⟨h, hpop⟩ := List.append_inj' h (by simp)
  obtain ⟨h, hsig⟩ := List.append_inj' h (by simp)
  obtain ⟨hpayload, hcert⟩ := List.append_inj' h (by simp)
  obtain rfl := Bytes.toList_inj hpop
  obtain rfl := Bytes.toList_inj hsig
  obtain rfl : cert = cert' := congrArg VerifyingKey.mk (Bytes.toList_inj hcert)
  obtain rfl : payload = payload' := hpayload
  rfl

end Sample

namespace DirectoryContract

open DirectoryStateV4 Sample

theorem update_valid_replay : ∃ out,
    updateState directoryCrypto directory 0 (some listed) [.delta (some (replay 2)), .state listed] =
      .ok out ∧ validateState directoryCrypto directory 0 (some out) = .valid := by
  have h : updateState directoryCrypto directory 0 (some listed)
      [.delta (some (replay 2)), .state listed] =
        .ok (directoryState [listing 1 5 (some 7) 2] none) := by decide +kernel
  refine ⟨_, h, (update_valid cborAttestation_injective (fun s hs => ?_) h).1⟩
  obtain rfl := Option.some.inj hs
  decide +kernel

end DirectoryContract

end Freebird
