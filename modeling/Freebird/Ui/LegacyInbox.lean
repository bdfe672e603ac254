import Freebird.Register.Claims
import Freebird.Retention.Cuts
import Freebird.Ui.Legacy

/-!
# The mirror of the old inbox

During the dual-read window the browser keeps a copy of the inbox at the old contract, in the types
of that generation and with its caps. What comes in is merged record by record: a record that fails a
check is passed over, and a reply post that is held is not announced again. Then the caps are
enforced, and pointers and credentials that do not belong together are dropped.

However it came about, the mirror is a valid inbox of the old contract (`LegacyInboxState.Valid`), and
a delta of anonymous records takes nothing that is attested (`merges_valid`).
-/

namespace Freebird

open Retention

/-! ## The caps of the old generation -/

def legacyMaxPointers : Nat := 300

def legacyAnonPointerSlots : Nat := 100

def legacyMaxPerFingerprint : Nat := 8

def legacyMaxPerAnonKey : Nat := 3

/-- `starts_with("anon:")` -/
def isLegacyAnon (fp : String) : Bool := "anon:".toList.isPrefixOf fp.toList

/-- `fp_cap` -/
def legacyFpCap (fp : String) : Nat :=
  if isLegacyAnon fp then legacyMaxPerAnonKey else legacyMaxPerFingerprint

/-! ## The records -/

/-- Without an attestation it is anonymous. -/
structure LegacyReplierCred (Cert : Type) where
  postingKey : VerifyingKey
  attestation : Option (AttestationV1 Cert)
  deriving DecidableEq

structure LegacyCreds (Cert : Type) where
  creds : Map (Bytes 32) (LegacyReplierCred Cert)
  deriving DecidableEq

structure LegacyReplyPointer where
  replier : Bytes 32
  fingerprint : String
  targetPost : PostId
  replyPost : PostId
  time : U64
  deriving DecidableEq

structure LegacyAuthorizedReplyPointer where
  ptr : LegacyReplyPointer
  signature : Signature
  deriving DecidableEq

structure LegacyPointers where
  pointers : List LegacyAuthorizedReplyPointer
  deriving DecidableEq

structure LegacyInboxState (Cert : Type) where
  creds : LegacyCreds Cert
  pointers : LegacyPointers
  deriving DecidableEq

structure LegacyInboxDelta (Cert : Type) where
  creds : Option (Map (Bytes 32) (LegacyReplierCred Cert))
  pointers : Option (List LegacyAuthorizedReplyPointer)

instance : EmptyCollection (LegacyInboxState Cert) := ⟨⟨⟨∅⟩, ⟨[]⟩⟩⟩

/-- The encoders of an attestation and of a pointer. -/
structure LegacyInboxCrypto (Cert : Type) extends LegacyCrypto Cert where
  cborAttestationV1 : AttestationV1 Cert → List U8
  cborLegacyReplyPointer : LegacyReplyPointer → List U8

section
variable {Cert : Type} (C : LegacyInboxCrypto Cert)

namespace AttestationV1

variable (att : AttestationV1 Cert)

def fingerprint : String :=
  C.bs58 ((C.blake3 (C.certKey att.certificate).asBytes.toList).toList.take 8)

def canonicalBytes : List U8 := C.cborAttestationV1 att

def contentHash : Bytes 32 := C.blake3 (att.canonicalBytes C)

end AttestationV1

def legacyAnonFingerprint (postingKey : Bytes 32) : String :=
  "anon:" ++ C.bs58 (C.blake3 postingKey.toList).toList

namespace LegacyReplierCred

variable (cred : LegacyReplierCred Cert)

def check (mapKey : Bytes 32) (master : VerifyingKey) : Except String Unit := do
  if cred.postingKey.asBytes ≠ mapKey then throw "credential stored under wrong posting key"
  match cred.attestation with
  | some att =>
    let _ ← mapErr "replier credential invalid" (att.verify C.toLegacyCrypto cred.postingKey master)
  | none => pure ()

def fingerprint : String :=
  match cred.attestation with
  | some att => att.fingerprint C
  | none => legacyAnonFingerprint C cred.postingKey.asBytes

def contentHash : Bytes 32 :=
  match cred.attestation with
  | some att => att.contentHash C
  | none => Bytes.zeros 32

end LegacyReplierCred

namespace LegacyAuthorizedReplyPointer

variable (p : LegacyAuthorizedReplyPointer)

def verifySignature (postingKey : VerifyingKey) : Except String Unit :=
  mapErr "pointer signature invalid"
    (C.verifyStrict postingKey (C.cborLegacyReplyPointer p.ptr) p.signature)

def isAnon : Bool := isLegacyAnon p.ptr.fingerprint

/-- The key of `sort_by_key`. -/
def orderKey : U64 ×ₗ PostId := toLex (p.ptr.time, p.ptr.replyPost)

end LegacyAuthorizedReplyPointer

/-! ## The merge -/

namespace LegacyInboxState

open LegacyAuthorizedReplyPointer

/-- The caps of `canonicalize`: per fingerprint, on the anonymous share, and on everything. -/
def cut (pointers : List LegacyAuthorizedReplyPointer) : List LegacyAuthorizedReplyPointer :=
  let sorted := pointers.insertionSort fun p q => p.orderKey ≤ q.orderKey
  let kept := (capScan compare (·.ptr.fingerprint) legacyFpCap sorted).1
  let anonCount := kept.countP isAnon
  let shared := dropFirst isAnon (anonCount - legacyAnonPointerSlots) kept
  evictFirst isAnon (shared.length - legacyMaxPointers) shared

variable (self : LegacyInboxState Cert) (master : VerifyingKey)

def canonicalize : LegacyInboxState Cert :=
  let pointers := (cut self.pointers.pointers).filter fun p =>
    self.creds.creds[p.ptr.replier]?.any fun c => c.fingerprint C = p.ptr.fingerprint
  let referenced := pointers.map (·.ptr.replier)
  ⟨⟨self.creds.creds.filter fun k _ => k ∈ referenced⟩, ⟨pointers⟩⟩

/-- The loop of `merge` over the credentials of the delta. -/
def seatCreds : List (Bytes 32 × LegacyReplierCred Cert) → Map (Bytes 32) (LegacyReplierCred Cert) →
    Map (Bytes 32) (LegacyReplierCred Cert)
  | [], creds => creds
  | (key, cred) :: rest, creds =>
    match cred.check C key master with
    | .error _ => seatCreds rest creds
    | .ok () =>
      if creds[key]?.any fun held => cred.contentHash C ≤ held.contentHash C then
        seatCreds rest creds
      else seatCreds rest (creds.insert key cred)

/-- The loop of `merge` over the pointers of the delta. -/
def pushPointers (creds : Map (Bytes 32) (LegacyReplierCred Cert)) :
    List LegacyAuthorizedReplyPointer → List LegacyAuthorizedReplyPointer →
      List LegacyAuthorizedReplyPointer
  | [], pointers => pointers
  | p :: rest, pointers =>
    match creds[p.ptr.replier]? with
    | none => pushPointers creds rest pointers
    | some cred =>
      match p.verifySignature C cred.postingKey with
      | .error _ => pushPointers creds rest pointers
      | .ok () =>
        if p.ptr.fingerprint ≠ cred.fingerprint C then pushPointers creds rest pointers
        else if pointers.any fun held => held.ptr.replyPost = p.ptr.replyPost then
          pushPointers creds rest pointers
        else pushPointers creds rest (pointers ++ [p])

def merge (delta : LegacyInboxDelta Cert) : LegacyInboxState Cert :=
  let creds := seatCreds C master (delta.creds.getD ∅).toList self.creds.creds
  let pointers := pushPointers C creds (delta.pointers.getD []) self.pointers.pointers
  canonicalize C ⟨⟨creds⟩, ⟨pointers⟩⟩

/-- The mirror after some merges. -/
def merges (deltas : List (LegacyInboxDelta Cert)) : LegacyInboxState Cert :=
  deltas.foldl (fun self delta => self.merge C master delta) ∅

end LegacyInboxState

end

variable {Cert : Type} {C : LegacyInboxCrypto Cert} {master : VerifyingKey}

theorem LegacyReplierCred.check_key {cred : LegacyReplierCred Cert} {k : Bytes 32}
    (h : cred.check C k master = .ok ()) : cred.postingKey = ⟨k⟩ := by
  simp only [check, throw_bind, guard_eq_ok, not_not] at h
  exact congrArg VerifyingKey.mk h.1

theorem isLegacyAnon_anon (postingKey : Bytes 32) :
    isLegacyAnon (legacyAnonFingerprint C postingKey) = true := by
  rw [isLegacyAnon, legacyAnonFingerprint, String.toList_append, List.isPrefixOf_iff_prefix]
  exact List.prefix_append _ _

/-- Every record of the delta is anonymous. -/
structure LegacyInboxDelta.Anonymous (delta : LegacyInboxDelta Cert) : Prop where
  creds : ∀ (k : Bytes 32) (c : LegacyReplierCred Cert), (delta.creds.getD ∅)[k]? = some c →
    c.attestation = none
  pointers : ∀ p ∈ delta.pointers.getD [], p.isAnon = true

namespace LegacyInboxState

open LegacyAuthorizedReplyPointer

variable {ps qs : List LegacyAuthorizedReplyPointer} {p q : LegacyAuthorizedReplyPointer}

/-- No two pointers of a list share a reply post. -/
def UniqueReplies (ps : List LegacyAuthorizedReplyPointer) : Prop :=
  ps.Pairwise fun p q => p.ptr.replyPost ≠ q.ptr.replyPost

/-! ## What the caps leave -/

/-- The sort of `canonicalize`. -/
def sorted (ps : List LegacyAuthorizedReplyPointer) : List LegacyAuthorizedReplyPointer :=
  ps.insertionSort fun p q => p.orderKey ≤ q.orderKey

theorem sorted_perm (ps : List LegacyAuthorizedReplyPointer) : (sorted ps).Perm ps :=
  List.perm_insertionSort _ ps

/-- The sorted pointers, without those above the caps on their fingerprints. -/
def kept (ps : List LegacyAuthorizedReplyPointer) : List LegacyAuthorizedReplyPointer :=
  newest (scanLayer (·.ptr.fingerprint) legacyFpCap) (sorted ps)

theorem cut_eq (ps : List LegacyAuthorizedReplyPointer) :
    cut ps = cutShare isAnon legacyAnonPointerSlots legacyMaxPointers (kept ps) := by
  simp only [cut, cutShare, kept, sorted, (capScan_spec _ _ _ _).1]

theorem kept_sublist (ps : List LegacyAuthorizedReplyPointer) : (kept ps).Sublist (sorted ps) :=
  newest_sublist _ _

theorem cut_sublist_kept (ps : List LegacyAuthorizedReplyPointer) : (cut ps).Sublist (kept ps) := by
  rw [cut_eq]
  exact cutShare_sublist _

theorem cut_sublist (ps : List LegacyAuthorizedReplyPointer) : (cut ps).Sublist (sorted ps) :=
  (cut_sublist_kept ps).trans (kept_sublist ps)

theorem mem_of_mem_cut (h : p ∈ cut ps) : p ∈ ps :=
  (sorted_perm ps).subset ((cut_sublist ps).subset h)

theorem UniqueReplies.cut (h : UniqueReplies ps) : UniqueReplies (cut ps) :=
  List.Pairwise.sublist (cut_sublist ps)
    (((sorted_perm ps).pairwise_iff fun hne => hne.symm).mpr h)

theorem countP_fingerprint_cut (fp : String) :
    (cut ps).countP (fun p => p.ptr.fingerprint = fp) ≤ legacyFpCap fp :=
  (cut_sublist_kept ps).countP_le.trans
    (countP_newest_le
      (l := scanLayer (fun p : LegacyAuthorizedReplyPointer => p.ptr.fingerprint) legacyFpCap) fp)

theorem countP_isAnon_cut : (cut ps).countP isAnon ≤ legacyAnonPointerSlots := by
  rw [cut_eq]
  exact countP_cutShare_le _

theorem length_cut : (cut ps).length ≤ legacyMaxPointers := by
  rw [cut_eq]
  exact length_cutShare_le _

/-- An attested pointer stays if its fingerprint and the attested pointers fit under their caps. -/
theorem mem_cut_of_attested (hp : p ∈ ps) (hpa : p.isAnon = false)
    (hfp : ps.countP (fun q => q.ptr.fingerprint = p.ptr.fingerprint) ≤
      legacyFpCap p.ptr.fingerprint)
    (hatt : ps.countP (fun q => !q.isAnon) ≤ legacyMaxPointers) : p ∈ cut ps := by
  have hkept : p ∈ kept ps := by
    refine mem_newest_of_countP_le ((sorted_perm ps).mem_iff.mpr hp) ?_
    exact ((sorted_perm ps).countP_eq _).trans_le hfp
  rw [cut_eq]
  refine mem_cutShare_of_not hkept hpa ((kept_sublist ps).countP_le.trans ?_)
  exact ((sorted_perm ps).countP_eq _).trans_le hatt

/-! ## What a merge adds -/

/-- A property of the credentials holds after the loop if it is kept by a credential that passes its
check and is newer than the one that is held. -/
theorem seatCreds_induction {P : Map (Bytes 32) (LegacyReplierCred Cert) → Prop}
    {kcs : List (Bytes 32 × LegacyReplierCred Cert)}
    {creds : Map (Bytes 32) (LegacyReplierCred Cert)} (h : P creds)
    (hstep : ∀ creds, ∀ kc ∈ kcs, P creds → kc.2.check C kc.1 master = .ok () →
      (∀ held, creds[kc.1]? = some held → held.contentHash C < kc.2.contentHash C) →
        P (creds.insert kc.1 kc.2)) : P (seatCreds C master kcs creds) := by
  induction kcs generalizing creds with
  | nil => exact h
  | cons kc kcs ih =>
    have hrest := fun creds kc hkc => hstep creds kc (List.mem_cons_of_mem _ hkc)
    rw [seatCreds]
    split
    · exact ih h hrest
    · rename_i hcheck
      split
      · exact ih h hrest
      · rename_i hnewer
        refine ih (hstep creds kc List.mem_cons_self h hcheck fun held hheld => ?_) hrest
        rw [hheld] at hnewer
        simpa using hnewer

variable (C master) in
/-- The credentials pass their checks. -/
def Checked (creds : Map (Bytes 32) (LegacyReplierCred Cert)) : Prop :=
  ∀ (k : Bytes 32) (c : LegacyReplierCred Cert), creds[k]? = some c → c.check C k master = .ok ()

/-- The pointer belongs to a credential that is held. -/
def Resolved (C : LegacyInboxCrypto Cert) (creds : Map (Bytes 32) (LegacyReplierCred Cert))
    (p : LegacyAuthorizedReplyPointer) : Prop :=
  ∃ c, creds[p.ptr.replier]? = some c ∧ p.ptr.fingerprint = c.fingerprint C ∧
    p.verifySignature C c.postingKey = .ok ()

/-- Credentials that pass their checks are those of the keys that sign. -/
theorem Resolved.signed {creds : Map (Bytes 32) (LegacyReplierCred Cert)}
    (hcreds : Checked C master creds) (hp : Resolved C creds p) :
    p.verifySignature C ⟨p.ptr.replier⟩ = .ok () := by
  obtain ⟨c, hc, -, hsigned⟩ := hp
  rwa [LegacyReplierCred.check_key (hcreds _ c hc)] at hsigned

/-- A property of the pointers holds after the loop if it is kept by a pointer that belongs to a
credential and announces a reply post that is not held. -/
theorem pushPointers_induction {P : List LegacyAuthorizedReplyPointer → Prop}
    {creds : Map (Bytes 32) (LegacyReplierCred Cert)} (h : P ps)
    (hstep : ∀ ps, ∀ p ∈ qs, P ps → Resolved C creds p →
      (∀ held ∈ ps, held.ptr.replyPost ≠ p.ptr.replyPost) → P (ps ++ [p])) :
    P (pushPointers C creds qs ps) := by
  induction qs generalizing ps with
  | nil => exact h
  | cons q qs ih =>
    have hrest := fun ps p hp => hstep ps p (List.mem_cons_of_mem q hp)
    rw [pushPointers]
    split
    · exact ih h hrest
    · rename_i cred hcred
      split
      · exact ih h hrest
      · rename_i hsigned
        split
        · exact ih h hrest
        · rename_i hfp
          split
          · exact ih h hrest
          · rename_i hnew
            refine ih (hstep ps q List.mem_cons_self h ⟨cred, hcred, not_not.mp hfp, hsigned⟩ ?_)
              hrest
            simpa using hnew

/-! ## The invariant -/

variable (C master) in
/-- A valid inbox of the old contract. -/
structure Valid (s : LegacyInboxState Cert) : Prop where
  unique : UniqueReplies s.pointers.pointers
  fingerprints : ∀ fp, (s.pointers.pointers.countP fun p => p.ptr.fingerprint = fp) ≤
    legacyFpCap fp
  anon : s.pointers.pointers.countP isAnon ≤ legacyAnonPointerSlots
  total : s.pointers.pointers.length ≤ legacyMaxPointers
  resolved : ∀ p ∈ s.pointers.pointers, Resolved C s.creds.creds p
  referenced : ∀ k, k ∈ s.creds.creds ↔ ∃ p ∈ s.pointers.pointers, p.ptr.replier = k
  checked : Checked C master s.creds.creds

variable {self : LegacyInboxState Cert} {delta : LegacyInboxDelta Cert}

theorem valid_empty : (∅ : LegacyInboxState Cert).Valid C master where
  unique := .nil
  fingerprints _ := Nat.zero_le _
  anon := Nat.zero_le _
  total := Nat.zero_le _
  resolved := nofun
  referenced k := iff_of_false Std.ExtTreeMap.not_mem_empty nofun
  checked k c hc := by
    rw [show (∅ : LegacyInboxState Cert).creds.creds = ∅ from rfl, Map.getElem?_empty] at hc
    cases hc

theorem mem_canonicalize : p ∈ (self.canonicalize C).pointers.pointers ↔
    p ∈ cut self.pointers.pointers ∧
      ∃ c, self.creds.creds[p.ptr.replier]? = some c ∧ c.fingerprint C = p.ptr.fingerprint := by
  rw [canonicalize, List.mem_filter, Option.any_eq_true]
  simp only [decide_eq_true_eq]

theorem creds_canonicalize {k : Bytes 32} {c : LegacyReplierCred Cert} :
    (self.canonicalize C).creds.creds[k]? = some c ↔ self.creds.creds[k]? = some c ∧
      ∃ p ∈ (self.canonicalize C).pointers.pointers, p.ptr.replier = k := by
  have hcreds : (self.canonicalize C).creds.creds = self.creds.creds.filter fun k _ =>
      k ∈ (self.canonicalize C).pointers.pointers.map (·.ptr.replier) := by
    rw [canonicalize]
  rw [hcreds, Std.ExtTreeMap.getElem?_filter', Option.filter_eq_some_iff, decide_eq_true_eq,
    List.mem_map]

theorem canonicalize_sublist :
    (self.canonicalize C).pointers.pointers.Sublist (cut self.pointers.pointers) := by
  simp only [canonicalize, List.filter_sublist]

/-- `canonicalize` makes a valid inbox of distinct announcements that their repliers signed. -/
theorem valid_canonicalize (hu : UniqueReplies self.pointers.pointers)
    (hsigned : ∀ p ∈ self.pointers.pointers, p.verifySignature C ⟨p.ptr.replier⟩ = .ok ())
    (hchecked : Checked C master self.creds.creds) : (self.canonicalize C).Valid C master where
  unique := List.Pairwise.sublist canonicalize_sublist hu.cut
  fingerprints fp := canonicalize_sublist.countP_le.trans (countP_fingerprint_cut fp)
  anon := canonicalize_sublist.countP_le.trans countP_isAnon_cut
  total := canonicalize_sublist.length_le.trans length_cut
  resolved p hp := by
    obtain ⟨hcut, c, hc, hfp⟩ := mem_canonicalize.mp hp
    refine ⟨c, creds_canonicalize.mpr ⟨hc, p, hp, rfl⟩, hfp.symm, ?_⟩
    rw [LegacyReplierCred.check_key (hchecked _ c hc)]
    exact hsigned p (mem_of_mem_cut hcut)
  referenced k := by
    rw [Map.mem_iff]
    constructor
    · rintro ⟨c, hc⟩
      exact (creds_canonicalize.mp hc).2
    · rintro ⟨p, hp, rfl⟩
      obtain ⟨-, c, hc, -⟩ := mem_canonicalize.mp hp
      exact ⟨c, creds_canonicalize.mpr ⟨hc, p, hp, rfl⟩⟩
  checked k c hc := hchecked k c (creds_canonicalize.mp hc).1

/-! ## The merges -/

section
variable {creds : Map (Bytes 32) (LegacyReplierCred Cert)}

theorem Checked.seatCreds (h : Checked C master creds)
    (kcs : List (Bytes 32 × LegacyReplierCred Cert)) :
    Checked C master (seatCreds C master kcs creds) := by
  refine seatCreds_induction h ?_
  intro creds kc _ hcreds hcheck _ k c hc
  rw [Std.ExtTreeMap.getElem?_insert] at hc
  split at hc
  · rename_i hkey
    obtain rfl := Std.LawfulEqCmp.compare_eq_iff_eq.mp hkey
    obtain rfl := Option.some.inj hc
    exact hcheck
  · exact hcreds k c hc

theorem UniqueReplies.pushPointers (h : UniqueReplies ps) :
    UniqueReplies (pushPointers C creds qs ps) := by
  refine pushPointers_induction h ?_
  intro ps p _ hps _ hnew
  refine List.pairwise_append.mpr ⟨hps, List.pairwise_singleton _ p, fun held hheld q hq => ?_⟩
  rw [List.mem_singleton.mp hq]
  exact hnew held hheld

theorem signed_pushPointers (hcreds : Checked C master creds)
    (h : ∀ p ∈ ps, p.verifySignature C ⟨p.ptr.replier⟩ = .ok ()) :
    ∀ p ∈ pushPointers C creds qs ps, p.verifySignature C ⟨p.ptr.replier⟩ = .ok () := by
  refine pushPointers_induction (P := fun ps => ∀ p ∈ ps,
    p.verifySignature C ⟨p.ptr.replier⟩ = .ok ()) h ?_
  intro ps p _ hps hp _
  exact List.forall_mem_append.mpr ⟨hps, List.forall_mem_singleton.mpr (hp.signed hcreds)⟩

end

theorem Valid.merge (h : self.Valid C master) : (self.merge C master delta).Valid C master := by
  have hchecked := h.checked.seatCreds (delta.creds.getD ∅).toList
  rw [LegacyInboxState.merge]
  exact valid_canonicalize h.unique.pushPointers
    (signed_pushPointers hchecked fun p hp => (h.resolved p hp).signed h.checked) hchecked

theorem merges_concat (deltas : List (LegacyInboxDelta Cert)) : merges C master (deltas ++ [delta]) =
    (merges C master deltas).merge C master delta := by
  rw [merges, List.foldl_append]
  rfl

theorem valid_merges (deltas : List (LegacyInboxDelta Cert)) :
    (merges C master deltas).Valid C master := by
  induction deltas using List.reverseRecOn with
  | nil => exact valid_empty
  | append_singleton deltas delta ih =>
    rw [merges_concat]
    exact ih.merge

/-! ## Anonymous deltas -/

/-- The pointer is held under an attested credential. -/
def Attested (self : LegacyInboxState Cert) (p : LegacyAuthorizedReplyPointer) : Prop :=
  p ∈ self.pointers.pointers ∧
    ∃ c, self.creds.creds[p.ptr.replier]? = some c ∧ c.attestation.isSome

/-- An anonymous credential never replaces one that is held. -/
theorem keeps_seatCreds {kcs : List (Bytes 32 × LegacyReplierCred Cert)}
    (hanon : ∀ kc ∈ kcs, kc.2.attestation = none) (creds : Map (Bytes 32) (LegacyReplierCred Cert)) :
    Register.Keeps creds (seatCreds C master kcs creds) := by
  refine seatCreds_induction (.refl creds) ?_
  intro creds' kc hkc hkeeps _ hnewer
  refine hkeeps.trans (Register.keeps_claim_iff.mpr fun held hheld => ?_)
  have hlt := hnewer held hheld
  rw [show kc.2.contentHash C = Bytes.zeros 32 by
    rw [LegacyReplierCred.contentHash, hanon kc hkc]] at hlt
  exact absurd hlt (not_lt.mpr (Bytes.zeros_le _))

/-- Anonymous pointers leave the attested ones as they are. -/
theorem filter_pushPointers {creds : Map (Bytes 32) (LegacyReplierCred Cert)}
    (hanon : ∀ q ∈ qs, q.isAnon = true) :
    (pushPointers C creds qs ps).filter (fun p => !p.isAnon) = ps.filter fun p => !p.isAnon := by
  refine pushPointers_induction (P := fun ps' => ps'.filter (fun p => !p.isAnon) =
    ps.filter fun p => !p.isAnon) rfl ?_
  intro ps' q hq hps' _ _
  rw [List.filter_append, hps', List.filter_singleton, hanon q hq]
  exact List.append_nil _

theorem countP_attested {f : LegacyAuthorizedReplyPointer → Bool}
    (hf : ∀ q, f q = true → q.isAnon = false) (ps : List LegacyAuthorizedReplyPointer) :
    ps.countP f = (ps.filter fun p => !p.isAnon).countP f := by
  rw [List.countP_filter]
  refine List.countP_congr fun q _ => ?_
  rw [Bool.and_eq_true, Bool.not_eq_true', iff_self_and]
  exact hf q

theorem Valid.fingerprint_of_held (h : self.Valid C master) (hp : p ∈ self.pointers.pointers)
    {c : LegacyReplierCred Cert} (hc : self.creds.creds[p.ptr.replier]? = some c) :
    p.ptr.fingerprint = c.fingerprint C := by
  obtain ⟨c', hc', hfp, -⟩ := h.resolved p hp
  rw [hfp, Option.some.inj (hc.symm.trans hc')]

/-- The pointers that are held under an attested credential are those without the anonymous prefix. -/
theorem Valid.attested_iff (h : self.Valid C master)
    (hfp : ∀ att : AttestationV1 Cert, isLegacyAnon (att.fingerprint C) = false)
    (hp : p ∈ self.pointers.pointers) : self.Attested p ↔ p.isAnon = false := by
  constructor
  · rintro ⟨-, c, hc, hatt⟩
    obtain ⟨att, hatt⟩ := Option.isSome_iff_exists.mp hatt
    rw [isAnon, h.fingerprint_of_held hp hc, LegacyReplierCred.fingerprint, hatt]
    exact hfp att
  · intro hanon
    obtain ⟨c, hc, hresolved, -⟩ := h.resolved p hp
    rw [isAnon, hresolved, LegacyReplierCred.fingerprint] at hanon
    refine ⟨hp, c, hc, ?_⟩
    cases hatt : c.attestation with
    | none =>
      rw [hatt] at hanon
      exact absurd hanon (by rw [isLegacyAnon_anon]; decide)
    | some att => rfl

/-- An attested pointer stays attested: its credential is not replaced, and neither the pointers of
its fingerprint nor all attested ones become more. -/
theorem Attested.merge (h : self.Valid C master)
    (hfp : ∀ att : AttestationV1 Cert, isLegacyAnon (att.fingerprint C) = false)
    (hd : delta.Anonymous) (hp : self.Attested p) : (self.merge C master delta).Attested p := by
  have hpa := (h.attested_iff hfp hp.1).mp hp
  obtain ⟨hp, c, hc, hatt⟩ := hp
  set creds := seatCreds C master (delta.creds.getD ∅).toList self.creds.creds
  have hkeeps : Register.Keeps self.creds.creds creds :=
    keeps_seatCreds (fun kc hkc => hd.creds kc.1 kc.2
      (Std.ExtTreeMap.mem_toList_iff_getElem?_eq_some.mp hkc)) _
  set pushed := pushPointers C creds (delta.pointers.getD []) self.pointers.pointers
  have hfilter : pushed.filter (fun q => !q.isAnon) =
      self.pointers.pointers.filter fun q => !q.isAnon := filter_pushPointers hd.pointers
  have hmem : p ∈ pushed := by
    have hkept : p ∈ self.pointers.pointers.filter fun q => !q.isAnon :=
      List.mem_filter.mpr ⟨hp, by rw [hpa, Bool.not_false]⟩
    rw [← hfilter] at hkept
    exact (List.mem_filter.mp hkept).1
  have hcut : p ∈ cut pushed := by
    refine mem_cut_of_attested hmem hpa ?_ ?_
    · have hf (q : LegacyAuthorizedReplyPointer)
          (hq : decide (q.ptr.fingerprint = p.ptr.fingerprint) = true) : q.isAnon = false := by
        rwa [isAnon, of_decide_eq_true hq]
      rw [countP_attested hf, hfilter, ← countP_attested hf]
      exact h.fingerprints _
    · rw [List.countP_eq_length_filter, hfilter]
      exact (List.length_filter_le _ _).trans h.total
  have hleft : p ∈ (self.merge C master delta).pointers.pointers :=
    mem_canonicalize.mpr ⟨hcut, c, hkeeps _ c hc, (h.fingerprint_of_held hp hc).symm⟩
  exact ⟨hleft, c, creds_canonicalize.mpr ⟨hkeeps _ c hc, p, hleft, rfl⟩, hatt⟩

/-- **The mirror is always a valid inbox, and a flood of anonymous records takes nothing attested.** -/
theorem merges_valid (hfp : ∀ att : AttestationV1 Cert, isLegacyAnon (att.fingerprint C) = false)
    (deltas : List (LegacyInboxDelta Cert)) (delta : LegacyInboxDelta Cert) :
    (merges C master deltas).Valid C master ∧
      (delta.Anonymous → ∀ p, (merges C master deltas).Attested p →
        ((merges C master deltas).merge C master delta).Attested p) :=
  ⟨valid_merges deltas, fun hd _ hp => hp.merge (valid_merges deltas) hfp hd⟩

end LegacyInboxState

namespace Sample

def legacyInboxCrypto : LegacyInboxCrypto VerifyingKey where
  toLegacyCrypto := legacyCrypto
  cborAttestationV1 att := att.scopedPayload ++ att.certificate.asBytes.toList ++ att.signature.toList
  cborLegacyReplyPointer ptr := ptr.replier.toList ++ utf8 ptr.fingerprint ++
    ptr.targetPost.toList ++ ptr.replyPost.toList ++ leBytes 8 ptr.time

/-- The credential of `key b`, attested by `key 8`. -/
def oldCred (b : U8) : LegacyReplierCred VerifyingKey :=
  ⟨key b, some ⟨attestDomain ++ (key b).asBytes.toList, sign 8 1, key 8⟩⟩

/-- The credential of `key b`, and its announcement of a reply post. -/
def oldDelta (cred : LegacyReplierCred VerifyingKey) (post : U8) (time : U64) :
    LegacyInboxDelta VerifyingKey where
  creds := some ((∅ : Map _ _).insert cred.postingKey.asBytes cred)
  pointers := some [⟨⟨cred.postingKey.asBytes, cred.fingerprint legacyInboxCrypto, bytes 16 0,
    bytes 16 post, time⟩, ⟨cred.postingKey.asBytes.toList ++ List.replicate 32 0, by simp⟩⟩]

/-- `key 2` has announced a reply post with its attestation. -/
def oldInbox : LegacyInboxState VerifyingKey :=
  .merges legacyInboxCrypto (key 91) [oldDelta (oldCred 2) 3 7]

end Sample

open Sample in
/-- The pointer stays when the credential is offered without its attestation. -/
theorem LegacyInboxState.merges_valid_downgrade :
    oldInbox.pointers.pointers.length = 1 ∧ (oldDelta ⟨key 2, none⟩ 4 9).Anonymous ∧
      ∀ p ∈ oldInbox.pointers.pointers,
        (oldInbox.merge legacyInboxCrypto (key 91) (oldDelta ⟨key 2, none⟩ 4 9)).Attested p := by
  have hanon : (oldDelta ⟨key 2, none⟩ 4 9).Anonymous := by
    constructor
    · intro k c hc
      rw [oldDelta, Option.getD_some, Std.ExtTreeMap.getElem?_insert] at hc
      split at hc
      · rw [← Option.some.inj hc]
      · rw [Map.getElem?_empty] at hc
        cases hc
    · intro p hp
      obtain rfl := List.mem_singleton.mp hp
      decide +kernel
  have hnot : ∀ p ∈ oldInbox.pointers.pointers, p.isAnon = false := by decide +kernel
  refine ⟨by decide +kernel, hanon, fun p hp => ?_⟩
  have hfp : ∀ att : AttestationV1 VerifyingKey,
      isLegacyAnon (att.fingerprint legacyInboxCrypto) = false := fun _ => anon_isPrefixOf_bs58 _
  have hvalid : oldInbox.Valid legacyInboxCrypto (key 91) := valid_merges _
  exact (merges_valid hfp [oldDelta (oldCred 2) 3 7] _).2 hanon p
    ((hvalid.attested_iff hfp hp).mpr (hnot p hp))

end Freebird
