import Freebird.Common.Bytes

/-!
# What the contracts take from other crates

Signatures (`ed25519_dalek`), hashes (`blake3`), base 58 (`bs58`), certificates (`ghostkey_lib`) and
the serializer (`ciborium`) are parameters of the model: `Crypto` has one field for each function
the contracts call, and no law about any of them. A result that needs a law names it.
-/

namespace Freebird

structure VerifyingKey where
  asBytes : Bytes 32
  deriving DecidableEq

/-- An Ed25519 signature, compared by its bytes. -/
abbrev Signature := Bytes 64

/-- `AttestationV2`: a ghost key's signature over a scoped payload, countersigned by the posting
key. `Cert` is `GhostkeyCertificateV1`. -/
structure AttestationV2 (Cert : Type) where
  scopedPayload : List U8
  signature : Signature
  pop : Signature
  certificate : Cert
  deriving DecidableEq

/-- `SignedCellV1`: an owner-signed record with an opaque body. -/
structure SignedCellV1 where
  seq : U64
  body : List U8
  sig : Signature
  deriving DecidableEq

/-- `ScopedPayloadWire`, with the requestor as `RequestorWire` decodes it: the id of a web app, or
`none` for anything else. -/
structure ScopedPayloadWire where
  requestor : Option (Bytes 32)
  payload : List U8

structure Crypto (Cert : Type) where
  blake3 : List U8 → Bytes 32
  /-- `bs58::encode(..).into_string()` -/
  bs58 : List U8 → String
  /-- The id behind `FREEBIRD_WEBAPP_ID`, decoded. -/
  webappId : Bytes 32
  /-- `VerifyingKey::from_bytes` -/
  keyFromBytes : Bytes 32 → Except String VerifyingKey
  verifyStrict : VerifyingKey → List U8 → Signature → Except String Unit
  /-- `GhostkeyCertificateV1::verify`: the chain up to the master key, giving the notary info. -/
  certVerify : Cert → VerifyingKey → Except String String
  certKey : Cert → VerifyingKey
  /-- `from_cbor::<ScopedPayloadWire>` -/
  decodeScoped : List U8 → Except String ScopedPayloadWire
  cborAttestation : AttestationV2 Cert → List U8
  cborCell : SignedCellV1 → List U8
  /-- `freebird_pow::publisher_key` -/
  publisherKey : VerifyingKey

variable {Cert : Type} (C : Crypto Cert)

/-- `map_err(|e| format!("{what}: {e}"))` -/
def mapErr (what : String) : Except String α → Except String α
  | .ok a => .ok a
  | .error e => .error (what ++ ": " ++ e)

theorem bind_eq_ok {x : Except ε α} {f : α → Except ε β} {b : β} :
    (x >>= f) = .ok b ↔ ∃ a, x = .ok a ∧ f a = .ok b := by
  cases x <;> simp [bind, Except.bind]

theorem seq_eq_ok {x : Except ε Unit} {f : Unit → Except ε β} {b : β} :
    (x >>= f) = .ok b ↔ x = .ok () ∧ f () = .ok b :=
  bind_eq_ok.trans ⟨fun ⟨_, h⟩ => h, fun h => ⟨_, h⟩⟩

theorem map_eq_ok {x : Except ε α} {f : α → β} {b : β} :
    x.map f = .ok b ↔ ∃ a, x = .ok a ∧ f a = b := by
  cases x <;> simp [Except.map]

theorem throw_bind {e : ε} {f : α → Except ε β} : (throw e >>= f) = .error e := rfl

theorem throw_ne_ok {e : ε} {a : α} : (throw e : Except ε α) ≠ .ok a := nofun

theorem pure_eq_ok {a : α} : (pure a : Except ε α) = .ok a := rfl

/-- A guard that throws. -/
theorem guard_eq_ok {c : Prop} [Decidable c] {e : ε} {x : Except ε β} {b : β} :
    (if c then .error e else x) = .ok b ↔ ¬c ∧ x = .ok b := by
  by_cases c <;> simp [*]

theorem forM_eq_ok {f : α → Except ε Unit} {l : List α} :
    l.forM f = .ok () ↔ ∀ x ∈ l, f x = .ok () := by
  induction l with
  | nil => simp [pure_eq_ok]
  | cons x l ih =>
    rw [List.forall_mem_cons, ← ih]
    exact seq_eq_ok

/-- A loop over `windows(2)` that checks the order of neighbours. -/
theorem windows_eq_ok [LinearOrder κ] {f : List α → Except ε Unit} {key : α → κ} {e : ε}
    (hnil : f [] = .ok ()) (hone : ∀ x, f [x] = .ok ())
    (hcons : ∀ x y l, f (x :: y :: l) = if key y < key x then .error e else f (y :: l))
    {l : List α} : f l = .ok () ↔ l.Pairwise fun x y => key x ≤ key y := by
  have : IsTrans α fun x y => key x ≤ key y := ⟨fun _ _ _ => le_trans⟩
  rw [← List.isChain_iff_pairwise]
  induction l with
  | nil => simp [hnil]
  | cons x l ih =>
    cases l with
    | nil => simp [hone]
    | cons y l =>
      rw [hcons, guard_eq_ok, not_lt, List.isChain_cons_cons]
      exact and_congr_right fun _ => ih

@[simp] theorem mapErr_eq_ok {x : Except String α} {a : α} : mapErr what x = .ok a ↔ x = .ok a := by
  cases x <;> simp [mapErr]

/-- The ASCII bytes of a domain tag. -/
def ascii (s : String) : List U8 := s.toList.map fun c => Fin.ofNat 256 c.toNat

def attestDomainV2 : List U8 := ascii "freebird:attest:v2:"

def attestPopDomain : List U8 := ascii "freebird:attest-pop:v1:"

/-- The message the posting key countersigns. -/
def popMessage (ghostSignature : Signature) : List U8 := attestPopDomain ++ ghostSignature.toList

namespace AttestationV2

variable (att : AttestationV2 Cert)

/-- The full chain, the requestor, the binding to `postingKey` and the proof of possession. -/
def verify (postingKey master : VerifyingKey) : Except String String := do
  let tier ← mapErr "certificate chain invalid" (C.certVerify att.certificate master)
  mapErr "attestation signature invalid" <|
    C.verifyStrict (C.certKey att.certificate) att.scopedPayload att.signature
  let wire ← C.decodeScoped att.scopedPayload
  if wire.requestor ≠ some C.webappId then
    throw "attestation requestor is not the Freebird webapp"
  if wire.payload ≠ attestDomainV2 ++ postingKey.asBytes.toList then
    throw "attestation payload does not bind this posting key"
  mapErr "attestation proof-of-possession invalid" <|
    C.verifyStrict postingKey (popMessage att.signature) att.pop
  return tier

/-- The ghost key's fingerprint: eight bytes of the key's hash in base 58. -/
def fingerprint : String :=
  C.bs58 ((C.blake3 (C.certKey att.certificate).asBytes.toList).toList.take 8)

def canonicalBytes : List U8 := C.cborAttestation att

def contentHash : Bytes 32 := C.blake3 (att.canonicalBytes C)

end AttestationV2

/-! ## An instance to evaluate the contracts on -/

namespace Sample

/-- The array of `n` bytes `b`. -/
def bytes (n : Nat) (b : U8) : Bytes n := ⟨List.replicate n b, List.length_replicate ..⟩

def key (b : U8) : VerifyingKey := ⟨bytes 32 b⟩

/-- The signature of `key b`; `tail` tells two of them apart. -/
def sign (b tail : U8) : Signature := ⟨List.replicate 32 b ++ List.replicate 32 tail, by simp⟩

/-- Signatures start with the key that made them, the hash of a message is its end read backwards,
so that a stamp is as good as its nonce is small, and a certificate is the key it is for. -/
def crypto : Crypto VerifyingKey where
  blake3 input := ⟨(input.reverse ++ List.replicate 32 0).take 32, by simp⟩
  bs58 input := String.ofList (input.map fun b => Char.ofNat (256 + b))
  webappId := Bytes.zeros 32
  keyFromBytes key := .ok ⟨key⟩
  verifyStrict key _ sig :=
    if sig.toList.take 32 = key.asBytes.toList then .ok () else .error "bad signature"
  certVerify _ _ := .ok "notary"
  certKey cert := cert
  decodeScoped payload := .ok ⟨some (Bytes.zeros 32), payload⟩
  cborAttestation att := att.scopedPayload ++ att.certificate.asBytes.toList ++
    att.signature.toList ++ att.pop.toList
  cborCell cell := leBytes 8 cell.seq ++ cell.body ++ cell.sig.toList
  publisherKey := ⟨Bytes.zeros 32⟩

theorem anon_isPrefixOf_bs58 (input : List U8) :
    "anon:".toList.isPrefixOf (crypto.bs58 input).toList = false := by
  rw [crypto, String.toList_ofList, String.toList_ofList]
  cases input with
  | nil => rfl
  | cons b bs =>
    have hb : ∀ b : U8, ('a' == Char.ofNat (256 + b)) = false := by decide +kernel
    change ('a' == _ && _) = false
    rw [hb, Bool.false_and]

/-- The attestation of the ghost key `ghost` for `key b`. -/
def attestation (b ghost version : U8) : AttestationV2 VerifyingKey where
  scopedPayload := attestDomainV2 ++ (key b).asBytes.toList
  signature := sign ghost 0
  pop := sign b version
  certificate := key ghost

/-- A difficulty record of the publisher. -/
def record (seq : U64) (bits : U8) : SignedCellV1 := ⟨seq, [bits], sign 0 0⟩

end Sample

end Freebird
