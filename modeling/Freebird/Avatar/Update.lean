import Freebird.Contract.Payload

/-!
# The avatar contract

An account has one avatar, the newest it signed by time and hash. A time beyond the future bound
would win for good, so such an avatar is dropped, whether it was stored or comes in, before anything
is compared. An update leaves the newest of the others, and fails if there are none
(`update_heals`).
-/

namespace Freebird

open Register

variable {Cert : Type}

structure AvatarParametersV1 where
  author : VerifyingKey
  deriving DecidableEq

structure AuthorizedAvatar where
  avatar : AvatarV1
  signature : Signature
  deriving DecidableEq

structure AvatarCrypto (Cert : Type) extends Crypto Cert where
  cborAvatar : AuthorizedAvatar → List U8
  /-- `from_cbor::<AuthorizedAvatar>` -/
  decodeAvatar : List U8 → Except String AuthorizedAvatar
  /-- `from_cbor::<AvatarParametersV1>` -/
  decodeAvatarParameters : List U8 → Except String AvatarParametersV1

variable (C : AvatarCrypto Cert)

def maxAvatarBytes : Nat := 64 * 1024

/-! ## Validity -/

/-- The type that the first bytes give away. -/
def sniffMime (data : List U8) : Option String :=
  if [0x89, 0x50, 0x4E, 0x47, 0x0D, 0x0A, 0x1A, 0x0A].isPrefixOf data then some "image/png"
  else if [0xFF, 0xD8, 0xFF].isPrefixOf data then some "image/jpeg"
  else if 12 ≤ data.length ∧ data.take 4 = ascii "RIFF" ∧ (data.drop 8).take 4 = ascii "WEBP" then
    some "image/webp"
  else if (ascii "GIF8").isPrefixOf data then some "image/gif"
  else none

namespace AuthorizedAvatar

def verifySignature (a : AuthorizedAvatar) (author : VerifyingKey) : Except String Unit :=
  mapErr "avatar signature invalid" <|
    C.verifyStrict author (a.avatar.signingPayload C.toCrypto) a.signature

def orderKey (a : AuthorizedAvatar) : U64 ×ₗ Bytes 32 :=
  toLex (a.avatar.time, C.blake3 (C.cborAvatar a))

/-- `check_avatar` -/
def check (a : AuthorizedAvatar) (author : VerifyingKey) : Except String Unit := do
  if maxAvatarBytes < a.avatar.data.length then throw s!"avatar over {maxAvatarBytes} bytes"
  if a.avatar.contentType ∉ ["image/png", "image/jpeg", "image/webp"] then
    throw s!"unsupported avatar content-type: {a.avatar.contentType}"
  if sniffMime a.avatar.data ≠ some a.avatar.contentType then
    throw "avatar bytes do not match declared content-type"
  a.verifySignature C author

/-- The time lies beyond the future bound. -/
def far (now : U64) (a : AuthorizedAvatar) : Bool := futureBound now < a.avatar.time.val

end AuthorizedAvatar

namespace AvatarContract

/-- What is asked of a stored avatar. -/
def check (a : AuthorizedAvatar) (parameters : AvatarParametersV1) (now : U64) :
    Except String Unit := do
  if a.far now then throw "avatar timestamp too far in the future"
  a.check C parameters.author

def validateState (parameters state : List U8) (now : U64) :
    Except ContractError ValidateResult := do
  if state = [] then return .valid
  let avatar ← deser C.decodeAvatar state "state"
  let parameters ← deser C.decodeAvatarParameters parameters "parameters"
  match check C avatar parameters now with
  | .ok () => return .valid
  | .error _ => return .invalid

/-- A payload is merged; one beyond the bound is skipped and not an error. -/
def merge (parameters : AvatarParametersV1) (now : U64) (current : Option AuthorizedAvatar)
    (bytes : List U8) : Except ContractError (Option AuthorizedAvatar) := do
  if bytes = [] then return current
  let incoming ← deser C.decodeAvatar bytes "incoming avatar"
  if incoming.far now then return current
  let incoming ← orInvalid (incoming.check C parameters.author, incoming)
  match current with
  | none => return some incoming
  | some held => return if held.orderKey C < incoming.orderKey C then some incoming else some held

def shell (parameters : AvatarParametersV1) (now : U64) :
    Shell (Option AuthorizedAvatar) (List U8) (List U8) where
  receive := merge C parameters now
  apply := merge C parameters now

/-- A stored avatar beyond the bound is dropped, so that it does not win for good. -/
def scrub (now : U64) (current : Option AuthorizedAvatar) : Option AuthorizedAvatar :=
  if current.any (·.far now) then none else current

def updateAt (parameters : AvatarParametersV1) (state : List U8) (data : List PayloadUpdate)
    (now : U64) : Except ContractError (List U8) := do
  let current ← deserOption C.decodeAvatar state "state"
  match ← (shell C parameters now).loop (scrub now current) data with
  | some avatar => return C.cborAvatar avatar
  | none => throw .invalidUpdate

def updateState (parameters state : List U8) (data : List PayloadUpdate) (now : U64) :
    Except ContractError (List U8) := do
  let parameters ← deser C.decodeAvatarParameters parameters "parameters"
  updateAt C parameters state data now

end AvatarContract

/-! ## Payloads -/

/-- The avatar in a payload, unless it is beyond the bound. -/
def avatarIn (now : U64) (bytes : List U8) : Option AuthorizedAvatar :=
  if bytes = [] then none else (C.decodeAvatar bytes).toOption.filter fun a => !a.far now

/-- Zero bytes, or the bytes of an avatar that is beyond the bound or passes the check. -/
def AvatarPayload (parameters : AvatarParametersV1) (now : U64) (bytes : List U8) : Prop :=
  bytes = [] ∨ ∃ a, C.decodeAvatar bytes = .ok a ∧
    (a.far now = false → a.check C parameters.author = .ok ())

variable {C} {parameters : AvatarParametersV1} {now : U64} {bytes state : List U8}
  {a : AuthorizedAvatar}

/-- A payload brings nothing, as it is empty or beyond the bound, or an avatar that passes the
check. -/
theorem AvatarPayload.cases (h : AvatarPayload C parameters now bytes) :
    bytes = [] ∨ bytes ≠ [] ∧ ∃ a, C.decodeAvatar bytes = .ok a ∧
      (a.far now = true ∧ avatarIn C now bytes = none ∨
        a.far now = false ∧ avatarIn C now bytes = some a ∧
          a.check C parameters.author = .ok ()) := by
  by_cases hne : bytes = []
  · exact .inl hne
  · obtain ⟨a, hdecode, hcheck⟩ := h.resolve_left hne
    have hin : avatarIn C now bytes = (some a).filter fun a => !a.far now := by
      rw [avatarIn, if_neg hne, hdecode]
      rfl
    refine .inr ⟨hne, a, hdecode, ?_⟩
    cases hfar : a.far now with
    | true => exact .inl ⟨rfl, by rw [hin]; simp [hfar]⟩
    | false => exact .inr ⟨rfl, by rw [hin]; simp [hfar], hcheck hfar⟩

theorem AvatarPayload.check (h : AvatarPayload C parameters now bytes)
    (ha : avatarIn C now bytes = some a) :
    a.check C parameters.author = .ok () ∧ a.avatar.time.val ≤ futureBound now := by
  rcases h.cases with rfl | ⟨-, b, -, ⟨-, hnone⟩ | ⟨hfar, hsome, hcheck⟩⟩
  · cases ha
  · cases hnone.symm.trans ha
  · obtain rfl := Option.some.inj (hsome.symm.trans ha)
    exact ⟨hcheck, not_lt.mp (of_decide_eq_false hfar)⟩

namespace AvatarContract

/-- A state that is accepted is such a payload, and brings an avatar unless it is empty. -/
theorem payload_of_valid {bytes' : List U8}
    (hparams : C.decodeAvatarParameters bytes' = .ok parameters)
    (h : validateState C bytes' state now = .ok .valid) :
    AvatarPayload C parameters now state := by
  by_cases hne : state = []
  · exact .inl hne
  · rw [validateState, if_neg hne] at h
    obtain ⟨a, hdecode, h⟩ := bind_eq_ok.mp h
    rw [deser_eq_ok.mpr hparams, ok_bind] at h
    refine .inr ⟨a, deser_eq_ok.mp hdecode, fun _ => ?_⟩
    cases hcheck : check C a parameters now with
    | ok u =>
      simp only [check, throw_bind, guard_eq_ok] at hcheck
      exact hcheck.2
    | error e =>
      rw [hcheck] at h
      cases h

theorem merge_eq (h : AvatarPayload C parameters now bytes) (current : Option AuthorizedAvatar) :
    merge C parameters now current bytes =
      .ok (newer (slotKey (AuthorizedAvatar.orderKey C)) current (avatarIn C now bytes)) := by
  rcases h.cases with rfl | ⟨hne, a, hdecode, ⟨hfar, hnone⟩ | ⟨hfar, hsome, hcheck⟩⟩
  · exact congrArg Except.ok (newer_slot_none current).symm
  · rw [merge, if_neg hne, deser_eq_ok.mpr hdecode, ok_bind, if_pos hfar, hnone, newer_slot_none]
    rfl
  · rw [merge, if_neg hne, deser_eq_ok.mpr hdecode, ok_bind, if_neg (by simp [hfar]), hsome,
      orInvalid_eq_ok.mpr (congrArg (·, a) hcheck), ok_bind]
    cases current with
    | none => exact congrArg Except.ok (newer_none_slot _).symm
    | some held =>
      simp only [newer, slotKey_some, WithBot.coe_lt_coe]
      rfl

variable {data : List PayloadUpdate}

/-- What the scrub leaves of the stored avatar. -/
theorem scrub_eq (h : AvatarPayload C parameters now state) :
    ∃ current, deserOption C.decodeAvatar state "state" = .ok current ∧
      scrub now current = avatarIn C now state := by
  rcases h.cases with rfl | ⟨hne, a, hdecode, ⟨hfar, hnone⟩ | ⟨hfar, hsome, -⟩⟩
  · exact ⟨none, rfl, rfl⟩
  · refine ⟨some a, deserOption_eq_some hne hdecode, ?_⟩
    rw [hnone, scrub, Option.any_some, if_pos hfar]
  · refine ⟨some a, deserOption_eq_some hne hdecode, ?_⟩
    rw [hsome, scrub, Option.any_some, hfar]
    rfl

/-- **One update**: the newest of the avatars that count is left, if there is one. -/
theorem updateAt_eq (hstate : AvatarPayload C parameters now state)
    (hknown : ∀ update ∈ data, update ≠ .related)
    (hpay : ∀ bytes ∈ data.flatMap UpdateData.payloads, AvatarPayload C parameters now bytes) :
    updateAt C parameters state data now =
      (heldAfter (AuthorizedAvatar.orderKey C) (avatarIn C now) state data).elim
        (.error .invalidUpdate) fun a => .ok (C.cborAvatar a) := by
  obtain ⟨current, hdecode, hscrub⟩ := scrub_eq hstate
  have hloop : (shell C parameters now).loop (avatarIn C now state) data =
      .ok (heldAfter (AuthorizedAvatar.orderKey C) (avatarIn C now) state data) :=
    Shell.loop_payloads hknown fun bytes hbytes current =>
      ⟨merge_eq (hpay bytes hbytes) current, merge_eq (hpay bytes hbytes) current⟩
  rw [updateAt, hdecode, ok_bind, hscrub, hloop, ok_bind]
  cases heldAfter (AuthorizedAvatar.orderKey C) (avatarIn C now) state data <;> rfl

/-- **An update heals the slot**: it leaves the newest of the avatars that are not beyond the bound,
one that passes the check, and fails exactly if there are none. -/
theorem update_heals (hstate : AvatarPayload C parameters now state)
    (hknown : ∀ update ∈ data, update ≠ .related)
    (hpay : ∀ bytes ∈ data.flatMap UpdateData.payloads, AvatarPayload C parameters now bytes) :
    ((∃ b, some b ∈ slots (avatarIn C now) state data) →
      ∃ a, updateAt C parameters state data now = .ok (C.cborAvatar a) ∧
        some a ∈ slots (avatarIn C now) state data ∧
        (∀ b, some b ∈ slots (avatarIn C now) state data → b.orderKey C ≤ a.orderKey C) ∧
        a.check C parameters.author = .ok () ∧ a.avatar.time.val ≤ futureBound now) ∧
    ((∃ e, updateAt C parameters state data now = .error e) ↔
      ¬∃ b, some b ∈ slots (avatarIn C now) state data) := by
  rw [updateAt_eq hstate hknown hpay]
  cases hheld : heldAfter (AuthorizedAvatar.orderKey C) (avatarIn C now) state data with
  | none =>
    have hnone : ¬∃ b, some b ∈ slots (avatarIn C now) state data := by
      rintro ⟨b, hb⟩
      exact Option.some_ne_none b (newest_slot_eq_none.mp hheld _ hb)
    exact ⟨fun hb => absurd hb hnone, iff_of_true ⟨_, rfl⟩ hnone⟩
  | some a =>
    have hmem := mem_slots_of_held hheld
    obtain ⟨bytes, hbytes, ha⟩ := List.mem_map.mp hmem
    have hcheck := (List.forall_mem_cons.mpr ⟨hstate, hpay⟩ bytes hbytes).check ha
    refine ⟨fun _ => ⟨a, rfl, hmem, fun b hb => le_newest_slot hheld hb, hcheck⟩, ?_⟩
    exact iff_of_false nofun (not_not.mpr ⟨a, hmem⟩)

end AvatarContract

namespace Sample

def avatarCrypto : AvatarCrypto VerifyingKey where
  toCrypto := crypto
  cborAvatar a := leBytes 8 a.avatar.time ++ (a.avatar.data ++ a.signature.toList)
  decodeAvatar bytes :=
    let rest := bytes.drop 8
    let data := rest.take (rest.length - 64)
    match arrayOf 64 (rest.drop (rest.length - 64)) with
    | some sig =>
      .ok ⟨⟨(sniffMime data).getD "", data, Fin.ofNat _ (leValue (bytes.take 8))⟩, sig⟩
    | none => .error "end of file"
  decodeAvatarParameters bytes := (arrayOf 32 bytes).elim (.error "end of file") (.ok ⟨⟨·⟩⟩)

/-- An image of `key 5`. -/
def picture (time : U64) : AuthorizedAvatar :=
  ⟨⟨"image/jpeg", [0xFF, 0xD8, 0xFF, 0], time⟩, sign 5 0⟩

/-- A picture from the far future, with an honest one behind it. -/
def poisoned : List PayloadUpdate :=
  [.stateAndDelta (avatarCrypto.cborAvatar (picture (2 ^ 64 - 2)))
    (some (avatarCrypto.cborAvatar (picture 7)))]

end Sample

namespace AvatarContract

open Sample in
theorem update_heals_poison :
    updateAt avatarCrypto ⟨key 5⟩ (avatarCrypto.cborAvatar (picture (2 ^ 64 - 1))) poisoned
      1000000 = .ok (avatarCrypto.cborAvatar (picture 7)) := by
  have hstate : AvatarPayload avatarCrypto ⟨key 5⟩ 1000000
      (avatarCrypto.cborAvatar (picture (2 ^ 64 - 1))) :=
    .inr ⟨picture (2 ^ 64 - 1), by decide +kernel, by decide +kernel⟩
  have hdata : ∀ bytes ∈ poisoned.flatMap UpdateData.payloads,
      AvatarPayload avatarCrypto ⟨key 5⟩ 1000000 bytes := by
    refine List.forall_mem_cons.mpr ⟨?_, List.forall_mem_singleton.mpr ?_⟩
    · exact .inr ⟨picture (2 ^ 64 - 2), by decide +kernel, by decide +kernel⟩
    · exact .inr ⟨picture 7, by decide +kernel, by decide +kernel⟩
  have hslots : slots (avatarIn avatarCrypto 1000000)
      (avatarCrypto.cborAvatar (picture (2 ^ 64 - 1))) poisoned = [none, none, some (picture 7)] := by
    decide +kernel
  obtain ⟨hsome, -⟩ := update_heals hstate (by simp [poisoned]) hdata
  rw [hslots] at hsome
  obtain ⟨a, hok, hmem, -⟩ := hsome ⟨picture 7, by simp⟩
  obtain rfl : a = picture 7 := by simpa using hmem
  exact hok

end AvatarContract

end Freebird
