import Freebird.Common.Crypto

/-!
# Signed cells and the difficulty latch

A cell is valid when its owner signed its purpose, sequence number and body hash. The contracts use
cells of the publisher for one thing: the record of the anonymous proof-of-work difficulty. A record
is latched when it is genuine and newer (`adoptDifficulty`), and read back clamped
(`difficultyBits`); anonymous entries are admitted against the latched bits.
-/

namespace Freebird

variable {Cert : Type} (C : Crypto Cert)

/-! ## Cells -/

def cellSignDomain : List U8 := ascii "freebird-cell-v1"

def maxBodyBytes : Nat := 64 * 1024

structure CellParametersV1 where
  owner : VerifyingKey
  purpose : String
  deriving DecidableEq

/-- The bytes of a string (`as_bytes`). -/
def utf8 (s : String) : List U8 := s.toUTF8.toList.map fun b => Fin.ofNat 256 b.toNat

def cellSigningPayload (purpose : String) (seq : U64) (body : List U8) : List U8 :=
  cellSignDomain ++ leBytes 4 (utf8 purpose).length ++ utf8 purpose ++ leBytes 8 seq ++
    (C.blake3 body).toList

def SignedCellV1.check (cell : SignedCellV1) (params : CellParametersV1) : Except String Unit :=
  if maxBodyBytes < cell.body.length then throw s!"cell body over {maxBodyBytes} bytes"
  else mapErr "cell signature invalid" <|
    C.verifyStrict params.owner (cellSigningPayload C params.purpose cell.seq cell.body) cell.sig

/-! ## The difficulty record -/

def powFloorBits : Nat := 20

def powCeilingBits : Nat := 26

def powPurpose : String := "pow"

def powDomainInbox : List U8 := ascii "freebird-pow-inbox-v1"

def powDomainDirectory : List U8 := ascii "freebird-pow-dir-v1"

def powParams : CellParametersV1 := ⟨C.publisherKey, powPurpose⟩

/-- A genuine record of the publisher. -/
def SignedCellV1.genuine (cell : SignedCellV1) : Bool := (cell.check C (powParams C)).isOk

/-- `u8::clamp(POW_FLOOR_BITS, POW_CEILING_BITS)` -/
def clampBits (bits : Nat) : Nat := max powFloorBits (min bits powCeilingBits)

/-- The bits an anonymous write has to clear under a latched record. -/
def difficultyBits (record : Option SignedCellV1) : Nat :=
  match record with
  | some cell =>
    if cell.genuine C then clampBits (cell.body.head?.elim powFloorBits Fin.val) else powFloorBits
  | none => powFloorBits

def difficultySeq (record : Option SignedCellV1) : U64 :=
  match record with
  | some cell => cell.seq
  | none => 0

/-- The latch after `incoming` has been offered to it. -/
def adoptDifficulty (held incoming : Option SignedCellV1) : Option SignedCellV1 :=
  match incoming with
  | none => held
  | some cell =>
    if cell.seq ≤ difficultySeq held ∨ cell.genuine C = false then held else some cell

/-! ## Proof of work -/

def powHash (domain : List U8) (key : Bytes 32) (binding : List U8) (nonce : U64) : Bytes 32 :=
  C.blake3 (domain ++ key.toList ++ binding ++ leBytes 8 nonce)

/-- `u8::leading_zeros` -/
def leadingZeros (byte : U8) : Nat := 8 - Nat.size byte

def leadingZeroBits : List U8 → Nat
  | [] => 0
  | byte :: bytes => if byte = 0 then 8 + leadingZeroBits bytes else leadingZeros byte

def meets (domain : List U8) (key : Bytes 32) (binding : List U8) (nonce : U64) (bits : Nat) :
    Bool :=
  bits ≤ leadingZeroBits (powHash C domain key binding nonce).toList

def meetsInbox (owner replier : Bytes 32) (nonce : U64) (bits : Nat) : Bool :=
  meets C powDomainInbox replier owner.toList nonce bits

def meetsDirectory (author : Bytes 32) (nonce : U64) (bits : Nat) : Bool :=
  meets C powDomainDirectory author [] nonce bits

/-! ## Facts about the latch -/

variable {C}

theorem SignedCellV1.genuine_iff {cell : SignedCellV1} :
    cell.genuine C = true ↔ cell.check C (powParams C) = .ok () := by
  rw [genuine]
  cases cell.check C (powParams C) <;> simp [Except.isOk, Except.toBool]

theorem floor_le_difficultyBits (record : Option SignedCellV1) :
    powFloorBits ≤ difficultyBits C record := by
  unfold difficultyBits
  split
  · split
    · exact le_max_left _ _
    · exact le_rfl
  · exact le_rfl

theorem meets_mono (h : bits ≤ bits') (hm : meets C domain key binding nonce bits' = true) :
    meets C domain key binding nonce bits = true := by
  simp only [meets, decide_eq_true_eq] at hm ⊢
  exact h.trans hm

/-- A stamp that clears the latched bits clears the compiled floor. -/
theorem meetsInbox_floor (h : meetsInbox C owner replier nonce (difficultyBits C record) = true) :
    meetsInbox C owner replier nonce powFloorBits = true :=
  meets_mono (floor_le_difficultyBits record) h

@[simp] theorem adoptDifficulty_none (held : Option SignedCellV1) :
    adoptDifficulty C held none = held := rfl

/-- The latch either stays or takes a genuine record with a higher sequence number. -/
theorem adoptDifficulty_cases (held incoming : Option SignedCellV1) :
    adoptDifficulty C held incoming = held ∨
      ∃ cell, incoming = some cell ∧ adoptDifficulty C held incoming = some cell ∧
        difficultySeq held < cell.seq ∧ cell.genuine C = true := by
  cases incoming with
  | none => exact .inl rfl
  | some cell =>
    by_cases h : cell.seq ≤ difficultySeq held ∨ cell.genuine C = false
    · exact .inl (by simp [adoptDifficulty, h])
    · refine .inr ⟨cell, rfl, by simp [adoptDifficulty, h], ?_, ?_⟩
      · exact not_le.mp fun hle => h (.inl hle)
      · exact Bool.eq_true_of_not_eq_false fun hg => h (.inr hg)

/-- A genuine latch stays genuine, whatever is offered to it. -/
theorem genuine_adoptDifficulty {held incoming : Option SignedCellV1}
    (h : ∀ cell, held = some cell → cell.genuine C = true) (cell : SignedCellV1)
    (hc : adoptDifficulty C held incoming = some cell) : cell.genuine C = true := by
  rcases adoptDifficulty_cases (C := C) held incoming with hh | ⟨cell', -, hh, -, hg⟩
  · exact h cell (hh ▸ hc)
  · obtain rfl := Option.some.inj (hh.symm.trans hc)
    exact hg

theorem difficultySeq_adopt_le (held incoming : Option SignedCellV1) :
    difficultySeq held ≤ difficultySeq (adoptDifficulty C held incoming) := by
  rcases adoptDifficulty_cases (C := C) held incoming with h | ⟨cell, -, h, hlt, -⟩
  · rw [h]
  · rw [h]; exact hlt.le

/-- After a genuine record has been offered, the latch is no older than it. -/
theorem le_difficultySeq_adopt (held : Option SignedCellV1)
    (h : ∀ cell, incoming = some cell → cell.genuine C = true) :
    difficultySeq incoming ≤ difficultySeq (adoptDifficulty C held incoming) := by
  cases incoming with
  | none => exact Fin.zero_le _
  | some cell =>
    by_cases hle : cell.seq ≤ difficultySeq held
    · exact hle.trans (difficultySeq_adopt_le held _)
    · simp [adoptDifficulty, hle, h cell rfl]

/-- A record that is no newer than the latch leaves it alone. -/
theorem adoptDifficulty_of_seq_le (h : difficultySeq incoming ≤ difficultySeq held) :
    adoptDifficulty C held incoming = held := by
  cases incoming with
  | none => rfl
  | some cell => exact if_pos (.inl h)

end Freebird
