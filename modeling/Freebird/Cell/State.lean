import Freebird.Contract.Payload

/-!
# The cell contract

The state of a cell is one signed record, or zero bytes before the first one was written. The
contract checks the signature and never decodes the body: of two records the one with the higher
number is kept, and between records of one number the hash decides.
-/

namespace Freebird

open Register

variable {Cert : Type}

/-- The order of records: number, then hash of the encoding. -/
abbrev CellSummaryV1 := U64 ×ₗ Bytes 32

/-- The other direction of the encoders, and the encoding of a summary. -/
structure CellCrypto (Cert : Type) extends Crypto Cert where
  /-- `from_cbor::<SignedCellV1>` -/
  decodeCell : List U8 → Except String SignedCellV1
  /-- `from_cbor::<CellParametersV1>` -/
  decodeParameters : List U8 → Except String CellParametersV1
  cborSummary : CellSummaryV1 → List U8
  decodeSummary : List U8 → Except String CellSummaryV1

variable (C : CellCrypto Cert)

/-- What is encoded is read back, and zero bytes are the encoding of nothing. -/
structure CellCrypto.Lawful : Prop where
  decode_cell (cell : SignedCellV1) : C.decodeCell (C.cborCell cell) = .ok cell
  decode_summary (key : CellSummaryV1) : C.decodeSummary (C.cborSummary key) = .ok key
  cell_nil : ∃ e, C.decodeCell [] = .error e
  summary_nil : ∃ e, C.decodeSummary [] = .error e

namespace SignedCellV1

def contentHash (cell : SignedCellV1) : Bytes 32 := C.blake3 (C.cborCell cell)

def orderKey (cell : SignedCellV1) : CellSummaryV1 := toLex (cell.seq, cell.contentHash C)

end SignedCellV1

namespace CellContract

/-- A record that was checked is merged into the one held. -/
def merge (held : Option SignedCellV1) (incoming : SignedCellV1) : Option SignedCellV1 :=
  match held with
  | none => some incoming
  | some cell => if cell.orderKey C < incoming.orderKey C then some incoming else some cell

def checkedCell (bytes : List U8) (params : CellParametersV1) (what : String) :
    Except ContractError (Option SignedCellV1) := do
  if bytes = [] then return none
  let cell ← deser C.decodeCell bytes what
  orInvalid (cell.check C.toCrypto params, some cell)

def validateState (parameters state : List U8) : Except ContractError ValidateResult := do
  if state = [] then return .valid
  let params ← deser C.decodeParameters parameters "parameters"
  let cell ← deser C.decodeCell state "state"
  match cell.check C.toCrypto params with
  | .ok () => return .valid
  | .error _ => return .invalid

/-- What a payload does to the record held. -/
def take (params : CellParametersV1) (what : String) (held : Option SignedCellV1)
    (bytes : List U8) : Except ContractError (Option SignedCellV1) := do
  match ← checkedCell C bytes params what with
  | some cell => return merge C held cell
  | none => return held

def shell (params : CellParametersV1) : Shell (Option SignedCellV1) (List U8) (List U8) where
  receive := take C params "incoming state"
  apply := take C params "delta"

/-- The bytes of a record that may be absent. -/
def stored (held : Option SignedCellV1) : List U8 := held.elim [] C.cborCell

def updateState (parameters state : List U8) (data : List PayloadUpdate) :
    Except ContractError (List U8) := do
  let params ← deser C.decodeParameters parameters "parameters"
  let held ← checkedCell C state params "state"
  let held ← (shell C params).loop held data
  return stored C held

def summarizeState (state : List U8) : Except ContractError (List U8) := do
  if state = [] then return []
  let cell ← deser C.decodeCell state "state"
  return C.cborSummary (cell.orderKey C)

def getStateDelta (state summary : List U8) : Except ContractError (List U8) := do
  if state = [] then return []
  let cell ← deser C.decodeCell state "state"
  -- A peer that has nothing sends zero bytes.
  match ← deserOption C.decodeSummary summary "summary" with
  | none => return C.cborCell cell
  | some held => if held < cell.orderKey C then return C.cborCell cell else return []

end CellContract

/-! ## Payloads -/

/-- The record in a payload. -/
def cellIn (bytes : List U8) : Option SignedCellV1 :=
  if bytes = [] then none else (C.decodeCell bytes).toOption

/-- Zero bytes, or the bytes of a record that passes the check. -/
def CellPayload (params : CellParametersV1) (bytes : List U8) : Prop :=
  bytes = [] ∨ ∃ cell, C.decodeCell bytes = .ok cell ∧ cell.check C.toCrypto params = .ok ()

variable {C} {params : CellParametersV1} {bytes : List U8} {cell : SignedCellV1}
  {held : Option SignedCellV1}

@[simp] theorem cellIn_nil : cellIn C [] = none := rfl

theorem cellIn_eq_some (hne : bytes ≠ []) :
    cellIn C bytes = some cell ↔ C.decodeCell bytes = .ok cell := by
  rw [cellIn, if_neg hne]
  cases C.decodeCell bytes <;> simp [Except.toOption]

/-- A payload brings nothing, or a record that passes the check. -/
theorem CellPayload.cases (h : CellPayload C params bytes) : bytes = [] ∨
    bytes ≠ [] ∧ ∃ cell, C.decodeCell bytes = .ok cell ∧ cellIn C bytes = some cell ∧
      cell.check C.toCrypto params = .ok () := by
  by_cases hne : bytes = []
  · exact .inl hne
  · obtain ⟨cell, hcell, hcheck⟩ := h.resolve_left hne
    exact .inr ⟨hne, cell, hcell, (cellIn_eq_some hne).mpr hcell, hcheck⟩

theorem CellPayload.check (h : CellPayload C params bytes) (hcell : cellIn C bytes = some cell) :
    cell.check C.toCrypto params = .ok () := by
  rcases h.cases with rfl | ⟨-, cell', -, hcell', hcheck⟩
  · cases hcell
  · obtain rfl := Option.some.inj (hcell'.symm.trans hcell)
    exact hcheck

/-- Where the hash tells the records apart, so does the order. -/
theorem SignedCellV1.orderKey_injOn {S : Set SignedCellV1} (h : S.InjOn (contentHash C)) :
    S.InjOn (orderKey C) := fun _ hx _ hy he => h hx hy (congrArg (fun k => (ofLex k).2) he)

namespace CellContract

theorem cborCell_ne_nil (hC : C.Lawful) : C.cborCell cell ≠ [] := by
  intro h
  obtain ⟨e, he⟩ := hC.cell_nil
  have hcell := hC.decode_cell cell
  rw [h, he] at hcell
  cases hcell

theorem cborSummary_ne_nil (hC : C.Lawful) {key : CellSummaryV1} : C.cborSummary key ≠ [] := by
  intro h
  obtain ⟨e, he⟩ := hC.summary_nil
  have hkey := hC.decode_summary key
  rw [h, he] at hkey
  cases hkey

@[simp] theorem cellIn_stored (hC : C.Lawful) : cellIn C (stored C held) = held := by
  cases held with
  | none => rfl
  | some cell => exact (cellIn_eq_some (cborCell_ne_nil hC)).mpr (hC.decode_cell cell)

theorem payload_stored (hC : C.Lawful)
    (h : ∀ cell, held = some cell → cell.check C.toCrypto params = .ok ()) :
    CellPayload C params (stored C held) := by
  cases held with
  | none => exact .inl rfl
  | some cell => exact .inr ⟨cell, hC.decode_cell cell, h cell rfl⟩

/-! ## The entry points -/

theorem merge_eq_newer (held : Option SignedCellV1) (cell : SignedCellV1) :
    merge C held cell = newer (slotKey (SignedCellV1.orderKey C)) held (some cell) := by
  cases held with
  | none => exact (newer_none_slot _).symm
  | some h => simp only [merge, newer, slotKey_some, WithBot.coe_lt_coe]

theorem checkedCell_eq {what : String} (h : CellPayload C params bytes) :
    checkedCell C bytes params what = .ok (cellIn C bytes) := by
  rcases h.cases with rfl | ⟨hne, cell, hdecode, hcell, hcheck⟩
  · rfl
  · rw [checkedCell, if_neg hne, deser_eq_ok.mpr hdecode, hcell]
    exact orInvalid_eq_ok.mpr (congrArg (·, some cell) hcheck)

/-- A payload is offered to the slot. -/
theorem take_eq {what : String} (h : CellPayload C params bytes) (held : Option SignedCellV1) :
    take C params what held bytes =
      .ok (newer (slotKey (SignedCellV1.orderKey C)) held (cellIn C bytes)) := by
  rw [take, checkedCell_eq h]
  cases hcell : cellIn C bytes with
  | none =>
    rw [newer_slot_none]
    rfl
  | some cell => exact congrArg Except.ok (merge_eq_newer held cell)

/-- The states that are accepted are these payloads. -/
theorem validateState_eq_valid {parameters : List U8}
    (hparams : C.decodeParameters parameters = .ok params) :
    validateState C parameters bytes = .ok .valid ↔ CellPayload C params bytes := by
  by_cases hne : bytes = []
  · refine iff_of_true ?_ (.inl hne)
    rw [validateState, if_pos hne]
    rfl
  · rw [validateState, if_neg hne, deser_eq_ok.mpr hparams, ok_bind, CellPayload, or_iff_right hne]
    refine bind_eq_ok.trans (exists_congr fun cell => and_congr deser_eq_ok ?_)
    cases cell.check C.toCrypto params <;> simp [pure_eq_ok]

variable {parameters state : List U8} {data : List PayloadUpdate}

/-- What is left of payloads that are in order passes the check. -/
theorem check_heldAfter (hstate : CellPayload C params state)
    (hpay : ∀ bytes ∈ data.flatMap UpdateData.payloads, CellPayload C params bytes)
    (h : heldAfter (SignedCellV1.orderKey C) (cellIn C) state data = some cell) :
    cell.check C.toCrypto params = .ok () := by
  obtain ⟨bytes, hbytes, hcell⟩ := List.mem_map.mp (mem_slots_of_held h)
  exact (List.forall_mem_cons.mpr ⟨hstate, hpay⟩ bytes hbytes).check hcell

/-- **One update**: what is stored afterwards is the newest of the record before and those that
came. -/
theorem updateState_eq (hparams : C.decodeParameters parameters = .ok params)
    (hstate : CellPayload C params state) (hdata : ∀ update ∈ data, update ≠ .related)
    (hpay : ∀ bytes ∈ data.flatMap UpdateData.payloads, CellPayload C params bytes) :
    updateState C parameters state data =
      .ok (stored C (heldAfter (SignedCellV1.orderKey C) (cellIn C) state data)) := by
  have hloop : (shell C params).loop (cellIn C state) data =
      .ok (heldAfter (SignedCellV1.orderKey C) (cellIn C) state data) :=
    Shell.loop_payloads hdata fun bytes hbytes held =>
      ⟨take_eq (hpay bytes hbytes) held, take_eq (hpay bytes hbytes) held⟩
  rw [updateState, deser_eq_ok.mpr hparams, ok_bind, checkedCell_eq hstate, ok_bind, hloop]
  rfl

theorem summarizeState_eq (hne : bytes ≠ []) (hdecode : C.decodeCell bytes = .ok cell) :
    summarizeState C bytes = .ok (C.cborSummary (cell.orderKey C)) := by
  rw [summarizeState, if_neg hne, deser_eq_ok.mpr hdecode]
  rfl

theorem exists_summary (h : CellPayload C params bytes) :
    ∃ summary, summarizeState C bytes = .ok summary := by
  rcases h.cases with rfl | ⟨hne, cell, hdecode, -, -⟩
  · exact ⟨[], rfl⟩
  · exact ⟨_, summarizeState_eq hne hdecode⟩

/-- **One direction of an exchange**: what is sent to a peer is what our slot offers to theirs. -/
theorem getStateDelta_eq (hC : C.Lawful) {ours theirs : List U8}
    (hours : CellPayload C params ours) (htheirs : CellPayload C params theirs) :
    ∃ summary, summarizeState C theirs = .ok summary ∧ getStateDelta C ours summary =
      .ok (stored C ((offer (slotKey (SignedCellV1.orderKey C)) (cellIn C ours)
        (slotKey (SignedCellV1.orderKey C) (cellIn C theirs))).getD none)) := by
  rcases hours.cases with rfl | ⟨hne, cell, hdecode, hcell, -⟩
  · obtain ⟨summary, hsummary⟩ := exists_summary htheirs
    refine ⟨summary, hsummary, ?_⟩
    rw [cellIn_nil, offer_none_slot]
    rfl
  · rcases htheirs.cases with rfl | ⟨hne', held, hdecode', hheld, -⟩
    · refine ⟨[], rfl, ?_⟩
      rw [getStateDelta, if_neg hne, deser_eq_ok.mpr hdecode, hcell, cellIn_nil, offer, if_pos]
      · rfl
      · exact WithBot.bot_lt_coe _
    · refine ⟨_, summarizeState_eq hne' hdecode', ?_⟩
      rw [getStateDelta, if_neg hne, deser_eq_ok.mpr hdecode, ok_bind,
        deserOption_eq_some (cborSummary_ne_nil hC) (hC.decode_summary _), hcell, hheld, offer]
      simp only [slotKey_some, WithBot.coe_lt_coe]
      split
      · rename_i hlt
        exact if_pos hlt
      · rename_i hle
        exact if_neg hle

end CellContract

/-! ## Samples -/

namespace Sample

def cellCrypto : CellCrypto VerifyingKey where
  toCrypto := crypto
  decodeCell bytes :=
    let rest := bytes.drop 8
    match arrayOf 64 (rest.drop (rest.length - 64)) with
    | some sig => .ok ⟨Fin.ofNat _ (leValue (bytes.take 8)), rest.take (rest.length - 64), sig⟩
    | none => .error "end of file"
  decodeParameters bytes := .ok ⟨⟨Bytes.zeros 32⟩, String.ofList (bytes.map fun b => Char.ofNat b)⟩
  cborSummary key := leBytes 8 (ofLex key).1 ++ (ofLex key).2.toList
  decodeSummary bytes :=
    match arrayOf 32 (bytes.drop 8) with
    | some hash => .ok (toLex (Fin.ofNat _ (leValue (bytes.take 8)), hash))
    | none => .error "end of file"

theorem cellCrypto_lawful : cellCrypto.Lawful where
  decode_cell cell := by
    have hcbor : cellCrypto.cborCell cell = leBytes 8 cell.seq ++ (cell.body ++ cell.sig.toList) :=
      List.append_assoc ..
    have hbody : (cell.body ++ cell.sig.toList).length - 64 = cell.body.length := by
      rw [List.length_append, Bytes.length_toList, Nat.add_sub_cancel]
    rw [hcbor, cellCrypto]
    simp only [List.drop_left' (length_leBytes 8 _), List.take_left' (length_leBytes 8 _), hbody,
      List.drop_left' rfl, List.take_left' rfl, arrayOf_toList, ofNat_leValue]
  decode_summary key := by
    rw [cellCrypto]
    simp only [List.drop_left' (length_leBytes 8 _), List.take_left' (length_leBytes 8 _),
      arrayOf_toList, ofNat_leValue]
    rfl
  cell_nil := ⟨_, rfl⟩
  summary_nil := ⟨_, rfl⟩

def controlBytes : List U8 := ascii "control"

/-- A record of the publisher; `tail` tells two hashes apart. -/
def written (seq : U64) (body : List U8) (tail : U8) : SignedCellV1 := ⟨seq, body, sign 0 tail⟩

def controlParameters : CellParametersV1 := ⟨⟨Bytes.zeros 32⟩, "control"⟩

theorem payload_written (seq : U64) (b tail : U8) : CellPayload cellCrypto controlParameters
    (cellCrypto.cborCell (written seq [b] tail)) := by
  refine .inr ⟨_, cellCrypto_lawful.decode_cell _, ?_⟩
  rfl

theorem injOn_of_nodup {records : List SignedCellV1}
    (h : (records.map (SignedCellV1.contentHash cellCrypto)).Nodup) :
    Set.InjOn (SignedCellV1.contentHash cellCrypto) {cell | cell ∈ records} :=
  fun _ hx _ hy he => List.inj_on_of_nodup_map h hx hy he

end Sample

end Freebird
