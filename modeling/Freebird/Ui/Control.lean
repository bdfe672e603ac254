import Freebird.Cell.State

/-!
# The control record

The publisher's control cell tells the clients the deployed build and the feature flags. The cell
contract orders records by number and hash, the client by the build in the body. So the client ends
with the record the network keeps, in whatever order the cells arrive, exactly if no other one has
as high a build (`control_agrees_iff`); a flag that is turned off without a new build is not seen
(`flag_change_ignored`).
-/

namespace Freebird

open Register CellContract

variable {Cert Value : Type}

/-- `Value` is `ciborium::Value`. -/
structure ControlV1 (Value : Type) where
  v : U32
  build : U64
  buildLabel : String
  /-- An absent flag has the client's default. -/
  flags : Map String Value
  deriving DecidableEq

structure ControlCrypto (Cert Value : Type) extends CellCrypto Cert where
  /-- `from_cbor::<ControlV1>` -/
  decodeControl : List U8 → Except String (ControlV1 Value)

variable (C : ControlCrypto Cert Value)

def controlPurpose : String := "control"

def controlParams : CellParametersV1 := ⟨C.publisherKey, controlPurpose⟩

/-- An unreadable body is no control state, not an error. -/
def ControlV1.decode (body : List U8) : Option (ControlV1 Value) := (C.decodeControl body).toOption

/-- `apply_contract_bytes` on the control contract: what `CONTROL` is afterwards. -/
def applyControl (control : Option (ControlV1 Value)) (bytes : List U8) :
    Option (ControlV1 Value) :=
  match C.decodeCell bytes with
  | .error _ => control
  | .ok cell =>
    match cell.check C.toCrypto (controlParams C) with
    | .error _ => control
    | .ok () =>
      match ControlV1.decode C cell.body with
      | none => control
      | some incoming =>
        match control with
        | none => some incoming
        | some held => if held.build < incoming.build then some incoming else some held

/-- `CONTROL` of a client that was handed these bytes, one after another. -/
def controlAfter (deliveries : List (List U8)) : Option (ControlV1 Value) :=
  deliveries.foldl (applyControl C) none

variable {C} {S l : List SignedCellV1} {m cell : SignedCellV1}

theorem applyControl_eq (hC : C.Lawful)
    (hcheck : cell.check C.toCrypto (controlParams C) = .ok ())
    (control : Option (ControlV1 Value)) :
    applyControl C control (C.cborCell cell) =
      newer (slotKey ControlV1.build) control (ControlV1.decode C cell.body) := by
  rw [applyControl, hC.decode_cell]
  simp only [hcheck]
  cases ControlV1.decode C cell.body with
  | none => exact (newer_slot_none control).symm
  | some incoming =>
    cases control with
    | none => exact (newer_none_slot _).symm
    | some held => simp only [newer, slotKey_some, WithBot.coe_lt_coe]

/-- The client is a register as well, with the build for its key. -/
theorem controlAfter_eq (hC : C.Lawful)
    (hcheck : ∀ cell ∈ l, cell.check C.toCrypto (controlParams C) = .ok ()) :
    controlAfter C (l.map C.cborCell) =
      newest (slotKey ControlV1.build) none (l.map fun cell => ControlV1.decode C cell.body) := by
  rw [controlAfter, newest, List.foldl_map, List.foldl_map]
  refine List.foldl_ext _ _ _ fun control cell hcell => ?_
  exact applyControl_eq hC (hcheck cell hcell) control

theorem foldl_merge_eq {C : CellCrypto Cert} (l : List SignedCellV1) :
    l.foldl (merge C) none = newest (slotKey (SignedCellV1.orderKey C)) none (l.map some) := by
  rw [newest, List.foldl_map]
  exact List.foldl_ext _ _ _ fun held cell _ => merge_eq_newer held cell

/-- **Client and network agree**: the contract keeps the cell of the highest number and hash, and
the client ends with its body, in every order, exactly if each other cell has that body or a lower
build. -/
theorem control_agrees_iff (hC : C.Lawful)
    (hcheck : ∀ cell ∈ S, cell.check C.toCrypto (controlParams C) = .ok ())
    (hdecode : ∀ cell ∈ S, ∃ control, ControlV1.decode C cell.body = some control)
    (hm : m ∈ S) (hmax : ∀ cell ∈ S, cell.orderKey C.toCellCrypto ≤ m.orderKey C.toCellCrypto) :
    (Set.InjOn (SignedCellV1.contentHash C.toCellCrypto) {cell | cell ∈ S} →
      ∀ l : List SignedCellV1, (∀ cell, cell ∈ l ↔ cell ∈ S) →
        l.foldl (merge C.toCellCrypto) none = some m) ∧
    ((∀ l : List SignedCellV1, (∀ cell, cell ∈ l ↔ cell ∈ S) →
        controlAfter C (l.map C.cborCell) = ControlV1.decode C m.body) ↔
      ∀ cell ∈ S, ∀ control held, ControlV1.decode C cell.body = some control →
        ControlV1.decode C m.body = some held → control = held ∨ control.build < held.build) := by
  obtain ⟨held, hheld⟩ := hdecode m hm
  refine ⟨fun hinj => ?_, ?_⟩
  · have hbot : slotKey (SignedCellV1.orderKey C.toCellCrypto) none <
        slotKey (SignedCellV1.orderKey C.toCellCrypto) (some m) := WithBot.bot_lt_coe _
    have hruns := (newest_eq_iff (g := some) hm hbot).mpr fun cell hcell => by
      refine (hmax cell hcell).lt_or_eq.symm.imp (fun he => ?_) WithBot.coe_lt_coe.mpr
      exact congrArg some (SignedCellV1.orderKey_injOn hinj hcell hm he)
    intro l hl
    rw [foldl_merge_eq]
    exact hruns l hl
  · have hbot : slotKey ControlV1.build (none : Option (ControlV1 Value)) <
        slotKey ControlV1.build (ControlV1.decode C m.body) := by
      rw [hheld]
      exact WithBot.bot_lt_coe _
    refine Iff.trans ?_ ((newest_eq_iff (g := fun cell => ControlV1.decode C cell.body) hm
      hbot).trans ?_)
    · refine forall₂_congr fun l hl => ?_
      rw [controlAfter_eq hC fun cell hcell => hcheck cell ((hl cell).mp hcell)]
    · refine forall₂_congr fun cell hcell => ?_
      obtain ⟨control, hcontrol⟩ := hdecode cell hcell
      simp only [hcontrol, hheld, slotKey_some, WithBot.coe_lt_coe, Option.some.injEq]
      refine ⟨?_, fun h => h control held rfl rfl⟩
      rintro h _ _ rfl rfl
      exact h

namespace Sample

/-- A body is a build and whether the old feeds are still read. -/
def controlCrypto : ControlCrypto VerifyingKey Bool where
  toCellCrypto := cellCrypto
  decodeControl
    | [build, read] =>
      .ok ⟨1, Fin.ofNat _ build, "", (∅ : Map String Bool).insert "read_v1_feed" (read ≠ 0)⟩
    | _ => .error "end of file"

def opened : SignedCellV1 := written 1 [5, 1] 1

def closed : SignedCellV1 := written 2 [5, 0] 2

def nextBuild : SignedCellV1 := written 3 [6, 0] 3

end Sample

open Sample in
theorem control_agrees_iff_build :
    (∀ l : List SignedCellV1, (∀ cell, cell ∈ l ↔ cell ∈ [opened, nextBuild]) →
      l.foldl (merge cellCrypto) none = some nextBuild) ∧
    ∀ l : List SignedCellV1, (∀ cell, cell ∈ l ↔ cell ∈ [opened, nextBuild]) →
      controlAfter controlCrypto (l.map cellCrypto.cborCell) =
        ControlV1.decode controlCrypto nextBuild.body := by
  have hdecode : ∀ cell ∈ [opened, nextBuild],
      ∃ control, ControlV1.decode controlCrypto cell.body = some control :=
    List.forall_mem_cons.mpr ⟨⟨_, rfl⟩, List.forall_mem_singleton.mpr ⟨_, rfl⟩⟩
  have hnodup : ([opened, nextBuild].map (SignedCellV1.contentHash cellCrypto)).Nodup := by
    decide +kernel
  have hbuilds : ∀ cell ∈ [opened, nextBuild], ∀ control ∈ ControlV1.decode controlCrypto cell.body,
      ∀ held ∈ ControlV1.decode controlCrypto nextBuild.body,
        control = held ∨ control.build < held.build := by
    decide +kernel
  obtain ⟨hmerge, hclient⟩ := control_agrees_iff (C := controlCrypto) cellCrypto_lawful
    (by decide +kernel) hdecode (List.mem_cons_of_mem _ List.mem_cons_self) (by decide +kernel)
  refine ⟨hmerge (injOn_of_nodup hnodup), hclient.mpr ?_⟩
  intro cell hcell control held hcontrol hheld
  exact hbuilds cell hcell control hcontrol held hheld

open Sample in
/-- The publisher turns a flag off: the network has the record, the client stays with the old
one. -/
theorem flag_change_ignored :
    (∀ cell ∈ [opened, closed], cell.check crypto (controlParams controlCrypto) = .ok ()) ∧
    opened.orderKey cellCrypto < closed.orderKey cellCrypto ∧
    [opened, closed].foldl (merge cellCrypto) none = some closed ∧
    controlAfter controlCrypto ([opened, closed].map cellCrypto.cborCell) =
      ControlV1.decode controlCrypto opened.body ∧
    ControlV1.decode controlCrypto opened.body ≠ ControlV1.decode controlCrypto closed.body := by
  decide +kernel

end Freebird
