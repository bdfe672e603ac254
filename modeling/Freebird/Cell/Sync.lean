import Freebird.Cell.State

/-!
# Replicas of a cell

The record a replica holds is the newest of those it was handed, in whatever updates and calls they
came. Two replicas that each send what the other's summary asks for end with the same bytes, and
have nothing left to send then (`replicas_sync`).
-/

namespace Freebird

open Register

variable {Cert : Type} {C : CellCrypto Cert} {params : CellParametersV1}
  {parameters state bytes a b : List U8} {cell : SignedCellV1} {held : Option SignedCellV1}

namespace CellContract

/-- The updates of a call and the payloads in them are in order. -/
structure Orderly (C : CellCrypto Cert) (params : CellParametersV1) (data : List PayloadUpdate) :
    Prop where
  known : ∀ update ∈ data, update ≠ .related
  payloads : ∀ bytes ∈ data.flatMap UpdateData.payloads, CellPayload C params bytes

theorem Orderly.append {data data' : List PayloadUpdate} (h : Orderly C params (data ++ data')) :
    Orderly C params data ∧ Orderly C params data' := by
  have hknown := List.forall_mem_append.mp h.known
  have hpay := h.payloads
  rw [List.flatMap_append] at hpay
  have hpay := List.forall_mem_append.mp hpay
  exact ⟨⟨hknown.1, hpay.1⟩, ⟨hknown.2, hpay.2⟩⟩

/-- What is stored after a call is where the next one starts. -/
theorem heldAfter_stored (hC : C.Lawful) (state : List U8) (data data' : List PayloadUpdate) :
    heldAfter (SignedCellV1.orderKey C) (cellIn C)
      (stored C (heldAfter (SignedCellV1.orderKey C) (cellIn C) state data)) data' =
      heldAfter (SignedCellV1.orderKey C) (cellIn C) state (data ++ data') := by
  rw [heldAfter_append, heldAfter, cellIn_stored hC]

theorem payload_heldAfter (hC : C.Lawful) (hstate : CellPayload C params state)
    {data : List PayloadUpdate} (hdata : Orderly C params data) :
    CellPayload C params (stored C (heldAfter (SignedCellV1.orderKey C) (cellIn C) state data)) :=
  payload_stored hC fun _ => check_heldAfter hstate hdata.payloads

/-- **A run of calls** leaves what a single call with all their updates leaves. -/
theorem foldlM_updateState (hC : C.Lawful) (hparams : C.decodeParameters parameters = .ok params)
    (hstate : CellPayload C params state) {first : List PayloadUpdate}
    {rest : List (List PayloadUpdate)} (h : Orderly C params (first :: rest).flatten) :
    (first :: rest).foldlM (updateState C parameters) state =
      .ok (stored C (heldAfter (SignedCellV1.orderKey C) (cellIn C) state
        (first :: rest).flatten)) := by
  induction rest generalizing first state with
  | nil =>
    rw [List.flatten_singleton] at h ⊢
    rw [List.foldlM_cons, updateState_eq hparams hstate h.known h.payloads]
    rfl
  | cons next rest ih =>
    rw [List.flatten_cons] at h ⊢
    obtain ⟨hfirst, hrest⟩ := h.append
    rw [List.foldlM_cons, updateState_eq hparams hstate hfirst.known hfirst.payloads, ok_bind,
      ← heldAfter_stored hC]
    exact ih (payload_heldAfter hC hstate hfirst) hrest

/-- What a run of calls stores is accepted. -/
theorem validateState_run (hC : C.Lawful) (hparams : C.decodeParameters parameters = .ok params)
    (hstate : CellPayload C params state) {first : List PayloadUpdate}
    {rest : List (List PayloadUpdate)} (h : Orderly C params (first :: rest).flatten) :
    ∃ out, (first :: rest).foldlM (updateState C parameters) state = .ok out ∧
      validateState C parameters out = .ok .valid :=
  ⟨_, foldlM_updateState hC hparams hstate h,
    (validateState_eq_valid hparams).mpr (payload_heldAfter hC hstate h)⟩

/-! ## An exchange -/

/-- What a replica is sent, its slot is offered. -/
theorem updateState_delta (hparams : C.decodeParameters parameters = .ok params)
    (hstate : CellPayload C params state) (hdelta : CellPayload C params bytes) :
    updateState C parameters state [.delta (some bytes)] = .ok (stored C
      (newer (slotKey (SignedCellV1.orderKey C)) (cellIn C state) (cellIn C bytes))) := by
  rw [updateState_eq hparams hstate (by simp) (by simpa using hdelta)]
  rfl

/-- A replica that applies what another one sends it holds the newer of the two records. -/
theorem updateState_sent (hC : C.Lawful) (hparams : C.decodeParameters parameters = .ok params)
    (ha : CellPayload C params a) (hb : CellPayload C params b) :
    ∃ summary delta, summarizeState C a = .ok summary ∧ getStateDelta C b summary = .ok delta ∧
      updateState C parameters a [.delta (some delta)] = .ok (stored C
        (newer (slotKey (SignedCellV1.orderKey C)) (cellIn C a) (cellIn C b))) := by
  obtain ⟨summary, hsummary, hdelta⟩ := getStateDelta_eq hC hb ha
  have hpay : CellPayload C params (stored C
      ((offer (slotKey (SignedCellV1.orderKey C)) (cellIn C b)
        (slotKey (SignedCellV1.orderKey C) (cellIn C a))).getD none)) :=
    payload_stored hC fun cell hcell => hb.check (eq_of_offer_slot hcell)
  refine ⟨summary, _, hsummary, hdelta, ?_⟩
  rw [updateState_delta hparams ha hpay, cellIn_stored hC, newer_slot_offer]

/-- A replica has nothing to send to one that holds the same. -/
theorem getStateDelta_self (hC : C.Lawful) (h : CellPayload C params a) :
    ∃ summary, summarizeState C a = .ok summary ∧ getStateDelta C a summary = .ok [] := by
  obtain ⟨summary, hsummary, hdelta⟩ := getStateDelta_eq hC h h
  rw [offer_eq_none_iff.mpr le_rfl] at hdelta
  exact ⟨summary, hsummary, hdelta⟩

/-- **Replicas of a cell sync**: a run of calls stores the newest of all records it was given, and
two replicas that exchange what they have end with the same bytes and fall silent. -/
theorem replicas_sync (hC : C.Lawful) (hparams : C.decodeParameters parameters = .ok params) :
    (∀ (state : List U8) (first : List PayloadUpdate) (rest : List (List PayloadUpdate)),
      CellPayload C params state → Orderly C params (first :: rest).flatten →
      Set.InjOn (SignedCellV1.contentHash C)
        {cell | some cell ∈ slots (cellIn C) state (first :: rest).flatten} →
      ∃ held, (first :: rest).foldlM (updateState C parameters) state = .ok (stored C held) ∧
        ∀ cell, held = some cell ↔ some cell ∈ slots (cellIn C) state (first :: rest).flatten ∧
          ∀ other, some other ∈ slots (cellIn C) state (first :: rest).flatten →
            other.orderKey C ≤ cell.orderKey C) ∧
    ∀ a b : List U8, CellPayload C params a → CellPayload C params b →
      Set.InjOn (SignedCellV1.contentHash C)
        {cell | cellIn C a = some cell ∨ cellIn C b = some cell} →
      ∃ summary summary' delta delta' held,
        summarizeState C a = .ok summary ∧ summarizeState C b = .ok summary' ∧
        getStateDelta C b summary = .ok delta ∧ getStateDelta C a summary' = .ok delta' ∧
        updateState C parameters a [.delta (some delta)] = .ok held ∧
        updateState C parameters b [.delta (some delta')] = .ok held ∧
        ∃ summary, summarizeState C held = .ok summary ∧ getStateDelta C held summary = .ok [] := by
  refine ⟨fun state first rest hstate hdata hinj => ?_, fun a b ha hb hinj => ?_⟩
  · refine ⟨_, foldlM_updateState hC hparams hstate hdata, fun cell => ?_⟩
    exact newest_slot_eq_some (SignedCellV1.orderKey_injOn hinj)
  · obtain ⟨summary, delta, hsummary, hdelta, hheld⟩ := updateState_sent hC hparams ha hb
    obtain ⟨summary', delta', hsummary', hdelta', hheld'⟩ := updateState_sent hC hparams hb ha
    have hkeys := SignedCellV1.orderKey_injOn (hinj.mono fun _ => Or.symm)
    rw [newer_comm (slotKey_inj hkeys)] at hheld'
    have hpay : CellPayload C params (stored C
        (newer (slotKey (SignedCellV1.orderKey C)) (cellIn C a) (cellIn C b))) := by
      refine payload_stored hC fun cell hcell => ?_
      rcases newer_eq_or (slotKey (SignedCellV1.orderKey C)) (cellIn C a) (cellIn C b) with he | he
      · exact ha.check (he.symm.trans hcell)
      · exact hb.check (he.symm.trans hcell)
    exact ⟨summary, summary', delta, delta', _, hsummary, hsummary', hdelta, hdelta', hheld, hheld',
      getStateDelta_self hC hpay⟩

end CellContract

namespace Sample

open CellContract

/-- Two calls; the second one brings two records of one number. -/
def calls : List (List PayloadUpdate) :=
  [[.state (cellCrypto.cborCell (written 3 [1] 1)), .delta (some [])],
    [.stateAndDelta (cellCrypto.cborCell (written 5 [3] 3))
      (some (cellCrypto.cborCell (written 5 [2] 2)))]]

def records : List SignedCellV1 := [written 3 [1] 1, written 5 [2] 2, written 5 [3] 3]

theorem injOn_records {S : Set SignedCellV1} (h : ∀ cell ∈ S, cell ∈ records) :
    S.InjOn (SignedCellV1.contentHash cellCrypto) :=
  (injOn_of_nodup (by decide +kernel)).mono h

theorem orderly_calls : Orderly cellCrypto controlParameters calls.flatten where
  known := by simp [calls]
  payloads := by
    refine List.forall_mem_cons.mpr ⟨payload_written 3 1 1, ?_⟩
    refine List.forall_mem_cons.mpr ⟨.inl rfl, ?_⟩
    refine List.forall_mem_cons.mpr ⟨payload_written 5 3 3, ?_⟩
    exact List.forall_mem_singleton.mpr (payload_written 5 2 2)

end Sample

namespace CellContract

open Sample in
theorem replicas_sync_tie :
    (∃ held, calls.foldlM (updateState cellCrypto controlBytes) [] = .ok (stored cellCrypto held) ∧
      held = some (written 5 [3] 3)) ∧
    ∃ delta held, getStateDelta cellCrypto (cellCrypto.cborCell (written 5 [2] 2)) [] = .ok delta ∧
      updateState cellCrypto controlBytes [] [.delta (some delta)] = .ok held ∧
      ∃ summary, summarizeState cellCrypto held = .ok summary ∧
        getStateDelta cellCrypto held summary = .ok [] := by
  have hparams : cellCrypto.decodeParameters controlBytes = .ok controlParameters := by
    decide +kernel
  have hslots : slots (cellIn cellCrypto) [] calls.flatten =
      [none, some (written 3 [1] 1), none, some (written 5 [3] 3), some (written 5 [2] 2)] := by
    decide +kernel
  have hcells (cell) (h : some cell ∈ slots (cellIn cellCrypto) [] calls.flatten) :
      cell ∈ records := by
    rw [hslots] at h
    simpa [records, or_comm, or_left_comm] using h
  have hcell (cell) (h : cellIn cellCrypto [] = some cell ∨
      cellIn cellCrypto (cellCrypto.cborCell (written 5 [2] 2)) = some cell) : cell ∈ records := by
    rcases h with h | h
    · cases h
    · have hin : cellIn cellCrypto (cellCrypto.cborCell (written 5 [2] 2)) =
          some (written 5 [2] 2) := by
        decide +kernel
      obtain rfl := Option.some.inj (hin.symm.trans h)
      decide
  obtain ⟨hrun, hexchange⟩ := replicas_sync cellCrypto_lawful hparams
  refine ⟨?_, ?_⟩
  · obtain ⟨held, hok, hheld⟩ := hrun [] _ _ (.inl rfl) orderly_calls (injOn_records hcells)
    have hheads : ∀ other ∈ records,
        other.orderKey cellCrypto ≤ (written 5 [3] 3).orderKey cellCrypto := by
      decide +kernel
    refine ⟨held, hok, (hheld _).mpr ⟨?_, fun other hother => hheads other (hcells other hother)⟩⟩
    exact hslots ▸ by simp
  · obtain ⟨summary, _, delta, _, held, hsummary, -, hdelta, -, hheld, -, hsilent⟩ :=
      hexchange [] (cellCrypto.cborCell (written 5 [2] 2)) (.inl rfl) (payload_written 5 2 2)
        (injOn_records hcell)
    obtain rfl : [] = summary := Except.ok.inj hsummary
    exact ⟨delta, held, hdelta, hheld, hsilent⟩

end CellContract

end Freebird
