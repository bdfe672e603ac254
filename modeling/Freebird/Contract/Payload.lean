import Freebird.Common.Layout
import Freebird.Contract.Shell
import Freebird.Register.Newest

/-!
# Contracts that hold one record

The cell and the avatar contract hold a single record. What they store, and every state and delta
they are handed, is zero bytes, for nothing, or the bytes of one record, and a state is taken as a
delta is. So, as long as no payload is refused, what the loop of `update_state` leaves is the newest
record of all payloads, in whatever updates they come (`loop_payloads`).
-/

namespace Freebird

open Register

/-- `map_err(|e| ContractError::Deser(format!("{what}: {e}")))` -/
def deser (decode : List U8 → Except String α) (bytes : List U8) (what : String) :
    Except ContractError α :=
  match mapErr what (decode bytes) with
  | .ok x => .ok x
  | .error e => .error (.deser e)

theorem deser_eq_ok {decode : List U8 → Except String α} {bytes : List U8} {x : α} :
    deser decode bytes what = .ok x ↔ decode bytes = .ok x := by
  have hmap : mapErr what (decode bytes) = .ok x ↔ decode bytes = .ok x := mapErr_eq_ok
  rw [← hmap, deser]
  cases mapErr what (decode bytes) <;> simp

/-- Zero bytes are nothing; they are never decoded. -/
def deserOption (decode : List U8 → Except String α) (bytes : List U8) (what : String) :
    Except ContractError (Option α) :=
  if bytes = [] then .ok none else (deser decode bytes what).map some

theorem deserOption_eq_some {decode : List U8 → Except String α} {bytes : List U8} {x : α}
    (hne : bytes ≠ []) (h : decode bytes = .ok x) :
    deserOption decode bytes what = .ok (some x) := by
  rw [deserOption, if_neg hne, deser_eq_ok.mpr h]
  rfl

theorem ok_bind {x : α} {f : α → Except ε β} : (Except.ok x >>= f) = f x := rfl

/-- An update of a contract that holds one record; the state and the delta are bytes. -/
abbrev PayloadUpdate := UpdateData (List U8) (List U8)

/-- The payloads of an update, in the order they are taken. -/
def UpdateData.payloads (update : PayloadUpdate) : List (List U8) :=
  update.parts.map (Sum.elim id id)

@[simp] theorem UpdateData.payloads_delta (bytes : List U8) :
    payloads (.delta (some bytes)) = [bytes] := rfl

section
variable {κ : Type} [LinearOrder κ]

/-- What was stored, and what the updates bring; `brings` reads a payload. -/
def slots (brings : List U8 → Option α) (state : List U8) (data : List PayloadUpdate) :
    List (Option α) :=
  (state :: data.flatMap UpdateData.payloads).map brings

/-- The newest record of them. -/
def heldAfter (key : α → κ) (brings : List U8 → Option α) (state : List U8)
    (data : List PayloadUpdate) : Option α :=
  newest (slotKey key) (brings state) ((data.flatMap UpdateData.payloads).map brings)

variable {key : α → κ} {brings : List U8 → Option α} {state : List U8} {data : List PayloadUpdate}

theorem mem_slots_of_held {x : α} (h : heldAfter key brings state data = some x) :
    some x ∈ slots brings state data :=
  h ▸ mem_newest (slotKey key) (brings state) _

theorem heldAfter_append (key : α → κ) (brings : List U8 → Option α) (state : List U8)
    (data data' : List PayloadUpdate) : heldAfter key brings state (data ++ data') =
      newest (slotKey key) (heldAfter key brings state data)
        ((data'.flatMap UpdateData.payloads).map brings) := by
  rw [heldAfter, List.flatMap_append, List.map_append, newest_append]
  rfl

/-- Where each payload is offered to the slot, the loop leaves the newest record. -/
theorem Shell.loop_payloads {S : Shell (Option α) (List U8) (List U8)}
    (hdata : ∀ update ∈ data, update ≠ .related)
    (h : ∀ bytes ∈ data.flatMap UpdateData.payloads, ∀ held,
      S.receive held bytes = .ok (newer (slotKey key) held (brings bytes)) ∧
        S.apply held bytes = .ok (newer (slotKey key) held (brings bytes))) :
    S.loop (brings state) data = .ok (heldAfter key brings state data) := by
  have hparts : data.flatMap UpdateData.payloads =
      (data.flatMap UpdateData.parts).map (Sum.elim id id) := by
    rw [List.map_flatMap]
    rfl
  rw [heldAfter, newest, List.foldl_map]
  rw [hparts] at h ⊢
  rw [loop_eq_run hdata, List.foldl_map]
  refine run_eq_foldl fun a ha held => ?_
  have ha := h _ (List.mem_map_of_mem ha) held
  cases a with
  | inl bytes => exact ha.1
  | inr bytes => exact ha.2

end

/-! ## Samples -/

namespace Sample

/-- The number with these bytes, least significant first. -/
def leValue (bytes : List U8) : Nat := bytes.foldr (fun b n => b.val + 256 * n) 0

theorem leValue_leBytes (k n : Nat) : leValue (leBytes k n) = n % 256 ^ k := by
  induction k generalizing n with
  | zero => exact (Nat.mod_one n).symm
  | succ k ih =>
    have hstep : leValue (leBytes (k + 1) n) = n % 256 + 256 * leValue (leBytes k (n / 256)) := by
      rw [leBytes_succ]
      rfl
    rw [hstep, ih, pow_succ', Nat.mod_mul]

theorem ofNat_leValue (n : U64) : Fin.ofNat (2 ^ 64) (leValue (leBytes 8 n)) = n := by
  have hmod : n.val % 256 ^ 8 = n.val := Nat.mod_eq_of_lt n.isLt
  rw [leValue_leBytes, hmod]
  exact Fin.ofNat_val_eq_self n

def arrayOf (n : Nat) (bytes : List U8) : Option (Bytes n) :=
  if h : bytes.length = n then some ⟨bytes, h⟩ else none

theorem arrayOf_toList (b : Bytes n) : arrayOf n b.toList = some b := dif_pos b.length_toList

end Sample

end Freebird
