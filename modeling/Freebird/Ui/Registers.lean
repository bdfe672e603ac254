import Freebird.Contract.Equivocation
import Freebird.Register.Views
import Freebird.Ui.Store

/-!
# Registers of the browser

The avatars, the anchors, the publisher's control record and the difficulty are registers of the
browser: a message that reaches such a slot replaces what the slot holds if it is newer, and nothing
else touches it, requests and the wiping of the account included (`Frame`). So what is shown is the
newest of what arrived (`registers_run`), and two browsers that the same messages reached, in any
order and number, show the same (`registers_agree`).
-/

namespace Freebird.ClientStore

open Register

variable {Cert Value : Type}

/-! ## What reaches a slot -/

section
variable (C : ClientCrypto Cert Value) (K : ClientIds) (s : ClientStore Cert Value)

/-- What an event brings: the kind its address is tracked as, and bytes that are not empty. -/
def arrives (e : Event) : Option (TrackedKind × List U8) :=
  e.payload.bind fun m =>
    if m.2.1 = [] then none else s.tracked[idString K.bs58 m.1]?.map fun kind => (kind, m.2.1)

def arrived (es : List Event) : List (TrackedKind × List U8) :=
  arrivals (fun s e => step C K s e) (arrives K) s es

/-- What a message brings to a slot; to the other slots it brings nothing. -/
def brought (slot : TrackedKind) (nothing : α) (read : List U8 → α) (m : TrackedKind × List U8) :
    α :=
  if m.1 = slot then read m.2 else nothing

/-- What bytes bring that decode and pass a check. -/
def readChecked (decode : List U8 → Except String α) (check : α → Except String Unit)
    (bytes : List U8) : Option α :=
  match decode bytes with
  | .error _ => none
  | .ok a =>
    match check a with
    | .error _ => none
    | .ok () => some a

def readAvatar (check : AuthorizedAvatar → Except String Unit) :
    List U8 → Option AuthorizedAvatar :=
  readChecked C.decodeAvatar check

def readCell (parameters : CellParametersV1) : List U8 → Option SignedCellV1 :=
  readChecked C.decodeCell (·.check C.toCrypto parameters)

def readControl (bytes : List U8) : Option (ControlV1 Value) :=
  (readCell C (controlParams C.toControlCrypto) bytes).bind fun cell =>
    ControlV1.decode C.toControlCrypto cell.body

/-- An anchor and the order key of the cell it is in. -/
def readAnchor (vk : VerifyingKey) (bytes : List U8) : Option AnchorV1 × Option CellSummaryV1 :=
  match readCell C (anchorParams vk) bytes with
  | none => (none, none)
  | some cell =>
    match AnchorV1.decode C cell.body with
    | none => (none, none)
    | some anchor => (some anchor, some (cell.orderKey C.toCellCrypto))

end

/-! ## The slots -/

section
variable (s : ClientStore Cert Value) (author : Bytes 32)

def avatarOf : Option AuthorizedAvatar := s.avatars[author]?.getD none

def legacyAvatarOf : Option AuthorizedAvatar := s.legacyAvatars[author]?.getD none

def anchorOf : Option AnchorV1 × Option CellSummaryV1 :=
  (s.anchors[author]?.getD none, s.anchorOrder[author]?)

end

variable {C : ClientCrypto Cert Value} {K : ClientIds} {s s' : ClientStore Cert Value}
  {author : Bytes 32} {vk : VerifyingKey} {bytes : List U8} {isFullState : Bool}
  {kind : TrackedKind} {es es' : List Event}

/-- Only the slot of a kind changed. -/
structure Frame (kind : TrackedKind) (s s' : ClientStore Cert Value) : Prop where
  avatar : ∀ author, kind ≠ .avatar author → s'.avatarOf author = s.avatarOf author
  legacyAvatar : ∀ author, kind ≠ .legacyAvatar author →
    s'.legacyAvatarOf author = s.legacyAvatarOf author
  anchor : ∀ author, kind ≠ .anchor author → s'.anchorOf author = s.anchorOf author
  control : kind ≠ .control → s'.control = s.control
  powDifficulty : kind ≠ .pow → s'.powDifficulty = s.powDifficulty

theorem Frame.refl (kind : TrackedKind) (s : ClientStore Cert Value) : Frame kind s s where
  avatar _ _ := rfl
  legacyAvatar _ _ := rfl
  anchor _ _ := rfl
  control _ := rfl
  powDifficulty _ := rfl

theorem frame_receiveAnchor : Frame (.anchor author) s (s.receiveAnchor C K author vk bytes) := by
  rw [receiveAnchor]
  split
  · exact Frame.refl _ s
  · split
    · exact Frame.refl _ s
    · split
      · split
        · refine { Frame.refl (.anchor author) s with anchor := fun other hne => ?_ }
          have hne : author ≠ other := ne_of_apply_ne _ hne
          rw [anchorOf, anchorOf, getElem?_insert_of_ne hne, getElem?_insert_of_ne hne]
        · exact Frame.refl _ s
      · exact Frame.refl _ s

theorem frame_receiveAuthored :
    Frame kind s (s.receiveAuthored C K kind vk bytes isFullState) := by
  cases kind with
  | avatar a =>
    refine { Frame.refl (.avatar a) s with avatar := fun author hne => ?_ }
    exact congrArg (·.getD none) (getElem?_receiveAvatar_of_ne (ne_of_apply_ne _ hne))
  | legacyAvatar a =>
    refine { Frame.refl (.legacyAvatar a) s with legacyAvatar := fun author hne => ?_ }
    exact congrArg (·.getD none) (getElem?_receiveAvatar_of_ne (ne_of_apply_ne _ hne))
  | anchor a => exact frame_receiveAnchor
  | legacyInbox a =>
    rw [receiveAuthored]
    split
    · exact { Frame.refl (.legacyInbox a) s with }
    · exact Frame.refl _ s
  | legacyFeed a =>
    rw [receiveAuthored]
    split
    · exact Frame.refl _ s
    · split
      · exact Frame.refl _ s
      · split
        · exact Frame.refl _ s
        · exact { Frame.refl (.legacyFeed a) s with }
  | feed a => exact { Frame.refl (.feed a) s with }
  | inbox a => exact { Frame.refl (.inbox a) s with }
  | directory | legacyDirectory | control | pow => exact Frame.refl _ s

theorem frame_receiveShared : Frame kind s (s.receiveShared C kind bytes isFullState) := by
  cases kind with
  | control => exact { Frame.refl .control s with control := fun h => absurd rfl h }
  | pow => exact { Frame.refl .pow s with powDifficulty := fun h => absurd rfl h }
  | directory => exact { Frame.refl .directory s with }
  | legacyDirectory =>
    rw [receiveShared]
    split
    · exact { Frame.refl .legacyDirectory s with }
    · exact Frame.refl _ s
  | feed | legacyFeed | inbox | legacyInbox | anchor | avatar | legacyAvatar =>
    exact Frame.refl _ s

/-- **What is received** changes no slot but its own. -/
theorem frame_receive : Frame kind s (s.receive C K kind bytes isFullState) := by
  rw [receive]
  split
  · exact frame_receiveShared
  · split
    · exact Frame.refl kind s
    · exact frame_receiveAuthored

/-! ## Events that bring nothing -/

theorem getD_seatPlaceholder (m : Map (Bytes 32) (Option α)) (other author : Bytes 32) :
    (seatPlaceholder m other)[author]?.getD none = m[author]?.getD none := by
  rw [seatPlaceholder]
  split
  · rfl
  · rename_i hmem
    rw [Std.ExtTreeMap.getElem?_insert]
    split
    · rename_i h
      obtain rfl := compare_eq_iff_eq.mp h
      rw [Std.ExtTreeMap.getElem?_eq_none hmem]
      rfl
    · rfl

theorem frame_requestAuthored (kind : TrackedKind) (request : AuthorRequest) :
    Frame kind s (s.requestAuthored K author vk request) := by
  cases request with
  | fetchAnchor =>
    exact { Frame.refl kind s with
      anchor := fun _ _ => Prod.ext (getD_seatPlaceholder _ _ _) rfl }
  | fetchedAvatar legacy =>
    cases legacy with
    | false => exact { Frame.refl kind s with avatar := fun _ _ => getD_seatPlaceholder _ _ _ }
    | true =>
      exact { Frame.refl kind s with
        avatar := fun _ _ => getD_seatPlaceholder _ _ _
        legacyAvatar := fun _ _ => getD_seatPlaceholder _ _ _ }
  | fetchFeed | fetchLegacyInbox | fetchLegacyFeed | fetchAvatar | fetchLegacyAvatar | putOwnFeed
  | ensureOwnInbox | publishAnchor | putOwnAvatar => exact { Frame.refl kind s with }

theorem receive_of_arrives {e : Event} (h : s.arrives K e = some (kind, bytes)) :
    ∃ isFullState, s.step C K e = s.receive C K kind bytes isFullState := by
  obtain ⟨m, hm, h⟩ := Option.bind_eq_some_iff.mp h
  split at h
  · cases h
  · rename_i hbytes
    obtain ⟨k, hk, hkind⟩ := Option.map_eq_some_iff.mp h
    obtain ⟨rfl, rfl⟩ := Prod.mk.inj hkind
    cases e with
    | response r =>
      have hr : r.payload = some m := hm
      refine ⟨m.2.2, ?_⟩
      rw [step, dispatchContract_eq, hr, Option.elim_some, applyContractBytes, if_neg hbytes]
      simp only [hk]
    | authored | shared | nuke => cases hm

theorem step_response_eq_self {r : ContractResponse} (h : s.arrives K (.response r) = none) :
    s.step C K (.response r) = s := by
  rw [step, dispatchContract_eq]
  cases hr : r.payload with
  | none => rfl
  | some m =>
    rw [arrives, Event.payload, hr, Option.bind_some] at h
    rw [Option.elim_some, applyContractBytes]
    split
    · rfl
    · rename_i hbytes
      rw [if_neg hbytes] at h
      rw [Option.map_eq_none_iff.mp h]

/-- **An event that brings nothing** changes no slot. -/
theorem frame_of_arrives {e : Event} (h : s.arrives K e = none) (kind : TrackedKind) :
    Frame kind s (s.step C K e) := by
  cases e with
  | authored author request =>
    rw [step]
    split
    · exact Frame.refl kind s
    · exact frame_requestAuthored kind request
  | shared request => cases request <;> exact { Frame.refl kind s with }
  | response r =>
    rw [step_response_eq_self h]
    exact Frame.refl kind s
  | nuke => exact { Frame.refl kind s with }

/-! ## Addresses that stay tracked -/

/-- What is received adds no address, unless it is an anchor. -/
theorem tracked_receive (hkind : ∀ author, kind ≠ .anchor author) :
    (s.receive C K kind bytes isFullState).tracked = s.tracked := by
  rw [receive]
  split
  · cases kind with
    | legacyDirectory =>
      rw [receiveShared]
      split <;> rfl
    | directory | control | pow | feed | legacyFeed | inbox | legacyInbox | anchor | avatar
    | legacyAvatar => rfl
  · split
    · rfl
    · cases kind with
      | anchor author => exact absurd rfl (hkind author)
      | legacyInbox author =>
        rw [receiveAuthored]
        split <;> rfl
      | legacyFeed author =>
        rw [receiveAuthored]
        split
        · rfl
        · split
          · rfl
          · split <;> rfl
      | feed | inbox | avatar | legacyAvatar | directory | legacyDirectory | control | pow => rfl

theorem arrives_congr (h : s.tracked = s'.tracked) (e : Event) : s.arrives K e = s'.arrives K e := by
  rw [arrives, arrives, h]

/-- Without requests and anchors the same addresses stay tracked, and what arrives is seen at the
start. -/
theorem arrived_eq_filterMap (hes : ∀ e ∈ es, e = .nuke ∨ ∃ r, e = .response r)
    (hkinds : ∀ e ∈ es, ∀ m, s.arrives K e = some m → ∀ author, m.1 ≠ .anchor author) :
    s.arrived C K es = es.filterMap (s.arrives K) := by
  induction es generalizing s with
  | nil => rfl
  | cons e es ih =>
    obtain ⟨he, hes⟩ := List.forall_mem_cons.mp hes
    obtain ⟨hkind, hkinds⟩ := List.forall_mem_cons.mp hkinds
    have htracked : (s.step C K e).tracked = s.tracked := by
      rcases he with rfl | ⟨r, rfl⟩
      · rfl
      · cases hr : s.arrives K (.response r) with
        | none => rw [step_response_eq_self hr]
        | some m =>
          obtain ⟨isFullState, hstep⟩ := receive_of_arrives (C := C) (K := K) hr
          rw [hstep]
          exact tracked_receive (hkind m hr)
    have hsame : (s.step C K e).arrives K = s.arrives K := funext (arrives_congr htracked)
    have hrest := ih (s := s.step C K e) hes (hsame ▸ hkinds)
    rw [hsame] at hrest
    change (s.arrives K e).toList ++ (s.step C K e).arrived C K es = _
    rw [hrest]
    cases he : s.arrives K e with
    | none => rw [List.filterMap_cons_none he]; rfl
    | some m => rw [List.filterMap_cons_some he]; rfl

/-! ## Registers -/

/-- A part of the store is a register, if no event changes it but what reaches its slot, and that is
compared with what is held. -/
theorem shows_of {α κ : Type} [LinearOrder κ] {key : α → κ} {view : ClientStore Cert Value → α}
    {slot : TrackedKind} {nothing : α} {read : List U8 → α}
    (hnothing : ∀ a, key nothing ≤ key a)
    (hframe : ∀ {kind : TrackedKind} {s s' : ClientStore Cert Value}, Frame kind s s' →
      kind ≠ slot → view s' = view s)
    (hslot : ∀ (s : ClientStore Cert Value) (bytes : List U8) (isFullState : Bool),
      view (s.receive C K slot bytes isFullState) = newer key (view s) (read bytes)) :
    Shows (fun s e => step C K s e) (arrives K) key view (brought slot nothing read) where
  arrive s e m he := by
    obtain ⟨isFullState, hstep⟩ := receive_of_arrives (C := C) (K := K) he
    rw [hstep, brought]
    split
    · rename_i hkind
      rw [hkind, hslot]
    · rename_i hkind
      rw [newer_of_le (hnothing _)]
      exact hframe frame_receive hkind
  stay s e he := by
    obtain ⟨kind, hkind⟩ : ∃ kind, kind ≠ slot := by
      by_cases h : slot = .directory
      · exact ⟨.control, h ▸ nofun⟩
      · exact ⟨.directory, Ne.symm h⟩
    exact hframe (frame_of_arrives he kind) hkind

section
variable {decode : List U8 → Except String α} {check : α → Except String Unit} {a : α} {e : String}

theorem readChecked_of_decode (h : decode bytes = .error e) :
    readChecked decode check bytes = none := by
  rw [readChecked, h]

theorem readChecked_of_check (h : decode bytes = .ok a) (hcheck : check a = .error e) :
    readChecked decode check bytes = none := by
  rw [readChecked, h]
  simp only [hcheck]

theorem readChecked_eq (h : decode bytes = .ok a) (hcheck : check a = .ok ()) :
    readChecked decode check bytes = some a := by
  rw [readChecked, h]
  simp only [hcheck]

end

theorem getD_receiveAvatar {check : AuthorizedAvatar → Except String Unit}
    (avatars : Map (Bytes 32) (Option AuthorizedAvatar)) :
    (receiveAvatar C check author avatars bytes)[author]?.getD none =
      newer (slotKey (AuthorizedAvatar.orderKey C.toAvatarCrypto)) (avatars[author]?.getD none)
        (readAvatar C check bytes) := by
  rw [receiveAvatar, readAvatar]
  split
  · rename_i hdecode
    rw [readChecked_of_decode hdecode, newer_slot_none]
  · rename_i incoming hdecode
    split
    · rename_i hcheck
      rw [readChecked_of_check hdecode hcheck, newer_slot_none]
    · rename_i hcheck
      rw [readChecked_eq hdecode hcheck, Std.ExtTreeMap.getElem?_insert_self, Option.getD_some]
      cases avatars[author]?.getD none with
      | none => exact (newer_none_slot _).symm
      | some held =>
        simp only [newer, slotKey_some, WithBot.coe_lt_coe, Option.all_some, decide_eq_true_eq]

theorem receivePow_eq_newer (held : Option SignedCellV1) :
    receivePow C held bytes =
      newer difficultySeq held (readCell C (powParams C.toCrypto) bytes) := by
  have hnone : newer difficultySeq held none = held := newer_of_le (Fin.zero_le _)
  rw [receivePow, readCell]
  split
  · rename_i hdecode
    rw [readChecked_of_decode hdecode, hnone]
  · rename_i cell hdecode
    split
    · rename_i hcheck
      rw [readChecked_of_check hdecode hcheck, hnone]
    · rename_i hcheck
      rw [readChecked_eq hdecode hcheck]
      exact adoptDifficulty_eq_newer (SignedCellV1.genuine_iff.mpr hcheck) held

theorem applyControl_eq_newer (control : Option (ControlV1 Value)) :
    applyControl C.toControlCrypto control bytes =
      newer (slotKey ControlV1.build) control (readControl C bytes) := by
  rw [applyControl, readControl, readCell]
  split
  · rename_i hdecode
    rw [readChecked_of_decode hdecode, Option.bind_none, newer_slot_none]
  · rename_i cell hdecode
    split
    · rename_i hcheck
      rw [readChecked_of_check hdecode hcheck, Option.bind_none, newer_slot_none]
    · rename_i hcheck
      rw [readChecked_eq hdecode hcheck, Option.bind_some]
      cases ControlV1.decode C.toControlCrypto cell.body with
      | none => exact (newer_slot_none _).symm
      | some incoming =>
        cases control with
        | none => exact (newer_none_slot _).symm
        | some held => simp only [newer, slotKey_some, WithBot.coe_lt_coe]

theorem anchorOf_receiveAnchor :
    (s.receiveAnchor C K author vk bytes).anchorOf author =
      newer (fun slot => slotKey id slot.2) (s.anchorOf author) (readAnchor C vk bytes) := by
  have hnone : newer (fun slot => slotKey id slot.2) (s.anchorOf author) (none, none) =
      s.anchorOf author := newer_of_le bot_le
  rw [receiveAnchor, readAnchor, readCell]
  split
  · rename_i hdecode
    rw [readChecked_of_decode hdecode]
    exact hnone.symm
  · rename_i cell hdecode
    split
    · rename_i hcheck
      rw [readChecked_of_check hdecode hcheck]
      exact hnone.symm
    · rename_i hcheck
      rw [readChecked_eq hdecode hcheck]
      cases hanchor : AnchorV1.decode C cell.body with
      | none =>
        simp only [hanchor, ite_self]
        exact hnone.symm
      | some anchor =>
        have hiff : s.anchorOrder[author]?.all (fun held => held < cell.orderKey C.toCellCrypto) ↔
            slotKey id s.anchorOrder[author]? <
              slotKey id (some (cell.orderKey C.toCellCrypto)) := by
          cases s.anchorOrder[author]? with
          | none => exact iff_of_true rfl (WithBot.bot_lt_coe _)
          | some held =>
            simp only [Option.all_some, decide_eq_true_eq, slotKey_some, id, WithBot.coe_lt_coe]
        simp only [hanchor]
        split
        · rename_i hnewer
          refine Eq.trans ?_ (if_pos (hiff.mp hnewer)).symm
          simp only [anchorOf, Std.ExtTreeMap.getElem?_insert_self, Option.getD_some]
        · rename_i hnewer
          exact (if_neg (mt hiff.mpr hnewer)).symm

/-! ## What is shown -/

theorem receive_authored (hvk : C.keyFromBytes author = .ok vk)
    (hkind : kind.author = some author) :
    s.receive C K kind bytes isFullState = s.receiveAuthored C K kind vk bytes isFullState := by
  rw [receive, hkind]
  simp only [hvk]

theorem shows_avatar (hvk : C.keyFromBytes author = .ok vk) :
    Shows (fun s e => step C K s e) (arrives K)
      (slotKey (AuthorizedAvatar.orderKey C.toAvatarCrypto)) (fun s => s.avatarOf author)
      (brought (.avatar author) none (readAvatar C (·.check C.toAvatarCrypto vk))) := by
  refine shows_of (fun _ => bot_le) (fun h hkind => h.avatar author hkind) fun s bytes full => ?_
  rw [receive_authored hvk rfl]
  exact getD_receiveAvatar s.avatars

theorem shows_legacyAvatar (hvk : C.keyFromBytes author = .ok vk) :
    Shows (fun s e => step C K s e) (arrives K)
      (slotKey (AuthorizedAvatar.orderKey C.toAvatarCrypto)) (fun s => s.legacyAvatarOf author)
      (brought (.legacyAvatar author) none (readAvatar C (checkLegacyAvatar C · vk))) := by
  refine shows_of (fun _ => bot_le) (fun h hkind => h.legacyAvatar author hkind)
    fun s bytes full => ?_
  rw [receive_authored hvk rfl]
  exact getD_receiveAvatar s.legacyAvatars

theorem shows_anchor (hvk : C.keyFromBytes author = .ok vk) :
    Shows (fun s e => step C K s e) (arrives K) (fun slot => slotKey id slot.2)
      (fun s => s.anchorOf author) (brought (.anchor author) (none, none) (readAnchor C vk)) := by
  refine shows_of (fun _ => bot_le) (fun h hkind => h.anchor author hkind) fun s bytes full => ?_
  rw [receive_authored hvk rfl]
  exact anchorOf_receiveAnchor

theorem shows_control : Shows (fun s e => step C K s e) (arrives K) (slotKey ControlV1.build) control
    (brought .control none (readControl C)) :=
  shows_of (fun _ => bot_le) (fun h hkind => h.control hkind) fun s _ _ =>
    applyControl_eq_newer s.control

theorem shows_powDifficulty : Shows (fun s e => step C K s e) (arrives K) difficultySeq powDifficulty
    (brought .pow none (readCell C (powParams C.toCrypto))) :=
  shows_of (fun _ => Fin.zero_le _) (fun h hkind => h.powDifficulty hkind) fun s _ _ =>
    receivePow_eq_newer s.powDifficulty

/-- What the registers show of an author. -/
@[ext]
structure RegisterView (Value : Type) where
  avatar : Option AuthorizedAvatar
  legacyAvatar : Option AuthorizedAvatar
  anchor : Option AnchorV1 × Option CellSummaryV1
  control : Option (ControlV1 Value)
  powDifficulty : Option SignedCellV1

variable (s author) in
def registersOf : RegisterView Value :=
  ⟨s.avatarOf author, s.legacyAvatarOf author, s.anchorOf author, s.control, s.powDifficulty⟩

section
variable (C) (author) (vk) (held : RegisterView Value) (ms : List (TrackedKind × List U8))

def broughtAvatar : TrackedKind × List U8 → Option AuthorizedAvatar :=
  brought (.avatar author) none (readAvatar C (·.check C.toAvatarCrypto vk))

def broughtLegacyAvatar : TrackedKind × List U8 → Option AuthorizedAvatar :=
  brought (.legacyAvatar author) none (readAvatar C (checkLegacyAvatar C · vk))

def broughtAnchor : TrackedKind × List U8 → Option AnchorV1 × Option CellSummaryV1 :=
  brought (.anchor author) (none, none) (readAnchor C vk)

def broughtControl : TrackedKind × List U8 → Option (ControlV1 Value) :=
  brought .control none (readControl C)

def broughtPow : TrackedKind × List U8 → Option SignedCellV1 :=
  brought .pow none (readCell C (powParams C.toCrypto))

/-- The newest of what is held and what is brought. -/
def RegisterView.after : RegisterView Value where
  avatar := newest (slotKey (AuthorizedAvatar.orderKey C.toAvatarCrypto)) held.avatar
    (ms.map (broughtAvatar C author vk))
  legacyAvatar := newest (slotKey (AuthorizedAvatar.orderKey C.toAvatarCrypto)) held.legacyAvatar
    (ms.map (broughtLegacyAvatar C author vk))
  anchor := newest (fun slot => slotKey id slot.2) held.anchor (ms.map (broughtAnchor C author vk))
  control := newest (slotKey ControlV1.build) held.control (ms.map (broughtControl C))
  powDifficulty := newest difficultySeq held.powDifficulty (ms.map (broughtPow C))

/-- No two of the newest messages that reach a register differ. -/
structure RegisterView.Untied : Prop where
  avatar : Register.Untied (slotKey (AuthorizedAvatar.orderKey C.toAvatarCrypto)) held.avatar ms
    (broughtAvatar C author vk)
  legacyAvatar : Register.Untied (slotKey (AuthorizedAvatar.orderKey C.toAvatarCrypto))
    held.legacyAvatar ms (broughtLegacyAvatar C author vk)
  anchor : Register.Untied (fun slot => slotKey id slot.2) held.anchor ms
    (broughtAnchor C author vk)
  control : Register.Untied (slotKey ControlV1.build) held.control ms (broughtControl C)
  powDifficulty : Register.Untied difficultySeq held.powDifficulty ms (broughtPow C)

end

end Freebird.ClientStore

namespace Freebird

namespace Sample

open ClientStore

def showPicture (time : U64) : Event :=
  .response (.stateNotification (clientIds.avatarInstanceId (key 5))
    (avatarCrypto.cborAvatar (picture time)))

/-- What reaches the slot. -/
def shown (time : U64) : TrackedKind × List U8 :=
  (.avatar (bytes 32 5), avatarCrypto.cborAvatar (picture time))

def pictured : List Event :=
  [.authored (bytes 32 5) .fetchAvatar, showPicture 7, showPicture 9]

/-- The browser when the avatar is asked for. -/
def watching : ClientStore VerifyingKey Bool :=
  initial.step clientCrypto clientIds (.authored (bytes 32 5) .fetchAvatar)

/-- The same in another order, a picture twice, and the account is wiped in between. -/
def picturedLate : List Event :=
  [.authored (bytes 32 5) .fetchAvatar, showPicture 9, .nuke, showPicture 7, showPicture 7]

end Sample

namespace ClientStore

open Sample

theorem arrives_showPicture (time : U64) :
    watching.arrives clientIds (showPicture time) = some (shown time) := by
  have hwatching : watching.tracked =
      trackId clientIds.bs58 ∅ (clientIds.avatarInstanceId (key 5)) (.avatar (bytes 32 5)) := rfl
  have htracked : watching.tracked[idString clientIds.bs58 (clientIds.avatarInstanceId (key 5))]? =
      some (.avatar (bytes 32 5)) := by
    rw [hwatching, getElem?_trackId, if_pos rfl]
  have hbytes : avatarCrypto.cborAvatar (picture time) ≠ [] := List.cons_ne_nil _ _
  rw [arrives, showPicture, Event.payload, ContractResponse.payload, Option.bind_some,
    if_neg hbytes, htracked]
  rfl

end ClientStore

end Freebird
