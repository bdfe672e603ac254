import Mathlib

/-!
# Last-writer-wins registers

A register holds one record and replaces it by a record with a higher key (`newer`); the record held
wins a tie. Where the key tells the records apart, a register ends with the record of the highest
key, whatever the order they come in (`newest_congr`). Where it does not, the first one to come
stays, and the order shows exactly if two records share a highest key that is above the one the
register starts with (`newest_agree_iff`); one record ends all orders exactly if it has no rival
(`newest_eq_iff`). A slot is a register that may be empty. A record that waits to be written without
a comparison is `Ahead` as long as no newer one overtakes it.
-/

universe u v

namespace Register

variable {α : Type u} {κ : Type v} [LinearOrder κ]

section
variable (key : α → κ)

/-- What a register holds after another record was offered to it. -/
def newer (held offered : α) : α := if key held < key offered then offered else held

/-- What a register offers the holder of a record with the key `theirs`. -/
def offer (held : α) (theirs : κ) : Option α := if theirs < key held then some held else none

/-- What a register holds after a list of records. -/
def newest (held : α) (offered : List α) : α := offered.foldl (newer key) held

end

variable {key : α → κ} {a b c x y : α} {l l' : List α}

/-! ## One offer -/

theorem newer_eq_or (key : α → κ) (a b : α) : newer key a b = a ∨ newer key a b = b := by
  unfold newer
  split
  · exact .inr rfl
  · exact .inl rfl

theorem key_newer (key : α → κ) (a b : α) : key (newer key a b) = max (key a) (key b) := by
  unfold newer
  split
  · rename_i h
    exact (max_eq_right h.le).symm
  · rename_i h
    exact (max_eq_left (not_lt.mp h)).symm

theorem le_key_newer_left (key : α → κ) (a b : α) : key a ≤ key (newer key a b) :=
  (le_max_left _ _).trans_eq (key_newer key a b).symm

theorem le_key_newer_right (key : α → κ) (a b : α) : key b ≤ key (newer key a b) :=
  (le_max_right _ _).trans_eq (key_newer key a b).symm

theorem newer_of_le (h : key b ≤ key a) : newer key a b = a := if_neg (not_lt.mpr h)

theorem newer_eq_left_iff : newer key a b = a ↔ key b ≤ key a :=
  ⟨fun h => (le_key_newer_right key a b).trans_eq (congrArg key h), newer_of_le⟩

/-- Two registers that tell their records apart meet when they exchange them. -/
theorem newer_comm (h : key a = key b → a = b) : newer key a b = newer key b a := by
  unfold newer
  rcases lt_trichotomy (key a) (key b) with hlt | heq | hlt
  · rw [if_pos hlt, if_neg hlt.not_gt]
  · obtain rfl := h heq
    rfl
  · rw [if_neg hlt.not_gt, if_pos hlt]

theorem newer_assoc (key : α → κ) (a b c : α) :
    newer key (newer key a b) c = newer key a (newer key b c) := by
  by_cases hbc : key b < key c
  · have hc : newer key b c = c := if_pos hbc
    rw [hc]
    rcases newer_eq_or key a b with h | h
    · rw [h]
    · have hab : key a ≤ key b := by
        have hle := le_key_newer_left key a b
        rwa [h] at hle
      rw [h, hc, newer, if_pos (hab.trans_lt hbc)]
  · have hc : key c ≤ key b := not_lt.mp hbc
    rw [newer_of_le hc]
    exact newer_of_le (hc.trans (le_key_newer_right key a b))

/-- A register takes from another one what that one offers. -/
theorem newer_offer (key : α → κ) (a b : α) :
    ((offer key b (key a)).elim a (newer key a)) = newer key a b := by
  unfold offer
  split
  · rfl
  · rename_i h
    exact (newer_of_le (not_lt.mp h)).symm

theorem offer_eq_none_iff {k : κ} : offer key a k = none ↔ key a ≤ k := by
  unfold offer
  split
  · rename_i h
    simpa using h
  · rename_i h
    simpa using h

/-- What is offered to a register is offered to an older one. -/
theorem offer_of_le {k k' : κ} (hk : k' ≤ k) (h : offer key a k = some x) :
    offer key a k' = some x := by
  unfold offer at h ⊢
  split at h
  · rename_i hlt
    rw [if_pos (hk.trans_lt hlt)]
    exact h
  · cases h

theorem mem_offer {k : κ} (h : x ∈ offer key a k) : x = a := by
  unfold offer at h
  split at h
  · exact (Option.some.inj h).symm
  · cases h

/-! ## A run -/

theorem newest_cons : newest key a (b :: l) = newest key (newer key a b) l := rfl

theorem newest_append (key : α → κ) (a : α) (l l' : List α) :
    newest key a (l ++ l') = newest key (newest key a l) l' := List.foldl_append

/-- Updates of which some bring a record. -/
theorem foldl_elim_newer {δ : Type u} (f : δ → Option α) (a : α) (ds : List δ) :
    ds.foldl (fun a d => (f d).elim a (newer key a)) a = newest key a (ds.filterMap f) := by
  induction ds generalizing a with
  | nil => rfl
  | cons d ds ih =>
    rw [List.foldl_cons, ih]
    cases hd : f d with
    | none => rw [List.filterMap_cons_none hd, Option.elim_none]
    | some b => rw [List.filterMap_cons_some hd, newest_cons, Option.elim_some]

theorem mem_newest (key : α → κ) (a : α) (l : List α) : newest key a l ∈ a :: l := by
  induction l generalizing a with
  | nil => exact List.mem_cons_self
  | cons b l ih =>
    rw [newest_cons]
    rcases List.mem_cons.mp (ih (newer key a b)) with h | h
    · rcases newer_eq_or key a b with hn | hn
      · rw [h, hn]
        exact List.mem_cons_self
      · rw [h, hn]
        exact List.mem_cons_of_mem _ List.mem_cons_self
    · exact List.mem_cons_of_mem _ (List.mem_cons_of_mem _ h)

/-- No record offered has a higher key than the one the register ends with. -/
theorem le_newest (hx : x ∈ a :: l) : key x ≤ key (newest key a l) := by
  induction l generalizing a x with
  | nil =>
    obtain rfl := List.mem_singleton.mp hx
    exact le_rfl
  | cons b l ih =>
    rw [newest_cons]
    have hhead : max (key a) (key b) ≤ key (newest key (newer key a b) l) := by
      rw [← key_newer]
      exact ih List.mem_cons_self
    rcases List.mem_cons.mp hx with rfl | hx
    · exact (le_max_left _ _).trans hhead
    · rcases List.mem_cons.mp hx with rfl | hx
      · exact (le_max_right _ _).trans hhead
      · exact ih (List.mem_cons_of_mem _ hx)

/-- A register that is never offered a higher key keeps its record. -/
theorem newest_of_le (h : ∀ x ∈ l, key x ≤ key a) : newest key a l = a := by
  induction l with
  | nil => rfl
  | cons b l ih =>
    obtain ⟨hb, hl⟩ := List.forall_mem_cons.mp h
    rw [newest_cons, newer_of_le hb]
    exact ih hl

/-- The first record of a highest key is the one that stays. -/
theorem newest_cons_of_greatest (hlt : key a < key x) (h : ∀ y ∈ l, key y ≤ key x) :
    newest key a (x :: l) = x := by
  rw [newest_cons, newer, if_pos hlt]
  exact newest_of_le h

/-- **Convergence**: where the key tells the records apart, the order of the offers leaves no
trace. -/
theorem newest_congr (hinj : Set.InjOn key {x | x ∈ a :: l}) (h : ∀ x, x ∈ a :: l ↔ x ∈ a :: l') :
    newest key a l = newest key a l' := by
  have hmem := (h _).mpr (mem_newest key a l')
  refine hinj (mem_newest key a l) hmem (le_antisymm ?_ (le_newest hmem))
  exact le_newest ((h _).mp (mem_newest key a l))

/-- **When the order of the offers shows**: two runs over one collection of records end alike, for
all their orders, exactly if no two records share a highest key above the one of the start. -/
theorem newest_agree_iff {β : Type v} (key : α → κ) (g : β → α) (a : α) (R : List β) :
    (∀ l l' : List β, (∀ x, x ∈ l ↔ x ∈ R) → (∀ x, x ∈ l' ↔ x ∈ R) →
      newest key a (l.map g) = newest key a (l'.map g)) ↔
    ∀ x ∈ R, ∀ y ∈ R, (∀ z ∈ R, key (g z) ≤ key (g x)) → key a < key (g x) →
      key (g y) = key (g x) → g y = g x := by
  constructor
  · intro hagree x hx y hy hmax hlt he
    have hcons {z : β} (hz : z ∈ R) (w : β) : w ∈ z :: R ↔ w ∈ R := by
      rw [List.mem_cons, or_iff_right_of_imp]
      rintro rfl
      exact hz
    have h := hagree (y :: R) (x :: R) (hcons hy) (hcons hx)
    rw [List.map_cons, List.map_cons] at h
    have hmax' : ∀ w ∈ R.map g, key w ≤ key (g x) := List.forall_mem_map.mpr hmax
    rwa [newest_cons_of_greatest hlt hmax', newest_cons_of_greatest (he ▸ hlt) (he ▸ hmax')] at h
  · intro huniq l l' hl hl'
    by_cases hlow : ∀ x ∈ R, key (g x) ≤ key a
    · have hstay {m : List β} (hm : ∀ x, x ∈ m ↔ x ∈ R) : newest key a (m.map g) = a :=
        newest_of_le (List.forall_mem_map.mpr fun x hx => hlow x ((hm x).mp hx))
      rw [hstay hl, hstay hl']
    · push Not at hlow
      obtain ⟨z, hz, hlt⟩ := hlow
      have hend {m : List β} (hm : ∀ x, x ∈ m ↔ x ∈ R) :
          ∃ x ∈ R, newest key a (m.map g) = g x ∧ ∀ w ∈ R, key (g w) ≤ key (g x) := by
        have hle (w : β) (hw : w ∈ R) : key (g w) ≤ key (newest key a (m.map g)) :=
          le_newest (List.mem_cons_of_mem a (List.mem_map_of_mem ((hm w).mpr hw)))
        have hmem : newest key a (m.map g) ∈ m.map g := by
          refine (List.mem_cons.mp (mem_newest key a (m.map g))).resolve_left fun he => ?_
          exact (hlt.trans_le (hle z hz)).ne' (congrArg key he)
        obtain ⟨x, hx, he⟩ := List.mem_map.mp hmem
        exact ⟨x, (hm x).mp hx, he.symm, he ▸ hle⟩
      obtain ⟨x, hx, hxe, hxmax⟩ := hend hl
      obtain ⟨y, hy, hye, hymax⟩ := hend hl'
      rw [hxe, hye]
      exact huniq y hy x hx hymax (hlt.trans_le (hymax z hz)) ((hymax x hx).antisymm (hxmax y hy))

/-- A record ends every run over a collection, whatever the order, exactly if no other record of the
collection has a key as high. -/
theorem newest_eq_iff {β : Type v} {g : β → α} {R : List β} {m : β} (hm : m ∈ R)
    (hlt : key a < key (g m)) :
    (∀ l : List β, (∀ x, x ∈ l ↔ x ∈ R) → newest key a (l.map g) = g m) ↔
      ∀ x ∈ R, g x = g m ∨ key (g x) < key (g m) := by
  constructor
  · intro hall x hx
    have hle (y : β) (hy : y ∈ R) : key (g y) ≤ key (g m) := by
      rw [← hall R fun _ => Iff.rfl]
      exact le_newest (List.mem_cons_of_mem a (List.mem_map_of_mem hy))
    refine (hle x hx).lt_or_eq.symm.imp (fun he => ?_) id
    have hcons (y : β) : y ∈ x :: R ↔ y ∈ R := by
      rw [List.mem_cons, or_iff_right_of_imp]
      rintro rfl
      exact hx
    -- The rival comes first, and nothing after it is newer.
    rw [← hall (x :: R) hcons, List.map_cons, newest_cons_of_greatest (he ▸ hlt)]
    exact List.forall_mem_map.mpr fun y hy => he ▸ hle y hy
  · intro hbeat l hl
    have hle : key (g m) ≤ key (newest key a (l.map g)) :=
      le_newest (List.mem_cons_of_mem a (List.mem_map_of_mem ((hl m).mpr hm)))
    rcases List.mem_cons.mp (mem_newest key a (l.map g)) with he | hmem
    · exact absurd (he ▸ hle) (not_le.mpr hlt)
    · obtain ⟨x, hx, he⟩ := List.mem_map.mp hmem
      rcases hbeat x ((hl x).mp hx) with heq | hlow
      · exact he.symm.trans heq
      · exact absurd (he ▸ hle) (not_le.mpr hlow)

/-! ## Slots -/

/-- The key of a slot; an empty one is below all others. -/
def slotKey (key : α → κ) (slot : Option α) : WithBot κ := slot.elim ⊥ fun x => (key x : WithBot κ)

omit [LinearOrder κ] in
@[simp] theorem slotKey_none : slotKey key none = ⊥ := rfl

omit [LinearOrder κ] in
@[simp] theorem slotKey_some : slotKey key (some x) = (key x : WithBot κ) := rfl

variable {o o' : Option α} {os : List (Option α)}

/-- An empty offer changes nothing. -/
@[simp] theorem newer_slot_none (o : Option α) : newer (slotKey key) o none = o :=
  newer_of_le bot_le

/-- An empty slot takes what is offered. -/
@[simp] theorem newer_none_slot (o : Option α) : newer (slotKey key) none o = o := by
  cases o with
  | none => exact newer_slot_none none
  | some x => exact if_pos (WithBot.bot_lt_coe _)

/-- An empty slot has nothing to offer. -/
@[simp] theorem offer_none_slot (k : WithBot κ) : offer (slotKey key) none k = none :=
  offer_eq_none_iff.mpr bot_le

/-- What is offered is what the slot holds. -/
theorem eq_of_offer_slot {k : WithBot κ} (h : (offer (slotKey key) o k).getD none = some x) :
    o = some x := by
  cases hoffer : offer (slotKey key) o k with
  | none =>
    rw [hoffer] at h
    cases h
  | some slot =>
    rw [hoffer] at h
    exact (mem_offer hoffer).symm.trans h

/-- What an offer leaves out is no news. -/
theorem newer_slot_offer (key : α → κ) (o o' : Option α) :
    newer (slotKey key) o ((offer (slotKey key) o' (slotKey key o)).getD none) =
      newer (slotKey key) o o' := by
  rw [← newer_offer (slotKey key) o o']
  cases offer (slotKey key) o' (slotKey key o) with
  | none => exact newer_slot_none o
  | some slot => rfl

omit [LinearOrder κ] in
theorem slotKey_inj (hinj : Set.InjOn key {x | o = some x ∨ o' = some x})
    (h : slotKey key o = slotKey key o') : o = o' := by
  cases o with
  | none =>
    cases o' with
    | none => rfl
    | some y => exact absurd h (WithBot.bot_ne_coe)
  | some x =>
    cases o' with
    | none => exact absurd h (WithBot.coe_ne_bot)
    | some y => exact congrArg some (hinj (.inl rfl) (.inr rfl) (WithBot.coe_inj.mp h))

theorem le_newest_slot (h : newest (slotKey key) o os = some x) (hy : some y ∈ o :: os) :
    key y ≤ key x := by
  have hle : slotKey key (some y) ≤ slotKey key (newest (slotKey key) o os) := le_newest hy
  rw [h] at hle
  exact WithBot.coe_le_coe.mp hle

theorem newest_slot_eq_none : newest (slotKey key) o os = none ↔ ∀ slot ∈ o :: os, slot = none := by
  constructor
  · intro h slot hslot
    cases slot with
    | none => rfl
    | some y =>
      have hle : slotKey key (some y) ≤ slotKey key (newest (slotKey key) o os) := le_newest hslot
      rw [h] at hle
      exact absurd hle (not_le.mpr (WithBot.bot_lt_coe _))
  · intro h
    exact h _ (mem_newest (slotKey key) o os)

/-- Where the key tells the records apart, a slot holds the one of the highest key. -/
theorem newest_slot_eq_some (hinj : Set.InjOn key {x | some x ∈ o :: os}) :
    newest (slotKey key) o os = some x ↔
      some x ∈ o :: os ∧ ∀ y, some y ∈ o :: os → key y ≤ key x := by
  constructor
  · intro h
    exact ⟨h ▸ mem_newest (slotKey key) o os, fun y hy => le_newest_slot h hy⟩
  · rintro ⟨hx, hmax⟩
    cases h : newest (slotKey key) o os with
    | none => exact absurd (newest_slot_eq_none.mp h _ hx) (Option.some_ne_none x)
    | some y =>
      have hy : some y ∈ o :: os := h ▸ mem_newest (slotKey key) o os
      exact congrArg some (hinj hy hx ((hmax y hy).antisymm (le_newest_slot h hx)))

/-! ## Writes that wait -/

/-- No record that waits to be written is older than the one held. -/
def Ahead (key : α → κ) (held : α) (waiting : Multiset α) : Prop :=
  ∀ x ∈ waiting, key held ≤ key x

namespace Ahead

variable {w : Multiset α}

theorem cons (h : Ahead key a w) (hx : key a ≤ key x) : Ahead key a (x ::ₘ w) :=
  Multiset.forall_mem_cons.mpr ⟨hx, h⟩

/-- An offer that is no newer than those that wait does not overtake them. -/
theorem offered (h : Ahead key a w)
    (hb : b = a ∨ ∃ y, b = newer key a y ∧ ∀ x ∈ w, key y ≤ key x) :
    Ahead key b w ∧ key a ≤ key b := by
  rcases hb with rfl | ⟨y, rfl, hy⟩
  · exact ⟨h, le_rfl⟩
  · refine ⟨fun x hx => ?_, (le_max_left _ _).trans_eq (key_newer key a y).symm⟩
    exact (key_newer key a y).trans_le (max_le (h x hx) (hy x hx))

/-- The oldest record that waits may be written. -/
theorem write [DecidableEq α] (hx : ∀ y ∈ w, key x ≤ key y) : Ahead key x (w.erase x) :=
  fun y hy => hx y (Multiset.mem_of_mem_erase hy)

end Ahead

end Register
