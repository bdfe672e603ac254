import Mathlib

/-!
# Bytes, words and ordered maps

The fixed-width types of the source. A byte array carries its length, so `Bytes 32` is `[u8; 32]`,
and is ordered lexicographically as Rust orders arrays. A `BTreeMap` is the extensional tree map of
the standard library, iterated in the order of its keys.
-/

namespace Freebird

abbrev U8 := Fin 256

abbrev U32 := Fin (2 ^ 32)

abbrev U64 := Fin (2 ^ 64)

instance neZero_u8 : NeZero 256 := ⟨by decide⟩

instance neZero_u32 : NeZero (2 ^ 32) := ⟨by decide⟩

instance neZero_u64 : NeZero (2 ^ 64) := ⟨by decide⟩

/-- A byte array of a fixed length. -/
def Bytes (n : Nat) : Type := { l : List U8 // l.length = n }

namespace Bytes

variable {n : Nat}

def toList (b : Bytes n) : List U8 := b.1

@[simp] theorem length_toList (b : Bytes n) : b.toList.length = n := b.2

theorem toList_inj {a b : Bytes n} (h : a.toList = b.toList) : a = b := Subtype.ext h

instance : DecidableEq (Bytes n) := inferInstanceAs (DecidableEq { l : List U8 // l.length = n })

instance : LinearOrder (Bytes n) := inferInstanceAs (LinearOrder { l : List U8 // l.length = n })

instance : Std.LawfulEqOrd (Bytes n) := ⟨compare_eq_iff_eq.mp⟩

/-! The laws of keys and ids under names of their own. -/

instance : Std.TransOrd (Bytes 32) := inferInstance

instance : Std.LawfulEqOrd (Bytes 32) := inferInstance

instance : LawfulBEq (Bytes 32) := inferInstance

instance : Std.TransOrd (Bytes 16) := inferInstance

instance : Std.LawfulEqOrd (Bytes 16) := inferInstance

/-- The array of `n` zeros. -/
def zeros (n : Nat) : Bytes n := ⟨List.replicate n 0, List.length_replicate ..⟩

/-- No array is below the array of zeros. -/
theorem zeros_le (b : Bytes n) : zeros n ≤ b := by
  suffices ∀ l : List U8, List.replicate l.length 0 ≤ l by
    have h := this b.1
    rwa [b.2] at h
  intro l
  induction l with
  | nil => exact le_rfl
  | cons a l ih =>
    rw [List.length_cons, List.replicate_succ]
    rcases (Fin.zero_le a).lt_or_eq with ha | rfl
    · exact le_of_lt (List.Lex.rel ha)
    · exact List.cons_le_cons _ ih

end Bytes

/-- The `k` low bytes of `n`, least significant first (`to_le_bytes`). -/
def leBytes (k n : Nat) : List U8 := (List.range k).map fun i => Fin.ofNat 256 (n / 256 ^ i)

/-- `BTreeMap`. -/
abbrev Map (κ : Type) (υ : Type) [Ord κ] := Std.ExtTreeMap κ υ compare

/-- A list that is sent only if it has entries. -/
theorem getD_unless_nil {α : Type} (l : List α) :
    (if l.isEmpty then none else some l).getD [] = l := by
  split
  · rename_i h
    exact (List.isEmpty_iff.mp h).symm
  · rfl

namespace Map

variable {κ υ : Type} [Ord κ] [Std.TransOrd κ] {m : Map κ υ}

/-- `BTreeMap::values`, in the order of the keys. -/
def vals (m : Map κ υ) : List υ := m.toList.map Prod.snd

theorem mem_iff {k : κ} : k ∈ m ↔ ∃ v, m[k]? = some v := by
  rw [Std.ExtTreeMap.mem_iff_isSome_getElem?, Option.isSome_iff_exists]

theorem nodup_keys (m : Map κ υ) : (m.toList.map Prod.fst).Nodup := by
  rw [Std.ExtTreeMap.map_fst_toList_eq_keys]
  exact Std.ExtTreeMap.nodup_keys

theorem toList_lookup [Std.LawfulEqOrd κ] [DecidableEq κ] (m : Map κ υ) (k : κ) : m.toList.lookup k = m[k]? := by
  cases h : m.toList.lookup k with
  | none =>
    refine (Std.ExtTreeMap.getElem?_eq_none fun hk => ?_).symm
    obtain ⟨v, hv⟩ := mem_iff.mp hk
    have hmem := Std.ExtTreeMap.mem_toList_iff_getElem?_eq_some.mpr hv
    simpa using List.lookup_eq_none_iff.mp h _ hmem
  | some v =>
    obtain ⟨as, bs, hl, -⟩ := List.lookup_eq_some_iff.mp h
    refine (Std.ExtTreeMap.mem_toList_iff_getElem?_eq_some.mp ?_).symm
    rw [hl]; simp

theorem mem_vals [Std.LawfulEqOrd κ] {v : υ} : v ∈ vals m ↔ ∃ k : κ, m[k]? = some v := by
  simp [vals, Std.ExtTreeMap.mem_toList_iff_getElem?_eq_some]

theorem length_vals (m : Map κ υ) : (vals m).length = m.size := by
  rw [vals, List.length_map, Std.ExtTreeMap.length_toList]

/-- Where the key can be read off a value, no value occurs twice. -/
theorem nodup_vals [Std.LawfulEqOrd κ] {key : υ → κ}
    (h : ∀ (k : κ) (v : υ), m[k]? = some v → key v = k) : (vals m).Nodup := by
  refine (List.nodup_map_iff_inj_on ?_).mpr ?_
  · exact (nodup_keys m).of_map Prod.fst
  · rintro ⟨k, v⟩ hv ⟨k', v'⟩ hv' rfl
    rw [Std.ExtTreeMap.mem_toList_iff_getElem?_eq_some] at hv hv'
    rw [← h k v hv, ← h k' v hv']

theorem size_eq_of_mem_iff [Std.LawfulEqOrd κ] {m' : Map κ υ} (h : ∀ k, k ∈ m ↔ k ∈ m') : m.size = m'.size := by
  rw [← Std.ExtTreeMap.length_keys, ← Std.ExtTreeMap.length_keys]
  refine ((List.perm_ext_iff_of_nodup Std.ExtTreeMap.nodup_keys Std.ExtTreeMap.nodup_keys).mpr
    fun k => ?_).length_eq
  rw [Std.ExtTreeMap.mem_keys, Std.ExtTreeMap.mem_keys, h]

/-- A map that is sent only if it has entries. -/
theorem getD_unless_empty (m : Map κ υ) : (if m.isEmpty then none else some m).getD ∅ = m := by
  split
  · rename_i h
    exact (Std.ExtTreeMap.isEmpty_iff.mp h).symm
  · rfl

theorem getElem?_empty (k : κ) : (∅ : Map κ υ)[k]? = none := Std.ExtTreeMap.getElem?_empty

end Map

end Freebird
