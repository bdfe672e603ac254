import Freebird.Common.Layout
import Freebird.Delegate.State
import Freebird.Encoding.Base58

/-!
# Origin isolation

Two stores that differ in the keys of one origin only answer every other origin alike
(`handleRequest_congr`), and the requests of an origin change no keys but its own
(`handleRequest_agree`). So an origin receives what it would receive if another one had asked
nothing (`received_filter`).
-/

namespace Freebird

open Encoding

/-! ## Strings in the key space -/

theorem fromUtf8_utf8 (s : String) : fromUtf8 (utf8 s) = some s := by
  have hbytes : (utf8 s).map (fun b => UInt8.ofNat b.val) = s.toUTF8.data.toList := by
    rw [utf8, List.map_map, ByteArray.toList, toList_loop_eq]
    conv_rhs => rw [← List.map_id s.toUTF8.data.toList]
    refine List.map_congr_left fun b _ => ?_
    rw [Function.comp_apply, Fin.val_ofNat, Nat.mod_eq_of_lt b.toNat_lt]
    exact UInt8.ofNat_toNat
  have hvalid : s.toUTF8.IsValidUTF8 := s.isValidUTF8
  rw [fromUtf8, hbytes]
  exact dif_pos hvalid

theorem stripPrefix_eq_some {s pre t : String} : stripPrefix s pre = some t ↔ s = pre ++ t := by
  rw [stripPrefix, ← String.toList_inj, String.toList_append]
  constructor
  · intro h
    split at h
    · rename_i hpre
      obtain ⟨l, hl⟩ := List.isPrefixOf_iff_prefix.mp hpre
      rw [← hl, List.drop_left] at h
      rw [← hl, ← Option.some.inj h, String.toList_ofList]
    · cases h
  · intro h
    rw [h, if_pos (List.isPrefixOf_iff_prefix.mpr ⟨_, rfl⟩), List.drop_left, String.ofList_toList]

/-- What a key names behind the prefix of an origin, if it lies in the key space of the origin. -/
def keyIn (pre : String) (k : List U8) : Option String := (fromUtf8 k).bind (stripPrefix · pre)

theorem keyIn_utf8 (pre key : String) : keyIn pre (utf8 (pre ++ key)) = some key := by
  rw [keyIn, fromUtf8_utf8, Option.bind_some, stripPrefix_eq_some]

section
variable {bs58 : List U8 → String} {A B o : List U8} {k : List U8} {key key' : String}

/-- The key spaces of two origins are disjoint: the separator ends the encoding of an origin. -/
theorem origin_eq_of_keyIn (hinj : Function.Injective bs58) (hsep : ∀ o, ':' ∉ (bs58 o).toList)
    (hA : keyIn (originPrefix bs58 A) k = some key) (hB : keyIn (originPrefix bs58 B) k = some key') :
    A = B := by
  rw [keyIn, Option.bind_eq_some_iff] at hA hB
  obtain ⟨s, hs, hA⟩ := hA
  obtain ⟨s', hs', hB⟩ := hB
  obtain rfl : s = s' := Option.some.inj (hs.symm.trans hs')
  have he := (stripPrefix_eq_some.mp hA).symm.trans (stripPrefix_eq_some.mp hB)
  rw [← String.toList_inj, originPrefix, originPrefix] at he
  simp only [String.toList_append] at he
  exact hinj (String.toList_inj.mp ((Delimited.terminated ':').cancel (hsep A) (hsep B) he).1)

end

/-! ## Keys in order -/

theorem filterMap_filter_isSome {α β : Type} (f : α → Option β) (l : List α) :
    (l.filter fun a => (f a).isSome).filterMap f = l.filterMap f := by
  rw [List.filterMap_filter]
  refine List.filterMap_congr fun a _ => ?_
  cases f a <;> rfl

/-- A listing reads the same from two maps that agree on the keys it shows. -/
theorem Map.filterMap_keys_congr {κ υ β : Type} [Ord κ] [Std.TransOrd κ] [Std.LawfulEqOrd κ]
    {m m' : Map κ υ} {f : κ → Option β} (h : ∀ k, (f k).isSome → (k ∈ m ↔ k ∈ m')) :
    m.keys.filterMap f = m'.keys.filterMap f := by
  have : Std.Irrefl fun a b : κ => compare a b = .lt := ⟨fun a ha => by simp at ha⟩
  have : Std.Antisymm fun a b : κ => compare a b = .lt :=
    ⟨fun a b hab hba => by simp [Std.OrientedOrd.eq_swap (a := b), hab] at hba⟩
  have sorted (m : Map κ υ) : (m.keys.filter fun k => (f k).isSome).Pairwise
      fun a b => compare a b = .lt := Std.ExtTreeMap.ordered_keys.sublist List.filter_sublist
  have hkeys : m.keys.filter (fun k => (f k).isSome) = m'.keys.filter fun k => (f k).isSome := by
    refine List.Pairwise.eq_of_mem_iff (sorted m) (sorted m') fun k => ?_
    rw [List.mem_filter, List.mem_filter, Std.ExtTreeMap.mem_keys, Std.ExtTreeMap.mem_keys]
    exact and_congr_left (h k)
  rw [← filterMap_filter_isSome, hkeys, filterMap_filter_isSome]

/-! ## Two runs -/

section
variable {bs58 : List U8 → String} {A B o : List U8} {m m' : MemKv}
  {request : FreebirdDelegateRequest} {requests : List (List U8 × FreebirdDelegateRequest)}

/-- The stores differ in the keys of one origin at most. -/
def AgreeOff (pre : String) (m m' : MemKv) : Prop :=
  ∀ k : List U8, keyIn pre k = none → m[k]? = m'[k]?

variable (hinj : Function.Injective bs58) (hsep : ∀ o, ':' ∉ (bs58 o).toList) (hne : o ≠ A)
include hinj hsep hne

theorem AgreeOff.getElem? (h : AgreeOff (originPrefix bs58 A) m m') {k : List U8} {key : String}
    (hk : keyIn (originPrefix bs58 o) k = some key) : m[k]? = m'[k]? := by
  refine h k ?_
  by_contra hA
  obtain ⟨key', hA⟩ := Option.ne_none_iff_exists'.mp hA
  exact hne (origin_eq_of_keyIn hinj hsep hk hA)

/-- **Another origin is answered alike**, and the stores stay alike. -/
theorem handleRequest_congr (h : AgreeOff (originPrefix bs58 A) m m') :
    (handleRequest bs58 m o request).1 = (handleRequest bs58 m' o request).1 ∧
      AgreeOff (originPrefix bs58 A) (handleRequest bs58 m o request).2
        (handleRequest bs58 m' o request).2 := by
  cases request with
  | store key value =>
    refine ⟨rfl, fun k hk => ?_⟩
    change (m.insert _ _)[k]? = (m'.insert _ _)[k]?
    rw [Std.ExtTreeMap.getElem?_insert, Std.ExtTreeMap.getElem?_insert, h k hk]
  | get key =>
    refine ⟨congrArg (FreebirdDelegateResponse.value key) ?_, h⟩
    exact h.getElem? hinj hsep hne (keyIn_utf8 _ key)
  | delete key =>
    refine ⟨rfl, fun k hk => ?_⟩
    change (m.erase _)[k]? = (m'.erase _)[k]?
    rw [Std.ExtTreeMap.getElem?_erase, Std.ExtTreeMap.getElem?_erase, h k hk]
  | list =>
    refine ⟨congrArg FreebirdDelegateResponse.keyList ?_, h⟩
    change (m.keys.filter _).filterMap _ = (m'.keys.filter _).filterMap _
    rw [List.filterMap_filter, List.filterMap_filter]
    refine Map.filterMap_keys_congr fun k hk => ?_
    split at hk
    · obtain ⟨key, hkey⟩ := Option.isSome_iff_exists.mp hk
      rw [Map.mem_iff, Map.mem_iff, h.getElem? hinj hsep hne hkey]
    · cases hk

end

/-- The requests of an origin change no keys but its own. -/
theorem handleRequest_agree (h : AgreeOff (originPrefix bs58 A) m m') :
    AgreeOff (originPrefix bs58 A) (handleRequest bs58 m A request).2 m' := by
  intro k hk
  have hother (key : String) : utf8 (originPrefix bs58 A ++ key) ≠ k := by
    rintro rfl
    rw [keyIn_utf8] at hk
    cases hk
  cases request with
  | store key value =>
    change (m.insert _ _)[k]? = _
    rw [Std.ExtTreeMap.getElem?_insert, if_neg (by simpa using hother key), h k hk]
  | get key => exact h k hk
  | delete key =>
    change (m.erase _)[k]? = _
    rw [Std.ExtTreeMap.getElem?_erase, if_neg (by simpa using hother key), h k hk]
  | list => exact h k hk

theorem serve_cons (kv : MemKv) : serve bs58 kv ((o, request) :: requests) =
    (o, (handleRequest bs58 kv o request).1) ::
      serve bs58 (handleRequest bs58 kv o request).2 requests := rfl

theorem received_cons (response : FreebirdDelegateResponse)
    (log : List (List U8 × FreebirdDelegateResponse)) : received B ((o, response) :: log) =
      if o = B then response :: received B log else received B log := by
  rw [received, List.filter_cons]
  by_cases ho : o = B
  · rw [if_pos ho, if_pos (decide_eq_true ho)]
    rfl
  · rw [if_neg ho, if_neg (by simpa using ho)]
    rfl

/-- The two runs go in step, but for the requests of `A`. -/
theorem received_congr (hinj : Function.Injective bs58) (hsep : ∀ o, ':' ∉ (bs58 o).toList)
    (hAB : A ≠ B) (h : AgreeOff (originPrefix bs58 A) m m') : received B (serve bs58 m requests) =
      received B (serve bs58 m' (requests.filter fun r => r.1 ≠ A)) := by
  induction requests generalizing m m' with
  | nil => rfl
  | cons r requests ih =>
    obtain ⟨o, request⟩ := r
    by_cases ho : o = A
    · subst ho
      rw [List.filter_cons_of_neg (by simp), serve_cons, received_cons, if_neg hAB]
      exact ih (handleRequest_agree h)
    · obtain ⟨hresponse, hrest⟩ := handleRequest_congr hinj hsep ho h
      rw [List.filter_cons_of_pos (by simpa using ho), serve_cons, serve_cons, received_cons,
        received_cons, hresponse, ih hrest]

/-- **Origin isolation**: an origin receives what it would receive if another one had asked
nothing. -/
theorem received_filter (hinj : Function.Injective bs58) (hsep : ∀ o, ':' ∉ (bs58 o).toList)
    (hAB : A ≠ B) (kv : MemKv) (requests : List (List U8 × FreebirdDelegateRequest)) :
    received B (serve bs58 kv requests) =
      received B (serve bs58 kv (requests.filter fun r => r.1 ≠ A)) :=
  received_congr hinj hsep hAB fun _ _ => rfl

/-- An origin asks for the keys of another one by their names, and for a listing. -/
theorem received_filter_base58 :
    let requests : List (List U8 × FreebirdDelegateRequest) :=
      [([1], .store "posting_key" [9]), ([2], .get "posting_key"), ([1], .store "3:x" [7]),
        ([2], .store "x" [8]), ([2], .list)]
    received [2] (serve Base58.encode (∅ : MemKv) requests) =
      received [2] (serve Base58.encode (∅ : MemKv) (requests.filter fun r => r.1 ≠ [1])) :=
  received_filter Base58.encode_injective Base58.separator_not_mem (by decide) ∅ _

end Freebird
