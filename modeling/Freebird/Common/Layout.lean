import Freebird.Common.Types
import Freebird.Encoding.Delimited

/-!
# The fields of a signed layout

Fixed-width words and arrays, and strings behind their length, are delimited fields. A hash stands in
a layout as the array it is.
-/

namespace Freebird

open Encoding

/-! ## Words -/

theorem leBytes_succ (k n : Nat) : leBytes (k + 1) n = Fin.ofNat 256 n :: leBytes k (n / 256) := by
  rw [leBytes, List.range_succ_eq_map, List.map_cons, List.map_map, pow_zero, Nat.div_one]
  refine congrArg _ (List.map_congr_left fun i _ => ?_)
  rw [Function.comp_apply, Nat.div_div_eq_div_mul, ← pow_succ']

@[simp] theorem length_leBytes (k n : Nat) : (leBytes k n).length = k := by simp [leBytes]

theorem leBytes_inj {k : Nat} : ∀ {n m : Nat}, n < 256 ^ k → m < 256 ^ k →
    leBytes k n = leBytes k m → n = m := by
  induction k with
  | zero =>
    intro n m hn hm _
    omega
  | succ k ih =>
    intro n m hn hm h
    rw [leBytes_succ, leBytes_succ] at h
    obtain ⟨hmod, hdiv⟩ := List.cons.inj h
    have hmod : n % 256 = m % 256 := congrArg Fin.val hmod
    have hdiv : n / 256 = m / 256 := by
      refine ih (Nat.div_lt_of_lt_mul ?_) (Nat.div_lt_of_lt_mul ?_) hdiv
      · rwa [← pow_succ']
      · rwa [← pow_succ']
    omega

theorem delimited_leBytes (k : Nat) : Delimited (· < 256 ^ k) (leBytes k) :=
  .of_length k (fun n _ => length_leBytes k n) fun _ _ => leBytes_inj

theorem delimited_u64 : Delimited (fun _ => True) fun n : U64 => leBytes 8 n :=
  .of_length 8 (fun n _ => length_leBytes 8 n) fun n m _ _ h =>
    Fin.ext (leBytes_inj n.isLt m.isLt h)

theorem delimited_u32 : Delimited (fun _ => True) fun n : U32 => leBytes 4 n :=
  .of_length 4 (fun n _ => length_leBytes 4 n) fun n m _ _ h =>
    Fin.ext (leBytes_inj n.isLt m.isLt h)

/-! ## Arrays, lists and strings -/

theorem delimited_bytes (n : Nat) : Delimited (fun _ => True) (Bytes.toList (n := n)) :=
  .of_length n (fun b _ => b.length_toList) fun _ _ _ _ => Bytes.toList_inj

theorem delimited_putBytes : Delimited (fun l => l.length < 2 ^ 32) putBytes :=
  (delimited_leBytes 4).prefixed

/-- `ByteArray.toList` collects the bytes from the front. -/
theorem toList_loop_eq (bs : ByteArray) (i : Nat) (r : List UInt8) :
    ByteArray.toList.loop bs i r = r.reverse ++ bs.data.toList.drop i := by
  fun_induction ByteArray.toList.loop bs i r with
  | case1 i r hi ih =>
    have hdrop : bs.data.toList.drop i = bs.get! i :: bs.data.toList.drop (i + 1) := by
      rw [List.drop_eq_getElem_cons (by simpa using hi)]
      simp [ByteArray.get!, hi]
    rw [ih, hdrop]
    simp
  | case2 i r hi =>
    have hdrop : bs.data.toList.drop i = [] := List.drop_of_length_le (by simpa using hi)
    rw [hdrop, List.append_nil]

theorem utf8_inj {s t : String} (h : utf8 s = utf8 t) : s = t := by
  have hbytes : s.toUTF8.toList = t.toUTF8.toList := by
    refine List.map_injective_iff.mpr (fun a b hab => ?_) h
    have hval : a.toNat % 256 = b.toNat % 256 := congrArg Fin.val hab
    rw [Nat.mod_eq_of_lt a.toNat_lt, Nat.mod_eq_of_lt b.toNat_lt] at hval
    exact UInt8.toNat_inj.mp hval
  rw [ByteArray.toList, toList_loop_eq, ByteArray.toList, toList_loop_eq] at hbytes
  exact String.toByteArray_inj.mp (ByteArray.ext (Array.toList_inj.mp hbytes))

theorem delimited_postRef :
    Delimited (fun _ => True) fun r : PostRef => r.author.toList ++ r.post.toList :=
  .of_length 48 (by simp) fun r r' _ _ h => by
    obtain ⟨hauthor, h⟩ := (delimited_bytes 32).cancel trivial trivial h
    have hpost := Bytes.toList_inj h
    obtain ⟨author, post⟩ := r
    obtain ⟨author', post'⟩ := r'
    simp_all

/-- A string behind its length. -/
theorem delimited_string : Delimited (fun s => (utf8 s).length < 2 ^ 32) fun s => putBytes (utf8 s) :=
  fun _ _ hs ht _ _ he =>
    have ⟨h, hr⟩ := delimited_putBytes.cancel hs ht he
    ⟨utf8_inj h, hr⟩

end Freebird
