import Mathlib

/-!
# Climbing along references

A reference may find an item, and an item may refer to a parent. Nothing is asked of the references:
they may lead in circles or to nothing. A walk that climbs from parent to parent and stops where it
has been before ends all the same, as it passes each item once (`climb_eq_some`), and it ends at a
reference that finds nothing exactly if there is one on the way up (`Passed.lost_iff`).
-/

universe u v

namespace Ascent

variable {ρ : Type u} {π : Type v} (find : ρ → Option π) (up : π → Option ρ)

/-- The `n`-th reference on the way up. -/
def ancestor (start : Option ρ) : ℕ → Option ρ
  | 0 => start
  | n + 1 => (ancestor start n).bind fun r => (find r).bind up

/-- The items passed by a walk, in the order of the walk, and the reference that found nothing, if
that ended it. A walk that runs out of fuel gives nothing. -/
def climb [DecidableEq ρ] : ℕ → List (ρ × π) → Option ρ → Option (List (ρ × π) × Option ρ)
  | _, passed, none => some (passed, none)
  | 0, _, some _ => none
  | n + 1, passed, some r =>
    if r ∈ passed.map Prod.fst then some (passed, none)
    else
      match find r with
      | some p => climb n (passed ++ [(r, p)]) (up p)
      | none => some (passed, some r)

variable {find up} {start cursor lost : Option ρ} {passed : List (ρ × π)} {r s : ρ} {p : π}
  {m n i : ℕ}

/-- Everything below a reference on the way up finds an item. -/
theorem find_of_lt (h : ancestor find up start n = some r) (hm : m < n) :
    ∃ s p, ancestor find up start m = some s ∧ find s = some p := by
  induction n generalizing r with
  | zero => exact absurd hm (Nat.not_lt_zero m)
  | succ n ih =>
    obtain ⟨s, hs, hr⟩ := Option.bind_eq_some_iff.mp h
    obtain ⟨p, hp, -⟩ := Option.bind_eq_some_iff.mp hr
    rcases Nat.lt_succ_iff_lt_or_eq.mp hm with hlt | rfl
    · exact ih hs hlt
    · exact ⟨s, p, hs, hp⟩

/-! ## A walk under way -/

variable (find up start) in
/-- The items passed are the first ones on the way up, and `cursor` comes next. -/
structure Passed (passed : List (ρ × π)) (cursor : Option ρ) : Prop where
  nodup : (passed.map Prod.fst).Nodup
  found : ∀ c ∈ passed, find c.1 = some c.2
  nth : ∀ i (h : i < passed.length), ancestor find up start i = some passed[i].1
  next : ancestor find up start passed.length = cursor

/-- A walk ends at the top, at a reference it has been at, or at one that finds nothing. -/
inductive Stopped (find : ρ → Option π) (passed : List (ρ × π)) : Option ρ → Option ρ → Prop
  | top : Stopped find passed none none
  | circle {r : ρ} : r ∈ passed.map Prod.fst → Stopped find passed (some r) none
  | lost {r : ρ} : find r = none → Stopped find passed (some r) (some r)

namespace Passed

theorem nil : Passed find up start [] start := ⟨.nil, nofun, nofun, rfl⟩

theorem append (h : Passed find up start passed (some r)) (hr : r ∉ passed.map Prod.fst)
    (hp : find r = some p) : Passed find up start (passed ++ [(r, p)]) (up p) where
  nodup := by
    rw [List.map_append, List.map_singleton]
    exact h.nodup.append (List.nodup_singleton r) (List.disjoint_singleton.mpr hr)
  found := by
    intro c hc
    rcases List.mem_append.mp hc with hc | hc
    · exact h.found c hc
    · rw [List.mem_singleton.mp hc, hp]
  nth := by
    intro i hi
    rw [List.length_append, List.length_singleton, Nat.lt_succ_iff_lt_or_eq] at hi
    rcases hi with hi | rfl
    · rw [List.getElem_append_left hi]
      exact h.nth i hi
    · rw [List.getElem_concat_length rfl]
      exact h.next
  next := by
    rw [List.length_append, List.length_singleton, ancestor, h.next, Option.bind_some, hp,
      Option.bind_some]

theorem succ (h : Passed find up start passed cursor) (hi : i < passed.length) :
    ancestor find up start (i + 1) = up passed[i].2 := by
  rw [ancestor, h.nth i hi, Option.bind_some, h.found _ (List.getElem_mem hi), Option.bind_some]

/-- Each item refers to the next one. -/
theorem isChain (h : Passed find up start passed cursor) :
    passed.IsChain fun a b => up a.2 = some b.1 := by
  refine List.isChain_iff_getElem.mpr fun i hi => ?_
  rw [← h.succ (Nat.lt_of_succ_lt hi)]
  exact h.nth (i + 1) hi

/-- A walk passes the item it starts at, if there is one. -/
theorem head? (h : Passed find up start passed cursor) (hstop : Stopped find passed cursor lost) :
    passed.head? = start.bind fun r => (find r).map fun p => (r, p) := by
  cases passed with
  | nil =>
    have hstart : start = cursor := h.next
    rw [hstart]
    cases hstop with
    | top => rfl
    | circle hr => cases hr
    | lost hr => rw [Option.bind_some, hr, Option.map_none, List.head?_nil]
  | cons c passed =>
    have hstart : start = some c.1 := h.nth 0 (Nat.succ_pos _)
    rw [hstart, Option.bind_some, h.found c List.mem_cons_self, Option.map_some, List.head?_cons]

/-- Whatever lies on the way up was passed, or is where the walk got lost. -/
theorem of_ancestor (h : Passed find up start passed cursor)
    (hstop : Stopped find passed cursor lost) (hn : ancestor find up start n = some r) :
    r ∈ passed.map Prod.fst ∨ lost = some r := by
  have visited {i : ℕ} {s : ρ} (hi : i ≤ passed.length) (hs : ancestor find up start i = some s) :
      s ∈ passed.map Prod.fst ∨ lost = some s := by
    rcases hi.lt_or_eq with hi | rfl
    · obtain rfl := Option.some.inj ((h.nth i hi).symm.trans hs)
      exact .inl (List.mem_map_of_mem (List.getElem_mem hi))
    · rw [h.next] at hs
      subst hs
      cases hstop with
      | circle hs => exact .inl hs
      | lost => exact .inr rfl
  induction n generalizing r with
  | zero => exact visited (Nat.zero_le _) hn
  | succ n ih =>
    obtain ⟨s, hs, hr⟩ := Option.bind_eq_some_iff.mp hn
    obtain ⟨p, hp, hup⟩ := Option.bind_eq_some_iff.mp hr
    rcases ih hs with hmem | rfl
    · obtain ⟨c, hc, rfl⟩ := List.mem_map.mp hmem
      obtain ⟨i, hi, rfl⟩ := List.getElem_of_mem hc
      obtain rfl := Option.some.inj ((h.found _ hc).symm.trans hp)
      exact visited hi ((h.succ hi).trans hup)
    · cases hstop with
      | lost hnone =>
        rw [hnone] at hp
        cases hp

/-- **The walk gets lost exactly if some reference on the way up finds nothing**, and then there. -/
theorem lost_iff (h : Passed find up start passed cursor)
    (hstop : Stopped find passed cursor lost) :
    lost = some r ↔ ∃ n, ancestor find up start n = some r ∧ find r = none ∧
      ∀ m < n, ∃ s p, ancestor find up start m = some s ∧ find s = some p := by
  constructor
  · rintro rfl
    cases hstop with
    | lost hnone => exact ⟨passed.length, h.next, hnone, fun m hm => find_of_lt h.next hm⟩
  · rintro ⟨n, hn, hnone, -⟩
    refine (h.of_ancestor hstop hn).resolve_left fun hmem => ?_
    obtain ⟨c, hc, rfl⟩ := List.mem_map.mp hmem
    rw [h.found c hc] at hnone
    cases hnone

end Passed

/-! ## The whole walk -/

variable [DecidableEq ρ]

/-- With more fuel than there are references that find an item, the walk ends. The measure is the
number of items not passed yet. -/
theorem climb_eq_some {support : Finset ρ} (hsupport : ∀ r p, find r = some p → r ∈ support)
    (h : Passed find up start passed cursor) (hn : support.card < n + passed.length) :
    ∃ passed' cursor' lost, climb find up n passed cursor = some (passed', lost) ∧
      Passed find up start passed' cursor' ∧ Stopped find passed' cursor' lost := by
  induction n generalizing passed cursor with
  | zero =>
    have hle : passed.length ≤ support.card := by
      rw [← List.length_map Prod.fst, ← List.toFinset_card_of_nodup h.nodup]
      refine Finset.card_le_card fun r hr => ?_
      obtain ⟨c, hc, rfl⟩ := List.mem_map.mp (List.mem_toFinset.mp hr)
      exact hsupport c.1 c.2 (h.found c hc)
    omega
  | succ n ih =>
    cases cursor with
    | none => exact ⟨passed, none, none, rfl, h, .top⟩
    | some r =>
      rw [climb]
      by_cases hr : r ∈ passed.map Prod.fst
      · rw [if_pos hr]
        exact ⟨passed, some r, none, rfl, h, .circle hr⟩
      · rw [if_neg hr]
        cases hp : find r with
        | none => exact ⟨passed, some r, some r, rfl, h, .lost hp⟩
        | some p =>
          refine ih (h.append hr hp) ?_
          rw [List.length_append, List.length_singleton]
          omega

/-- More fuel makes no difference. -/
theorem climb_mono {x : List (ρ × π) × Option ρ} (h : climb find up m passed cursor = some x)
    (hmn : m ≤ n) : climb find up n passed cursor = some x := by
  induction m generalizing n passed cursor with
  | zero =>
    cases cursor with
    | none =>
      rw [climb] at h ⊢
      exact h
    | some r => cases h
  | succ m ih =>
    obtain ⟨n, rfl⟩ := Nat.exists_eq_add_of_lt (Nat.lt_of_succ_le hmn)
    cases cursor with
    | none =>
      rw [climb] at h ⊢
      exact h
    | some r =>
      rw [climb] at h ⊢
      split at h
      · rw [if_pos ‹_›]
        exact h
      · rw [if_neg ‹_›]
        split at h
        · exact ih h (Nat.le_add_right m n)
        · exact h

end Ascent
