import Mathlib

/-!
# Horizons

A store that keeps the highest keys up to a cap tells its peers from which key on it would keep an
entry. Among the keys it does not hold, the horizon admits exactly those that fewer keys than the
cap lie above (`horizon_admits_iff`).
-/

universe v

namespace Retention

/-- What a tier admits: everything, what lies above its oldest entry, or nothing. -/
inductive TierHorizon (κ : Type v) where
  | open
  | oldestRetained (key : κ)
  | closed
  deriving DecidableEq

variable {κ : Type v} [LinearOrder κ]

namespace TierHorizon

def admits (h : TierHorizon κ) (key : κ) : Bool :=
  match h with
  | .open => true
  | .oldestRetained oldest => oldest < key
  | .closed => false

end TierHorizon

/-- The horizon of a store with room for `cap` entries that holds the keys `ks`. -/
def horizon (cap : ℕ) (ks : List κ) : TierHorizon κ :=
  if cap = 0 then .closed
  else
    match ks.min? with
    | some oldest => if cap ≤ ks.length then .oldestRetained oldest else .open
    | none => .open

variable {ks : List κ} {k : κ} {cap : ℕ}

/-- In a full list of keys, fewer than all lie above a new key exactly when the oldest one lies
below it. -/
theorem countP_above_lt_iff (hk : k ∉ ks) (hcap : ks.length ≤ cap) (hpos : 0 < cap) :
    ks.countP (fun x => k < x) < cap ↔
      ∀ oldest, ks.min? = some oldest → cap ≤ ks.length → oldest < k := by
  constructor
  · intro hlt oldest ho hfull
    obtain ⟨hmem, hmin⟩ := List.min?_eq_some_iff.mp ho
    by_contra hge
    refine absurd (hfull.trans_lt' hlt) (not_lt.mpr (List.countP_eq_length.mpr fun x hx => ?_).ge)
    have hlt' : k < oldest := lt_of_le_of_ne (not_lt.mp hge) fun he => hk (he ▸ hmem)
    exact decide_eq_true (hlt'.trans_le (hmin x hx))
  · intro hold
    by_cases hfull : cap ≤ ks.length
    · have hne : ks ≠ [] := List.ne_nil_of_length_pos (hpos.trans_le hfull)
      obtain ⟨oldest, ho⟩ := Option.ne_none_iff_exists'.mp (List.min?_eq_none_iff.not.mpr hne)
      have hmem := (List.min?_eq_some_iff.mp ho).1
      refine lt_of_lt_of_le (List.countP_lt_length_iff.mpr ⟨oldest, hmem, ?_⟩) hcap
      simpa using (hold oldest ho hfull).le
    · exact List.countP_le_length.trans_lt (not_le.mp hfull)

/-- **A horizon is exact** on the keys the store does not hold. -/
theorem horizon_admits_iff (hk : k ∉ ks) (hcap : ks.length ≤ cap) :
    (horizon cap ks).admits k = true ↔ ks.countP (fun x => k < x) < cap := by
  unfold horizon
  by_cases hz : cap = 0
  · simp [hz, TierHorizon.admits]
  · rw [if_neg hz, countP_above_lt_iff hk hcap (Nat.pos_of_ne_zero hz)]
    cases ks.min? with
    | none => simp [TierHorizon.admits]
    | some oldest =>
      simp only [Option.some.injEq, forall_eq']
      split <;> simp_all [TierHorizon.admits]

theorem min?_eq_head? (h : ks.Pairwise (· < ·)) : ks.min? = ks.head? := by
  cases ks with
  | nil => rfl
  | cons k ks =>
    refine List.min?_eq_some_iff.mpr ⟨List.mem_cons_self, fun x hx => ?_⟩
    rcases List.mem_cons.mp hx with rfl | hx
    · exact le_rfl
    · exact ((List.pairwise_cons.mp h).1 x hx).le

end Retention
