import Freebird.Common.Crypto

/-!
# The shell of a contract

`update_state` is one loop in every contract: an incoming state is merged, a delta is applied, and
the first error ends it. What arrives as bytes stands here decoded, with zero bytes as `none`. The
loop does the same as one over the states and deltas it is handed, in a row (`loop_eq_ok`), and
facts about it are proved there.
-/

namespace Freebird

inductive ContractError
  | deser (reason : String)
  | invalidUpdate
  | invalidUpdateWithInfo (reason : String)
  deriving DecidableEq

inductive ValidateResult
  | valid
  | invalid
  deriving DecidableEq

/-- `related` stands for every variant the contracts do not use. -/
inductive UpdateData (σ δ : Type)
  | state (state : σ)
  | delta (delta : Option δ)
  | stateAndDelta (state : σ) (delta : Option δ)
  | related

def maxFutureMs : Nat := 600000

/-- `now_ms.saturating_add(MAX_FUTURE_MS)` -/
def futureBound (now : U64) : Nat := min (now + maxFutureMs) (2 ^ 64 - 1)

/-- `map_err(|e| ContractError::InvalidUpdateWithInfo { reason: e })`, with the state that is held
afterwards. -/
def orInvalid : Except String Unit × τ → Except ContractError τ
  | (.ok (), held) => .ok held
  | (.error e, _) => .error (.invalidUpdateWithInfo e)

theorem orInvalid_eq_ok {r : Except String Unit × τ} {t : τ} :
    orInvalid r = .ok t ↔ r = (.ok (), t) := by
  obtain ⟨e | ⟨⟩, s⟩ := r <;> simp [orInvalid]

/-- The end of `validate_state`: a state the scrub would change is invalid, any other one is verified. -/
theorem verdict_eq_valid {c : Prop} [Decidable c] {r : Except String Unit} :
    (if c then ValidateResult.invalid else match r with
      | .ok () => .valid
      | .error _ => .invalid) = .valid ↔ ¬c ∧ r = .ok () := by
  by_cases h : c
  · simp [h]
  · cases r <;> simp [h]

/-- What the scrub leaves of the entries of a delta. -/
theorem mem_scrubbed {o : Option (List α)} {f : α → Bool} {x : α} :
    x ∈ (o.map (·.filter f)).getD [] ↔ x ∈ o.getD [] ∧ f x = true := by
  cases o <;> simp

/-- What a contract does with an incoming state and with a delta; `τ` is what it holds between
them. -/
structure Shell (τ σ δ : Type) where
  receive : τ → σ → Except ContractError τ
  apply : τ → δ → Except ContractError τ

namespace Shell

variable {τ σ δ : Type} (S : Shell τ σ δ)

/-- One turn of the loop. -/
def step (held : τ) : UpdateData σ δ → Except ContractError τ
  | .state incoming => S.receive held incoming
  | .delta none => .ok held
  | .delta (some delta) => S.apply held delta
  | .stateAndDelta incoming delta => do
    let held ← S.receive held incoming
    match delta with
    | none => return held
    | some delta => S.apply held delta
  | .related => .error .invalidUpdate

/-- The loop of `update_state`. -/
def loop : τ → List (UpdateData σ δ) → Except ContractError τ
  | held, [] => .ok held
  | held, update :: updates => do loop (← S.step held update) updates

end Shell

/-! ## States and deltas in a row -/

/-- The states and deltas an update hands over. -/
def UpdateData.parts : UpdateData σ δ → List (σ ⊕ δ)
  | .state x => [.inl x]
  | .delta d => d.toList.map .inr
  | .stateAndDelta x d => .inl x :: d.toList.map .inr
  | .related => []

namespace Shell

variable {τ σ δ : Type} {S : Shell τ σ δ} {t t' : τ} {P : τ → Prop}

variable (S) in
def part (held : τ) : σ ⊕ δ → Except ContractError τ
  | .inl incoming => S.receive held incoming
  | .inr delta => S.apply held delta

variable (S) in
/-- The loop over states and deltas in a row. -/
def run : τ → List (σ ⊕ δ) → Except ContractError τ
  | held, [] => .ok held
  | held, a :: as => do run (← S.part held a) as

theorem run_cons_eq_ok : S.run t (a :: as) = .ok t' ↔
    ∃ u, S.part t a = .ok u ∧ S.run u as = .ok t' := bind_eq_ok

theorem run_append : S.run t (as ++ bs) = (do S.run (← S.run t as) bs) := by
  induction as generalizing t with
  | nil => rfl
  | cons a as ih =>
    rw [List.cons_append, run, run, bind_assoc]
    exact bind_congr fun u => ih

theorem run_singleton (a : σ ⊕ δ) : S.run t [a] = S.part t a := by
  rw [run]
  exact bind_pure _

theorem step_eq_run {u : UpdateData σ δ} (h : u ≠ .related) : S.step t u = S.run t u.parts := by
  cases u with
  | state incoming => exact (run_singleton (.inl incoming)).symm
  | delta delta =>
    cases delta with
    | none => rfl
    | some delta => exact (run_singleton (.inr delta)).symm
  | stateAndDelta incoming delta =>
    refine bind_congr fun v => ?_
    cases delta with
    | none => rfl
    | some delta => exact (run_singleton (.inr delta)).symm
  | related => exact absurd rfl h

/-- Without an unknown variant, the loop is the one over states and deltas. -/
theorem loop_eq_run {us : List (UpdateData σ δ)} (h : ∀ u ∈ us, u ≠ .related) :
    S.loop t us = S.run t (us.flatMap UpdateData.parts) := by
  induction us generalizing t with
  | nil => rfl
  | cons u us ih =>
    rw [List.forall_mem_cons] at h
    rw [loop, List.flatMap_cons, run_append, step_eq_run h.1]
    exact bind_congr fun v => ih h.2

/-- A loop that succeeds met no unknown variant. -/
theorem known_of_loop {us : List (UpdateData σ δ)} (h : S.loop t us = .ok t') :
    ∀ u ∈ us, u ≠ .related := by
  induction us generalizing t with
  | nil => nofun
  | cons u us ih =>
    obtain ⟨v, hv, hrest⟩ := bind_eq_ok.mp h
    refine List.forall_mem_cons.mpr ⟨?_, ih hrest⟩
    rintro rfl
    cases hv

theorem loop_eq_ok {us : List (UpdateData σ δ)} (h : S.loop t us = .ok t') :
    S.run t (us.flatMap UpdateData.parts) = .ok t' :=
  (loop_eq_run (known_of_loop h)).symm.trans h

/-- Where no state or delta is refused, the loop is a fold. -/
theorem run_eq_foldl {g : τ → σ ⊕ δ → τ} (h : ∀ a ∈ as, ∀ u, S.part u a = .ok (g u a)) :
    S.run t as = .ok (as.foldl g t) := by
  induction as generalizing t with
  | nil => rfl
  | cons a as ih =>
    rw [List.forall_mem_cons] at h
    rw [run, h.1]
    exact ih h.2

/-- What every state and delta preserves holds at the end. -/
theorem run_invariant (hstep : ∀ a ∈ as, ∀ u v, P u → S.part u a = .ok v → P v) (ht : P t)
    (h : S.run t as = .ok t') : P t' := by
  induction as generalizing t with
  | nil => exact Except.ok.inj h ▸ ht
  | cons a as ih =>
    obtain ⟨u, hu, hrun⟩ := run_cons_eq_ok.mp h
    rw [List.forall_mem_cons] at hstep
    exact ih hstep.2 (hstep.1 t u ht hu) hrun

theorem run_idle (hidle : ∀ a ∈ as, ∀ u, S.part t a = .ok u → u = t) (h : S.run t as = .ok t') :
    t' = t := by
  induction as with
  | nil => exact (Except.ok.inj h).symm
  | cons a as ih =>
    obtain ⟨u, hu, hrun⟩ := run_cons_eq_ok.mp h
    rw [List.forall_mem_cons] at hidle
    obtain rfl := hidle.1 u hu
    exact ih hidle.2 hrun

/-- Where each part leaves `t` alone or establishes what is preserved, one that does the latter is
enough. -/
theorem run_reaches (hstep : ∀ a ∈ as, ∀ u v, P u → S.part u a = .ok v → P v)
    (hfirst : ∀ a ∈ as, ∀ u, S.part t a = .ok u → u = t ∨ P u)
    (hone : ∃ a ∈ as, ∀ u, S.part t a = .ok u → P u) (h : S.run t as = .ok t') : P t' := by
  induction as with
  | nil =>
    obtain ⟨a, ha, -⟩ := hone
    cases ha
  | cons a as ih =>
    obtain ⟨u, hu, hrun⟩ := run_cons_eq_ok.mp h
    have hrest := fun b hb => hstep b (List.mem_cons_of_mem a hb)
    rcases hfirst a List.mem_cons_self u hu with rfl | hP
    · obtain ⟨b, hb, hone⟩ := hone
      rcases List.mem_cons.mp hb with rfl | hb
      · exact run_invariant hrest (hone u hu) hrun
      · exact ih hrest (fun c hc => hfirst c (List.mem_cons_of_mem a hc)) ⟨b, hb, hone⟩ hrun
    · exact run_invariant hrest hP hrun

end Shell

end Freebird
