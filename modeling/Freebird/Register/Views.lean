import Freebird.Register.Newest

/-!
# Registers of a system

A part of a system's state is a register if an event that brings it something leaves the newer of
what it holds and what is brought, and any other event leaves it alone (`Shows`). Then it is after a
run the newest of what it held and what was brought (`Shows.run`), and two runs in which the same
things arrived, in any order and number, leave it alike unless two of the newest differ
(`Shows.agree`).
-/

universe u v w x

namespace Register

variable {σ : Type u} {ε : Type v} {α : Type w} {μ κ : Type x}

/-- What arrives along a run. -/
def arrivals (step : σ → ε → σ) (arrives : σ → ε → Option μ) : σ → List ε → List μ
  | _, [] => []
  | s, e :: es => (arrives s e).toList ++ arrivals step arrives (step s e) es

variable [LinearOrder κ]

/-- A view of the state is a register for what arrives, as `read` reads it. -/
structure Shows (step : σ → ε → σ) (arrives : σ → ε → Option μ) (key : α → κ) (view : σ → α)
    (read : μ → α) : Prop where
  arrive : ∀ s e m, arrives s e = some m → view (step s e) = newer key (view s) (read m)
  stay : ∀ s e, arrives s e = none → view (step s e) = view s

/-- No two of the newest things that are above what is held differ. -/
def Untied (key : α → κ) (held : α) (ms : List μ) (read : μ → α) : Prop :=
  ∀ m ∈ ms, ∀ n ∈ ms, (∀ l ∈ ms, key (read l) ≤ key (read m)) → key held < key (read m) →
    key (read n) = key (read m) → read n = read m

namespace Shows

variable {step : σ → ε → σ} {arrives : σ → ε → Option μ} {key : α → κ} {view : σ → α}
  {read : μ → α} {s s' : σ} {es es' : List ε}

/-- **A register after a run** is the newest of what it held and what arrived. -/
theorem run (h : Shows step arrives key view read) (s : σ) (es : List ε) :
    view (es.foldl step s) =
      newest key (view s) ((arrivals step arrives s es).map read) := by
  induction es generalizing s with
  | nil => rfl
  | cons e es ih =>
    rw [List.foldl_cons, ih, arrivals]
    cases he : arrives s e with
    | none =>
      rw [h.stay s e he]
      rfl
    | some m =>
      rw [h.arrive s e m he]
      rfl

/-- **Two runs agree** in which the same things arrived, unless two of the newest differ. -/
theorem agree (h : Shows step arrives key view read) (hview : view s = view s')
    (hsame : ∀ m, m ∈ arrivals step arrives s es ↔ m ∈ arrivals step arrives s' es')
    (htop : Untied key (view s) (arrivals step arrives s es) read) :
    view (es.foldl step s) = view (es'.foldl step s') := by
  rw [h.run, h.run, ← hview]
  exact (newest_agree_iff key read (view s) _).mpr htop _ _ (fun _ => Iff.rfl)
    fun m => (hsame m).symm

end Shows

end Register
