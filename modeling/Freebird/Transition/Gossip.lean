import Freebird.Transition.Runs

/-!
# Replicas that gossip

The replicas of a store answer each other's summaries with deltas, over a network that loses,
repeats and reorders them. Where the states form a join semilattice, so that a delta commutes with
joins (`Lawful.apply_sup`) and brings nothing its sender does not hold (`Lawful.delta_le`), the
least upper bound of all replicas is at every moment what a single server holds that is handed the
same writes in the same order (`Lawful.tracks_run`). So replicas that have nothing left to send each
other hold just that (`Lawful.agree`), and they can always get there (`Lawful.recovers`).
-/

universe u v w

namespace Transition

/-- How the replicas of a store hand each other what they hold. What a replica reads of its
surroundings when it is handed something, such as its clock, is in `τ`. -/
structure Gossip (τ σ κ δ : Type u) where
  summarize : σ → κ
  /-- What the holder of the summary lacks. -/
  delta : σ → κ → Option δ
  /-- Everything that is held. -/
  full : σ → Option δ
  /-- What is held afterwards, unless what was handed over is refused. -/
  apply : τ → σ → δ → Option σ

namespace Gossip

variable {τ σ κ δ : Type u} {ι : Type v}

/-- What the replicas hold, and all that was ever sent. It may arrive anywhere, more than once or
never. -/
structure Network (ι : Type v) (σ δ : Type u) where
  held : ι → σ
  sent : Set δ

/-- All replicas hold `s`. -/
def Network.start (s : σ) : Network ι σ δ := ⟨fun _ => s, ∅⟩

inductive Event (ι : Type v) (τ κ δ : Type u)
  | write (now : τ) (i : ι) (d : δ)
  /-- Replica `i` answers a summary, which may be out of date or made up. -/
  | answer (i : ι) (old : κ)
  | copy (i : ι)
  | deliver (now : τ) (i : ι) (d : δ)

def Event.written : Event ι τ κ δ → Option (τ × δ)
  | .write now _ d => some (now, d)
  | _ => none

/-- What an event hands to a replica. -/
def Event.handed : Event ι τ κ δ → Option (ι × δ)
  | .write _ i d => some (i, d)
  | .deliver _ i d => some (i, d)
  | _ => none

variable (P : Gossip τ σ κ δ)

/-- A single server that is handed the writes in turn, and must take all of them. -/
def serve (s : σ) (ws : List (τ × δ)) : Option σ := ws.foldlM (fun s w => P.apply w.1 s w.2) s

inductive Step [DecidableEq ι] : Network ι σ δ → Event ι τ κ δ → Network ι σ δ → Prop
  | write {N : Network ι σ δ} {now : τ} {i : ι} {d : δ} {s : σ} : P.apply now (N.held i) d = some s →
    Step N (.write now i d) { N with held := Function.update N.held i s }
  | answer {N : Network ι σ δ} {i : ι} {old : κ} {d : δ} : P.delta (N.held i) old = some d →
    Step N (.answer i old) { N with sent := insert d N.sent }
  | copy {N : Network ι σ δ} {i : ι} {d : δ} : P.full (N.held i) = some d →
    Step N (.copy i) { N with sent := insert d N.sent }
  | deliver {N : Network ι σ δ} {now : τ} {i : ι} {d : δ} {s : σ} :
    d ∈ N.sent → P.apply now (N.held i) d = some s →
    Step N (.deliver now i d) { N with held := Function.update N.held i s }

/-- The states of the replicas represent the elements of a semilattice, and what is handed over acts
on them as its elements do. -/
structure Lawful (P : Gossip τ σ κ δ) (α : Type w) [SemilatticeSup α] [OrderBot α] where
  /-- The surroundings in which the laws hold. -/
  Clock : τ → Prop
  /-- What may be written. -/
  Fine : δ → Prop
  /-- The replica can be sent deltas. -/
  Ready : σ → Prop
  state : α → σ
  state_inj : Function.Injective state
  apply_sup : ∀ {now b d t}, Clock now → Fine d → P.apply now (state b) d = some t →
    ∃ c, t = state c ∧
      ∀ a now, Clock now → P.apply now (state (a ⊔ b)) d = some (state (a ⊔ c))
  fine_delta : ∀ {x old d}, P.delta (state x) old = some d → Fine d
  delta_le : ∀ {x old d now a c}, P.delta (state x) old = some d → Clock now →
    P.apply now (state a) d = some (state c) → c ≤ a ⊔ x
  fine_full : ∀ {x d}, P.full (state x) = some d → Fine d
  apply_full : ∀ {x d a now}, P.full (state x) = some d → Clock now →
    P.apply now (state a) d = some (state (a ⊔ x))
  ready_mono : ∀ {a b}, a ≤ b → Ready (state a) → Ready (state b)
  le_of_delta_eq_none : ∀ {x a}, Ready (state a) →
    P.delta (state x) (P.summarize (state a)) = none → x ≤ a
  apply_delta : ∀ {x a d now}, Ready (state a) →
    P.delta (state x) (P.summarize (state a)) = some d → Clock now →
    P.apply now (state a) d = some (state (a ⊔ x))

variable {P}

namespace Lawful

variable {α : Type w} [SemilatticeSup α] [OrderBot α] (L : Lawful P α)

/-- The event hands over only what may be written, in surroundings in which the laws hold. -/
def Genuine : Event ι τ κ δ → Prop
  | .write now _ d => L.Clock now ∧ L.Fine d
  | .deliver now _ _ => L.Clock now
  | _ => True

/-- A run of the replicas. -/
abbrev Run [DecidableEq ι] : Network ι σ δ → List (Event ι τ κ δ) → Network ι σ δ → Prop :=
  Runs fun N e N' => L.Genuine e ∧ Step P N e N'

variable {L} {N N' : Network ι σ δ} {e : Event ι τ κ δ} {es : List (Event ι τ κ δ)} {i j : ι}
  {v : ι → α} {S a b c x : α} {now : τ} {d : δ} {s t : σ}

/-! ## What is handed over -/

/-- Nothing that is handed over takes anything away. -/
theorem le_of_apply (hnow : L.Clock now) (hd : L.Fine d)
    (h : P.apply now (L.state b) d = some (L.state c)) : b ≤ c := by
  obtain ⟨c', hc, hsup⟩ := L.apply_sup hnow hd h
  obtain rfl := L.state_inj hc
  have hself := hsup b now hnow
  rw [sup_idem, h] at hself
  exact le_sup_left.trans_eq (L.state_inj (Option.some.inj hself)).symm

theorem apply_outdated (hready : L.Ready (L.state a)) (hab : a ≤ b)
    (h : P.delta (L.state x) (P.summarize (L.state a)) = some d) (hnow : L.Clock now) :
    P.apply now (L.state b) d = some (L.state (b ⊔ x)) := by
  obtain ⟨c, hc, hsup⟩ := L.apply_sup hnow (L.fine_delta h) (L.apply_delta hready h hnow)
  obtain rfl := L.state_inj hc
  have hb := hsup b now hnow
  rwa [sup_eq_left.mpr hab, ← sup_assoc, sup_eq_left.mpr hab] at hb

variable (L) in
/-- There is nothing in `d` that `a` lacks. -/
def Absorbs (d : δ) (a : α) : Prop :=
  ∀ now, L.Clock now → P.apply now (L.state a) d = some (L.state a)

theorem absorbs_of_apply (hnow : L.Clock now) (hd : L.Fine d)
    (h : P.apply now (L.state b) d = some (L.state c)) : L.Absorbs d c := by
  obtain ⟨c', hc, hsup⟩ := L.apply_sup hnow hd h
  obtain rfl := L.state_inj hc
  intro now' hnow'
  have hc := hsup c now' hnow'
  rwa [sup_eq_left.mpr (le_of_apply hnow hd h), sup_idem] at hc

theorem Absorbs.mono (hd : L.Fine d) (h : L.Absorbs d a) (hac : a ≤ c) : L.Absorbs d c := by
  intro now hnow
  obtain ⟨a', ha, hsup⟩ := L.apply_sup hnow hd (h now hnow)
  obtain rfl := L.state_inj ha
  have hc := hsup c now hnow
  rwa [sup_eq_left.mpr hac] at hc

/-! ## The invariant -/

variable (L) in
/-- The replicas represent `v`, with the least upper bound `S`, and nothing on its way brings more
than that. -/
structure Tracks (N : Network ι σ δ) (v : ι → α) (S : α) : Prop where
  held : ∀ i, N.held i = L.state (v i)
  lub : IsLUB (Set.range v) S
  fine : ∀ d ∈ N.sent, L.Fine d
  below : ∀ d ∈ N.sent, ∀ now a c, L.Clock now →
    P.apply now (L.state a) d = some (L.state c) → c ≤ a ⊔ S

theorem tracks_start : L.Tracks (Network.start (ι := ι) (L.state ⊥)) (fun _ => ⊥) ⊥ where
  held _ := rfl
  lub := ⟨by rintro _ ⟨i, rfl⟩; exact le_rfl, fun _ _ => bot_le⟩
  fine _ hd := hd.elim
  below _ hd := hd.elim

namespace Tracks

theorem le (h : L.Tracks N v S) (i : ι) : v i ≤ S := h.lub.1 ⟨i, rfl⟩

/-- One more thing is on its way. -/
theorem send (h : L.Tracks N v S) (hd : L.Fine d)
    (hbelow : ∀ now a c, L.Clock now → P.apply now (L.state a) d = some (L.state c) → c ≤ a ⊔ S) :
    L.Tracks { N with sent := insert d N.sent } v S where
  held := h.held
  lub := h.lub
  fine := by
    rintro e (rfl | he)
    · exact hd
    · exact h.fine e he
  below := by
    rintro e (rfl | he)
    · exact hbelow
    · exact h.below e he

theorem answer {old : κ} (h : L.Tracks N v S) (hd : P.delta (N.held i) old = some d) :
    L.Tracks { N with sent := insert d N.sent } v S := by
  rw [h.held] at hd
  refine h.send (L.fine_delta hd) fun now a c hnow hap => ?_
  exact (L.delta_le hd hnow hap).trans (sup_le_sup_left (h.le i) a)

section
variable [DecidableEq ι]

/-- A replica takes what brings it to `c`. -/
theorem update (h : L.Tracks N v S) (hc : v i ≤ c) :
    L.Tracks { N with held := Function.update N.held i (L.state c) } (Function.update v i c)
      (S ⊔ c) where
  held j := by
    by_cases hj : j = i
    · subst hj
      simp only [Function.update_self]
    · simp only [Function.update_of_ne hj]
      exact h.held j
  lub := by
    constructor
    · rintro _ ⟨j, rfl⟩
      by_cases hj : j = i
      · subst hj
        exact (Function.update_self j c v).trans_le le_sup_right
      · exact (Function.update_of_ne hj c v).trans_le ((h.le j).trans le_sup_left)
    · intro u hu
      have hcu : c ≤ u := hu ⟨i, Function.update_self i c v⟩
      refine sup_le (h.lub.2 ?_) hcu
      rintro _ ⟨j, rfl⟩
      by_cases hj : j = i
      · subst hj
        exact hc.trans hcu
      · exact (Function.update_of_ne hj c v).symm.trans_le (hu ⟨j, rfl⟩)
  fine := h.fine
  below d hd now a c' hnow hap :=
    (h.below d hd now a c' hnow hap).trans (sup_le_sup_left le_sup_left a)

/-- **One event**: no replica loses anything, and the least upper bound moves as the server does. -/
theorem step (h : L.Tracks N v S) (he : L.Genuine e) (hstep : Step P N e N') :
    ∃ v' S', L.Tracks N' v' S' ∧ (∀ i, v i ≤ v' i) ∧
      P.serve (L.state S) e.written.toList = some (L.state S') := by
  cases hstep with
  | @write now i d s hap =>
    rw [h.held] at hap
    obtain ⟨c, rfl, hsup⟩ := L.apply_sup he.1 he.2 hap
    have hc := le_of_apply he.1 he.2 hap
    have hS := hsup S now he.1
    rw [sup_eq_left.mpr (h.le i)] at hS
    refine ⟨_, _, h.update hc, le_update_self_iff.mpr hc, ?_⟩
    rw [serve, Event.written, Option.toList_some, List.foldlM_cons, hS]
    rfl
  | answer hd => exact ⟨v, S, h.answer hd, fun _ => le_rfl, rfl⟩
  | copy hd =>
    rw [h.held] at hd
    refine ⟨v, S, h.send (L.fine_full hd) fun now a c hnow hap => ?_, fun _ => le_rfl, rfl⟩
    rw [L.apply_full hd hnow] at hap
    exact (L.state_inj (Option.some.inj hap)).symm.trans_le (sup_le_sup_left (h.le _) a)
  | @deliver now i d s hd hap =>
    rw [h.held] at hap
    obtain ⟨c, rfl, -⟩ := L.apply_sup he (h.fine d hd) hap
    have hc := le_of_apply he (h.fine d hd) hap
    have hcS : c ≤ S := (h.below d hd now _ c he hap).trans (sup_le (h.le i) le_rfl)
    have hnew := h.update hc
    rw [sup_eq_left.mpr hcS] at hnew
    exact ⟨_, S, hnew, le_update_self_iff.mpr hc, rfl⟩

/-- What was handed over, the replica has absorbed. -/
theorem absorbs_handed {v' : ι → α} {S' : α} (h : L.Tracks N v S) (he : L.Genuine e)
    (hstep : Step P N e N') (h' : L.Tracks N' v' S') (hd : e.handed = some (i, d)) :
    L.Fine d ∧ L.Absorbs d (v' i) := by
  cases hstep with
  | @write now j e s hap =>
    obtain ⟨rfl, rfl⟩ := Prod.mk.inj (Option.some.inj hd)
    have hnew := h'.held j
    simp only [Function.update_self] at hnew
    rw [h.held, hnew] at hap
    exact ⟨he.2, absorbs_of_apply he.1 he.2 hap⟩
  | @deliver now j e s hsent hap =>
    obtain ⟨rfl, rfl⟩ := Prod.mk.inj (Option.some.inj hd)
    have hnew := h'.held j
    simp only [Function.update_self] at hnew
    rw [h.held, hnew] at hap
    exact ⟨h.fine e hsent, absorbs_of_apply he (h.fine e hsent) hap⟩
  | answer => cases hd
  | copy => cases hd

end

end Tracks

variable (L) in
/-- A server that is handed the writes `ws` holds the least upper bound of the replicas. -/
def Served (ws : List (τ × δ)) (N : Network ι σ δ) : Prop :=
  ∃ v S, L.Tracks N v S ∧ P.serve (L.state ⊥) ws = some (L.state S)

variable (L) in
/-- Each replica has absorbed what `xs` says it was handed. -/
def Absorbed (xs : List (ι × δ)) (N : Network ι σ δ) : Prop :=
  ∃ v S, L.Tracks N v S ∧ ∀ x ∈ xs, L.Fine x.2 ∧ L.Absorbs x.2 (v x.1)

theorem serve_append (s : σ) (ws ws' : List (τ × δ)) :
    P.serve s (ws ++ ws') = (P.serve s ws).bind (P.serve · ws') := List.foldlM_append

variable [DecidableEq ι]

/-- **A run**: the least upper bound of the replicas is what the server holds. -/
theorem tracks_run (h : L.Run (Network.start (L.state ⊥)) es N) :
    L.Served (es.filterMap Event.written) N := by
  have hstart : L.Served [] (Network.start (ι := ι) (L.state ⊥)) := ⟨_, _, tracks_start, rfl⟩
  refine Runs.trace (Q := L.Served) ?_ hstart h
  rintro ws N e N' ⟨v, S, hN, hserve⟩ ⟨he, hstep⟩
  obtain ⟨v', S', hN', -, hS'⟩ := hN.step he hstep
  exact ⟨v', S', hN', by rw [serve_append, hserve, Option.bind_some, hS']⟩

theorem Tracks.run (h : L.Tracks N v S) (hrun : L.Run N es N') :
    ∃ v' S', L.Tracks N' v' S' ∧ ∀ i, v i ≤ v' i := by
  induction hrun generalizing v S with
  | nil => exact ⟨v, S, h, fun _ => le_rfl⟩
  | cons hd _ ih =>
    obtain ⟨v₁, S₁, h₁, hle, -⟩ := h.step hd.1 hd.2
    obtain ⟨v', S', h', hle'⟩ := ih h₁
    exact ⟨v', S', h', fun i => (hle i).trans (hle' i)⟩

/-- **Every replica is below the server.** -/
theorem run_below (h : L.Run (Network.start (L.state ⊥)) es N) :
    ∃ S, P.serve (L.state ⊥) (es.filterMap Event.written) = some (L.state S) ∧
      ∀ i, ∃ a, N.held i = L.state a ∧ a ≤ S := by
  obtain ⟨v, S, hN, hserve⟩ := tracks_run h
  exact ⟨S, hserve, fun i => ⟨v i, hN.held i, hN.le i⟩⟩

/-- **Nothing is lost**: a replica that is handed again what it was handed before, at whatever
moment, is left as it is. -/
theorem handed_again (h : L.Run (Network.start (L.state ⊥)) es N) (hnow : L.Clock now)
    (hd : (i, d) ∈ es.filterMap Event.handed) :
    P.apply now (N.held i) d = some (N.held i) := by
  suffices L.Absorbed (es.filterMap Event.handed) N by
    obtain ⟨v, S, hN, hhanded⟩ := this
    rw [hN.held]
    exact (hhanded _ hd).2 now hnow
  have hstart : L.Absorbed [] (Network.start (ι := ι) (L.state ⊥)) := ⟨_, _, tracks_start, nofun⟩
  refine Runs.trace (Q := L.Absorbed) ?_ hstart h
  rintro xs N e N' ⟨v, S, hN, hxs⟩ ⟨he, hstep⟩
  obtain ⟨v', S', hN', hle, -⟩ := hN.step he hstep
  refine ⟨v', S', hN', fun x hx => ?_⟩
  rcases List.mem_append.mp hx with hx | hx
  · obtain ⟨hfine, habs⟩ := hxs x hx
    exact ⟨hfine, habs.mono hfine (hle x.1)⟩
  · exact hN.absorbs_handed he hstep hN' (Option.mem_toList.mp hx)

/-- **An answer to an outdated summary**, delivered even later, does what the whole state of its
sender does. -/
theorem apply_stale {N₁ N₂ : Network ι σ δ} {es₁ es₂ : List (Event ι τ κ δ)} {d' : δ}
    (h : L.Run (Network.start (L.state ⊥)) es N) (hready : L.Ready (N.held j))
    (h₁ : L.Run N es₁ N₁)
    (hd : P.delta (N₁.held i) (P.summarize (N.held j)) = some d)
    (hd' : P.full (N₁.held i) = some d') (h₂ : L.Run N₁ es₂ N₂) (hnow : L.Clock now) :
    P.apply now (N₂.held j) d = P.apply now (N₂.held j) d' := by
  obtain ⟨v, S, hN, -⟩ := tracks_run h
  obtain ⟨v₁, S₁, hN₁, hle₁⟩ := hN.run h₁
  obtain ⟨v₂, S₂, hN₂, hle₂⟩ := hN₁.run h₂
  rw [hN.held] at hready hd
  rw [hN₁.held] at hd hd'
  rw [hN₂.held, L.apply_full hd' hnow]
  exact apply_outdated hready ((hle₁ j).trans (hle₂ j)) hd hnow

/-! ## Silence -/

/-- **Agreement**: where each replica is reached from every other one over links on which there is
nothing left to send, all of them hold what the server holds. -/
theorem agree {link : ι → ι → Prop} (h : L.Run (Network.start (L.state ⊥)) es N)
    (hlink : ∀ i j, Relation.ReflTransGen link i j) (hready : ∀ i, L.Ready (N.held i))
    (hquiet : ∀ i j, link i j → P.delta (N.held i) (P.summarize (N.held j)) = none) (i : ι) :
    P.serve (L.state ⊥) (es.filterMap Event.written) = some (N.held i) := by
  obtain ⟨v, S, hN, hserve⟩ := tracks_run h
  have hle (j k : ι) : v j ≤ v k := by
    induction hlink j k with
    | refl => exact le_rfl
    | tail _ hl ih =>
      refine ih.trans (L.le_of_delta_eq_none ?_ ?_)
      · exact hN.held _ ▸ hready _
      · rw [← hN.held, ← hN.held]
        exact hquiet _ _ hl
  have hS : S = v i := by
    refine le_antisymm (hN.lub.2 ?_) (hN.le i)
    rintro _ ⟨j, rfl⟩
    exact hle j i
  rw [hserve, hN.held, hS]

/-! ## Recovery -/

/-- One replica can be sent what another one holds. -/
theorem Tracks.pull (h : L.Tracks N v S) (hnow : L.Clock now) (hready : L.Ready (N.held j))
    (i : ι) : ∃ es N', L.Run N es N' ∧ es.filterMap Event.written = [] ∧
      L.Tracks N' (Function.update v j (v j ⊔ v i)) S := by
  cases hd : P.delta (N.held i) (P.summarize (N.held j)) with
  | none =>
    rw [h.held] at hready
    rw [h.held, h.held] at hd
    refine ⟨[], N, .nil N, rfl, ?_⟩
    rwa [sup_eq_left.mpr (L.le_of_delta_eq_none hready hd), Function.update_eq_self]
  | some d =>
    have hap : P.apply now (N.held j) d = some (L.state (v j ⊔ v i)) := by
      rw [h.held] at hready ⊢
      rw [h.held, h.held] at hd
      exact L.apply_delta hready hd hnow
    have hc : S ⊔ (v j ⊔ v i) = S := sup_eq_left.mpr (sup_le (h.le j) (h.le i))
    have hanswer := Step.answer hd
    have hdeliver := Step.deliver (N := { N with sent := insert d N.sent })
      (Set.mem_insert d N.sent) hap
    have hrun : L.Run N [.answer i (P.summarize (N.held j)), .deliver now j d] _ :=
      .cons ⟨trivial, hanswer⟩ (.cons ⟨hnow, hdeliver⟩ (.nil _))
    refine ⟨_, _, hrun, rfl, ?_⟩
    have hnew := (h.answer hd).update (i := j) (c := v j ⊔ v i) le_sup_left
    rwa [hc] at hnew

/-- Replicas can be sent, one after the other, what others hold. -/
theorem Tracks.pull_all (h : L.Tracks N v S) (hnow : L.Clock now)
    (hready : ∀ i, L.Ready (N.held i)) (links : List (ι × ι)) : ∃ es N' v', L.Run N es N' ∧
      es.filterMap Event.written = [] ∧ L.Tracks N' v' S ∧ (∀ i, v i ≤ v' i) ∧
      ∀ link ∈ links, v link.1 ≤ v' link.2 := by
  induction links generalizing N v with
  | nil => exact ⟨[], N, v, .nil N, rfl, h, fun _ => le_rfl, nofun⟩
  | cons link links ih =>
    obtain ⟨es, N₁, hrun, hes, h₁⟩ := h.pull hnow (hready link.2) link.1
    have hle : v ≤ Function.update v link.2 (v link.2 ⊔ v link.1) :=
      le_update_self_iff.mpr le_sup_left
    have hready₁ (i : ι) : L.Ready (N₁.held i) := by
      rw [h₁.held]
      exact L.ready_mono (hle i) (h.held i ▸ hready i)
    obtain ⟨es', N', v', hrun', hes', h', hle', hlinks⟩ := ih h₁ hready₁
    refine ⟨es ++ es', N', v', hrun.append hrun', ?_, h', fun i => (hle i).trans (hle' i), ?_⟩
    · rw [List.filterMap_append, hes, hes', List.append_nil]
    · refine List.forall_mem_cons.mpr ⟨?_, fun l hl => (hle l.1).trans (hlinks l hl)⟩
      have hlink := hle' link.2
      rw [Function.update_self] at hlink
      exact le_sup_right.trans hlink

/-- **Recovery**: replicas that can be sent deltas can always be brought to hold what the server
holds, by deltas alone and without a write. -/
theorem recovers [Finite ι] (h : L.Run (Network.start (L.state ⊥)) es N) (hnow : L.Clock now)
    (hready : ∀ i, L.Ready (N.held i)) : ∃ es' N' s, L.Run N es' N' ∧
      es'.filterMap Event.written = [] ∧
      P.serve (L.state ⊥) (es.filterMap Event.written) = some s ∧ ∀ i, N'.held i = s := by
  obtain ⟨v, S, hN, hserve⟩ := tracks_run h
  obtain ⟨all, hall⟩ := Finite.exists_univ_list ι
  rcases isEmpty_or_nonempty ι with _ | ⟨⟨hub⟩⟩
  · exact ⟨[], N, _, .nil N, rfl, hserve, isEmptyElim⟩
  · -- The hub collects what all replicas hold, and hands it on.
    obtain ⟨es₁, N₁, v₁, hrun₁, hes₁, h₁, hle₁, hin⟩ :=
      hN.pull_all hnow hready (all.map (·, hub))
    have hready₁ (i : ι) : L.Ready (N₁.held i) := by
      rw [h₁.held]
      exact L.ready_mono (hle₁ i) (hN.held i ▸ hready i)
    obtain ⟨es₂, N₂, v₂, hrun₂, hes₂, h₂, -, hout⟩ :=
      h₁.pull_all hnow hready₁ (all.map (hub, ·))
    have hhub : S ≤ v₁ hub := by
      refine hN.lub.2 ?_
      rintro _ ⟨i, rfl⟩
      exact hin (i, hub) (List.mem_map_of_mem (hall.2 i))
    refine ⟨es₁ ++ es₂, N₂, L.state S, hrun₁.append hrun₂, ?_, hserve, fun i => ?_⟩
    · rw [List.filterMap_append, hes₁, hes₂, List.append_nil]
    · have hi := hhub.trans (hout (hub, i) (List.mem_map_of_mem (hall.2 i)))
      rw [h₂.held, le_antisymm (h₂.le i) hi]

end Lawful

end Gossip

end Transition
