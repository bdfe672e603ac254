import Freebird.Feed.Lattice
import Freebird.Transition.Gossip

/-!
# A network of feed replicas

The calls of the feed contract are those of a `Gossip`: what a replica takes commutes with joins
(`part_sup`), whichever parts a call is made of. So a network of replicas, some of which hold
nothing yet, acts like a single one that is handed all the writes.
-/

namespace Freebird

open Register Retention Transition

variable {Cert : Type} {C : FeedCrypto Cert} {parameters : FeedParametersV1} {U : FeedUniverse C}

/-! ## A merge -/

namespace FeedStateV1

variable {s s' o r : FeedStateV1 Cert} {x : FeedRecord Cert} {old : FeedStateV1Summary}

theorem mem_records_answer (hx : x ∈ (s.answer C old).records) : x ∈ s.records := by
  cases x with
  | profile p =>
    exact profile_mem_records.mpr (mem_offer (FeedStateV1Delta.profile_mem_records.mp hx))
  | follows f =>
    exact follows_mem_records.mpr (mem_offer (FeedStateV1Delta.follows_mem_records.mp hx))
  | attestation att =>
    exact attestation_mem_records.mpr
      (AttestationSlot.mem_delta (FeedStateV1Delta.attestation_mem_records.mp hx))
  | post p =>
    exact post_mem_records.mpr
      (PostsV1.mem_of_mem_delta (FeedStateV1Delta.post_mem_records.mp hx))

theorem Within.posts_append_state (hs : s.Within U) (ho : o.Within U) :
    PostsV1.Identified (s.posts.posts ++ o.posts.posts) :=
  U.identified fun p hp => (List.mem_append.mp hp).elim (hs.post p) (ho.post p)

theorem checked_nothing :
    FeedStateV1Delta.Checked C parameters (⟨none, none, none, none⟩ : FeedStateV1Delta Cert) := by
  constructor <;> simp

/-- **A merge, exactly**: it succeeds if what the other feed would send passes its checks. -/
theorem merge_eq_ok (hs : s.Valid C parameters)
    (hid : PostsV1.Identified (s.posts.posts ++ o.posts.posts)) :
    s.merge C parameters o = (.ok (), s') ↔
      (o.answer C (s.summarize C)).Checked C parameters ∧ s' = joined C s o := by
  rw [← applied_answer hs hid, merge]
  cases hd : o.delta C (s.summarize C) with
  | none =>
    rw [delta_eq_none_iff.mp hd, hs.applied_nothing]
    constructor
    · intro h
      exact ⟨checked_nothing, (Prod.mk.inj h).2.symm⟩
    · rintro ⟨-, rfl⟩
      rfl
  | some d =>
    obtain rfl : o.answer C (s.summarize C) = d := by
      rw [delta_eq] at hd
      split at hd
      · exact Option.some.inj hd
      · cases hd
    exact applyDelta_eq_ok

/-- What a feed that has grown is offered was offered to it before. -/
theorem checked_answer_of_grown (hs : s.Valid C parameters) (hr : r.Within U) (hs' : s.Within U)
    (ho : o.Within U) (h : (o.answer C (s.summarize C)).Checked C parameters) :
    (o.answer C ((joined C r s).summarize C)).Checked C parameters where
  profile p hp :=
     h.profile p (offer_of_le (le_key_newer_right (AuthorizedProfile.lwwKey C) _ _) hp)
  follows f hf :=
     h.follows f (offer_of_le (le_key_newer_right (AuthorizedFollows.lwwKey C) _ _) hf)
  attestation att hatt := by
    have hle := le_key_newer_right (AttestationSlot.key C) r.attestation s.attestation
    cases hd : o.attestation.delta C (s.attestation.summarize C) with
    | none =>
      have hnone := AttestationSlot.delta_eq_none_iff.mpr
        ((AttestationSlot.delta_eq_none_iff.mp hd).trans hle)
      cases hnone.symm.trans hatt
    | some att' =>
      obtain rfl := Option.some.inj ((AttestationSlot.mem_delta hd).symm.trans
        (AttestationSlot.mem_delta hatt))
      exact h.attestation att' hd
  posts p hp := by
    refine h.posts p ?_
    have hall : PostsV1.Identified (r.posts.posts ++ s.posts.posts ++ o.posts.posts) := by
      refine U.identified fun p hp => ?_
      rcases List.mem_append.mp hp with hp | hp
      · exact (List.mem_append.mp hp).elim (hr.post p) (hs'.post p)
      · exact ho.post p hp
    have hp : p ∈ o.posts.offers (joined C r s).posts.summarize := by
      rw [← PostsV1.getD_delta]
      exact hp
    have hgrown : p ∈ o.posts.offers s.posts.summarize :=
      PostsV1.mem_offers_of_grown hs.settled hall rfl hp
    rwa [← PostsV1.getD_delta] at hgrown

end FeedStateV1

/-! ## The calls -/

variable (U) in
/-- A state or a delta whose records may occur. -/
def PartWithin : FeedStateV1 Cert ⊕ FeedStateV1Delta Cert → Prop :=
  Sum.elim (FeedStateV1.Within U) (FeedStateV1Delta.Within U)

namespace FeedContract

open FeedStateV1

variable {s s' : FeedStateV1 Cert} {d : FeedStateV1Delta Cert} {now : U64}
  {t : Option (FeedStateV1 Cert)} {data : List (FeedUpdate Cert)}

def summarizeState (C : FeedCrypto Cert) (state : Option (FeedStateV1 Cert)) :
    Option FeedStateV1Summary := state.map (·.summarize C)

variable (C parameters) in
/-- What replicas of a feed hand each other, which is always an update. -/
def gossip : Gossip U64 (Option (FeedStateV1 Cert)) (Option FeedStateV1Summary)
    (List (FeedUpdate Cert)) where
  summarize := summarizeState C
  delta state summary := (getStateDelta C state summary).map fun d => [.delta (some d)]
  full state := state.map fun s => [.state s]
  apply now state data := (updateState C parameters now state data).toOption.map some

theorem futureBound_le (h : U.now ≤ now) : futureBound U.now ≤ futureBound now :=
  min_le_min_right _ (Nat.add_le_add_right h maxFutureMs)

theorem timely_of_within (hs : s.Within U) (hnow : U.now ≤ now) : s.Timely now :=
  fun p hp => (U.timely p (hs.post p hp)).trans (futureBound_le hnow)

theorem scrubDelta_eq (hd : d.Within U) (hnow : U.now ≤ now) : scrubDelta now d = d := by
  obtain ⟨profile, follows, attestation, posts⟩ := d
  cases posts with
  | none => rfl
  | some ps =>
    have hps : ps.filter (fun p => p.post.time.val ≤ futureBound now) = ps := by
      refine List.filter_eq_self.mpr fun p hp => decide_eq_true ?_
      have hp := hd _ (FeedStateV1Delta.post_mem_records.mpr hp)
      exact (U.timely p hp).trans (futureBound_le hnow)
    simp only [scrubDelta, Option.map_some, hps]

/-- What the replica `a` holds; the least element stands for nothing. -/
def held (a : WithBot (FeedReplica parameters U)) : Option (FeedStateV1 Cert) :=
  a.recBotCoe none fun s => some s.feed

@[simp] theorem held_bot : held (⊥ : WithBot (FeedReplica parameters U)) = none := rfl

@[simp] theorem held_coe (s : FeedReplica parameters U) :
    held (s : WithBot (FeedReplica parameters U)) = some s.feed := rfl

theorem held_inj : Function.Injective
    (held : WithBot (FeedReplica parameters U) → Option (FeedStateV1 Cert)) := by
  intro a b h
  induction a with
  | bot =>
    induction b with
    | bot => rfl
    | coe b => cases h
  | coe a =>
    induction b with
    | bot => cases h
    | coe b => exact congrArg _ (FeedReplica.ext (Option.some.inj h))

variable {a b : WithBot (FeedReplica parameters U)} {r : FeedReplica parameters U}

theorem part_state_none (hs : s.Within U) (hnow : U.now ≤ now) :
    (shell C parameters now).part none (.inl s) = .ok t ↔ s.Valid C parameters ∧ t = some s := by
  have hscrub := (timely_of_within hs hnow).scrubFuture_eq
  simp only [Shell.part, shell, hscrub, orInvalid_eq_ok, Prod.mk.injEq, verify_iff, eq_comm (a := t)]

theorem part_state_some (hs : s.Within U) (hnow : U.now ≤ now) :
    (shell C parameters now).part (some r.feed) (.inl s) = .ok t ↔
      (s.answer C (r.feed.summarize C)).Checked C parameters ∧ t = some (joined C r.feed s) := by
  have hscrub := (timely_of_within hs hnow).scrubFuture_eq
  simp only [Shell.part, shell, hscrub, map_eq_ok, orInvalid_eq_ok,
    merge_eq_ok r.valid (r.within.posts_append_state hs)]
  constructor
  · rintro ⟨_, ⟨hc, rfl⟩, rfl⟩
    exact ⟨hc, rfl⟩
  · rintro ⟨hc, rfl⟩
    exact ⟨_, ⟨hc, rfl⟩, rfl⟩

theorem part_delta_some (hd : d.Within U) (hnow : U.now ≤ now) :
    (shell C parameters now).part (some r.feed) (.inr d) = .ok t ↔
      d.Checked C parameters ∧ t = some (r.feed.applied C d) := by
  simp only [Shell.part, shell, scrubDelta_eq hd hnow, map_eq_ok, orInvalid_eq_ok, applyDelta_eq_ok]
  constructor
  · rintro ⟨_, ⟨hc, rfl⟩, rfl⟩
    exact ⟨hc, rfl⟩
  · rintro ⟨hc, rfl⟩
    exact ⟨_, ⟨hc, rfl⟩, rfl⟩

/-- **A part commutes with joins**: whoever takes it, a replica that holds more takes it as well. -/
theorem part_sup {x : FeedStateV1 Cert ⊕ FeedStateV1Delta Cert} (hx : PartWithin U x)
    (hnow : U.now ≤ now) (h : (shell C parameters now).part (held b) x = .ok t) :
    ∃ c : WithBot (FeedReplica parameters U), t = held c ∧ ∀ a now, U.now ≤ now →
      (shell C parameters now).part (held (a ⊔ b)) x = .ok (held (a ⊔ c)) := by
  cases x with
  | inl s =>
    have hs : s.Within U := hx
    induction b with
    | bot =>
      -- The feed is seeded.
      obtain ⟨hv, rfl⟩ := (part_state_none hs hnow).mp h
      refine ⟨(⟨s, hv, hs⟩ : FeedReplica parameters U), rfl, fun a now hnow => ?_⟩
      induction a with
      | bot => exact (part_state_none hs hnow).mpr ⟨hv, rfl⟩
      | coe r => exact (part_state_some hs hnow).mpr ⟨hv.checked_answer, rfl⟩
    | coe b =>
      obtain ⟨hc, rfl⟩ := (part_state_some hs hnow).mp h
      have hv : (joined C b.feed s).Valid C parameters := by
        rw [← applied_answer b.valid (b.within.posts_append_state hs)]
        refine b.valid.applied hc (PostsV1.Identified.sameTime ?_)
        exact b.within.posts_append fun x hx => hs x (mem_records_answer hx)
      refine ⟨(⟨_, hv, b.within.joined hs⟩ : FeedReplica parameters U), rfl, fun a now hnow => ?_⟩
      induction a with
      | bot => exact (part_state_some hs hnow).mpr ⟨hc, rfl⟩
      | coe r =>
        refine (part_state_some (r := r ⊔ b) hs hnow).mpr ⟨?_, congrArg some ?_⟩
        · exact checked_answer_of_grown b.valid r.within b.within hs hc
        · exact (joined_assoc r.within b.within hs).symm
  | inr d =>
    have hd : d.Within U := hx
    induction b with
    | bot => cases h
    | coe b =>
      obtain ⟨hc, rfl⟩ := (part_delta_some hd hnow).mp h
      have hv := b.valid.applied hc (b.within.posts_append hd).sameTime
      refine ⟨(⟨_, hv, b.within.applied hd⟩ : FeedReplica parameters U), rfl, fun a now hnow => ?_⟩
      induction a with
      | bot => exact (part_delta_some hd hnow).mpr ⟨hc, rfl⟩
      | coe r =>
        refine (part_delta_some (r := r ⊔ b) hd hnow).mpr ⟨hc, congrArg some ?_⟩
        exact (applied_joined r.within b.within hd).symm

theorem run_sup {xs : List (FeedStateV1 Cert ⊕ FeedStateV1Delta Cert)}
    (hxs : ∀ x ∈ xs, PartWithin U x) (hnow : U.now ≤ now)
    (h : (shell C parameters now).run (held b) xs = .ok t) :
    ∃ c : WithBot (FeedReplica parameters U), t = held c ∧ ∀ a now, U.now ≤ now →
      (shell C parameters now).run (held (a ⊔ b)) xs = .ok (held (a ⊔ c)) := by
  induction xs generalizing b with
  | nil => exact ⟨b, (Except.ok.inj h).symm, fun _ _ _ => rfl⟩
  | cons x xs ih =>
    obtain ⟨hx, hxs⟩ := List.forall_mem_cons.mp hxs
    obtain ⟨u, hu, hrun⟩ := Shell.run_cons_eq_ok.mp h
    obtain ⟨c, rfl, hpart⟩ := part_sup hx hnow hu
    obtain ⟨c', rfl, hsup⟩ := ih hxs hrun
    exact ⟨c', rfl, fun a now hnow =>
      Shell.run_cons_eq_ok.mpr ⟨_, hpart a now hnow, hsup a now hnow⟩⟩

theorem scrub_held (hnow : U.now ≤ now) : (held b).map (·.scrubFuture now) = held b := by
  induction b with
  | bot => rfl
  | coe b => exact congrArg some (timely_of_within b.within hnow).scrubFuture_eq

/-- A call on what a replica holds is a run over its parts. -/
theorem updateState_eq_ok (hnow : U.now ≤ now) :
    updateState C parameters now (held b) data = .ok s ↔ (∀ u ∈ data, u ≠ .related) ∧
      (shell C parameters now).run (held b) (data.flatMap UpdateData.parts) = .ok (some s) := by
  rw [updateState, scrub_held hnow, bind_eq_ok]
  constructor
  · rintro ⟨t, hloop, ht⟩
    cases t with
    | none => cases ht
    | some s' =>
      obtain rfl := Except.ok.inj ht
      exact ⟨Shell.known_of_loop hloop, Shell.loop_eq_ok hloop⟩
  · rintro ⟨hknown, hrun⟩
    exact ⟨some s, (Shell.loop_eq_run hknown).trans hrun, rfl⟩

theorem apply_eq_some : (gossip C parameters).apply now (held b) data = some t ↔
    ∃ s, t = some s ∧ updateState C parameters now (held b) data = .ok s := by
  simp only [gossip, Option.map_eq_some_iff]
  cases updateState C parameters now (held b) data with
  | ok s => simp [Except.toOption, eq_comm]
  | error e => simp [Except.toOption]

/-! ## The laws -/

section
variable {x : WithBot (FeedReplica parameters U)} {summary : Option FeedStateV1Summary}

/-- What is sent is the answer of a replica that holds something. -/
theorem delta_eq_some (h : (gossip C parameters).delta (held x) summary = some data) :
    ∃ s : FeedReplica parameters U, x = s ∧
      data = [.delta (some (s.feed.answer C (summary.getD emptySummary)))] := by
  induction x with
  | bot => cases h
  | coe s =>
    obtain ⟨d, hd, rfl⟩ := Option.map_eq_some_iff.mp h
    refine ⟨s, rfl, ?_⟩
    have hd : s.feed.delta C (summary.getD emptySummary) = some d := hd
    rw [FeedStateV1.delta_eq] at hd
    split at hd
    · rw [Option.some.inj hd]
    · cases hd

theorem within_answer (r : FeedReplica parameters U) (old : FeedStateV1Summary) :
    (r.feed.answer C old).Within U := fun x hx => r.within x (mem_records_answer hx)

theorem updateState_delta (hd : d.Within U) (hnow : U.now ≤ now) :
    updateState C parameters now (some r.feed) [.delta (some d)] = .ok s ↔
      d.Checked C parameters ∧ s = r.feed.applied C d := by
  have h : updateState C parameters now (held (r : WithBot (FeedReplica parameters U)))
      [.delta (some d)] = .ok s ↔ _ := updateState_eq_ok hnow
  have hrun : (shell C parameters now).run (some r.feed) [.inr d] = .ok (some s) ↔
      d.Checked C parameters ∧ some s = some (r.feed.applied C d) := by
    rw [Shell.run_singleton]
    exact part_delta_some hd hnow
  rw [Option.some.injEq] at hrun
  exact h.trans ((and_iff_right (List.forall_mem_singleton.mpr nofun)).trans hrun)

theorem updateState_state (r : FeedReplica parameters U) (hnow : U.now ≤ now) :
    updateState C parameters now (held b) [.state r.feed] = .ok s ↔
      some s = held (b ⊔ r) := by
  have hrun : (shell C parameters now).run (held b) [.inl r.feed] = .ok (some s) ↔
      some s = held (b ⊔ r) := by
    rw [Shell.run_singleton]
    induction b with
    | bot => exact (part_state_none r.within hnow).trans (and_iff_right r.valid)
    | coe b => exact (part_state_some r.within hnow).trans (and_iff_right r.valid.checked_answer)
  exact (updateState_eq_ok hnow).trans
    ((and_iff_right (List.forall_mem_singleton.mpr nofun)).trans hrun)

end

section
variable {c x : WithBot (FeedReplica parameters U)} {summary : Option FeedStateV1Summary}

/-- The parts of a call have records that may occur. -/
def Fine (U : FeedUniverse C) (data : List (FeedUpdate Cert)) : Prop :=
  ∀ u ∈ data, ∀ x ∈ u.parts, PartWithin U x

theorem held_sup (a : WithBot (FeedReplica parameters U)) (s : FeedReplica parameters U) :
    ∃ r : FeedReplica parameters U, a ⊔ s = r := by
  induction a with
  | bot => exact ⟨s, bot_sup_eq _⟩
  | coe a => exact ⟨a ⊔ s, rfl⟩

theorem apply_sup (hnow : U.now ≤ now) (hdata : Fine U data)
    (h : (gossip C parameters).apply now (held b) data = some t) :
    ∃ c : WithBot (FeedReplica parameters U), t = held c ∧ ∀ a now, U.now ≤ now →
      (gossip C parameters).apply now (held (a ⊔ b)) data = some (held (a ⊔ c)) := by
  obtain ⟨s, rfl, hs⟩ := apply_eq_some.mp h
  obtain ⟨hknown, hrun⟩ := (updateState_eq_ok hnow).mp hs
  have hparts : ∀ x ∈ data.flatMap UpdateData.parts, PartWithin U x := fun x hx => by
    obtain ⟨u, hu, hx⟩ := List.mem_flatMap.mp hx
    exact hdata u hu x hx
  obtain ⟨c, hc, hsup⟩ := run_sup hparts hnow hrun
  refine ⟨c, hc, fun a now hnow => ?_⟩
  induction c with
  | bot => cases hc
  | coe c =>
    obtain ⟨r, hr⟩ := held_sup a c
    have hsup := hsup a now hnow
    rw [hr] at hsup ⊢
    exact apply_eq_some.mpr ⟨r.feed, rfl, (updateState_eq_ok hnow).mpr ⟨hknown, hsup⟩⟩

theorem fine_delta (h : (gossip C parameters).delta (held x) summary = some data) :
    Fine U data := by
  obtain ⟨s, rfl, rfl⟩ := delta_eq_some h
  refine List.forall_mem_singleton.mpr (List.forall_mem_singleton.mpr ?_)
  exact within_answer s _

theorem delta_le (h : (gossip C parameters).delta (held x) summary = some data)
    (hnow : U.now ≤ now)
    (hap : (gossip C parameters).apply now (held a) data = some (held c)) : c ≤ a ⊔ x := by
  obtain ⟨s, rfl, rfl⟩ := delta_eq_some h
  obtain ⟨s', hc, hs'⟩ := apply_eq_some.mp hap
  induction a with
  | bot => cases hs'
  | coe r =>
    obtain ⟨-, rfl⟩ := (updateState_delta (within_answer s _) hnow).mp hs'
    induction c with
    | bot => cases hc
    | coe c =>
      refine WithBot.coe_le_coe.mpr (FeedReplica.le_iff.mpr ?_)
      refine joined_absorbs r.within s.within fun x hx => ?_
      rw [Option.some.inj hc] at hx
      exact (mem_records_applied hx).imp_right mem_records_answer

theorem full_eq_some (h : (gossip C parameters).full (held x) = some data) :
    ∃ s : FeedReplica parameters U, x = s ∧ data = [.state s.feed] := by
  induction x with
  | bot => cases h
  | coe s => exact ⟨s, rfl, (Option.some.inj h).symm⟩

theorem fine_full (h : (gossip C parameters).full (held x) = some data) : Fine U data := by
  obtain ⟨s, rfl, rfl⟩ := full_eq_some h
  refine List.forall_mem_singleton.mpr (List.forall_mem_singleton.mpr ?_)
  exact s.within

theorem apply_full (h : (gossip C parameters).full (held x) = some data) (hnow : U.now ≤ now) :
    (gossip C parameters).apply now (held a) data = some (held (a ⊔ x)) := by
  obtain ⟨s, rfl, rfl⟩ := full_eq_some h
  obtain ⟨r, hr⟩ := held_sup a s
  rw [hr]
  exact apply_eq_some.mpr ⟨r.feed, rfl, (updateState_state s hnow).mpr (by rw [hr]; rfl)⟩

theorem held_ne_none : held a ≠ none ↔ ∃ r : FeedReplica parameters U, a = r := by
  induction a with
  | bot => simp
  | coe r => simp

theorem held_mono (hab : a ≤ b) (h : held a ≠ none) : held b ≠ none := by
  obtain ⟨r, rfl⟩ := held_ne_none.mp h
  obtain ⟨s, hs, -⟩ := WithBot.coe_le_iff.mp hab
  exact held_ne_none.mpr ⟨s, hs⟩

theorem le_of_delta_eq_none (hready : held a ≠ none)
    (h : (gossip C parameters).delta (held x) (summarizeState C (held a)) = none) : x ≤ a := by
  obtain ⟨r, rfl⟩ := held_ne_none.mp hready
  induction x with
  | bot => exact bot_le
  | coe s =>
    have hd : s.feed.delta C (r.feed.summarize C) = none := Option.map_eq_none_iff.mp h
    have hmerge : r.feed.merge C parameters s.feed = (.ok (), r.feed) := by
      rw [FeedStateV1.merge, hd]
      rfl
    obtain ⟨-, hjoin⟩ := (merge_eq_ok r.valid (r.within.posts_append_state s.within)).mp hmerge
    exact WithBot.coe_le_coe.mpr (FeedReplica.le_iff.mpr hjoin.symm)

theorem apply_delta (hready : held a ≠ none)
    (h : (gossip C parameters).delta (held x) (summarizeState C (held a)) = some data)
    (hnow : U.now ≤ now) :
    (gossip C parameters).apply now (held a) data = some (held (a ⊔ x)) := by
  obtain ⟨r, rfl⟩ := held_ne_none.mp hready
  obtain ⟨s, rfl, rfl⟩ := delta_eq_some h
  refine apply_eq_some.mpr ⟨(r ⊔ s).feed, rfl, ?_⟩
  refine (updateState_delta (within_answer s _) hnow).mpr ⟨s.valid.checked_answer, ?_⟩
  exact (applied_answer r.valid (r.within.posts_append_state s.within)).symm

end

variable (parameters U) in
/-- **Feed replicas are lawful**, for calls with records that may occur. -/
def lawful : (gossip C parameters).Lawful (WithBot (FeedReplica parameters U)) where
  Clock now := U.now ≤ now
  Fine := Fine U
  Ready state := state ≠ none
  state := held
  state_inj := held_inj
  apply_sup := apply_sup
  fine_delta := fine_delta
  delta_le := delta_le
  fine_full := fine_full
  apply_full := apply_full
  ready_mono := held_mono
  le_of_delta_eq_none := le_of_delta_eq_none
  apply_delta := apply_delta

end FeedContract

/-! ## Samples -/

namespace Sample

open FeedContract FeedStateV1

def first : FeedStateV1 VerifyingKey := feed 1 [post 1 "a" none]

def second : List (FeedUpdate VerifyingKey) := [.delta (some (posted [post 2 "b" none]))]

def both : FeedStateV1 VerifyingKey := feed 1 [post 1 "a" none, post 2 "b" none]

/-- The records of `both`. -/
def feedUniverse : FeedUniverse feedCrypto where
  records := {x | x ∈ both.records}
  now := 0
  distinct x hx y hy he := by
    have hdistinct : ∀ x ∈ both.records, ∀ y ∈ both.records,
        x.name feedCrypto = y.name feedCrypto → x = y := by decide +kernel
    exact hdistinct x hx y hy he
  timely p hp := by
    have htimely : ∀ p ∈ both.posts.posts, p.post.time.val ≤ futureBound 0 := by decide +kernel
    exact htimely p (post_mem_records.mp hp)

abbrev FeedNetwork :=
  Gossip.Network Bool (Option (FeedStateV1 VerifyingKey)) (List (FeedUpdate VerifyingKey))

abbrev FeedEvent :=
  Gossip.Event Bool U64 (Option FeedStateV1Summary) (List (FeedUpdate VerifyingKey))

/-- One replica is seeded, and the other one gets a copy. -/
def seeding : List FeedEvent :=
  [.write 0 false [.state first], .copy false, .deliver 0 true [.state first]]

def seeded : FeedNetwork where
  held := Function.update (Function.update (fun _ => none) false (some first)) true (some first)
  sent := insert [.state first] ∅

theorem fine_first : (lawful feedOwner feedUniverse).Fine [.state first] := by
  have hsub : ∀ x ∈ first.records, x ∈ both.records := by decide +kernel
  rintro _ (_ | ⟨_, ⟨⟩⟩) _ (_ | ⟨_, ⟨⟩⟩)
  exact hsub

theorem fine_second : (lawful feedOwner feedUniverse).Fine second := by
  have hsub : ∀ x ∈ (posted [post 2 "b" none]).records, x ∈ both.records := by decide +kernel
  rintro _ (_ | ⟨_, ⟨⟩⟩) _ (_ | ⟨_, ⟨⟩⟩)
  exact hsub

theorem run_seeding :
    (lawful feedOwner feedUniverse).Run (Gossip.Network.start none) seeding seeded := by
  have hwrite : (gossip feedCrypto feedOwner).apply 0 none [.state first] = some (some first) := by
    decide +kernel
  refine .cons ⟨⟨le_rfl, fine_first⟩, .write hwrite⟩ (.cons ⟨trivial, .copy rfl⟩ ?_)
  exact .cons ⟨le_rfl, .deliver (Set.mem_insert _ _) hwrite⟩ (.nil _)

/-- The second post is made at the replica that got the copy. -/
def posting : List FeedEvent := [.write 0 true second]

def feedAhead : FeedNetwork := { seeded with held := Function.update seeded.held true (some both) }

theorem run_posting : (lawful feedOwner feedUniverse).Run seeded posting feedAhead := by
  have hwrite : (gossip feedCrypto feedOwner).apply 0 (some first) second = some (some both) := by
    decide +kernel
  exact .cons ⟨⟨le_rfl, fine_second⟩, .write hwrite⟩ (.nil _)

/-- The replica that is behind is sent what it lacks. -/
def catchingUp : List FeedEvent :=
  [.answer true (summarizeState feedCrypto (some first)), .deliver 0 false second]

def level : FeedNetwork where
  held := Function.update feedAhead.held false (some both)
  sent := insert second feedAhead.sent

theorem run_catchingUp : (lawful feedOwner feedUniverse).Run feedAhead catchingUp level := by
  have hanswer : getStateDelta feedCrypto (some both) (summarizeState feedCrypto (some first)) =
      some (posted [post 2 "b" none]) := by decide +kernel
  have hdeliver : (gossip feedCrypto feedOwner).apply 0 (some first) second = some (some both) := by
    decide +kernel
  have hsend : (gossip feedCrypto feedOwner).delta (some both)
      (summarizeState feedCrypto (some first)) = some second :=
    congrArg (Option.map fun d => [UpdateData.delta (some d)]) hanswer
  refine .cons ⟨trivial, .answer hsend⟩ ?_
  exact .cons ⟨le_rfl, .deliver (Set.mem_insert _ _) hdeliver⟩ (.nil _)

theorem run_level : (lawful feedOwner feedUniverse).Run (Gossip.Network.start none)
    (seeding ++ posting ++ catchingUp) level :=
  (run_seeding.append run_posting).append run_catchingUp

end Sample

namespace FeedContract

open FeedStateV1

/-! ## The network -/

section
variable {ι : Type} [DecidableEq ι] {now : U64} {data : List (FeedUpdate Cert)}
  {N N₁ N₂ : Gossip.Network ι (Option (FeedStateV1 Cert)) (List (FeedUpdate Cert))}
  {es es₁ es₂ : List (Gossip.Event ι U64 (Option FeedStateV1Summary) (List (FeedUpdate Cert)))}

/-- **Feed replicas agree**: a network that started with nothing, and in which no replica has
anything to send over links that connect all of them, holds everywhere what one replica holds that
was called with all the writes, in the order they were made. -/
theorem network_agrees {link : ι → ι → Prop}
    (hrun : (lawful parameters U).Run (Gossip.Network.start none) es N)
    (hlink : ∀ i j, Relation.ReflTransGen link i j) (hheld : ∀ i, N.held i ≠ none)
    (hquiet : ∀ i j, link i j → getStateDelta C (N.held i) (summarizeState C (N.held j)) = none)
    (i : ι) :
    (gossip C parameters).serve none (es.filterMap Gossip.Event.written) = some (N.held i) :=
  Gossip.Lawful.agree hrun hlink hheld
    (fun i j hij => Option.map_eq_none_iff.mpr (hquiet i j hij)) i

open Sample in
theorem network_agrees_level : (gossip feedCrypto feedOwner).serve none
    ((seeding ++ posting ++ catchingUp).filterMap Gossip.Event.written) = some (level.held false) := by
  have hall (i j : Bool) : Relation.ReflTransGen (fun _ _ : Bool => True) i j := .single trivial
  have hquiet : ∀ i j : Bool, getStateDelta feedCrypto (level.held i)
      (summarizeState feedCrypto (level.held j)) = none := by decide +kernel
  exact network_agrees run_level hall (by decide +kernel) (fun i j _ => hquiet i j) false

/-- **No replica is ahead of the single one**: what it holds is verified, and merging it there
changes nothing. -/
theorem network_below (hrun : (lawful parameters U).Run (Gossip.Network.start none) es N) :
    ∃ S, (gossip C parameters).serve none (es.filterMap Gossip.Event.written) = some S ∧
      ∀ i r, N.held i = some r → r.verify C parameters = .ok () ∧
        ∃ s, S = some s ∧ s.verify C parameters = .ok () ∧ s.merge C parameters r = (.ok (), s) := by
  obtain ⟨S, hserve, hbelow⟩ := Gossip.Lawful.run_below hrun
  refine ⟨_, hserve, fun i r hr => ?_⟩
  obtain ⟨a, ha, hle⟩ := hbelow i
  have ha : N.held i = held a := ha
  rw [ha] at hr
  induction a with
  | bot => cases hr
  | coe a =>
    obtain rfl := Option.some.inj hr
    induction S with
    | bot => exact absurd hle (WithBot.not_coe_le_bot a)
    | coe s =>
      have hle := FeedReplica.le_iff.mp (WithBot.coe_le_coe.mp hle)
      refine ⟨verify_iff.mpr a.valid, s.feed, rfl, verify_iff.mpr s.valid, ?_⟩
      exact (merge_eq_ok s.valid (s.within.posts_append_state a.within)).mpr
        ⟨a.valid.checked_answer, hle.symm⟩

open Sample in
theorem network_below_ahead : ∃ S, (gossip feedCrypto feedOwner).serve none
      ((seeding ++ posting).filterMap Gossip.Event.written) = some S ∧
    ∀ i r, feedAhead.held i = some r → r.verify feedCrypto feedOwner = .ok () ∧
      ∃ s, S = some s ∧ s.verify feedCrypto feedOwner = .ok () ∧
        s.merge feedCrypto feedOwner r = (.ok (), s) :=
  network_below (run_seeding.append run_posting)

/-- **Nothing is lost and nothing counts twice**: a call that a replica took at any moment of a run
is taken again at any later one, and changes nothing. -/
theorem network_keeps {i : ι} {s : FeedStateV1 Cert}
    (hrun : (lawful parameters U).Run (Gossip.Network.start none) es N) (hnow : U.now ≤ now)
    (hdata : (i, data) ∈ es.filterMap Gossip.Event.handed) (hs : N.held i = some s) :
    updateState C parameters now (some s) data = .ok s := by
  have h := Gossip.Lawful.handed_again (L := lawful parameters U) hrun hnow hdata
  obtain ⟨v, S, hN, -⟩ := Gossip.Lawful.tracks_run hrun
  have hi : N.held i = held (v i) := hN.held i
  rw [hi] at h hs
  obtain ⟨s', hs', hup⟩ := apply_eq_some.mp h
  rw [hs] at hs' hup
  rw [hup, Option.some.inj hs']

open Sample in
/-- The call that seeded the replica does nothing to the feed it has become. -/
theorem network_keeps_level :
    updateState feedCrypto feedOwner 0 (some both) [.state first] = .ok both :=
  network_keeps (i := false) run_level le_rfl (by simp [seeding, Gossip.Event.handed]) rfl

/-- **Summaries may be out of date**: the delta that a replica sends for what another one held
earlier, delivered even later, leaves there what its whole state would. -/
theorem network_stale {i j : ι} {s : FeedStateV1 Cert} {d : FeedStateV1Delta Cert}
    (hrun : (lawful parameters U).Run (Gossip.Network.start none) es N) (hj : N.held j ≠ none)
    (h₁ : (lawful parameters U).Run N es₁ N₁) (hi : N₁.held i = some s)
    (hd : getStateDelta C (N₁.held i) (summarizeState C (N.held j)) = some d)
    (h₂ : (lawful parameters U).Run N₁ es₂ N₂) (hnow : U.now ≤ now) :
    updateState C parameters now (N₂.held j) [.delta (some d)] =
      updateState C parameters now (N₂.held j) [.state s] := by
  have hd : (gossip C parameters).delta (N₁.held i) (summarizeState C (N.held j)) =
      some [.delta (some d)] := congrArg (Option.map fun d => [UpdateData.delta (some d)]) hd
  have hfull : (gossip C parameters).full (N₁.held i) = some [.state s] := by rw [hi]; rfl
  have heq := Gossip.Lawful.apply_stale hrun hj h₁ hd hfull h₂ hnow
  obtain ⟨v, S, hN, -⟩ := Gossip.Lawful.tracks_run hrun
  obtain ⟨v₁, S₁, hN₁, -⟩ := hN.run h₁
  obtain ⟨v₂, S₂, hN₂, -⟩ := hN₁.run h₂
  have htake : (gossip C parameters).apply now (held (v₂ j)) [.state s] =
      some (held (v₂ j ⊔ v₁ i)) := (lawful parameters U).apply_full (hN₁.held i ▸ hfull) hnow
  have hj₂ : N₂.held j = held (v₂ j) := hN₂.held j
  rw [hj₂] at heq ⊢
  obtain ⟨t, ht, hdelta⟩ := apply_eq_some.mp (heq.trans htake)
  obtain ⟨t', ht', hstate⟩ := apply_eq_some.mp htake
  rw [hdelta, hstate, Option.some.inj (ht.symm.trans ht')]

open Sample in
theorem network_stale_level :
    updateState feedCrypto feedOwner 0 (level.held false) second =
      updateState feedCrypto feedOwner 0 (level.held false) [.state both] :=
  network_stale run_seeding (by decide +kernel) run_posting (i := true) (j := false) rfl
    (by decide +kernel) run_catchingUp le_rfl

/-- **The network recovers**: whatever was lost so far, replicas that hold the feed can be brought to
agree by deltas alone. -/
theorem network_recovers [Finite ι]
    (hrun : (lawful parameters U).Run (Gossip.Network.start none) es N)
    (hheld : ∀ i, N.held i ≠ none) :
    ∃ es' N' S, (lawful parameters U).Run N es' N' ∧ es'.filterMap Gossip.Event.written = [] ∧
      (gossip C parameters).serve none (es.filterMap Gossip.Event.written) = some S ∧
      ∀ i, N'.held i = S :=
  Gossip.Lawful.recovers hrun (le_refl U.now) hheld

open Sample in
theorem network_recovers_ahead : ∃ es' N' S, (lawful feedOwner feedUniverse).Run feedAhead es' N' ∧
    es'.filterMap Gossip.Event.written = [] ∧ (gossip feedCrypto feedOwner).serve none
      ((seeding ++ posting).filterMap Gossip.Event.written) = some S ∧ ∀ i, N'.held i = S :=
  network_recovers (run_seeding.append run_posting) (by decide +kernel)

end

end FeedContract

end Freebird
