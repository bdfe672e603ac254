import Freebird.Transition.Runs
import Freebird.Ui.Probe

/-!
# What the gate hides

The counter of the probe counts the answers that are owed as long as no failure is flagged
(`Ledger`): one `KeyList` for each generation, and one `Value` for each key listed. So a gate that
drops without a failure has heard them all (`complete_of_dropped`), provided that no answer is
written off in silence: an `Error` response and a `Get` that cannot be sent lower the counter and
leave the flag down (`dropped_on_failed_get`, `dropped_on_error`).
-/

namespace Freebird

open Transition

namespace LegacyProbe

variable {p q : LegacyProbe} {delta : Int} {response : Option FreebirdDelegateResponse}

/-- The counter moved by `delta` with no failure flagged on the way. -/
structure Noted (delta : Int) (p q : LegacyProbe) : Prop where
  done : p.probeDone = true → q.probeDone = true
  outstanding : q.probeOutstanding = p.probeOutstanding + delta
  failed : q.legacyProbeFailed = p.legacyProbeFailed
  pending : q.legacyProbePending =
    if p.probeOutstanding + delta ≤ 0 then false else p.legacyProbePending

/-- Counter, flag and gate are as they were, or a failure is flagged. -/
structure Flagged (p q : LegacyProbe) : Prop where
  done : p.probeDone = true → q.probeDone = true
  same : q.legacyProbeFailed = false → p.legacyProbeFailed = false ∧
    q.probeOutstanding = p.probeOutstanding ∧ q.legacyProbePending = p.legacyProbePending

theorem noted_probeNote (p : LegacyProbe) (delta : Int) : Noted delta p (p.probeNote delta) :=
  ⟨id, rfl, rfl, rfl⟩

theorem noted_value (p : LegacyProbe) (key : String) (value : Option (List U8)) :
    Noted (-1) p (p.dispatchLegacyKv (some (.value key value))).1 := by
  have h := noted_probeNote p (-1)
  cases value with
  | none => exact h
  | some value =>
    rw [dispatchLegacyKv]
    split
    · split
      · exact h
      · exact ⟨h.done, h.outstanding, h.failed, h.pending⟩
    · exact h

theorem keys_value (p : LegacyProbe) (key : String) (value : Option (List U8)) :
    Spawned.keys (p.dispatchLegacyKv (some (.value key value))).2 = [] := by
  cases value with
  | none => rfl
  | some value =>
    rw [dispatchLegacyKv]
    split
    · split <;> rfl
    · rfl

theorem Flagged.refl (p : LegacyProbe) : Flagged p p := ⟨id, fun h => ⟨h, rfl, rfl⟩⟩

theorem flagged_registerLegacy (p : LegacyProbe) : Flagged p p.registerLegacy :=
  ⟨id, fun h => ⟨h, rfl, rfl⟩⟩

theorem flagged_sendFailed (p : LegacyProbe) : Flagged p p.sendFailed := ⟨id, nofun⟩

theorem flagged_timeOut (p : LegacyProbe) : Flagged p p.timeOut := by
  rw [timeOut]
  split
  · exact ⟨id, nofun⟩
  · exact .refl p

theorem flagged_noteEmpty (p : LegacyProbe) : Flagged p p.noteEmptyLegacyResponse := by
  rw [noteEmptyLegacyResponse]
  split
  · exact ⟨id, fun h => ⟨h, rfl, rfl⟩⟩
  · exact ⟨id, nofun⟩

/-- A write-off is harmless once a failure is flagged. -/
theorem Noted.flagged (h : Noted delta p q) (hp : p.legacyProbeFailed = true) : Flagged p q :=
  ⟨h.done, fun hq => by rw [h.failed, hp] at hq; cases hq⟩

end LegacyProbe

variable {G : Type}

/-- The requests that the loop of `run_legacy_probe` has yet to send. -/
def Phase.asks : Phase G → List (Ask G)
  | .loop todo => todo.map .list
  | .listing g todo => .list g :: todo.map .list
  | .idle => []
  | .ended => []

namespace CarryForward

open LegacyProbe

/-! ## What is owed -/

/-- The answers that a response announces. -/
def announced : G × Option FreebirdDelegateResponse → List (Ask G)
  | (g, some (.keyList keys)) => keys.map (.get g)
  | _ => []

/-- The answer that a response is. -/
def settled : G × Option FreebirdDelegateResponse → List (Ask G)
  | (g, some (.keyList _)) => [.list g]
  | (g, some (.value key _)) => [.get g key]
  | _ => []

variable {legacy : List G} {s s' : CarryForward G} {e : ProbeEvent G} {owed : Multiset (Ask G)}

/-- The requests that may still be answered. -/
def waiting (s : CarryForward G) : Multiset (Ask G) :=
  (s.phase.asks : Multiset (Ask G)) + s.unsent.map (fun u => Ask.get u.1 u.2) + s.sent

/-- `owed` is what is missing of the lists and of the values announced so far. -/
structure Ledger (legacy : List G) (s : CarryForward G) (owed : Multiset (Ask G)) : Prop where
  accounts : ((legacy.map .list ++ s.heard.flatMap announced : List (Ask G)) : Multiset (Ask G)) =
    owed + (s.heard.flatMap settled : List (Ask G))
  waiting_le : s.waiting ≤ owed
  outstanding : s.probe.legacyProbeFailed = false → s.probe.probeOutstanding = owed.card
  gate : s.probe.legacyProbeFailed = false → s.probe.legacyProbePending = false → owed = 0

/-- Every generation has listed its keys, and every key listed has been answered. -/
def Complete (legacy : List G) (s : CarryForward G) : Prop :=
  (∀ g ∈ legacy, ∃ keys, (g, some (.keyList keys)) ∈ s.heard) ∧
    ∀ g keys, (g, some (.keyList keys)) ∈ s.heard → ∀ key ∈ keys,
      ∃ value, (g, some (.value key value)) ∈ s.heard

theorem mem_settled {ask : Ask G} {h : G × Option FreebirdDelegateResponse} :
    ask ∈ settled h ↔ (∃ g keys, h = (g, some (.keyList keys)) ∧ ask = .list g) ∨
      ∃ g key value, h = (g, some (.value key value)) ∧ ask = .get g key := by
  obtain ⟨g, _ | response⟩ := h
  · simp [settled]
  · cases response <;> simp [settled, eq_comm]

/-- Where nothing is owed, everything has been heard. -/
theorem Ledger.complete (h : Ledger legacy s 0) : Complete legacy s := by
  have heard (ask : Ask G) (hask : ask ∈ legacy.map .list ++ s.heard.flatMap announced) :
      ∃ r ∈ s.heard, ask ∈ settled r := by
    have haccounts := h.accounts
    rw [zero_add, Multiset.coe_eq_coe] at haccounts
    exact List.mem_flatMap.mp (haccounts.subset hask)
  constructor
  · intro g hg
    obtain ⟨r, hr, hask⟩ := heard (.list g) (List.mem_append_left _ (List.mem_map_of_mem hg))
    rcases mem_settled.mp hask with ⟨g', keys, rfl, he⟩ | ⟨_, _, _, -, he⟩
    · obtain rfl := Ask.list.inj he
      exact ⟨keys, hr⟩
    · cases he
  · intro g keys hlist key hkey
    have hannounced : Ask.get g key ∈ s.heard.flatMap announced :=
      List.mem_flatMap.mpr ⟨_, hlist, List.mem_map_of_mem hkey⟩
    obtain ⟨r, hr, hask⟩ := heard (.get g key) (List.mem_append_right _ hannounced)
    rcases mem_settled.mp hask with ⟨_, _, -, he⟩ | ⟨g', key', value, rfl, he⟩
    · cases he
    · obtain ⟨rfl, rfl⟩ := Ask.get.inj he
      exact ⟨value, hr⟩

/-! ## What a step does to the ledger -/

/-- A step that hears nothing and moves no counter unless it flags a failure. -/
theorem Ledger.of_flagged (h : Ledger legacy s owed) (hp : Flagged s.probe s'.probe)
    (hwaiting : s'.waiting ≤ s.waiting)
    (hheard : s'.heard.flatMap announced = s.heard.flatMap announced ∧
      s'.heard.flatMap settled = s.heard.flatMap settled) : Ledger legacy s' owed where
  accounts := by
    rw [hheard.1, hheard.2]
    exact h.accounts
  waiting_le := hwaiting.trans h.waiting_le
  outstanding hf := by
    obtain ⟨hf, ho, -⟩ := hp.same hf
    exact ho.trans (h.outstanding hf)
  gate hf hpending := by
    obtain ⟨hf, -, hg⟩ := hp.same hf
    exact h.gate hf (hg ▸ hpending)

/-- The counter follows the ledger, and the gate drops when nothing is owed. -/
theorem Ledger.of_noted {rest new : Multiset (Ask G)} {ask : Ask G}
    {r : G × Option FreebirdDelegateResponse} (h : Ledger legacy s (ask ::ₘ rest))
    (hp : Noted (new.card - 1) s.probe s'.probe) (hheard : s'.heard = s.heard ++ [r])
    (hannounced : (announced r : Multiset (Ask G)) = new) (hsettled : settled r = [ask])
    (hwaiting : s'.waiting ≤ rest + new) : Ledger legacy s' (rest + new) where
  accounts := by
    have haccounts := h.accounts
    rw [hheard, List.flatMap_append, List.flatMap_append, List.flatMap_singleton,
      List.flatMap_singleton, hsettled, ← List.append_assoc, ← Multiset.coe_add, haccounts,
      hannounced, ← Multiset.coe_add, ← Multiset.singleton_add, Multiset.coe_singleton]
    ac_rfl
  waiting_le := hwaiting
  outstanding hf := by
    rw [hp.failed] at hf
    rw [hp.outstanding, h.outstanding hf, Multiset.card_cons, Multiset.card_add]
    push_cast
    ring
  gate hf hpending := by
    rw [hp.failed] at hf
    rw [hp.pending] at hpending
    split at hpending
    · rename_i hle
      rw [h.outstanding hf, Multiset.card_cons] at hle
      rw [← Multiset.card_eq_zero, Multiset.card_add]
      omega
    · exact absurd (h.gate hf hpending) (Multiset.cons_ne_zero)

/-! ## Runs -/

/-- What holds of a page load from its start. -/
structure Inv (legacy : List G) (s : CarryForward G) : Prop where
  done : s.phase ≠ .idle → s.probe.probeDone = true
  idle : s.phase = .idle → s.registers = 0 ∧ s.unsent = 0 ∧ s.sent = 0 ∧ s.heard = []
  ledger : s.phase ≠ .idle → ∃ owed, Ledger legacy s owed

/-- No answer is written off while the flag is down. -/
def Surfaces (s : CarryForward G) (e : ProbeEvent G) : Prop :=
  s.probe.legacyProbeFailed = false →
    (∀ g key, e ≠ .getFailed g key) ∧ ∀ ask message, e ≠ .answered ask (some (.error message))

theorem inv_initial (account : Bool) (loaded : Option (Option (List U8))) :
    Inv legacy (initial account loaded) :=
  ⟨fun h => absurd rfl h, fun _ => ⟨rfl, rfl, rfl, rfl⟩, fun h => absurd rfl h⟩

/-- What is under way was started by the probe. -/
theorem Inv.not_idle (hs : Inv legacy s)
    (h : s.registers ≠ 0 ∨ s.unsent ≠ 0 ∨ s.sent ≠ 0) : s.phase ≠ .idle := by
  intro hidle
  obtain ⟨hregisters, hunsent, hsent, -⟩ := hs.idle hidle
  rcases h with h | h | h
  · exact h hregisters
  · exact h hunsent
  · exact h hsent

theorem Inv.of_flagged (hs : Inv legacy s) (hidle : s.phase ≠ .idle) (hidle' : s'.phase ≠ .idle)
    (hp : Flagged s.probe s'.probe) (hwaiting : s'.waiting ≤ s.waiting)
    (hheard : s'.heard.flatMap announced = s.heard.flatMap announced ∧
      s'.heard.flatMap settled = s.heard.flatMap settled) : Inv legacy s' where
  done _ := hp.done (hs.done hidle)
  idle h := absurd h hidle'
  ledger _ := by
    obtain ⟨owed, h⟩ := hs.ledger hidle
    exact ⟨owed, h.of_flagged hp hwaiting hheard⟩

variable [DecidableEq G]

/-- The UI begins once. -/
theorem Inv.begin (hs : Inv legacy s) (h : s.step legacy .begin = some s') : Inv legacy s' := by
  rw [step, beginLegacyProbe] at h
  by_cases hdone : s.probe.probeDone = true
  · rw [if_pos hdone] at h
    exact Option.some.inj h ▸ hs
  · have hidle : s.phase = .idle := by
      by_contra hne
      exact hdone (hs.done hne)
    obtain ⟨-, hunsent, hsent, hheard⟩ := hs.idle hidle
    rw [if_neg hdone] at h
    by_cases hnone : legacy.length = 0
    · rw [if_pos hnone] at h
      obtain rfl := Option.some.inj h
      exact ⟨fun _ => rfl, hs.idle, fun hne => absurd hidle hne⟩
    · rw [if_neg hnone] at h
      obtain rfl := Option.some.inj h
      refine ⟨fun _ => rfl, nofun, fun _ => ⟨(legacy.map .list : List (Ask G)), ?_⟩⟩
      exact
        { accounts := by simp [hheard]
          waiting_le := by simp [waiting, hunsent, hsent, Phase.asks]
          outstanding := by simp
          gate := nofun }

omit [DecidableEq G] in
theorem waiting_mono (hphase : (s'.phase.asks : Multiset (Ask G)) ≤ s.phase.asks)
    (hunsent : s'.unsent ≤ s.unsent) (hsent : s'.sent ≤ s.sent) : s'.waiting ≤ s.waiting :=
  add_le_add (add_le_add hphase (Multiset.map_le_map hunsent)) hsent

omit [DecidableEq G] in
/-- The loop of `run_legacy_probe` goes on from a generation it has dealt with. -/
theorem asks_loop_le (g : G) (todo : List G) :
    ((Phase.loop todo).asks : Multiset (Ask G)) ≤ (Phase.loop (g :: todo)).asks :=
  Multiset.le_cons_self _ _

theorem map_erase {u : G × String} (hu : u ∈ s.unsent) :
    s.unsent.map (fun u => Ask.get u.1 u.2) =
      .get u.1 u.2 ::ₘ (s.unsent.erase u).map fun u => Ask.get u.1 u.2 := by
  rw [← Multiset.map_cons fun u : G × String => Ask.get u.1 u.2, Multiset.cons_erase hu]

/-- An answer that the ledger owes. -/
theorem Ledger.answered {ask : Ask G} {response : Option FreebirdDelegateResponse}
    {unsent : Multiset (G × String)} {probe : LegacyProbe} (h : Ledger legacy s owed)
    (hask : ask ∈ s.sent)
    (hnew : unsent.map (fun u => Ask.get u.1 u.2) = announced (ask.generation, response))
    (hsettled : settled (ask.generation, response) = [ask])
    (hp : Noted ((announced (ask.generation, response)).length - 1) s.probe probe) :
    ∃ owed', Ledger legacy { s with
      probe, sent := s.sent.erase ask, unsent := s.unsent + unsent
      heard := s.heard ++ [(ask.generation, response)] } owed' := by
  have hmem : ask ∈ owed :=
    Multiset.mem_of_le h.waiting_le (Multiset.mem_add.mpr (.inr hask))
  obtain ⟨rest, rfl⟩ := Multiset.exists_cons_of_mem hmem
  refine ⟨rest + announced (ask.generation, response), h.of_noted hp rfl rfl hsettled ?_⟩
  have hle := h.waiting_le
  rw [waiting, ← Multiset.cons_erase hask, Multiset.add_cons, Multiset.cons_le_cons_iff] at hle
  rw [waiting, Multiset.map_add, hnew]
  change (s.phase.asks : Multiset (Ask G)) + (s.unsent.map (fun u => Ask.get u.1 u.2) +
    announced (ask.generation, response)) + s.sent.erase ask ≤ _
  calc _ = (s.phase.asks : Multiset (Ask G)) + s.unsent.map (fun u => Ask.get u.1 u.2) +
        s.sent.erase ask + announced (ask.generation, response) := by ac_rfl
    _ ≤ rest + announced (ask.generation, response) := by gcongr

/-- An answer settles what it is an answer to, unless it is an error that the flag covers. -/
theorem Inv.answered {ask : Ask G} {response : Option FreebirdDelegateResponse}
    (hs : Inv legacy s) (hsurf : s.Surfaces (.answered ask response))
    (h : s.step legacy (.answered ask response) = some s') : Inv legacy s' := by
  rw [CarryForward.step] at h
  split at h
  · rename_i hask
    obtain ⟨hmem, hadmits⟩ := hask
    obtain rfl := Option.some.inj h
    have hidle := hs.not_idle (.inr (.inr fun h => Multiset.notMem_zero _ (h ▸ hmem)))
    have hsent : s.sent.erase ask ≤ s.sent := Multiset.erase_le _ _
    obtain ⟨owed, hledger⟩ := hs.ledger hidle
    match response, hadmits with
    | none, _ =>
      refine hs.of_flagged hidle hidle (.refl _) (waiting_mono le_rfl ?_ hsent) ?_
      · simp [Spawned.keys]
      · simp [announced, settled]
    | some (.error message), _ =>
      have hfailed : s.probe.legacyProbeFailed = true := by
        by_contra hf
        exact (hsurf (by simpa using hf)).2 ask message rfl
      refine hs.of_flagged hidle hidle ((noted_probeNote _ _).flagged hfailed)
        (waiting_mono le_rfl ?_ hsent) ?_
      · simp [Spawned.keys]
      · simp [announced, settled]
    | some (.keyList keys), hadmits =>
      cases ask with
      | get g key => cases hadmits
      | list g =>
        have hp : Noted ((announced (g, some (.keyList keys))).length - 1) s.probe
            (s.probe.probeNote (keys.length - 1)) := by
          rw [announced, List.length_map]
          exact noted_probeNote _ _
        refine ⟨fun _ => hp.done (hs.done hidle), fun h => absurd h hidle, fun _ => ?_⟩
        refine hledger.answered hmem ?_ rfl hp
        rw [announced, Multiset.map_coe, Spawned.keys, List.map_map]
        rfl
    | some (.value key value), hadmits =>
      cases ask with
      | list g => cases hadmits
      | get g key' =>
        obtain rfl : key' = key := of_decide_eq_true hadmits
        have hp : Noted ((announced (g, some (.value key' value))).length - 1) s.probe
            (s.probe.dispatchLegacyKv (some (.value key' value))).1 := noted_value _ _ _
        have hnone : (Spawned.keys (s.probe.dispatchLegacyKv (some (.value key' value))).2).map
            (fun key => (g, key)) = [] := by rw [keys_value, List.map_nil]
        refine ⟨fun _ => hp.done (hs.done hidle), fun h => absurd h hidle, fun _ => ?_⟩
        exact hledger.answered hmem (congrArg (fun l : List (G × String) =>
          (l : Multiset (G × String)).map fun u => Ask.get u.1 u.2) hnone) rfl hp
    | some (.stored key), hadmits => cases ask <;> cases hadmits
    | some (.deleted key), hadmits => cases ask <;> cases hadmits
  · cases h

/-- **One step** that writes no answer off keeps the ledger. -/
theorem Inv.step (hs : Inv legacy s) (hsurf : s.Surfaces e) (h : s.step legacy e = some s') :
    Inv legacy s' := by
  have hrun {phase : Phase G} (hphase : s.phase = phase) (hne : phase ≠ .idle) : s.phase ≠ .idle :=
    hphase ▸ hne
  cases e with
  | begin => exact hs.begin h
  | answered ask response => exact hs.answered hsurf h
  | registerSent =>
    simp only [CarryForward.step] at h
    split at h
    · rename_i g todo hphase
      obtain rfl := Option.some.inj h
      refine hs.of_flagged (hrun hphase nofun) nofun (flagged_registerLegacy _) ?_ ⟨rfl, rfl⟩
      exact waiting_mono (by rw [hphase]; exact le_rfl) le_rfl le_rfl
    · cases h
  | registerFailed =>
    simp only [CarryForward.step] at h
    split at h
    · rename_i g todo hphase
      obtain rfl := Option.some.inj h
      refine hs.of_flagged (hrun hphase nofun) nofun ⟨id, nofun⟩ ?_ ⟨rfl, rfl⟩
      exact waiting_mono (by rw [hphase]; exact asks_loop_le g todo) le_rfl le_rfl
    · cases h
  | listSent =>
    simp only [CarryForward.step] at h
    split at h
    · rename_i g todo hphase
      obtain rfl := Option.some.inj h
      refine hs.of_flagged (hrun hphase nofun) nofun (.refl _) (le_of_eq ?_) ⟨rfl, rfl⟩
      -- What was to be sent has been sent.
      rw [waiting, waiting, hphase, Multiset.add_cons, Phase.asks, Phase.asks, ← Multiset.cons_coe,
        Multiset.cons_add, Multiset.cons_add]
    · cases h
  | listFailed =>
    simp only [CarryForward.step] at h
    split at h
    · rename_i g todo hphase
      obtain rfl := Option.some.inj h
      refine hs.of_flagged (hrun hphase nofun) nofun (flagged_sendFailed _) ?_ ⟨rfl, rfl⟩
      exact waiting_mono (by rw [hphase]; exact asks_loop_le g todo) le_rfl le_rfl
    · cases h
  | timeout =>
    simp only [CarryForward.step] at h
    split at h
    · rename_i hphase
      obtain rfl := Option.some.inj h
      refine hs.of_flagged (hrun hphase nofun) nofun (flagged_timeOut _) ?_ ⟨rfl, rfl⟩
      exact waiting_mono (Multiset.zero_le _) le_rfl le_rfl
    · cases h
  | getSent g key =>
    obtain ⟨hmem, h⟩ := Option.ite_none_right_eq_some.mp h
    obtain rfl := Option.some.inj h
    have hidle := hs.not_idle (.inr (.inl fun h => Multiset.notMem_zero _ (h ▸ hmem)))
    refine hs.of_flagged hidle hidle (.refl _) (le_of_eq ?_) ⟨rfl, rfl⟩
    rw [waiting, waiting, map_erase hmem, Multiset.add_cons, Multiset.add_cons, Multiset.cons_add]
  | getFailed g key =>
    obtain ⟨hmem, h⟩ := Option.ite_none_right_eq_some.mp h
    obtain rfl := Option.some.inj h
    have hidle := hs.not_idle (.inr (.inl fun h => Multiset.notMem_zero _ (h ▸ hmem)))
    have hfailed : s.probe.legacyProbeFailed = true := by
      by_contra hf
      exact (hsurf (by simpa using hf)).1 g key rfl
    refine hs.of_flagged hidle hidle ((noted_probeNote _ _).flagged hfailed) ?_ ⟨rfl, rfl⟩
    exact waiting_mono le_rfl (Multiset.erase_le _ _) le_rfl
  | acked g =>
    obtain ⟨hmem, h⟩ := Option.ite_none_right_eq_some.mp h
    obtain rfl := Option.some.inj h
    have hidle := hs.not_idle (.inl fun h => Multiset.notMem_zero _ (h ▸ hmem))
    exact hs.of_flagged hidle hidle (flagged_noteEmpty _) le_rfl ⟨rfl, rfl⟩
  | swallowed ask =>
    obtain ⟨hmem, h⟩ := Option.ite_none_right_eq_some.mp h
    obtain rfl := Option.some.inj h
    have hidle := hs.not_idle (.inr (.inr fun h => Multiset.notMem_zero _ (h ▸ hmem)))
    refine hs.of_flagged hidle hidle (flagged_noteEmpty _) ?_ ⟨rfl, rfl⟩
    exact waiting_mono le_rfl le_rfl (Multiset.erase_le _ _)

/-- **The gate hides nothing** in a run that writes no answer off: once it has dropped without a
failure, every generation has listed its keys and every key has been answered. -/
theorem complete_of_dropped {account : Bool} {loaded : Option (Option (List U8))}
    {es : List (ProbeEvent G)}
    (h : Runs (fun s e s' => s.step legacy e = some s' ∧ s.Surfaces e) (initial account loaded) es s)
    (hraised : s.phase ≠ .idle) (hdropped : s.probe.legacyProbePending = false)
    (hfailed : s.probe.legacyProbeFailed = false) : Complete legacy s := by
  have hinv : Inv legacy s :=
    h.invariant (fun _ _ _ hs hstep => hs.step hstep.2 hstep.1) (inv_initial account loaded)
  obtain ⟨owed, hledger⟩ := hinv.ledger hraised
  obtain rfl := hledger.gate hfailed hdropped
  exact hledger.complete

/-- One generation, which holds the seed. -/
theorem complete_of_dropped_seed : ∃ s : CarryForward Nat,
    Runs (fun s e s' => s.step [0] e = some s' ∧ s.Surfaces e) (initial false none)
      [.begin, .registerSent, .acked 0, .listSent, .answered (.list 0) (some (.keyList ["posting_key"])),
        .getSent 0 "posting_key",
        .answered (.get 0 "posting_key") (some (.value "posting_key" (some [7])))] s ∧
    s.probe.postingKeyLoaded = some (some [7]) ∧ Complete [0] s := by
  have hrun : ∃ s : CarryForward Nat,
      Runs (fun s e s' => s.step [0] e = some s' ∧ s.Surfaces e) (initial false none)
      [.begin, .registerSent, .acked 0, .listSent, .answered (.list 0) (some (.keyList ["posting_key"])),
        .getSent 0 "posting_key",
        .answered (.get 0 "posting_key") (some (.value "posting_key" (some [7])))] s ∧
      s.phase ≠ .idle ∧ s.probe.legacyProbePending = false ∧ s.probe.legacyProbeFailed = false ∧
      s.probe.postingKeyLoaded = some (some [7]) := by
    refine ⟨_, .cons ⟨rfl, fun _ => ⟨nofun, nofun⟩⟩ <| .cons ⟨rfl, fun _ => ⟨nofun, nofun⟩⟩ <|
      .cons ⟨rfl, fun _ => ⟨nofun, nofun⟩⟩ <| .cons ⟨rfl, fun _ => ⟨nofun, nofun⟩⟩ <|
      .cons ⟨rfl, fun _ => ⟨nofun, nofun⟩⟩ <| .cons ⟨rfl, fun _ => ⟨nofun, nofun⟩⟩ <|
      .cons ⟨rfl, fun _ => ⟨nofun, by simp⟩⟩ (.nil _), ?_⟩
    decide +kernel
  obtain ⟨s, h, hraised, hdropped, hfailed, hkey⟩ := hrun
  exact ⟨s, h, hkey, complete_of_dropped h hraised hdropped hfailed⟩

/-- The keys are listed, but the request for the seed cannot be sent: the gate drops, no failure is
flagged, and the seed was never heard of. -/
theorem dropped_on_failed_get : ∃ s : CarryForward Nat,
    Runs (fun s e s' => s.step [0] e = some s') (initial false none)
      [.begin, .registerSent, .acked 0, .listSent, .answered (.list 0) (some (.keyList ["posting_key"])),
        .getFailed 0 "posting_key"] s ∧
    s.phase ≠ .idle ∧ s.probe.legacyProbePending = false ∧ s.probe.legacyProbeFailed = false ∧
    ¬ Complete [0] s := by
  have hrun : ∃ s : CarryForward Nat,
      Runs (fun s e s' => s.step [0] e = some s') (initial false none)
        [.begin, .registerSent, .acked 0, .listSent,
          .answered (.list 0) (some (.keyList ["posting_key"])), .getFailed 0 "posting_key"] s ∧
      s.phase ≠ .idle ∧ s.probe.legacyProbePending = false ∧ s.probe.legacyProbeFailed = false ∧
      s.heard = [(0, some (.keyList ["posting_key"]))] :=
    Runs.exists_of_foldlM (by decide +kernel)
  obtain ⟨s, h, hraised, hdropped, hfailed, hheard⟩ := hrun
  refine ⟨s, h, hraised, hdropped, hfailed, fun hcomplete => ?_⟩
  have hlist : (0, some (.keyList ["posting_key"])) ∈ s.heard := hheard ▸ List.mem_singleton_self _
  obtain ⟨value, hvalue⟩ := hcomplete.2 0 _ hlist _ (List.mem_singleton_self _)
  rw [hheard] at hvalue
  cases List.mem_singleton.mp hvalue

/-- An old generation answers with an error instead of its keys. -/
theorem dropped_on_error : ∃ s : CarryForward Nat,
    Runs (fun s e s' => s.step [0] e = some s') (initial false none)
      [.begin, .registerSent, .acked 0, .listSent, .answered (.list 0) (some (.error "no origin"))] s ∧
    s.phase ≠ .idle ∧ s.probe.legacyProbePending = false ∧ s.probe.legacyProbeFailed = false ∧
    ¬ Complete [0] s := by
  refine ⟨_, .cons rfl <| .cons rfl <| .cons rfl <| .cons rfl <| .cons rfl (.nil _), ?_⟩
  refine ⟨nofun, rfl, rfl, fun h => ?_⟩
  obtain ⟨keys, hkeys⟩ := h.1 0 (List.mem_singleton_self 0)
  cases List.mem_singleton.mp hkeys

end CarryForward

end Freebird
