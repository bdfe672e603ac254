import Freebird.Directory.Caps
import Freebird.Inbox.Invariant
import Freebird.Transition.Runs

/-!
# The latch over runs

Directory and inbox read the bar for anonymous entries off the record they have latched, and take a
record from a delta before they look at its entries. Seen through the latch both do the same
(`LatchView`): a delta leaves the latch alone or raises it to the genuine record it carries, and
whatever anonymous entry is new afterwards clears the bar that is latched then (`LatchView.Step`).
So no run lowers the latch, and no delta gets an entry in below it (`keepsLatch`).
-/

namespace Freebird

open Transition

variable {Cert σ δ α : Type}

/-- A contract as its latch sees it. -/
structure LatchView (σ δ α : Type) where
  latch : σ → Option SignedCellV1
  /-- The record a delta carries. -/
  record : δ → Option SignedCellV1
  /-- The anonymous entries. -/
  entries : σ → Set α
  clears : Nat → α → Prop
  /-- The calls of `apply_delta` that succeed. -/
  applies : σ → δ → σ → Prop

namespace LatchView

/-- What a delta does to the latch and to the anonymous entries. -/
structure Step (C : Crypto Cert) (V : LatchView σ δ α) (s : σ) (d : δ) (s' : σ) : Prop where
  latch : V.latch s' = V.latch s ∨ ∃ cell, V.record d = some cell ∧ V.latch s' = some cell ∧
    cell.check C (powParams C) = .ok () ∧ difficultySeq (V.latch s) < cell.seq
  fresh : ∀ x ∈ V.entries s', x ∉ V.entries s → V.clears (difficultyBits C (V.latch s')) x

variable {C : Crypto Cert} {V : LatchView σ δ α} {s s' : σ} {d : δ}

/-- The latch is what `adopt_difficulty` makes of it. -/
theorem Step.of_adopt (hlatch : V.latch s' = adoptDifficulty C (V.latch s) (V.record d))
    (hfresh : ∀ x ∈ V.entries s', x ∉ V.entries s →
      V.clears (difficultyBits C (adoptDifficulty C (V.latch s) (V.record d))) x) :
    V.Step C s d s' where
  latch := by
    rw [hlatch]
    refine (adoptDifficulty_cases (C := C) (V.latch s) (V.record d)).imp_right ?_
    rintro ⟨cell, hrecord, hcell, hlt, hgenuine⟩
    exact ⟨cell, hrecord, hcell, SignedCellV1.genuine_iff.mp hgenuine, hlt⟩
  fresh := by rwa [hlatch]

theorem Step.seq_le (h : V.Step C s d s') : difficultySeq (V.latch s) ≤ difficultySeq (V.latch s') := by
  rcases h.latch with hl | ⟨cell, -, hl, -, hlt⟩
  · rw [hl]
  · rw [hl]
    exact hlt.le

/-- A delta with no record, or an old one, leaves the latch alone. -/
theorem Step.latch_eq (h : V.Step C s d s')
    (hold : difficultySeq (V.record d) ≤ difficultySeq (V.latch s)) : V.latch s' = V.latch s := by
  rcases h.latch with hl | ⟨cell, hrecord, -, -, hlt⟩
  · exact hl
  · rw [hrecord] at hold
    exact absurd hlt (not_lt.mpr hold)

/-- A contract that never lowers its latch, from any state that verifies. -/
structure KeepsLatch (C : Crypto Cert) (Verifies : σ → Prop) (V : LatchView σ δ α) : Prop where
  step : ∀ s d s', Verifies s → V.applies s d s' → V.Step C s d s'
  rises : ∀ s ds u es t, Verifies s → Runs V.applies s ds u → Runs V.applies u es t →
    difficultySeq (V.latch u) ≤ difficultySeq (V.latch t)
  /-- A delta that omits the record or replays an old one. -/
  replay : ∀ s ds u d v, Verifies s → Runs V.applies s ds u → V.applies u d v →
    difficultySeq (V.record d) ≤ difficultySeq (V.latch u) →
      V.latch v = V.latch u ∧
        ∀ x ∈ V.entries v, x ∉ V.entries u → V.clears (difficultyBits C (V.latch u)) x

/-- What a step does under an invariant holds all along the runs. -/
theorem KeepsLatch.of_step {Verifies P : σ → Prop} (hstart : ∀ s, Verifies s → P s)
    (hpres : ∀ s d s', P s → V.applies s d s' → P s')
    (hstep : ∀ s d s', P s → V.applies s d s' → V.Step C s d s') : V.KeepsLatch C Verifies where
  step s d s' hs h := hstep s d s' (hstart s hs) h
  rises s ds u es t hs hds hes := by
    have hu : P u := hds.invariant hpres (hstart s hs)
    exact hes.monotone (f := fun s => difficultySeq (V.latch s)) hpres
      (fun s d s' hs h => (hstep s d s' hs h).seq_le) hu
  replay s ds u d v hs hds hd hold := by
    have hu : P u := hds.invariant hpres (hstart s hs)
    have h := hstep u d v hu hd
    exact ⟨h.latch_eq hold, h.latch_eq hold ▸ h.fresh⟩

end LatchView

/-! ## The inbox -/

namespace InboxStateV3

variable {C : Crypto Cert} {parameters : InboxParametersV3} {s s' : InboxStateV3 Cert}
  {d : InboxStateV3Delta Cert} {p : AuthorizedReplyPointerV3}

variable (C parameters) in
/-- The anonymous entries are the pointers that need a stamp. -/
def latchView : LatchView (InboxStateV3 Cert) (InboxStateV3Delta Cert) AuthorizedReplyPointerV3 where
  latch s := s.powDifficulty
  record d := d.powDifficulty
  entries s := {p | p ∈ s.pointers.pointers ∧ p.isAnon = true}
  clears bits p := meetsInbox C parameters.owner.asBytes p.ptr.replier p.powNonce bits = true
  applies s d s' := s.applyDelta C parameters (some d) = (.ok (), s')

/-- A pointer bound to another inbox passes the bar, but `checkPointer` refuses it. -/
theorem stamped_of_admitted (ha : s.Accepts C parameters d) (hp : p ∈ s.admitted C parameters d)
    (hanon : p.isAnon = true) : meetsInbox C parameters.owner.asBytes p.ptr.replier p.powNonce
      (difficultyBits C (s.latchAfter C d)) = true := by
  have howner := (ha.signed p hp).1
  have hadmits := (mem_admitted.mp hp).2
  simpa [admits, hanon, howner] using hadmits

theorem Valid.latchStep (hs : s.Valid C parameters)
    (h : s.applyDelta C parameters (some d) = (.ok (), s')) :
    (latchView C parameters).Step C s d s' := by
  obtain ⟨ha, happlied⟩ := (applyDelta_eq_ok hs.settled).mp h
  refine .of_adopt happlied.latch fun p hp hnew => ?_
  obtain ⟨hmem, hanon⟩ : p ∈ s'.pointers.pointers ∧ p.isAnon = true := hp
  rw [happlied.pointers] at hmem
  rcases (mem_pointersAfter hmem).1 with hold | hacc
  · exact absurd ⟨hold, hanon⟩ hnew
  · exact stamped_of_admitted ha (mem_accepted.mp hacc).1 hanon

end InboxStateV3

/-! ## The directory -/

namespace DirectoryStateV4

variable {C : DirectoryCrypto Cert} {parameters : DirectoryParametersV3}
  {s s' : DirectoryStateV4 Cert} {d : DirectoryDeltaV3 Cert}

variable (C parameters) in
/-- The anonymous entries are the listings of the anonymous tier. -/
def latchView :
    LatchView (DirectoryStateV4 Cert) (DirectoryDeltaV3 Cert) (AuthorizedListingV3 Cert) where
  latch s := s.powDifficulty
  record d := d.powDifficulty
  entries s := {l | ∃ k : Bytes 32, s.anon[k]? = some l}
  clears bits l := meetsDirectory C.toCrypto l.listing.author l.powNonce bits = true
  applies s d s' := s.applyDelta C parameters d = (.ok (), s')

theorem latchStep (h : s.applyDelta C parameters d = (.ok (), s')) :
    (latchView C parameters).Step C.toCrypto s d s' := by
  have hs' := applyDelta_eq_ok h
  have hlatch : s'.powDifficulty = adoptDifficulty C.toCrypto s.powDifficulty d.powDifficulty := by
    rw [hs']
    exact powDifficulty_step
  refine .of_adopt hlatch ?_
  rintro l ⟨k, hk⟩ hnew
  have hslot : ((s.seated C d).tier true)[k]? = some l := by
    rw [hs'] at hk
    exact getElem?_of_canonicalize (b := true) hk
  rw [seated_slot] at hslot
  rcases mem_of_foldl_newer hslot with hheld | hoffered
  · exact absurd ⟨k, hheld⟩ hnew
  · have hoff := (List.mem_filter.mp hoffered).2
    simp only [offeredTo, Bool.and_eq_true, decide_eq_true_eq] at hoff
    obtain ⟨⟨hclears, htier⟩, -⟩ := hoff
    rwa [AuthorizedListingV3.clears, htier] at hclears

end DirectoryStateV4

/-- **The latch can be neither omitted nor downgraded**, in the inbox and in the directory. -/
theorem keepsLatch (C : DirectoryCrypto Cert) (inbox : InboxParametersV3)
    (directory : DirectoryParametersV3) :
    (InboxStateV3.latchView C.toCrypto inbox).KeepsLatch C.toCrypto
        (fun s => s.verify C.toCrypto inbox = .ok ()) ∧
      (DirectoryStateV4.latchView C directory).KeepsLatch C.toCrypto
        (fun s => s.verify C directory = .ok ()) :=
  ⟨.of_step (P := fun s => s.Valid C.toCrypto inbox)
      (fun _ hs => InboxStateV3.verify_iff.mp hs)
      (fun _ _ _ hs h => hs.applyDelta h) fun _ _ _ hs h => hs.latchStep h,
    .of_step (P := fun _ => True) (fun _ _ => trivial) (fun _ _ _ _ _ => trivial)
      fun _ _ _ _ h => DirectoryStateV4.latchStep h⟩

namespace Sample

/-- An inbox that has latched a record, and a delta that replays a lower one of its age next to a
pointer with a weak stamp. -/
def raised : InboxStateV3 VerifyingKey := inboxState [] [] (some (record 1 26))

def downgrade : InboxStateV3Delta VerifyingKey :=
  { inboxDelta [anonymous 2] [pointer (anonymous 2) 4 5 (2 ^ 40)] with
    powDifficulty := some (record 1 20) }

end Sample

open Sample InboxStateV3 in
theorem keepsLatch_downgrade :
    let s' := (raised.applyDelta crypto inbox (some downgrade)).2
    s'.powDifficulty = some (record 1 26) ∧
      ∀ p, (p ∈ s'.pointers.pointers ∧ p.isAnon = true) →
        ¬ (p ∈ raised.pointers.pointers ∧ p.isAnon = true) →
          meetsInbox crypto inbox.owner.asBytes p.ptr.replier p.powNonce 26 = true := by
  have h : raised.applyDelta crypto inbox (some downgrade) =
      (.ok (), (raised.applyDelta crypto inbox (some downgrade)).2) := by decide +kernel
  exact (keepsLatch directoryCrypto inbox directory).1.replay raised [] raised downgrade _
    (by decide +kernel) (.nil raised) h (by decide +kernel)

end Freebird
