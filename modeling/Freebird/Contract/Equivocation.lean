import Freebird.Directory.State
import Freebird.Inbox.State
import Freebird.Register.Newest

/-!
# Two records of one sequence number

The latch is a register whose key is the sequence number alone (`adoptDifficulty_eq_newer`), and so
is what a summary says of it. If the publisher signs two records of one number, the first to come
stays, and two replicas that latched one each have nothing to offer (`latch_agrees_iff`).
-/

namespace Freebird

open Register

variable {Cert : Type} {C : DirectoryCrypto Cert} {cell : SignedCellV1}

/-- Adopting a genuine record keeps the newer of two by number. -/
theorem adoptDifficulty_eq_newer {C : Crypto Cert} (h : cell.genuine C = true)
    (held : Option SignedCellV1) :
    adoptDifficulty C held (some cell) = newer difficultySeq held (some cell) := by
  by_cases hle : cell.seq ≤ difficultySeq held
  · rw [newer_of_le hle, adoptDifficulty, if_pos (.inl hle)]
  · have hlt : difficultySeq held < difficultySeq (some cell) := not_le.mp hle
    rw [newer, if_pos hlt, adoptDifficulty]
    simp [hle, h]

variable (C) in
/-- The latch of a replica that started without a record, after these were delivered to it. -/
def delivered (records : List SignedCellV1) : Option SignedCellV1 :=
  records.foldl (fun held cell => adoptDifficulty C.toCrypto held (some cell)) none

theorem delivered_eq_newest {records : List SignedCellV1}
    (h : ∀ cell ∈ records, cell.genuine C.toCrypto = true) :
    delivered C records = newest difficultySeq none (records.map some) := by
  rw [delivered, newest, List.foldl_map]
  refine List.foldl_ext _ _ _ fun held cell hcell => ?_
  exact adoptDifficulty_eq_newer (h cell hcell) held

/-! ## Offers -/

variable (C) in
/-- The inbox sends its record to a peer with the summary of `b`. -/
def InboxStateV3.OffersRecord (a b : InboxStateV3 Cert) : Prop :=
  ∃ d cell, a.delta C.toCrypto (b.summarize C.toCrypto) = some d ∧
    a.powDifficulty = some cell ∧ d.powDifficulty = some cell

variable (C) in
@[inherit_doc InboxStateV3.OffersRecord]
def DirectoryStateV4.OffersRecord (a b : DirectoryStateV4 Cert) : Prop :=
  ∃ d cell, a.delta C (b.summarize C) = some d ∧
    a.powDifficulty = some cell ∧ d.powDifficulty = some cell

/-- A record is sent along exactly if the peer's number is lower. -/
theorem record_sent_iff {held : Option SignedCellV1} {theirs : U64} :
    (∃ cell, held = some cell ∧ (if theirs < difficultySeq held then held else none) = some cell) ↔
      theirs < difficultySeq held := by
  constructor
  · rintro ⟨cell, -, h⟩
    by_contra hle
    rw [if_neg hle] at h
    cases h
  · intro hlt
    rw [if_pos hlt]
    cases held with
    | none => exact absurd hlt (not_lt.mpr (Fin.zero_le _))
    | some cell => exact ⟨cell, rfl, rfl⟩

/-- A delta with a record in it is sent, whatever else it carries. -/
theorem sent_iff {δ : Type} {p : Prop} [Decidable p] {delta : δ} {held : Option SignedCellV1}
    (record : δ → Option SignedCellV1) (hp : (record delta).isSome → p) :
    (∃ d cell, (if p then some delta else none) = some d ∧ held = some cell ∧
        record d = some cell) ↔
      ∃ cell, held = some cell ∧ record delta = some cell := by
  constructor
  · rintro ⟨d, cell, hd, hheld, hcell⟩
    split at hd
    · obtain rfl := Option.some.inj hd
      exact ⟨cell, hheld, hcell⟩
    · cases hd
  · rintro ⟨cell, hheld, hcell⟩
    exact ⟨delta, cell, if_pos (hp (by rw [hcell]; rfl)), hheld, hcell⟩

theorem InboxStateV3.offersRecord_iff {a b : InboxStateV3 Cert} : a.OffersRecord C b ↔
    difficultySeq b.powDifficulty < difficultySeq a.powDifficulty :=
  (sent_iff InboxStateV3Delta.powDifficulty fun h => .inr (.inr h)).trans record_sent_iff

theorem DirectoryStateV4.offersRecord_iff {a b : DirectoryStateV4 Cert} : a.OffersRecord C b ↔
    difficultySeq b.powDifficulty < difficultySeq a.powDifficulty :=
  (sent_iff DirectoryDeltaV3.powDifficulty fun h => .inr h).trans record_sent_iff

/-- **When the replicas agree**: they end with one latch, in every order, exactly if no two records
share the highest number, and of two different latches one is offered exactly if their numbers
differ. -/
theorem latch_agrees_iff {R : List SignedCellV1}
    (hR : ∀ cell ∈ R, cell.check C.toCrypto (powParams C.toCrypto) = .ok ()) :
    ((∀ l l' : List SignedCellV1, (∀ cell, cell ∈ l ↔ cell ∈ R) → (∀ cell, cell ∈ l' ↔ cell ∈ R) →
        delivered C l = delivered C l') ↔
      ∀ x ∈ R, ∀ y ∈ R, (∀ z ∈ R, z.seq ≤ x.seq) → 0 < x.seq → y.seq = x.seq → y = x) ∧
    (∀ a b : InboxStateV3 Cert, a.powDifficulty ≠ b.powDifficulty →
      (a.OffersRecord C b ∨ b.OffersRecord C a ↔
        difficultySeq a.powDifficulty ≠ difficultySeq b.powDifficulty)) ∧
    ∀ a b : DirectoryStateV4 Cert, a.powDifficulty ≠ b.powDifficulty →
      (a.OffersRecord C b ∨ b.OffersRecord C a ↔
        difficultySeq a.powDifficulty ≠ difficultySeq b.powDifficulty) := by
  refine ⟨?_, fun a b _ => ?_, fun a b _ => ?_⟩
  · have hgenuine {l : List SignedCellV1} (hl : ∀ cell, cell ∈ l ↔ cell ∈ R) :
        ∀ cell ∈ l, cell.genuine C.toCrypto = true := fun cell hcell =>
      SignedCellV1.genuine_iff.mpr (hR cell ((hl cell).mp hcell))
    have hruns := newest_agree_iff difficultySeq (some : SignedCellV1 → _) none R
    simp only [Option.some.injEq] at hruns
    refine Iff.trans ?_ hruns
    refine forall₂_congr fun l l' => forall₂_congr fun hl hl' => ?_
    rw [delivered_eq_newest (hgenuine hl), delivered_eq_newest (hgenuine hl')]
  · rw [InboxStateV3.offersRecord_iff, InboxStateV3.offersRecord_iff, or_comm, ne_iff_lt_or_gt]
  · rw [DirectoryStateV4.offersRecord_iff, DirectoryStateV4.offersRecord_iff, or_comm,
      ne_iff_lt_or_gt]

namespace Sample

/-- Two records of one number. -/
def low : SignedCellV1 := record 5 20

def high : SignedCellV1 := record 5 26

end Sample

open Sample

theorem latch_agrees_iff_raise :
    ((∀ l l' : List SignedCellV1, (∀ cell, cell ∈ l ↔ cell ∈ [record 4 20, high]) →
        (∀ cell, cell ∈ l' ↔ cell ∈ [record 4 20, high]) →
          delivered directoryCrypto l = delivered directoryCrypto l') ↔
      ∀ x ∈ [record 4 20, high], ∀ y ∈ [record 4 20, high], (∀ z ∈ [record 4 20, high],
        z.seq ≤ x.seq) → 0 < x.seq → y.seq = x.seq → y = x) ∧
    (∀ a b : InboxStateV3 VerifyingKey, a.powDifficulty ≠ b.powDifficulty →
      (a.OffersRecord directoryCrypto b ∨ b.OffersRecord directoryCrypto a ↔
        difficultySeq a.powDifficulty ≠ difficultySeq b.powDifficulty)) ∧
    ∀ a b : DirectoryStateV4 VerifyingKey, a.powDifficulty ≠ b.powDifficulty →
      (a.OffersRecord directoryCrypto b ∨ b.OffersRecord directoryCrypto a ↔
        difficultySeq a.powDifficulty ≠ difficultySeq b.powDifficulty) :=
  latch_agrees_iff (R := [record 4 20, high]) (by decide +kernel)

/-- The order of two records of one number stays visible, and nothing is left to offer. -/
theorem latch_disagrees :
    low.check crypto (powParams crypto) = .ok () ∧ high.check crypto (powParams crypto) = .ok () ∧
      delivered directoryCrypto [low, high] = some low ∧
      delivered directoryCrypto [high, low] = some high ∧
      difficultyBits crypto (some low) ≠ difficultyBits crypto (some high) ∧
      (inboxState [] [] (some low)).delta crypto
        ((inboxState [] [] (some high)).summarize crypto) = none ∧
      (inboxState [] [] (some high)).delta crypto
        ((inboxState [] [] (some low)).summarize crypto) = none ∧
      (directoryState [] (some low)).delta directoryCrypto
        ((directoryState [] (some high)).summarize directoryCrypto) = none ∧
      (directoryState [] (some high)).delta directoryCrypto
        ((directoryState [] (some low)).summarize directoryCrypto) = none := by
  refine ⟨by decide +kernel, by decide +kernel, by decide +kernel, by decide +kernel,
    by decide +kernel, ?_, ?_, by decide +kernel, by decide +kernel⟩
  · exact Option.isNone_iff_eq_none.mp (by decide +kernel)
  · exact Option.isNone_iff_eq_none.mp (by decide +kernel)

end Freebird
