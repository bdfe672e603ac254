import Mathlib

/-!
# Layouts that can be read back

A field is delimited when its bytes tell where it ends: two of them with anything after them are
equal as soon as the whole is (`Delimited`). Fields of a fixed width are, and so are lists behind
their length. A record of delimited fields is read back field by field, with `Delimited.cancel` once
for each. Records of several kinds are kept apart by tags of which none starts with another
(`PrefixFree`).
-/

namespace Encoding

variable {α β κ σ : Type*} {p : α → Prop} {q : β → Prop} {enc : α → List σ}

/-- The values in `p` can be read off their encoding, whatever follows it. -/
def Delimited (p : α → Prop) (enc : α → List σ) : Prop :=
  ∀ ⦃a b : α⦄, p a → p b → ∀ ⦃r s : List σ⦄, enc a ++ r = enc b ++ s → a = b ∧ r = s

/-- A list behind its length. -/
def prefixed (size : ℕ → List σ) (l : List σ) : List σ := size l.length ++ l

/-- The fields of a list behind their number. -/
def counted (size : ℕ → List σ) (enc : α → List σ) (l : List α) : List σ :=
  size l.length ++ l.flatMap enc

/-- A field that may be missing, behind a mark. -/
def marked (absent present : σ) (enc : α → List σ) : Option α → List σ
  | none => [absent]
  | some a => present :: enc a

namespace Delimited

theorem cancel (h : Delimited p enc) {a b : α} (ha : p a) (hb : p b) {r s : List σ}
    (he : enc a ++ r = enc b ++ s) : a = b ∧ r = s := h ha hb he

theorem inj (h : Delimited p enc) {a b : α} (ha : p a) (hb : p b) (he : enc a = enc b) : a = b :=
  (h.cancel ha hb (congrArg (· ++ []) he)).1

/-- An injective encoder of a fixed width. -/
theorem of_length (n : ℕ) (hlen : ∀ a, p a → (enc a).length = n)
    (hinj : ∀ a b, p a → p b → enc a = enc b → a = b) : Delimited p enc := by
  intro a b ha hb r s he
  obtain ⟨hab, hrs⟩ := List.append_inj he ((hlen a ha).trans (hlen b hb).symm)
  exact ⟨hinj a b ha hb hab, hrs⟩

/-- A list without the mark that ends it. -/
theorem terminated (mark : σ) : Delimited (mark ∉ ·) fun l : List σ => l ++ [mark] := by
  intro a b ha hb r s he
  rw [List.append_assoc, List.append_assoc, List.singleton_append, List.singleton_append] at he
  rcases List.append_eq_append_iff.mp he with ⟨c, rfl, hc⟩ | ⟨c, rfl, hc⟩
  · cases c with
    | nil => exact ⟨(List.append_nil a).symm, (List.cons.inj hc).2⟩
    | cons x c => exact absurd (by simp [(List.cons.inj hc).1]) hb
  · cases c with
    | nil => exact ⟨List.append_nil b, (List.cons.inj hc).2.symm⟩
    | cons x c => exact absurd (by simp [(List.cons.inj hc).1]) ha

variable {size : ℕ → List σ} {n : ℕ → Prop}

theorem prefixed (h : Delimited n size) :
    Delimited (fun l => n l.length) (Encoding.prefixed size) := by
  intro a b ha hb r s he
  rw [Encoding.prefixed, Encoding.prefixed, List.append_assoc, List.append_assoc] at he
  obtain ⟨hlen, he⟩ := h.cancel ha hb he
  exact List.append_inj he hlen

theorem flatMap_cancel (h : Delimited p enc) : ∀ {as bs : List α} {r s : List σ},
    (∀ a ∈ as, p a) → (∀ b ∈ bs, p b) → as.length = bs.length →
      as.flatMap enc ++ r = bs.flatMap enc ++ s → as = bs ∧ r = s := by
  intro as
  induction as with
  | nil =>
    intro bs r s _ _ hlen he
    obtain rfl := List.eq_nil_of_length_eq_zero hlen.symm
    exact ⟨rfl, he⟩
  | cons a as ih =>
    intro bs r s has hbs hlen he
    cases bs with
    | nil => cases hlen
    | cons b bs =>
      rw [List.flatMap_cons, List.flatMap_cons, List.append_assoc, List.append_assoc] at he
      rw [List.forall_mem_cons] at has hbs
      obtain ⟨rfl, hr⟩ := h.cancel has.1 hbs.1 he
      obtain ⟨rfl, hs⟩ := ih has.2 hbs.2 (Nat.succ.inj hlen) hr
      exact ⟨rfl, hs⟩

theorem counted (hsize : Delimited n size) (h : Delimited p enc) :
    Delimited (fun l => n l.length ∧ ∀ a ∈ l, p a) (Encoding.counted size enc) := by
  intro as bs has hbs r s he
  rw [Encoding.counted, Encoding.counted, List.append_assoc, List.append_assoc] at he
  obtain ⟨hlen, he⟩ := hsize.cancel has.1 hbs.1 he
  exact h.flatMap_cancel has.2 hbs.2 hlen he

theorem marked {absent present : σ} (hne : absent ≠ present) (h : Delimited p enc) :
    Delimited (fun x => ∀ a ∈ x, p a) (Encoding.marked absent present enc) := by
  intro x y hx hy r s he
  cases x with
  | none =>
    cases y with
    | none => exact ⟨rfl, List.cons.inj he |>.2⟩
    | some b => exact absurd (List.cons.inj he).1 hne
  | some a =>
    cases y with
    | none => exact absurd (List.cons.inj he).1.symm hne
    | some b =>
      obtain ⟨rfl, hr⟩ := h.cancel (hx a rfl) (hy b rfl) (List.cons.inj he).2
      exact ⟨rfl, hr⟩

end Delimited

/-- No tag starts with another one. -/
def PrefixFree (tag : κ → List σ) : Prop := ∀ a b, tag a <+: tag b → a = b

/-- A tag tells the kind of a record. -/
theorem PrefixFree.eq_of_append {tag : κ → List σ} (h : PrefixFree tag) {a b : κ} {r s : List σ}
    (he : tag a ++ r = tag b ++ s) : a = b ∧ r = s := by
  have ha : tag a <+: tag b ++ s := ⟨r, he⟩
  have hab : a = b := by
    rcases List.prefix_or_prefix_of_prefix ha (List.prefix_append _ _) with hp | hp
    · exact h a b hp
    · exact (h b a hp).symm
  subst hab
  exact ⟨rfl, List.append_cancel_left he⟩

end Encoding
