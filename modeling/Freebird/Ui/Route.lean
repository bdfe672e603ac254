import Freebird.Common.Base58
import Freebird.Common.Types

/-!
# The views and their hashes

The page keeps its view in the hash of its address. Each view has a hash of its own; one that was
typed or linked may go on after that, or be no view's. The page reads a hash as the view whose parts
it starts with (`fromHash_spec`), so view and hash agree as soon as one has followed the other, and
nothing moves them after that (`page_settles`).
-/

namespace Freebird

inductive View where
  | home
  | profile
  | discover
  | thread (r : PostRef)
  | author (a : Bytes 32)
  deriving DecidableEq

/-- What the slashes of a hash separate. -/
def hashParts (hash : String) : List String :=
  ((hash.toList.dropWhile fun c => c = '#' ∨ c = '/').splitOn '/').map String.ofList

section
variable (E : Bs58)

/-- The bytes of a part of a hash, when there are as many as it takes. -/
def bytesOf (n : Nat) (part : String) : Option (Bytes n) :=
  (E.decode part).bind fun bytes => if h : bytes.length = n then some ⟨bytes, h⟩ else none

namespace View

def toHash : View → String
  | home => "#/"
  | profile => "#/profile"
  | discover => "#/discover"
  | thread r =>
    "#/thread/" ++ E.encode r.author.toList ++ "/" ++ E.encode r.post.toList
  | author a => "#/author/" ++ E.encode a.toList

def threadOf : List String → Option View
  | a :: p :: _ =>
    (bytesOf E 32 a).bind fun a => (bytesOf E 16 p).map fun p => thread ⟨a, p⟩
  | _ => none

def authorOf : List String → Option View
  | a :: _ => (bytesOf E 32 a).map author
  | _ => none

def ofParts : List String → View
  | [] => home
  | first :: rest =>
    if first = "profile" then profile
    else if first = "discover" then discover
    else if first = "thread" then (threadOf E rest).getD home
    else if first = "author" then (authorOf E rest).getD home
    else home

/-- The view of a hash; one that is no view's is read as home. -/
def fromHash (hash : String) : View := ofParts E (hashParts hash)

/-- The parts of a view's hash. -/
def parts : View → List String
  | home => [""]
  | profile => ["profile"]
  | discover => ["discover"]
  | thread r => ["thread", E.encode r.author.toList, E.encode r.post.toList]
  | author a => ["author", E.encode a.toList]

end View

end

variable {E : Bs58} {n : Nat} {v : View} {part hash : String} {ps : List String}

theorem bytesOf_eq_some {b : Bytes n} : bytesOf E n part = some b ↔ part = E.encode b.toList := by
  rw [bytesOf, Option.bind_eq_some_iff]
  constructor
  · rintro ⟨bytes, hdecode, h⟩
    split at h
    · cases h
      exact E.decode_eq_some_iff.mp hdecode
    · cases h
  · rintro rfl
    exact ⟨b.toList, E.decode_encode _, dif_pos b.length_toList⟩

/-! ## Parts -/

/-- A hash is its parts again, where the first one begins with neither of what is trimmed. -/
theorem hashParts_eq {c : Char} {word : List Char} {first : String} {rest : List String}
    (hfirst : first.toList = c :: word) (hc : c ≠ '#' ∧ c ≠ '/')
    (hfree : ∀ p ∈ first :: rest, '/' ∉ p.toList)
    (hhash : hash.toList = '#' :: '/' :: ['/'].intercalate ((first :: rest).map String.toList)) :
    hashParts hash = first :: rest := by
  have hdrop : (hash.toList.dropWhile fun c => c = '#' ∨ c = '/') =
      ['/'].intercalate ((first :: rest).map String.toList) := by
    rw [hhash, List.map_cons, hfirst]
    cases rest <;> simp [List.intercalate, hc.1, hc.2]
  have hsplit := List.splitOn_intercalate '/' (List.forall_mem_map.mpr hfree) (by simp)
  rw [hashParts, hdrop, hsplit, List.map_map]
  simp

theorem hashParts_toHash (v : View) : hashParts (v.toHash E) = v.parts E := by
  cases v with
  | home => exact show hashParts "#/" = [""] by decide
  | profile => exact show hashParts "#/profile" = ["profile"] by decide
  | discover => exact show hashParts "#/discover" = ["discover"] by decide
  | thread r =>
    rw [View.parts]
    refine hashParts_eq rfl (by decide) ?_ ?_
    · simp only [List.forall_mem_cons]
      exact ⟨by decide, E.slash_not_mem _, E.slash_not_mem _, List.forall_mem_nil _⟩
    · simp only [View.toHash, String.toList_append, List.append_assoc, List.map_cons, List.map_nil,
        List.intercalate_cons_cons, List.intercalate_singleton]
      rfl
  | author a =>
    rw [View.parts]
    refine hashParts_eq rfl (by decide) ?_ ?_
    · simp only [List.forall_mem_cons]
      exact ⟨by decide, E.slash_not_mem _, List.forall_mem_nil _⟩
    · simp only [View.toHash, String.toList_append, List.map_cons, List.map_nil,
        List.intercalate_cons_cons, List.intercalate_singleton]
      rfl

/-! ## Reading a hash -/

namespace View

theorem getD_home_eq_iff {o : Option View} (hv : v ≠ home) : o.getD home = v ↔ o = some v := by
  cases o with
  | none => simp [hv.symm]
  | some w => simp

theorem threadOf_eq_some : threadOf E ps = some v ↔ ∃ r : PostRef, v = thread r ∧
    [E.encode r.author.toList, E.encode r.post.toList] <+: ps := by
  constructor
  · intro h
    unfold threadOf at h
    split at h
    · obtain ⟨a, ha, h⟩ := Option.bind_eq_some_iff.mp h
      obtain ⟨p, hp, rfl⟩ := Option.map_eq_some_iff.mp h
      rw [bytesOf_eq_some.mp ha, bytesOf_eq_some.mp hp]
      exact ⟨⟨a, p⟩, rfl, _, rfl⟩
    · cases h
  · rintro ⟨r, rfl, rest, rfl⟩
    simp [threadOf, bytesOf_eq_some.mpr rfl]

theorem authorOf_eq_some : authorOf E ps = some v ↔ ∃ a : Bytes 32, v = author a ∧
    [E.encode a.toList] <+: ps := by
  constructor
  · intro h
    unfold authorOf at h
    split at h
    · obtain ⟨a, ha, rfl⟩ := Option.map_eq_some_iff.mp h
      rw [bytesOf_eq_some.mp ha]
      exact ⟨a, rfl, _, rfl⟩
    · cases h
  · rintro ⟨a, rfl, rest, rfl⟩
    simp [authorOf, bytesOf_eq_some.mpr rfl]

theorem ofParts_eq_iff (hv : v ≠ home) : ofParts E ps = v ↔ v.parts E <+: ps := by
  cases ps with
  | nil => cases v <;> simp [ofParts, parts] at hv ⊢
  | cons first rest =>
    rw [ofParts]
    split_ifs with hprofile hdiscover hthread hauthor
    · cases v <;> simp [parts, hprofile]
    · cases v <;> simp [parts, hdiscover]
    · rw [getD_home_eq_iff hv, threadOf_eq_some]
      cases v <;> simp [parts, hthread]
    · rw [getD_home_eq_iff hv, authorOf_eq_some]
      cases v <;> simp [parts, hauthor]
    · cases v with
      | home => exact absurd rfl hv
      | _ => simp [parts, Ne.symm, *]

theorem fromHash_toHash (v : View) : fromHash E (v.toHash E) = v := by
  rw [fromHash, hashParts_toHash]
  by_cases hv : v = home
  · rw [hv]
    rfl
  · exact (ofParts_eq_iff hv).mpr (List.prefix_refl _)

/-- **A hash is read as the view whose parts it starts with.** -/
theorem fromHash_spec (v : View) (hash : String) : fromHash E (v.toHash E) = v ∧
    (v ≠ home → (fromHash E hash = v ↔ hashParts (v.toHash E) <+: hashParts hash)) :=
  ⟨fromHash_toHash v, fun hv => hashParts_toHash v ▸ ofParts_eq_iff hv⟩

-- What opens a follow link is no view's hash.
example : fromHash E "#follow=abc" = home := rfl

end View

/-! ## The page -/

structure Page where
  view : View
  /-- The hash of the page's own address. -/
  hash : String
  /-- The hash the shell around the page was last told. -/
  shell : String

/-- What the page runs after its hash has changed, and after its view has. -/
inductive PageTask where
  | hashChange
  | viewEffect

namespace Page

variable (E : Bs58)

def step (p : Page) : PageTask → Page
  | .hashChange => { p with view := View.fromHash E p.hash }
  | .viewEffect =>
    -- A hash that means the view already is left alone.
    let hash := if View.fromHash E p.hash ≠ p.view then p.view.toHash E else p.hash
    { p with hash, shell := p.view.toHash E }

def Agrees (p : Page) : Prop := View.fromHash E p.hash = p.view

variable {E} {p : Page} {t : PageTask} {ts : List PageTask}

theorem agrees_step (p : Page) (t : PageTask) : (p.step E t).Agrees E := by
  cases t with
  | hashChange => rfl
  | viewEffect =>
    rw [Agrees, step]
    dsimp only
    split
    · exact View.fromHash_toHash _
    · rename_i h
      exact not_not.mp h

theorem Agrees.step_view (h : p.Agrees E) : (p.step E t).view = p.view := by
  cases t with
  | hashChange => exact h
  | viewEffect => rfl

theorem Agrees.step_hash (h : p.Agrees E) : (p.step E t).hash = p.hash := by
  cases t with
  | hashChange => rfl
  | viewEffect => exact if_neg (not_not.mpr h)

/-- The shell keeps what it was told as long as the view stays. -/
theorem Agrees.step_shell (h : p.Agrees E) (hshell : p.shell = p.view.toHash E) :
    (p.step E t).shell = (p.step E t).view.toHash E := by
  rw [h.step_view]
  cases t with
  | hashChange => exact hshell
  | viewEffect => rfl

theorem Agrees.run (h : p.Agrees E) (ts : List PageTask) : (ts.foldl (step E) p).Agrees E ∧
    (ts.foldl (step E) p).view = p.view ∧ (ts.foldl (step E) p).hash = p.hash := by
  induction ts generalizing p with
  | nil => exact ⟨h, rfl, rfl⟩
  | cons t ts ih =>
    obtain ⟨hagrees, hview, hhash⟩ := ih (agrees_step p t)
    exact ⟨hagrees, hview.trans h.step_view, hhash.trans h.step_hash⟩

theorem Agrees.run_shell (h : p.Agrees E)
    (ht : p.shell = p.view.toHash E ∨ PageTask.viewEffect ∈ ts) :
    (ts.foldl (step E) p).shell = (ts.foldl (step E) p).view.toHash E := by
  induction ts generalizing p with
  | nil => exact ht.resolve_right List.not_mem_nil
  | cons t ts ih =>
    refine ih (agrees_step p t) ?_
    rcases ht with ht | ht
    · exact .inl (h.step_shell ht)
    · cases ht with
      | head => exact .inl rfl
      | tail _ ht => exact .inr ht

end Page

/-- **View and hash agree after the first task and stay so**, whatever tasks follow in whatever
order. The shell has the view's hash from the first effect on. -/
theorem page_settles (E : Bs58) (p : Page) (t : PageTask) (ts : List PageTask) :
    (ts.foldl (Page.step E) (p.step E t)).view = (p.step E t).view ∧
    (ts.foldl (Page.step E) (p.step E t)).hash = (p.step E t).hash ∧
    (ts.foldl (Page.step E) (p.step E t)).Agrees E ∧
    (PageTask.viewEffect ∈ t :: ts →
      (ts.foldl (Page.step E) (p.step E t)).shell =
        (ts.foldl (Page.step E) (p.step E t)).view.toHash E) := by
  have hagrees := Page.agrees_step (E := E) p t
  obtain ⟨hrun, hview, hhash⟩ := hagrees.run ts
  refine ⟨hview, hhash, hrun, fun ht => hagrees.run_shell ?_⟩
  cases ht with
  | head => exact .inl rfl
  | tail _ ht => exact .inr ht

end Freebird
