import Freebird.Feed.State
import Freebird.Transition.Ascent

/-!
# The ancestors of a post

A thread view walks up from a post through the feeds that are loaded. Whoever writes a post chooses
what it replies to, so the references may form circles and name posts that are nowhere. The walk ends
on all feeds, after no more turns than there are posts, with the ancestors root-first and the first
reference that resolves to no post, if there is one (`ancestorChain_spec`).
-/

namespace Freebird

open Ascent

variable {Cert : Type}

/-- The feeds of the view; one that was asked for and is not there yet is `none`. -/
abbrev LoadedFeeds (Cert : Type) := Map (Bytes 32) (Option (FeedStateV1 Cert))

/-- A post and the feed it was found in. -/
abbrev ChainEntry := Bytes 32 × AuthorizedPost

section
variable (feeds : LoadedFeeds Cert)

/-- The post of a reference. -/
def findPost (r : PostRef) : Option AuthorizedPost :=
  (feeds[r.author]?.bind id).bind fun f => f.posts.posts.find? fun p => p.post.id = r.post

/-- The loop of `ancestor_chain`, with the ancestors in the order they are found in. -/
def ancestorLoop : Nat → List ChainEntry → Std.ExtTreeSet (Bytes 32 ×ₗ PostId) compare →
    Option PostRef → Option (List ChainEntry × Option PostRef)
  | _, chain, _, none => some (chain, none)
  | 0, _, _, some _ => none
  | fuel + 1, chain, seen, some r =>
    if toLex (r.author, r.post) ∈ seen then some (chain, none)
    else
      match findPost feeds r with
      | some post =>
        ancestorLoop fuel (chain ++ [(r.author, post)]) (seen.insert (toLex (r.author, r.post)))
          post.post.inReplyTo
      | none => some (chain, some r)

/-- The ancestors of a post, root-first, and the first parent that could not be resolved. -/
def ancestorChain (start : Option PostRef) (fuel : Nat) :
    Option (List ChainEntry × Option PostRef) :=
  (ancestorLoop feeds fuel [] ∅ start).map fun (chain, unresolved) => (chain.reverse, unresolved)

/-- The references to the posts that are loaded. -/
def loadedRefs : List PostRef :=
  feeds.toList.flatMap fun (author, feed) =>
    feed.toList.flatMap fun f => f.posts.posts.map fun p => ⟨author, p.post.id⟩

end

/-- The reference to a post of a chain. -/
def ChainEntry.ref (entry : ChainEntry) : PostRef := ⟨entry.1, entry.2.post.id⟩

variable {feeds : LoadedFeeds Cert} {start : Option PostRef} {r : PostRef} {post : AuthorizedPost}
  {passed : List (PostRef × AuthorizedPost)}

/-! ## Posts and references -/

theorem findPost_eq_some (h : findPost feeds r = some post) : ∃ feed, feeds[r.author]? =
    some (some feed) ∧ post ∈ feed.posts.posts ∧ post.post.id = r.post := by
  obtain ⟨feed, hfeed, hpost⟩ := Option.bind_eq_some_iff.mp h
  obtain ⟨loaded, hloaded, rfl⟩ := Option.bind_eq_some_iff.mp hfeed
  have hid := List.find?_some hpost
  exact ⟨feed, hloaded, List.mem_of_find?_eq_some hpost, of_decide_eq_true hid⟩

theorem mem_loadedRefs (h : findPost feeds r = some post) : r ∈ loadedRefs feeds := by
  obtain ⟨feed, hfeed, hpost, hid⟩ := findPost_eq_some h
  refine List.mem_flatMap.mpr ⟨(r.author, some feed), ?_, ?_⟩
  · exact Std.ExtTreeMap.mem_toList_iff_getElem?_eq_some.mpr hfeed
  · refine List.mem_flatMap.mpr ⟨feed, List.mem_singleton_self feed, ?_⟩
    exact List.mem_map.mpr ⟨post, hpost, by rw [hid]⟩

/-- A step of the walk as an entry of the chain. -/
def chainEntry (c : PostRef × AuthorizedPost) : ChainEntry := (c.1.author, c.2)

theorem ref_chainEntry (h : findPost feeds r = some post) : (chainEntry (r, post)).ref = r := by
  obtain ⟨-, -, -, hid⟩ := findPost_eq_some h
  rw [chainEntry, ChainEntry.ref, hid]

/-! ## The loop climbs -/

/-- The set of the loop holds the references passed. -/
def Seen (seen : Std.ExtTreeSet (Bytes 32 ×ₗ PostId) compare)
    (passed : List (PostRef × AuthorizedPost)) : Prop :=
  ∀ r : PostRef, toLex (r.author, r.post) ∈ seen ↔ r ∈ passed.map Prod.fst

theorem toLex_inj {r s : PostRef} (h : toLex (r.author, r.post) = toLex (s.author, s.post)) :
    r = s := by
  cases r
  cases s
  obtain ⟨rfl, rfl⟩ := Prod.mk.inj (toLex.injective h)
  rfl

theorem Seen.insert {seen : Std.ExtTreeSet (Bytes 32 ×ₗ PostId) compare} (h : Seen seen passed) :
    Seen (seen.insert (toLex (r.author, r.post))) (passed ++ [(r, post)]) := by
  intro s
  rw [Std.ExtTreeSet.mem_insert, compare_eq_iff_eq, List.map_append, List.mem_append,
    List.map_singleton, List.mem_singleton, h s, or_comm]
  refine or_congr_right ⟨fun he => (toLex_inj he).symm, ?_⟩
  rintro rfl
  rfl

theorem ancestorLoop_eq {seen : Std.ExtTreeSet (Bytes 32 ×ₗ PostId) compare} (h : Seen seen passed)
    (fuel : Nat) (cursor : Option PostRef) :
    ancestorLoop feeds fuel (passed.map chainEntry) seen cursor =
      (climb (findPost feeds) (·.post.inReplyTo) fuel passed cursor).map
        fun (passed, lost) => (passed.map chainEntry, lost) := by
  induction fuel generalizing passed seen cursor with
  | zero => cases cursor <;> rfl
  | succ fuel ih =>
    cases cursor with
    | none => rfl
    | some r =>
      rw [ancestorLoop, climb]
      by_cases hr : r ∈ passed.map Prod.fst
      · rw [if_pos hr, if_pos ((h r).mpr hr)]
        rfl
      · rw [if_neg hr, if_neg ((h r).not.mpr hr)]
        cases hp : findPost feeds r with
        | none => rfl
        | some post =>
          have hentries : passed.map chainEntry ++ [(r.author, post)] =
              (passed ++ [(r, post)]).map chainEntry := by
            rw [List.map_append, List.map_singleton, chainEntry]
          simp only [hentries]
          exact ih h.insert _

theorem ancestorChain_eq (feeds : LoadedFeeds Cert) (start : Option PostRef) (fuel : Nat) :
    ancestorChain feeds start fuel =
      (climb (findPost feeds) (·.post.inReplyTo) fuel [] start).map
        fun (passed, lost) => ((passed.map chainEntry).reverse, lost) := by
  have hseen : Seen ∅ [] := fun r => by simp
  have hloop : ancestorLoop feeds fuel [] ∅ start =
      (climb (findPost feeds) (·.post.inReplyTo) fuel [] start).map
        fun (passed, lost) => (passed.map chainEntry, lost) := ancestorLoop_eq hseen fuel start
  rw [ancestorChain, hloop, Option.map_map]
  rfl

/-- **The walk up a thread**: on all feeds it ends, with the posts from the root down to the start,
each under a reference of its own and each the parent of the next, and it reports a reference exactly
if that is the first on the way up to resolve to no post. -/
theorem ancestorChain_spec (feeds : LoadedFeeds Cert) (start : Option PostRef) :
    ∃ (chain : List ChainEntry) (unresolved : Option PostRef),
      (∀ fuel, (loadedRefs feeds).length < fuel →
        ancestorChain feeds start fuel = some (chain, unresolved)) ∧
      (chain.map ChainEntry.ref).Nodup ∧
      (∀ e ∈ chain, findPost feeds e.ref = some e.2) ∧
      chain.IsChain (fun parent child => child.2.post.inReplyTo = some parent.ref) ∧
      chain.getLast? = start.bind (fun r => (findPost feeds r).map fun post => (r.author, post)) ∧
      ∀ r, unresolved = some r ↔
        ∃ n, ancestor (findPost feeds) (·.post.inReplyTo) start n = some r ∧
          findPost feeds r = none ∧ ∀ m < n, ∃ s post,
            ancestor (findPost feeds) (·.post.inReplyTo) start m = some s ∧
              findPost feeds s = some post := by
  have hsupport : ∀ r post, findPost feeds r = some post → r ∈ (loadedRefs feeds).toFinset :=
    fun r post h => List.mem_toFinset.mpr (mem_loadedRefs h)
  have hcard : (loadedRefs feeds).toFinset.card < (loadedRefs feeds).length + 1 + 0 :=
    Nat.lt_succ_of_le (List.toFinset_card_le _)
  have hnil : Passed (findPost feeds) (fun p : AuthorizedPost => p.post.inReplyTo) start [] start :=
    .nil
  obtain ⟨passed, cursor, lost, hclimb, hpassed, hstop⟩ := climb_eq_some hsupport hnil hcard
  have hrefs : (passed.map chainEntry).map ChainEntry.ref = passed.map Prod.fst := by
    rw [List.map_map]
    exact List.map_congr_left fun c hc => ref_chainEntry (hpassed.found c hc)
  refine ⟨(passed.map chainEntry).reverse, lost, fun fuel hfuel => ?_, ?_, ?_, ?_, ?_,
    fun r => hpassed.lost_iff hstop⟩
  · rw [ancestorChain_eq, climb_mono hclimb (Nat.succ_le_of_lt hfuel)]
    rfl
  · rw [List.map_reverse, hrefs]
    exact List.nodup_reverse.mpr hpassed.nodup
  · intro e he
    obtain ⟨c, hc, rfl⟩ := List.mem_map.mp (List.mem_reverse.mp he)
    rw [ref_chainEntry (hpassed.found c hc)]
    exact hpassed.found c hc
  · rw [List.isChain_reverse, List.isChain_map]
    refine hpassed.isChain.imp_of_mem_imp fun a b _ hb hup => ?_
    rw [ref_chainEntry (hpassed.found b hb)]
    exact hup
  · rw [List.getLast?_reverse, List.head?_map, hpassed.head? hstop]
    cases start with
    | none => rfl
    | some r => cases h : findPost feeds r <;> simp [h, chainEntry]

end Freebird
