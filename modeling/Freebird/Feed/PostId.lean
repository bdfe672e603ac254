import Freebird.Common.Layout
import Freebird.Feed.State

/-!
# What the id of a post binds

The id is the start of a hash over author, time, content and the reply reference. The last two stand
there without a length between them, so a reply can hash the same bytes as a post that is no reply
and has the reference at the end of its content (`Absorbs`). These are the only posts an id does not
tell apart (`id_binds_iff`).
-/

namespace Freebird

open Encoding

variable {Cert : Type} {C : FeedCrypto Cert} {author : VerifyingKey}

namespace PostV1

variable {p q : PostV1}

/-- The bytes the id of a post is the hash of. -/
def hashed (author : VerifyingKey) (post : PostV1) : List U8 :=
  PostId.hashed author post.time post.content post.inReplyTo

/-- The content with what is appended to it. -/
def body (post : PostV1) : List U8 :=
  utf8 post.content ++ (post.inReplyTo.map fun r => r.author.toList ++ r.post.toList).getD []

/-- Two posts with the fields an id is meant to bind. -/
def SameFields (p q : PostV1) : Prop :=
  p.time = q.time ∧ p.content = q.content ∧ p.inReplyTo = q.inReplyTo

/-- The content of `q`, which is no reply, is the content of `p` with the reference `p` replies to
behind it. -/
def Absorbs (p q : PostV1) : Prop :=
  p.time = q.time ∧ q.inReplyTo = none ∧ ∃ r, p.inReplyTo = some r ∧
    utf8 q.content = utf8 p.content ++ (r.author.toList ++ r.post.toList)

theorem hashed_eq (author : VerifyingKey) (post : PostV1) :
    post.hashed author = author.asBytes.toList ++ ((leBytes 8 post.time).reverse ++ post.body) := by
  rw [hashed, body]
  cases post.inReplyTo <;> simp [PostId.hashed]

/-- The time is read off the hashed bytes; what follows it runs together. -/
theorem hashed_eq_iff : p.hashed author = q.hashed author ↔ p.time = q.time ∧ p.body = q.body := by
  rw [hashed_eq, hashed_eq, List.append_cancel_left_eq]
  constructor
  · intro h
    obtain ⟨htime, hbody⟩ := List.append_inj h (by simp)
    exact ⟨delimited_u64.inj trivial trivial (List.reverse_injective htime), hbody⟩
  · rintro ⟨htime, hbody⟩
    rw [htime, hbody]

/-- Two references of one width end two equal bodies. -/
theorem body_eq_of_replies {r r' : PostRef} (hp : p.inReplyTo = some r)
    (hq : q.inReplyTo = some r') (h : p.body = q.body) :
    p.content = q.content ∧ p.inReplyTo = q.inReplyTo := by
  rw [body, body, hp, hq] at h
  obtain ⟨hcontent, href⟩ := List.append_inj' h (by simp)
  obtain rfl := delimited_postRef.inj trivial trivial href
  exact ⟨utf8_inj hcontent, hp.trans hq.symm⟩

theorem body_eq_iff : p.body = q.body ∧ p.time = q.time ↔
    SameFields p q ∨ Absorbs p q ∨ Absorbs q p := by
  constructor
  · rintro ⟨h, htime⟩
    cases hp : p.inReplyTo with
    | none =>
      cases hq : q.inReplyTo with
      | none =>
        rw [body, body, hp, hq] at h
        exact .inl ⟨htime, utf8_inj (List.append_cancel_right h), hp.trans hq.symm⟩
      | some r =>
        rw [body, body, hp, hq] at h
        exact .inr (.inr ⟨htime.symm, hp, r, hq, by simpa using h⟩)
    | some r =>
      cases hq : q.inReplyTo with
      | none =>
        rw [body, body, hp, hq] at h
        exact .inr (.inl ⟨htime, hq, r, hp, by simpa using h.symm⟩)
      | some r' => exact .inl ⟨htime, body_eq_of_replies hp hq h⟩
  · have habsorbs {p q : PostV1} (h : Absorbs p q) : p.body = q.body := by
      obtain ⟨-, hq, r, hp, h⟩ := h
      rw [body, body, hp, hq, h]
      simp
    rintro (⟨htime, hcontent, hreply⟩ | h | h)
    · rw [body, body, hcontent, hreply]
      exact ⟨rfl, htime⟩
    · exact ⟨habsorbs h, h.1⟩
    · exact ⟨(habsorbs h).symm, h.1.symm⟩

end PostV1

namespace AuthorizedPost

variable {p q : AuthorizedPost}

theorem id_of_check (h : p.check C author = .ok ()) : p.post.id =
    PostId.compute C.toCrypto author p.post.time p.post.content p.post.inReplyTo := by
  simp only [check, throw_bind, guard_eq_ok, not_not] at h
  exact h.2.1

variable (C author) in
/-- Cut down to an id, the hash tells the bytes of different posts apart. -/
def CollisionFree (P : AuthorizedPost → Prop) : Prop :=
  ∀ p q, P p → P q →
    (C.blake3 (p.post.hashed author)).toList.take 16 =
      (C.blake3 (q.post.hashed author)).toList.take 16 →
    p.post.hashed author = q.post.hashed author

theorem CollisionFree.hashed_eq {P : AuthorizedPost → Prop} (h : CollisionFree C author P)
    (hP : P p) (hQ : P q) (hp : p.check C author = .ok ()) (hq : q.check C author = .ok ())
    (he : p.post.id = q.post.id) : p.post.hashed author = q.post.hashed author := by
  rw [id_of_check hp, id_of_check hq] at he
  exact h p q hP hQ (congrArg Bytes.toList he)

/-- **What an id binds**: time, content and reply reference, exactly if neither post has the other
one's reference at the end of its content. -/
theorem id_binds_iff (hp : p.check C author = .ok ()) (hq : q.check C author = .ok ())
    (hfree : CollisionFree C author (· ∈ [p, q])) :
    (p.post.id = q.post.id → p.post.time = q.post.time ∧ p.post.content = q.post.content ∧
        p.post.inReplyTo = q.post.inReplyTo) ↔
      ¬ p.post.Absorbs q.post ∧ ¬ q.post.Absorbs p.post := by
  constructor
  · intro h
    have hid (he : p.post.hashed author = q.post.hashed author) : p.post.id = q.post.id := by
      rw [id_of_check hp, id_of_check hq]
      exact Bytes.toList_inj (congrArg (fun bs => (C.blake3 bs).toList.take 16) he)
    constructor
    · intro ha
      obtain ⟨hbody, htime⟩ := PostV1.body_eq_iff.mpr (.inr (.inl ha))
      obtain ⟨-, -, hreply⟩ := h (hid (PostV1.hashed_eq_iff.mpr ⟨htime, hbody⟩))
      obtain ⟨-, hq, r, hp, -⟩ := ha
      rw [hp, hq] at hreply
      cases hreply
    · intro ha
      obtain ⟨hbody, htime⟩ := PostV1.body_eq_iff.mpr (.inr (.inr ha))
      obtain ⟨-, -, hreply⟩ := h (hid (PostV1.hashed_eq_iff.mpr ⟨htime, hbody⟩))
      obtain ⟨-, hp, r, hq, -⟩ := ha
      rw [hp, hq] at hreply
      cases hreply
  · rintro ⟨hpq, hqp⟩ he
    have hhashed := hfree.hashed_eq List.mem_cons_self (List.mem_cons_of_mem p List.mem_cons_self)
      hp hq he
    obtain ⟨htime, hbody⟩ := PostV1.hashed_eq_iff.mp hhashed
    rcases PostV1.body_eq_iff.mp ⟨hbody, htime⟩ with h | h | h
    · exact h
    · exact absurd h hpq
    · exact absurd h hqp

end AuthorizedPost

namespace Sample

/-- A reply, and a post with the reference of the reply at its end. -/
def reply : AuthorizedPost := post 1 "hi" (some ⟨bytes 32 97, bytes 16 98⟩)

def quote : AuthorizedPost := post 1 "hiaaaaaaaaaaaaaaaaaaaaaaaaaaaaaaaabbbbbbbbbbbbbbbb" none

def later : AuthorizedPost := post 2 "hi" none

end Sample

namespace AuthorizedPost

open Sample

theorem id_binds_iff_later :
    (reply.post.id = later.post.id → reply.post.time = later.post.time ∧
        reply.post.content = later.post.content ∧ reply.post.inReplyTo = later.post.inReplyTo) ↔
      ¬ reply.post.Absorbs later.post ∧ ¬ later.post.Absorbs reply.post := by
  have hreply : reply.check feedCrypto feedOwner.author = .ok () := by decide +kernel
  have hlater : later.check feedCrypto feedOwner.author = .ok () := by decide +kernel
  refine id_binds_iff hreply hlater ?_
  have hfree : ∀ p ∈ [reply, later], ∀ q ∈ [reply, later],
      (crypto.blake3 (p.post.hashed feedOwner.author)).toList.take 16 =
        (crypto.blake3 (q.post.hashed feedOwner.author)).toList.take 16 →
      p.post.hashed feedOwner.author = q.post.hashed feedOwner.author := by decide +kernel
  exact fun p q hp hq => hfree p hp q hq

/-- A reply and a post that is none share their id. -/
theorem reply_absorbed :
    reply.check feedCrypto feedOwner.author = .ok () ∧
      quote.check feedCrypto feedOwner.author = .ok () ∧
      reply.post.hashed feedOwner.author = quote.post.hashed feedOwner.author ∧
      reply.post.id = quote.post.id ∧ reply.post.content ≠ quote.post.content ∧
      reply.post.inReplyTo ≠ quote.post.inReplyTo := by decide +kernel

end AuthorizedPost

end Freebird
