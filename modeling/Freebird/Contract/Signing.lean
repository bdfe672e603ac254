import Freebird.Common.Layout
import Freebird.Directory.State
import Freebird.Inbox.State

/-!
# What a signature is over

Eight kinds of records are signed, each over a layout of its own behind a tag of its own. No tag
starts with another one, and every layout is a sequence of delimited fields, so the bytes tell the
kind and the fields (`signingPayload_inj`): a signature on one record is not one on another.
-/

namespace Freebird

open Encoding

variable {Cert : Type} (C : DirectoryCrypto Cert)

/-- What a posting key or the publisher signs. -/
inductive SignedRecord (Cert : Type)
  | post (post : PostV1)
  | profile (profile : ProfileV1)
  | follows (follows : FollowsV1)
  | avatar (avatar : AvatarV1)
  | replyPointer (ptr : ReplyPointerV3)
  | listing (listing : ListingV1) (attestation : Option (AttestationV2 Cert))
  | cell (purpose : String) (seq : U64) (body : List U8)
  | possession (ghostSignature : Signature)

inductive RecordKind
  | post | profile | follows | avatar | replyPointer | listing | cell | possession
  deriving DecidableEq

/-- The tag of a kind. -/
def RecordKind.domain : RecordKind → List U8
  | post => postSignDomain
  | profile => profileSignDomain
  | follows => followsSignDomain
  | avatar => avatarSignDomain
  | replyPointer => inboxPtrSignDomain
  | listing => listingSignDomain
  | cell => cellSignDomain
  | possession => attestPopDomain

namespace SignedRecord

def kind : SignedRecord Cert → RecordKind
  | post _ => .post
  | profile _ => .profile
  | follows _ => .follows
  | avatar _ => .avatar
  | replyPointer _ => .replyPointer
  | listing _ _ => .listing
  | cell _ _ _ => .cell
  | possession _ => .possession

def signingPayload : SignedRecord Cert → List U8
  | post p => p.signingPayload
  | profile p => p.signingPayload
  | follows f => f.signingPayload
  | avatar a => a.signingPayload C.toCrypto
  | replyPointer p => p.signingPayload
  | listing l att => listingSigningPayload C l att
  | cell purpose seq body => cellSigningPayload C.toCrypto purpose seq body
  | possession g => popMessage g

/-- The fields behind a length are short enough for it to tell their length. -/
def Short : SignedRecord Cert → Prop
  | post p => (utf8 p.content).length < 2 ^ 32
  | profile p => (utf8 p.name).length < 2 ^ 32 ∧ (utf8 p.bio).length < 2 ^ 32
  | follows f => f.follows.size < 2 ^ 32
  | avatar a => (utf8 a.contentType).length < 2 ^ 32
  | replyPointer p => (utf8 p.fingerprint).length < 2 ^ 32
  | cell purpose _ _ => (utf8 purpose).length < 2 ^ 32
  | listing _ _ | possession _ => True

/-- Two records of one kind with the same fields; a field that is signed through its hash counts as
the hash. -/
def SameFields : SignedRecord Cert → SignedRecord Cert → Prop
  | post p, post q => p = q
  | profile p, profile q => p = q
  | follows f, follows g => f = g
  | avatar a, avatar b =>
    a.time = b.time ∧ a.contentType = b.contentType ∧ C.blake3 a.data = C.blake3 b.data
  | replyPointer p, replyPointer q => p = q
  | listing l att, listing m att' =>
    l = m ∧ att.map (·.contentHash C.toCrypto) = att'.map (·.contentHash C.toCrypto)
  | cell purpose seq body, cell purpose' seq' body' =>
    purpose = purpose' ∧ seq = seq' ∧ C.blake3 body = C.blake3 body'
  | possession g, possession g' => g = g'
  | _, _ => False

end SignedRecord

/-! ## The layouts -/

/-- The bytes behind the tag of a kind of record. -/
def SignedRecord.layout : SignedRecord Cert → List U8
  | post p => p.id.toList ++ (leBytes 8 p.time ++ (putBytes (utf8 p.content) ++
      marked 0 1 (fun r : PostRef => r.author.toList ++ r.post.toList) p.inReplyTo))
  | profile p => leBytes 4 p.version ++ (putBytes (utf8 p.name) ++ putBytes (utf8 p.bio))
  | follows f => leBytes 4 f.version ++ counted (leBytes 4) Bytes.toList f.follows.toList
  | avatar a => leBytes 8 a.time ++ (putBytes (utf8 a.contentType) ++ (C.blake3 a.data).toList)
  | replyPointer p => p.owner.toList ++ (p.replier.toList ++ (putBytes (utf8 p.fingerprint) ++
      (p.targetPost.toList ++ (p.replyPost.toList ++ leBytes 8 p.time))))
  | listing l att => l.author.toList ++ (leBytes 8 l.lastActive ++
      marked 0 1 Bytes.toList (att.map (·.contentHash C.toCrypto)))
  | cell purpose seq body => putBytes (utf8 purpose) ++ (leBytes 8 seq ++ (C.blake3 body).toList)
  | possession g => g.toList

theorem domain_prefixFree : PrefixFree RecordKind.domain := by
  intro a b
  cases a <;> cases b <;> decide +kernel

namespace SignedRecord

variable {C}

theorem signingPayload_eq (r : SignedRecord Cert) :
    r.signingPayload C = r.kind.domain ++ r.layout C := by
  cases r with
  | post p =>
    obtain ⟨id, time, content, _ | reply⟩ := p <;>
      simp [signingPayload, layout, kind, RecordKind.domain, PostV1.signingPayload, marked]
  | listing l att =>
    cases att <;>
      simp [signingPayload, layout, kind, RecordKind.domain, listingSigningPayload, marked]
  | follows f =>
    simp [signingPayload, layout, kind, RecordKind.domain, FollowsV1.signingPayload, counted]
  | profile p => simp [signingPayload, layout, kind, RecordKind.domain, ProfileV1.signingPayload]
  | avatar a => simp [signingPayload, layout, kind, RecordKind.domain, AvatarV1.signingPayload]
  | replyPointer p =>
    simp [signingPayload, layout, kind, RecordKind.domain, ReplyPointerV3.signingPayload, putBytes]
  | cell purpose seq body =>
    simp [signingPayload, layout, kind, RecordKind.domain, cellSigningPayload, putBytes]
  | possession g => rfl

/-- The fields of two records of one kind are read off their layouts. -/
theorem layout_inj : ∀ {r s : SignedRecord Cert}, r.Short → s.Short → r.kind = s.kind →
    r.layout C = s.layout C → r.SameFields C s
  | post p, post q, hp, hq, _, he => by
    obtain ⟨hid, he⟩ := (delimited_bytes 16).cancel trivial trivial he
    obtain ⟨htime, he⟩ := delimited_u64.cancel trivial trivial he
    obtain ⟨hcontent, he⟩ := delimited_string.cancel hp hq he
    have hreply := (delimited_postRef.marked (by decide)).inj (fun _ _ => trivial)
      (fun _ _ => trivial) he
    obtain ⟨id, time, content, reply⟩ := p
    obtain ⟨id', time', content', reply'⟩ := q
    simp_all [SameFields]
  | profile p, profile q, hp, hq, _, he => by
    obtain ⟨hversion, he⟩ := delimited_u32.cancel trivial trivial he
    obtain ⟨hname, he⟩ := delimited_string.cancel hp.1 hq.1 he
    have hbio := delimited_string.inj hp.2 hq.2 he
    obtain ⟨name, bio, version⟩ := p
    obtain ⟨name', bio', version'⟩ := q
    simp_all [SameFields]
  | follows f, follows g, hf, hg, _, he => by
    obtain ⟨hversion, he⟩ := delimited_u32.cancel trivial trivial he
    have hkeys : f.follows.toList = g.follows.toList :=
      ((delimited_leBytes 4).counted (delimited_bytes 32)).inj
        ⟨Std.ExtTreeSet.length_toList.trans_lt hf, fun _ _ => trivial⟩
        ⟨Std.ExtTreeSet.length_toList.trans_lt hg, fun _ _ => trivial⟩ he
    have hset : f.follows = g.follows := Std.ExtTreeSet.ext_toList (hkeys ▸ .refl _)
    obtain ⟨follows, version⟩ := f
    obtain ⟨follows', version'⟩ := g
    simp_all [SameFields]
  | avatar a, avatar b, ha, hb, _, he => by
    obtain ⟨htime, he⟩ := delimited_u64.cancel trivial trivial he
    obtain ⟨htype, he⟩ := delimited_string.cancel ha hb he
    exact ⟨htime, htype, Bytes.toList_inj he⟩
  | replyPointer p, replyPointer q, hp, hq, _, he => by
    obtain ⟨howner, he⟩ := (delimited_bytes 32).cancel trivial trivial he
    obtain ⟨hreplier, he⟩ := (delimited_bytes 32).cancel trivial trivial he
    obtain ⟨hfp, he⟩ := delimited_string.cancel hp hq he
    obtain ⟨htarget, he⟩ := (delimited_bytes 16).cancel trivial trivial he
    obtain ⟨hreply, he⟩ := (delimited_bytes 16).cancel trivial trivial he
    have htime := delimited_u64.inj trivial trivial he
    obtain ⟨owner, replier, fp, target, reply, time⟩ := p
    obtain ⟨owner', replier', fp', target', reply', time'⟩ := q
    simp_all [SameFields]
  | listing l att, listing m att', _, _, _, he => by
    obtain ⟨hauthor, he⟩ := (delimited_bytes 32).cancel trivial trivial he
    obtain ⟨hactive, he⟩ := delimited_u64.cancel trivial trivial he
    have hatt := ((delimited_bytes 32).marked (by decide)).inj (fun _ _ => trivial)
      (fun _ _ => trivial) he
    obtain ⟨author, active⟩ := l
    obtain ⟨author', active'⟩ := m
    simp_all [SameFields]
  | cell purpose seq body, cell purpose' seq' body', hp, hq, _, he => by
    obtain ⟨hpurpose, he⟩ := delimited_string.cancel hp hq he
    obtain ⟨hseq, he⟩ := delimited_u64.cancel trivial trivial he
    exact ⟨hpurpose, hseq, Bytes.toList_inj he⟩
  | possession g, possession g', _, _, _, he => Bytes.toList_inj he

/-- **A payload determines the record**: its kind, and its fields up to collisions of the hashes
among them. -/
theorem signingPayload_inj {r s : SignedRecord Cert} (hr : r.Short) (hs : s.Short)
    (h : r.signingPayload C = s.signingPayload C) : r.kind = s.kind ∧ r.SameFields C s := by
  rw [signingPayload_eq, signingPayload_eq] at h
  obtain ⟨hkind, hlayout⟩ := domain_prefixFree.eq_of_append h
  exact ⟨hkind, layout_inj hr hs hkind hlayout⟩

open Sample in
theorem signingPayload_inj_same_hash :
    let r : SignedRecord VerifyingKey := cell powPurpose 1 [1]
    let s : SignedRecord VerifyingKey := cell powPurpose 1 [0, 1]
    r.signingPayload directoryCrypto = s.signingPayload directoryCrypto ∧
      r.kind = s.kind ∧ r.SameFields directoryCrypto s :=
  ⟨by decide +kernel, signingPayload_inj (r := cell powPurpose 1 [1])
    (s := cell powPurpose 1 [0, 1]) (by decide +kernel : (utf8 powPurpose).length < 2 ^ 32)
    (by decide +kernel : (utf8 powPurpose).length < 2 ^ 32) (by decide +kernel)⟩

end SignedRecord

end Freebird
