import RmwAxon.QkdEnvelope

namespace RmwAxon.AssociatedData

open Endian QkdEnvelope List
open NodeTable (Text)
open SyncWire (Bytes)

variable {context context' : WireContext} {senderSaeId keyId senderSaeId' keyId' : Text}

theorem code_inj {k k' : WireKind} (h : k.code = k'.code) : k = k' := by
  cases k <;> cases k' <;> first | rfl | exact absurd h (by decide)

/-- Nothing in the associated data says where the sender ends. -/
theorem contextAad_eq_iff (h : context.topicHash < 2 ^ 64) (h' : context'.topicHash < 2 ^ 64) :
    contextAad context senderSaeId keyId = contextAad context' senderSaeId' keyId' ↔
      context = context' ∧ senderSaeId ++ keyId = senderSaeId' ++ keyId' := by
  constructor
  · intro heq
    simp only [contextAad, cons_append, append_assoc, cons.injEq] at heq
    obtain ⟨hkind, heq⟩ := heq
    obtain ⟨htopic, hids⟩ := append_inj heq (by rw [toBe_length, toBe_length])
    have htopic := congrArg fromBe htopic
    rw [fromBe_toBe (by simpa using h), fromBe_toBe (by simpa using h')] at htopic
    cases context
    cases context'
    cases htopic
    exact ⟨congrArg (WireContext.mk · _) (code_inj hkind), hids⟩
  · rintro ⟨rfl, hids⟩
    simp only [contextAad, cons_append, append_assoc, hids]

/-- With an AEAD that authenticates its associated data, a sealed payload is also
opened under every other division of the sender and the key into two identifiers.
So the identifiers are authentic among senders of one length. -/
theorem aad_binds_iff {aead : Aead} {key nonce payload body : Bytes} (h : context.topicHash < 2 ^ 64)
    (h' : context'.topicHash < 2 ^ 64)
    (hbody : aead.encrypt key nonce (contextAad context senderSaeId keyId) payload = some body)
    (hauth : ∀ aad p, aead.decrypt key nonce aad body = some p → aad = contextAad context senderSaeId keyId) :
    ((∃ p, openWithMaterial aead context' ⟨senderSaeId', keyId', nonce, body⟩ key = .ok p) ↔
        contextAad context senderSaeId keyId = contextAad context' senderSaeId' keyId') ∧
      (contextAad context senderSaeId keyId = contextAad context' senderSaeId' keyId' →
        ((context, senderSaeId, keyId) = (context', senderSaeId', keyId') ↔
          senderSaeId.length = senderSaeId'.length)) := by
  constructor
  · constructor
    · rintro ⟨p, hp⟩
      rw [openWithMaterial] at hp
      split at hp
      · cases hp
      · exact (hauth _ _ ‹_›).symm
    · intro heq
      rw [openWithMaterial, ← heq, aead.decrypt_encrypt hbody]
      exact ⟨payload, rfl⟩
  · intro heq
    obtain ⟨rfl, hids⟩ := (contextAad_eq_iff h h').mp heq
    constructor
    · rintro ⟨⟩
      rfl
    · intro hlen
      obtain ⟨rfl, rfl⟩ := append_inj hids hlen
      rfl

/-- Nothing is sealed but the empty payload, and only with these associated data. -/
def only (expected : Bytes) : Aead where
  encrypt _ _ aad payload := if aad = expected ∧ payload = [] then some (List.replicate tagLen 0) else none
  decrypt _ _ aad ciphertext :=
    if aad = expected ∧ ciphertext = List.replicate tagLen 0 then some [] else none
  decrypt_encrypt := by
    intro key nonce aad payload ciphertext h
    split_ifs at h with hp
    cases h
    simp [hp]
  tag_le := by
    intro key nonce aad payload ciphertext h
    split_ifs at h
    cases h
    simp

def chatter : WireContext := ⟨.topic, 5⟩

theorem same_length_bound : (¬ ∃ p, openWithMaterial (only (contextAad chatter [65] [67])) chatter
      ⟨[66], [67], [], List.replicate tagLen 0⟩ [] = .ok p) ∧
    ((chatter, ([65, 66] : Bytes), ([67] : Bytes)) = (chatter, [65], [66, 67]) ↔
      ([65, 66] : Bytes).length = ([65] : Bytes).length) := by
  have h := fun sender sender' keyId' => @aad_binds_iff chatter chatter sender [67] sender' keyId'
    (only (contextAad chatter sender [67])) [] [] [] (List.replicate tagLen 0) (by decide) (by decide)
    (by simp [only]) fun aad p hp => by
      simp only [only] at hp
      split_ifs at hp with ha
      exact ha.1
  refine ⟨?_, (h [65, 66] [65] [66, 67]).2 (by decide)⟩
  rw [(h [65] [66] [67]).1]
  decide

/-- A message of AB under the key C is accepted as one of A under the key BC. -/
theorem sender_shifted :
    ∃ body, (only (contextAad chatter [65, 66] [67])).encrypt [] [] (contextAad chatter [65, 66] [67]) [] =
        some body ∧
      openWithMaterial (only (contextAad chatter [65, 66] [67])) chatter ⟨[65], [66, 67], [], body⟩ [] =
        .ok [] :=
  ⟨_, rfl, by decide⟩

end RmwAxon.AssociatedData
