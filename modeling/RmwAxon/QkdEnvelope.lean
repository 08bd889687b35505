import RmwAxon.SyncWire

namespace RmwAxon.QkdEnvelope

open Endian List
open NodeTable (Text)
open SyncWire (Bytes validUtf8)

def qkdWireMagic : Bytes := [65, 88, 81, 75, 68, 48, 48, 49]
def qkdWireHeaderLen : Nat := 36
def qkdNonceBytes : Nat := 12
def qkdMaxWireField : Nat := 192
def tagLen : Nat := 16

inductive WireKind
  | topic
  | serviceRequest
  | serviceResponse
  | control
  deriving DecidableEq, Repr

def WireKind.code : WireKind → UInt8
  | topic => 1
  | serviceRequest => 2
  | serviceResponse => 3
  | control => 4

structure WireContext where
  kind : WireKind
  topicHash : Nat
  deriving DecidableEq, Repr

/-- Authenticated encryption: what was sealed is opened with the same key, nonce
and context. The tag comes after the ciphertext. -/
structure Aead where
  encrypt (key nonce aad payload : Bytes) : Option Bytes
  decrypt (key nonce aad ciphertext : Bytes) : Option Bytes
  decrypt_encrypt {key nonce aad payload ciphertext : Bytes} :
    encrypt key nonce aad payload = some ciphertext → decrypt key nonce aad ciphertext = some payload
  tag_le {key nonce aad payload ciphertext : Bytes} :
    encrypt key nonce aad payload = some ciphertext → tagLen ≤ ciphertext.length

def contextAad (context : WireContext) (senderSaeId keyId : Text) : Bytes :=
  context.kind.code :: toBe 8 context.topicHash ++ senderSaeId ++ keyId

def encodeHeader (context : WireContext) (nonce : Bytes) (senderSaeId keyId : Text) : Except String Bytes :=
  if senderSaeId = [] ∨ qkdMaxWireField < senderSaeId.length then .error "QKD sender SAE ID is too long"
  else if keyId = [] ∨ qkdMaxWireField < keyId.length then .error "QKD message key ID is too long"
  else .ok (qkdWireMagic ++ [context.kind.code] ++ [0, 0, 0] ++ toBe 8 context.topicHash ++ nonce ++
    toBe 2 senderSaeId.length ++ toBe 2 keyId.length ++ senderSaeId ++ keyId)

/-- No nonce is given where the random generator fails. -/
def sealWithMaterial (aead : Aead) (localSaeId : Text) (context : WireContext) (key : Bytes) (keyId : Text)
    (nonce : Option Bytes) (payload : Bytes) : Except String Bytes :=
  match nonce with
  | none => .error "QKD message nonce generation failed"
  | some nonce =>
    match encodeHeader context nonce localSaeId keyId with
    | .error error => .error error
    | .ok wire =>
      match aead.encrypt key nonce (contextAad context localSaeId keyId) payload with
      | none => .error "QKD message encryption failed"
      | some ciphertext => .ok (wire ++ ciphertext)

structure Envelope where
  senderSaeId : Text
  keyId : Text
  nonce : Bytes
  ciphertext : Bytes
  deriving DecidableEq, Repr

def between (wire : Bytes) (i j : Nat) : Bytes := (wire.take j).drop i

def readEnvelope (context : WireContext) (wire : Bytes) : Except String Envelope :=
  if wire.length < qkdWireHeaderLen + tagLen then .error "QKD message envelope is truncated"
  else if wire.take 8 ≠ qkdWireMagic then .error "QKD message is missing its QKD envelope"
  else if wire[8]? ≠ some context.kind.code ∨ fromBe (between wire 12 20) ≠ context.topicHash then
    .error "QKD message context mismatch"
  else
    let senderLen := fromBe (between wire 32 34)
    let keyLen := fromBe (between wire 34 36)
    let fieldsEnd := qkdWireHeaderLen + senderLen + keyLen
    if senderLen = 0 ∨ qkdMaxWireField < senderLen ∨ keyLen = 0 ∨ qkdMaxWireField < keyLen ∨
        wire.length < fieldsEnd then
      .error "invalid QKD message envelope lengths"
    else
      let senderSaeId := between wire qkdWireHeaderLen (qkdWireHeaderLen + senderLen)
      let keyId := between wire (qkdWireHeaderLen + senderLen) fieldsEnd
      if validUtf8 senderSaeId = false then .error "QKD sender SAE ID is not UTF-8"
      else if validUtf8 keyId = false then .error "QKD message key ID is not UTF-8"
      else .ok ⟨senderSaeId, keyId, between wire 20 32, wire.drop fieldsEnd⟩

def openWithMaterial (aead : Aead) (context : WireContext) (envelope : Envelope) (key : Bytes) :
    Except String Bytes :=
  match aead.decrypt key envelope.nonce (contextAad context envelope.senderSaeId envelope.keyId)
      envelope.ciphertext with
  | none => .error "QKD message authentication failed"
  | some plaintext => .ok plaintext

section RoundTrip

variable {aead : Aead} {context : WireContext} {nonce key payload body header wire : Bytes}
  {senderSaeId keyId : Text}

theorem encodeHeader_ok (h : encodeHeader context nonce senderSaeId keyId = .ok header) :
    header = qkdWireMagic ++ ([context.kind.code] ++ ([0, 0, 0] ++ (toBe 8 context.topicHash ++ (nonce ++
      (toBe 2 senderSaeId.length ++ (toBe 2 keyId.length ++ (senderSaeId ++ keyId))))))) ∧
    senderSaeId ≠ [] ∧ senderSaeId.length ≤ qkdMaxWireField ∧ keyId ≠ [] ∧
      keyId.length ≤ qkdMaxWireField := by
  rw [encodeHeader] at h
  split_ifs at h with hs hk
  obtain ⟨hs, hs'⟩ := not_or.mp hs
  obtain ⟨hk, hk'⟩ := not_or.mp hk
  cases h
  exact ⟨by simp, hs, by omega, hk, by omega⟩

theorem between_skip {a rest : Bytes} {w i j : Nat} (hw : a.length = w) (hi : w ≤ i) :
    between (a ++ rest) i j = between rest (i - w) (j - w) := by
  rw [between, between, take_append, drop_append, hw,
    drop_eq_nil_of_le (by simp; omega), nil_append, length_take, hw]
  by_cases hj : w ≤ j
  · rw [Nat.min_eq_right hj]
  · rw [Nat.sub_eq_zero_of_le (by omega : j ≤ w)]
    simp

theorem between_head {a rest : Bytes} {w : Nat} (hw : a.length = w) : between (a ++ rest) 0 w = a := by
  rw [between, take_append_of_le_length (by omega), take_of_length_le (by omega), drop_zero]

def front (context : WireContext) (nonce : Bytes) (senderSaeId keyId : Text) : Bytes :=
  qkdWireMagic ++ ([context.kind.code] ++ ([0, 0, 0] ++ (toBe 8 context.topicHash ++ (nonce ++
    (toBe 2 senderSaeId.length ++ toBe 2 keyId.length)))))

theorem front_length (hnonce : nonce.length = qkdNonceBytes) :
    (front context nonce senderSaeId keyId).length = qkdWireHeaderLen := by
  simp [front, toBe_length, hnonce, qkdWireMagic, qkdNonceBytes, qkdWireHeaderLen]

section Front

variable (hnonce : nonce.length = qkdNonceBytes) (rest : Bytes)

theorem front_kind : (front context nonce senderSaeId keyId ++ rest)[8]? = some context.kind.code := rfl

theorem front_after {i j : Nat} (hi : 12 ≤ i) : between (front context nonce senderSaeId keyId ++ rest) i j =
      between (toBe 8 context.topicHash ++ (nonce ++ (toBe 2 senderSaeId.length ++
        (toBe 2 keyId.length ++ rest)))) (i - 12) (j - 12) := by
  have hfront : front context nonce senderSaeId keyId ++ rest =
      (qkdWireMagic ++ [context.kind.code] ++ [0, 0, 0]) ++ (toBe 8 context.topicHash ++ (nonce ++
        (toBe 2 senderSaeId.length ++ (toBe 2 keyId.length ++ rest)))) := by
    simp [front]
  rw [hfront]
  exact between_skip rfl hi

theorem front_topic :
    between (front context nonce senderSaeId keyId ++ rest) 12 20 = toBe 8 context.topicHash := by
  rw [front_after rest (by decide)]
  exact between_head (toBe_length 8 _)

include hnonce

theorem front_nonce : between (front context nonce senderSaeId keyId ++ rest) 20 32 = nonce := by
  rw [front_after rest (by decide), between_skip (toBe_length 8 _) (by decide)]
  exact between_head hnonce

theorem front_lengths :
    between (front context nonce senderSaeId keyId ++ rest) 32 34 = toBe 2 senderSaeId.length ∧
      between (front context nonce senderSaeId keyId ++ rest) 34 36 = toBe 2 keyId.length := by
  constructor
  · rw [front_after rest (by decide), between_skip (toBe_length 8 _) (by decide),
      between_skip hnonce (by decide)]
    exact between_head (toBe_length 2 _)
  · rw [front_after rest (by decide), between_skip (toBe_length 8 _) (by decide),
      between_skip hnonce (by decide), between_skip (toBe_length 2 _) (by decide)]
    exact between_head (toBe_length 2 _)

end Front

theorem encodeHeader_append (h : encodeHeader context nonce senderSaeId keyId = .ok header) (body : Bytes) :
    header ++ body = front context nonce senderSaeId keyId ++ (senderSaeId ++ (keyId ++ body)) := by
  rw [(encodeHeader_ok h).1, front]
  simp

section Header

variable (h : encodeHeader context nonce senderSaeId keyId = .ok header)
  (hnonce : nonce.length = qkdNonceBytes) (body : Bytes)

include h hnonce

theorem header_lengths : fromBe (between (header ++ body) 32 34) = senderSaeId.length ∧
      fromBe (between (header ++ body) 34 36) = keyId.length := by
  obtain ⟨-, -, hs, -, hk⟩ := encodeHeader_ok h
  rw [encodeHeader_append h, (front_lengths hnonce _).1, (front_lengths hnonce _).2]
  exact ⟨fromBe_toBe (Nat.lt_of_le_of_lt hs (by decide)), fromBe_toBe (Nat.lt_of_le_of_lt hk (by decide))⟩

theorem header_sender :
    between (header ++ body) qkdWireHeaderLen (qkdWireHeaderLen + senderSaeId.length) = senderSaeId := by
  rw [encodeHeader_append h, between_skip (front_length hnonce) (Nat.le_refl _), Nat.sub_self,
    Nat.add_sub_cancel_left]
  exact between_head rfl

theorem header_keyId : between (header ++ body) (qkdWireHeaderLen + senderSaeId.length)
      (qkdWireHeaderLen + senderSaeId.length + keyId.length) = keyId := by
  rw [encodeHeader_append h, between_skip (front_length hnonce) (Nat.le_add_right _ _),
    Nat.add_sub_cancel_left, Nat.add_assoc, Nat.add_sub_cancel_left, between_skip rfl (Nat.le_refl _),
    Nat.sub_self, Nat.add_sub_cancel_left]
  exact between_head rfl

theorem header_length :
    (header ++ body).length = qkdWireHeaderLen + senderSaeId.length + keyId.length + body.length := by
  rw [encodeHeader_append h, length_append, length_append, length_append, front_length hnonce]
  omega

theorem header_rest :
    (header ++ body).drop (qkdWireHeaderLen + senderSaeId.length + keyId.length) = body := by
  rw [encodeHeader_append h, ← append_assoc, ← append_assoc]
  exact drop_left' (by rw [length_append, length_append, front_length hnonce])

theorem readEnvelope_encodeHeader (htopic : context.topicHash < 2 ^ 64) (hs : validUtf8 senderSaeId = true)
    (hk : validUtf8 keyId = true) (hbody : tagLen ≤ body.length) :
    readEnvelope context (header ++ body) = .ok ⟨senderSaeId, keyId, nonce, body⟩ := by
  obtain ⟨-, hs0, hs', hk0, hk'⟩ := encodeHeader_ok h
  have hs1 : senderSaeId.length ≠ 0 := by simpa using hs0
  have hk1 : keyId.length ≠ 0 := by simpa using hk0
  have hlen := header_length h hnonce body
  have hwire := encodeHeader_append h body
  have hcontext : ¬ ((header ++ body)[8]? ≠ some context.kind.code ∨
      fromBe (between (header ++ body) 12 20) ≠ context.topicHash) := by
    rw [hwire, front_kind, front_topic, fromBe_toBe (by simpa using htopic)]
    simp
  rw [readEnvelope, if_neg (by omega), if_neg (by rw [hwire]; exact not_not_intro rfl), if_neg hcontext]
  simp only [(header_lengths h hnonce body).1, (header_lengths h hnonce body).2, header_sender h hnonce body,
    header_keyId h hnonce body, header_rest h hnonce body, hs, hk]
  rw [if_neg (by omega), hwire, front_nonce hnonce]
  rfl

end Header

theorem encodeHeader_unique {context' : WireContext} {nonce' header' body' : Bytes}
    {senderSaeId' keyId' : Text} (h : encodeHeader context nonce senderSaeId keyId = .ok header)
    (hnonce : nonce.length = qkdNonceBytes)
    (h' : encodeHeader context' nonce' senderSaeId' keyId' = .ok header')
    (hnonce' : nonce'.length = qkdNonceBytes) (hwire : header ++ body = header' ++ body') :
    keyId = keyId' ∧ body = body' := by
  obtain ⟨hs, hk⟩ := header_lengths h hnonce body
  obtain ⟨hs', hk'⟩ := header_lengths h' hnonce' body'
  rw [hwire, hs'] at hs
  rw [hwire, hk'] at hk
  constructor
  · rw [← header_keyId h hnonce body, hwire, ← hs, ← hk, header_keyId h' hnonce' body']
  · rw [← header_rest h hnonce body, hwire, ← hs, ← hk, header_rest h' hnonce' body']

variable (h : sealWithMaterial aead senderSaeId context key keyId (some nonce) payload = .ok wire)
include h

theorem sealWithMaterial_ok : ∃ header body, encodeHeader context nonce senderSaeId keyId = .ok header ∧
      aead.encrypt key nonce (contextAad context senderSaeId keyId) payload = some body ∧
      wire = header ++ body := by
  rw [sealWithMaterial] at h
  cases hheader : encodeHeader context nonce senderSaeId keyId with
  | error _ =>
    rw [hheader] at h
    cases h
  | ok header =>
    cases hbody : aead.encrypt key nonce (contextAad context senderSaeId keyId) payload with
    | none =>
      rw [hheader, hbody] at h
      cases h
    | some body =>
      rw [hheader, hbody] at h
      cases h
      exact ⟨header, body, rfl, rfl, rfl⟩

theorem open_sealWithMaterial (htopic : context.topicHash < 2 ^ 64) (hnonce : nonce.length = qkdNonceBytes)
    (hs : validUtf8 senderSaeId = true) (hk : validUtf8 keyId = true) :
    ∃ envelope, readEnvelope context wire = .ok envelope ∧ envelope.keyId = keyId ∧
      envelope.senderSaeId = senderSaeId ∧ envelope.nonce = nonce ∧
      openWithMaterial aead context envelope key = .ok payload := by
  obtain ⟨header, body, hheader, hbody, rfl⟩ := sealWithMaterial_ok h
  have hread := readEnvelope_encodeHeader hheader hnonce body htopic hs hk (aead.tag_le hbody)
  refine ⟨_, hread, rfl, rfl, rfl, ?_⟩
  rw [openWithMaterial, aead.decrypt_encrypt hbody]

end RoundTrip

def tagged : Aead where
  encrypt key _ _ payload := some (payload ++ List.replicate tagLen (key.headD 0))
  decrypt key _ _ ciphertext :=
    if ciphertext.drop (ciphertext.length - tagLen) = List.replicate tagLen (key.headD 0) then
      some (ciphertext.take (ciphertext.length - tagLen))
    else none
  decrypt_encrypt := by
    intro key nonce aad payload ciphertext h
    cases h
    simp
  tag_le := by
    intro key nonce aad payload ciphertext h
    cases h
    simp

end RmwAxon.QkdEnvelope
