import RmwAxon.AssociatedData

namespace RmwAxon.WireHeader

open AssociatedData Endian QkdEnvelope List
open NodeTable (Text)
open SyncWire (Bytes validUtf8)

/-- A slice that is not inside the message stops the program. -/
def slice (wire : Bytes) (i j : Nat) : Option Bytes :=
  if i ≤ j ∧ j ≤ wire.length then some (between wire i j) else none

/-- What open_wire does before it looks for a key, and the slice it decrypts. -/
def parseWire (context : WireContext) (wire : Bytes) : Option (Except String Envelope) :=
  if wire.length < qkdWireHeaderLen + tagLen then some (.error "QKD message envelope is truncated")
  else do
    let magic ← slice wire 0 8
    if magic ≠ qkdWireMagic then some (.error "QKD message is missing its QKD envelope")
    else
      let kind ← wire[8]?
      let topic ← slice wire 12 20
      if kind ≠ context.kind.code ∨ fromBe topic ≠ context.topicHash then
        some (.error "QKD message context mismatch")
      else
        let nonce ← slice wire 20 32
        let sender ← slice wire 32 34
        let key ← slice wire 34 36
        let fieldsEnd := qkdWireHeaderLen + fromBe sender + fromBe key
        if fromBe sender = 0 ∨ qkdMaxWireField < fromBe sender ∨ fromBe key = 0 ∨
            qkdMaxWireField < fromBe key ∨ wire.length < fieldsEnd then
          some (.error "invalid QKD message envelope lengths")
        else
          let senderSaeId ← slice wire qkdWireHeaderLen (qkdWireHeaderLen + fromBe sender)
          let keyId ← slice wire (qkdWireHeaderLen + fromBe sender) fieldsEnd
          if validUtf8 senderSaeId = false then some (.error "QKD sender SAE ID is not UTF-8")
          else if validUtf8 keyId = false then some (.error "QKD message key ID is not UTF-8")
          else
            let ciphertext ← slice wire fieldsEnd wire.length
            some (.ok ⟨senderSaeId, keyId, nonce, ciphertext⟩)

variable {context context' : WireContext} {wire nonce header : Bytes} {senderSaeId keyId : Text}

theorem slice_eq {i j : Nat} (hij : i ≤ j) (hj : j ≤ wire.length) :
    slice wire i j = some (between wire i j) :=
  if_pos ⟨hij, hj⟩

theorem parseWire_eq (context : WireContext) (wire : Bytes) :
    parseWire context wire = some (readEnvelope context wire) := by
  by_cases hlen : wire.length < qkdWireHeaderLen + tagLen
  · rw [parseWire, readEnvelope, if_pos hlen, if_pos hlen]
  have h52 : 52 ≤ wire.length := Nat.not_lt.mp hlen
  have hkind : wire[8]? = some (wire[8]) := getElem?_eq_getElem (by omega)
  have hmagic : between wire 0 8 = wire.take 8 := drop_zero
  rw [parseWire, readEnvelope, if_neg hlen, if_neg hlen]
  simp only [slice_eq (Nat.zero_le 8) (by omega : 8 ≤ wire.length), hkind, hmagic,
    slice_eq (by decide : 12 ≤ 20) (by omega : 20 ≤ wire.length),
    slice_eq (by decide : 20 ≤ 32) (by omega : 32 ≤ wire.length),
    slice_eq (by decide : 32 ≤ 34) (by omega : 34 ≤ wire.length),
    slice_eq (by decide : 34 ≤ 36) (by omega : 36 ≤ wire.length),
    Option.bind_eq_bind, Option.bind_some, Option.some.injEq, ne_eq]
  generalize fromBe (between wire 32 34) = s
  generalize fromBe (between wire 34 36) = k
  by_cases hf : wire.length < qkdWireHeaderLen + s + k
  · simp only [hf, or_true, if_true]
    split_ifs <;> rfl
  have hend := Nat.not_lt.mp hf
  have hrest : between wire (qkdWireHeaderLen + s + k) wire.length =
      wire.drop (qkdWireHeaderLen + s + k) := by
    rw [between, take_length]
  simp only [slice_eq (Nat.le_add_right ..) ((Nat.le_add_right ..).trans hend),
    slice_eq (Nat.le_add_right ..) hend, slice_eq hend (Nat.le_refl _), Option.bind_some, hrest]
  split_ifs <;> rfl

theorem between_append_drop {i j : Nat} (h : i ≤ j) : between wire i j ++ wire.drop j = wire.drop i := by
  have hdrop : wire.drop j = (wire.drop i).drop (j - i) := by rw [drop_drop, Nat.add_sub_cancel' h]
  rw [between, drop_take, hdrop, take_append_drop]

theorem between_length {i j : Nat} (hj : j ≤ wire.length) : (between wire i j).length = j - i := by
  rw [between, length_drop, length_take, Nat.min_eq_left hj]

theorem toBe_between {i j : Nat} (hj : j ≤ wire.length) :
    toBe (j - i) (fromBe (between wire i j)) = between wire i j := by
  rw [← between_length hj, toBe_fromBe]

/-- The message consists of the fields of the envelope, each at its place. -/
def Stands (context : WireContext) (wire : Bytes) (e : Envelope) : Prop :=
  wire.take 8 = qkdWireMagic ∧ wire[8]? = some context.kind.code ∧
    fromBe (between wire 12 20) = context.topicHash ∧
    wire.drop 20 = e.nonce ++ (toBe 2 e.senderSaeId.length ++ (toBe 2 e.keyId.length ++
      (e.senderSaeId ++ (e.keyId ++ e.ciphertext))))

theorem readEnvelope_ok {e : Envelope} (h : readEnvelope context wire = .ok e) : Stands context wire e := by
  rw [readEnvelope] at h
  split_ifs at h with hlen hmagic hcontext
  dsimp only at h
  split_ifs at h with hf
  cases h
  obtain ⟨hkind, htopic⟩ := not_or.mp hcontext
  have h52 : 52 ≤ wire.length := Nat.not_lt.mp hlen
  have hend := Nat.not_lt.mp fun h => hf (.inr (.inr (.inr (.inr h))))
  refine ⟨not_not.mp hmagic, not_not.mp hkind, not_not.mp htopic, ?_⟩
  have hsender := @between_append_drop wire _ _ (Nat.le_add_right qkdWireHeaderLen
    (fromBe (between wire 32 34)))
  have h34 : between wire 34 36 ++ wire.drop qkdWireHeaderLen = wire.drop 34 :=
    between_append_drop (by decide)
  rw [between_length hend, between_length ((Nat.le_add_right ..).trans hend), Nat.add_sub_cancel_left,
    Nat.add_sub_cancel_left, between_append_drop (Nat.le_add_right ..), hsender,
    toBe_between (i := 32) (by omega : 34 ≤ _), toBe_between (i := 34) (by omega : 36 ≤ _),
    h34, between_append_drop (by decide), between_append_drop (by decide)]

/-- The header is read in its own context only. -/
theorem readEnvelope_other (h : encodeHeader context nonce senderSaeId keyId = .ok header)
    (htopic : context.topicHash < 2 ^ 64) (hne : context' ≠ context) (body : Bytes) :
    ∃ error, readEnvelope context' (header ++ body) = .error error := by
  cases hread : readEnvelope context' (header ++ body) with
  | error error => exact ⟨error, rfl⟩
  | ok e =>
    obtain ⟨-, hkind, htopic', -⟩ := readEnvelope_ok hread
    rw [encodeHeader_append h, front_kind] at hkind
    rw [encodeHeader_append h, front_topic, fromBe_toBe (by simpa using htopic)] at htopic'
    refine absurd ?_ hne
    cases context'
    cases context
    cases htopic'
    exact congrArg (WireContext.mk · _) (code_inj (Option.some.inj hkind)).symm

/-- The parser inverts the encoder, refuses the message in every other context,
and whatever it is given, it reads inside of the message and reports what
stands there. -/
theorem header_parsed_exactly (context : WireContext) :
    (∀ nonce senderSaeId keyId body, context.topicHash < 2 ^ 64 → nonce.length = qkdNonceBytes →
      senderSaeId ≠ [] → senderSaeId.length ≤ qkdMaxWireField → validUtf8 senderSaeId = true →
      keyId ≠ [] → keyId.length ≤ qkdMaxWireField → validUtf8 keyId = true → tagLen ≤ body.length →
      ∃ header, encodeHeader context nonce senderSaeId keyId = .ok header ∧
        parseWire context (header ++ body) = some (.ok ⟨senderSaeId, keyId, nonce, body⟩) ∧
        ∀ context', context' ≠ context → ∃ error, parseWire context' (header ++ body) = some (.error error)) ∧
    ∀ wire, ∃ r, parseWire context wire = some r ∧ ∀ e, r = .ok e → Stands context wire e := by
  constructor
  · intro nonce senderSaeId keyId body htopic hnonce hs0 hs hsutf hk0 hk hkutf hbody
    cases hheader : encodeHeader context nonce senderSaeId keyId with
    | error error => simp [encodeHeader, hs0, hk0, Nat.not_lt.mpr hs, Nat.not_lt.mpr hk] at hheader
    | ok header =>
      refine ⟨header, rfl, ?_, fun context' hne => ?_⟩
      · rw [parseWire_eq, readEnvelope_encodeHeader hheader hnonce body htopic hsutf hkutf hbody]
      · obtain ⟨error, he⟩ := readEnvelope_other hheader htopic hne body
        exact ⟨error, by rw [parseWire_eq, he]⟩
  · exact fun wire => ⟨_, parseWire_eq context wire, fun e he => readEnvelope_ok he⟩

theorem short_header_parsed : ∃ header, encodeHeader ⟨.topic, 7⟩ (List.replicate qkdNonceBytes 1) [65] [107] =
      .ok header ∧ parseWire ⟨.topic, 7⟩ (header ++ List.replicate tagLen 9) =
        some (.ok ⟨[65], [107], List.replicate qkdNonceBytes 1, List.replicate tagLen 9⟩) := by
  obtain ⟨header, he, hp, -⟩ := (header_parsed_exactly ⟨.topic, 7⟩).1
    (List.replicate qkdNonceBytes 1) [65] [107] (List.replicate tagLen 9) (by decide) (by decide)
    (by decide) (by decide) (by decide +kernel) (by decide) (by decide) (by decide +kernel) (by decide)
  exact ⟨header, he, hp⟩

end RmwAxon.WireHeader
