import RmwAxon.MessageKeys
import RmwAxon.QkdEnvelope

namespace RmwAxon.KeyStore

open Endian MessageKeys QkdEnvelope Function List
open NodeTable (Text)
open SyncWire (Bytes validUtf8)

variable {n : Nat}

def maxQkdSessions : Nat := 32

instance : NeZero maxQkdSessions := ⟨by decide⟩

inductive EntryState
  | empty
  | pending
  | active
  deriving DecidableEq, Repr

structure QkdEntry where
  state : EntryState
  remoteDaemonId : Nat
  keyId : Text
  remoteSaeId : Text
  key : Bytes
  deriving DecidableEq, Repr

abbrev Store (n : Nat) := Fin n → QkdEntry

def clearEntry : QkdEntry := ⟨.empty, 0, [], [], List.replicate qkdKeyBytes 0⟩

def emptyStore (n : Nat) : Store n := fun _ => clearEntry

structure QkdSessionKey where
  remoteDaemonId : Nat
  remoteSaeId : Text
  keyId : Text
  key : Bytes
  active : Bool
  deriving DecidableEq, Repr

def position (store : Store n) (p : QkdEntry → Bool) : Option (Fin n) :=
  (List.finRange n).find? fun i => p (store i)

/-- The slot of the daemon, or else an empty one, or else the first. -/
def put [NeZero n] (store : Store n) (remoteDaemonId : Nat) (remoteSaeId : Text) (material : QkdKeyMaterial)
    (active : Bool) : Except String (Store n) := do
  validateIdentifier "remote SAE ID" remoteSaeId maxSaeIdLen
  validateIdentifier "QKD key_ID" material.keyId maxKeyIdLen
  let index := ((position store fun e => decide (e.state ≠ .empty ∧ e.remoteDaemonId = remoteDaemonId)).or
    (position store fun e => decide (e.state = .empty))).getD 0
  pure (update store index
    ⟨if active then .active else .pending, remoteDaemonId, material.keyId, remoteSaeId, material.key⟩)

def activate (store : Store n) (remoteDaemonId : Nat) (keyId : Text) : Bool × Store n :=
  match position store fun e => decide ((e.state = .pending ∨ e.state = .active) ∧
      e.remoteDaemonId = remoteDaemonId ∧ atomicString e.keyId = some keyId) with
  | none => (false, store)
  | some i =>
    if (store i).state = .active then (true, store)
    else (true, update store i { store i with state := .active })

def remove (store : Store n) (remoteDaemonId : Nat) : Store n := fun i =>
  if (store i).state ≠ .empty ∧ (store i).remoteDaemonId = remoteDaemonId then clearEntry else store i

def copyEntry (e : QkdEntry) : Option QkdSessionKey := do
  let remoteSaeId ← atomicString e.remoteSaeId
  let keyId ← atomicString e.keyId
  pure ⟨e.remoteDaemonId, remoteSaeId, keyId, e.key, decide (e.state = .active)⟩

def findForDaemon (store : Store n) (remoteDaemonId : Nat) (requireActive : Bool) : Option QkdSessionKey :=
  (List.finRange n).findSome? fun i =>
    let e := store i
    if e.state = .empty ∨ requireActive = true ∧ e.state ≠ .active ∨
      e.remoteDaemonId ≠ remoteDaemonId then none
    else copyEntry e

def findByKeyIdForTls (store : Store n) (keyId : Text) : Option QkdSessionKey :=
  (List.finRange n).findSome? fun i =>
    let e := store i
    if e.state ≠ .active ∧ e.state ≠ .pending then none
    else if atomicString e.keyId = some keyId then copyEntry e
    else none

def getEncryptionKey (keyOf : Text → Bytes) (peerSaeId : Text) (answer : Except String Text) :
    Except String QkdKeyMaterial := do
  validateIdentifier "peer SAE ID" peerSaeId maxSaeIdLen
  let keyId ← answer
  validateIdentifier "QKD key_ID" keyId maxKeyIdLen
  pure ⟨keyId, keyOf keyId⟩

def getDecryptionKey (keyOf : Text → Bytes) (peerSaeId keyId : Text) (answer : Except String Unit) :
    Except String QkdKeyMaterial := do
  validateIdentifier "QKD key_ID" keyId maxKeyIdLen
  validateIdentifier "peer SAE ID" peerSaeId maxSaeIdLen
  answer
  pure ⟨keyId, keyOf keyId⟩

section Manager

variable [NeZero n]

def prepareOutbound (store : Store n) (remoteDaemonId : Nat) (remoteSaeId : Text)
    (fetched : Except String QkdKeyMaterial) : Except String QkdSessionKey × Store n :=
  match (findForDaemon store remoteDaemonId false).filter fun s => decide (s.remoteSaeId = remoteSaeId) with
  | some existing => (.ok existing, store)
  | none =>
    match fetched.bind fun material => put store remoteDaemonId remoteSaeId material false with
    | .error error => (.error error, store)
    | .ok store =>
      match findForDaemon store remoteDaemonId false with
      | none => (.error "QKD key disappeared after storing it", store)
      | some session => (.ok session, store)

def activateOutboundByKeyId (store : Store n) (keyId : Text) : Option Nat × Store n :=
  match findByKeyIdForTls store keyId with
  | none => (none, store)
  | some session =>
    if session.active then (some session.remoteDaemonId, store)
    else
      let (activated, store) := activate store session.remoteDaemonId keyId
      (if activated then some session.remoteDaemonId else none, store)

def hasActiveSession (store : Store n) (remoteDaemonId : Nat) : Bool :=
  (findForDaemon store remoteDaemonId true).isSome

def importInbound (store : Store n) (remoteDaemonId : Nat) (remoteSaeId : Text)
    (fetched : Except String QkdKeyMaterial) : Except String Unit × Store n :=
  match fetched.bind fun material => put store remoteDaemonId remoteSaeId material true with
  | .error error => (.error error, store)
  | .ok store => (.ok (), store)

def acceptInbound (store : Store n) (remoteDaemonId : Nat) (remoteSaeId keyId : Text)
    (fetched : Except String QkdKeyMaterial) : Except String Unit × Store n :=
  match (findForDaemon store remoteDaemonId false).filter fun s =>
      decide (s.remoteSaeId = remoteSaeId ∧ s.keyId = keyId) with
  | none => importInbound store remoteDaemonId remoteSaeId fetched
  | some existing =>
    if existing.active then (.ok (), store)
    else if (activate store remoteDaemonId keyId).1 then (.ok (), (activate store remoteDaemonId keyId).2)
    else importInbound store remoteDaemonId remoteSaeId fetched

end Manager

def msgQkdKeyAnnounce : UInt8 := 0x51
def msgQkdKeyAck : UInt8 := 0x52
def msgQkdKeyError : UInt8 := 0x53

structure QkdKeyAnnouncement where
  daemonId : Nat
  saeId : Text
  keyId : Text
  deriving DecidableEq, Repr

def encodeKeyAnnouncement (a : QkdKeyAnnouncement) : Except String Bytes := do
  validateIdentifier "QKD SAE ID" a.saeId maxSaeIdLen
  validateIdentifier "QKD key_ID" a.keyId maxKeyIdLen
  pure (msgQkdKeyAnnounce :: toBe 8 a.daemonId ++ toBe 2 a.saeId.length ++ toBe 2 a.keyId.length ++ a.saeId ++
    a.keyId)

def decodeKeyAnnouncement (data : Bytes) : Except String QkdKeyAnnouncement :=
  if data.length < 13 ∨ data.head? ≠ some msgQkdKeyAnnounce then .error "invalid QKD key announcement"
  else
    let saeLen := fromBe (between data 9 11)
    let keyLen := fromBe (between data 11 13)
    if saeLen = 0 ∨ maxSaeIdLen ≤ saeLen ∨ keyLen = 0 ∨ maxKeyIdLen ≤ keyLen ∨
        data.length ≠ 13 + saeLen + keyLen then .error "invalid QKD key announcement lengths"
    else if validUtf8 (between data 13 (13 + saeLen)) = false then .error "QKD SAE ID is not UTF-8"
    else if validUtf8 (data.drop (13 + saeLen)) = false then .error "QKD key_ID is not UTF-8"
    else .ok ⟨fromBe (between data 1 9), between data 13 (13 + saeLen), data.drop (13 + saeLen)⟩

def encodeKeyAck (keyId : Text) : Except String Bytes := do
  validateIdentifier "QKD key_ID" keyId maxKeyIdLen
  pure (msgQkdKeyAck :: toBe 2 keyId.length ++ keyId)

/-- The reason why an acknowledgement is not read is only printed. -/
def decodeKeyAck (data : Bytes) : Option Text :=
  if data.length < 3 ∨ data.head? ≠ some msgQkdKeyAck then none
  else
    let len := fromBe (between data 1 3)
    if len = 0 ∨ maxKeyIdLen ≤ len ∨ data.length ≠ 3 + len then none
    else if validUtf8 (data.drop 3) = false then none
    else some (data.drop 3)

def encodeKeyError (message : String) : Bytes :=
  let bytes := message.toUTF8.toList
  msgQkdKeyError :: toBe 2 (min bytes.length 1024) ++ bytes.take 1024

section Codec

variable {a : QkdKeyAnnouncement} {keyId : Text} {data : Bytes}

theorem encodeKeyAck_iff : encodeKeyAck keyId = .ok data ↔
    validateIdentifier "QKD key_ID" keyId maxKeyIdLen = .ok () ∧
      data = [msgQkdKeyAck] ++ (toBe 2 keyId.length ++ keyId) := by
  rw [encodeKeyAck]
  cases validateIdentifier "QKD key_ID" keyId maxKeyIdLen with
  | error _ => simp [bind, Except.bind]
  | ok _ => simp [bind, Except.bind, pure, Except.pure, eq_comm]

theorem decodeKeyAck_encode (hu : validUtf8 keyId = true) (h : encodeKeyAck keyId = .ok data) :
    decodeKeyAck data = some keyId := by
  obtain ⟨hvalid, rfl⟩ := encodeKeyAck_iff.mp h
  obtain ⟨hne, hlen⟩ := validateIdentifier_ok hvalid
  have hpos : keyId.length ≠ 0 := by simpa using hne
  have hdrop : ([msgQkdKeyAck] ++ (toBe 2 keyId.length ++ keyId)).drop 3 = keyId := by
    rw [← append_assoc]
    exact drop_left' (by simp [toBe_length])
  have hread : fromBe (between ([msgQkdKeyAck] ++ (toBe 2 keyId.length ++ keyId)) 1 3) = keyId.length := by
    rw [between_skip (w := 1) rfl (Nat.le_refl 1), between_head (toBe_length 2 _)]
    exact fromBe_toBe (Nat.lt_trans hlen (by decide))
  have hsize : ([msgQkdKeyAck] ++ (toBe 2 keyId.length ++ keyId)).length = 3 + keyId.length := by
    simp [toBe_length]
    omega
  rw [decodeKeyAck, if_neg (by rw [hsize]; simp)]
  simp only [hread, hsize, hdrop, hu]
  rw [if_neg (by omega)]
  rfl

theorem encodeKeyAnnouncement_iff : encodeKeyAnnouncement a = .ok data ↔
    (validateIdentifier "QKD SAE ID" a.saeId maxSaeIdLen = .ok () ∧
      validateIdentifier "QKD key_ID" a.keyId maxKeyIdLen = .ok ()) ∧
      data = [msgQkdKeyAnnounce] ++ (toBe 8 a.daemonId ++ (toBe 2 a.saeId.length ++ (toBe 2 a.keyId.length ++
        (a.saeId ++ a.keyId)))) := by
  rw [encodeKeyAnnouncement]
  cases validateIdentifier "QKD SAE ID" a.saeId maxSaeIdLen with
  | error _ => simp [bind, Except.bind]
  | ok _ =>
    cases validateIdentifier "QKD key_ID" a.keyId maxKeyIdLen with
    | error _ => simp [bind, Except.bind]
    | ok _ => simp [bind, Except.bind, pure, Except.pure, eq_comm]

theorem decodeKeyAnnouncement_encode (hid : a.daemonId < 2 ^ 64) (hs : validUtf8 a.saeId = true)
    (hk : validUtf8 a.keyId = true) (h : encodeKeyAnnouncement a = .ok data) :
    decodeKeyAnnouncement data = .ok a := by
  obtain ⟨⟨hsae, hkey⟩, hdata⟩ := encodeKeyAnnouncement_iff.mp h
  obtain ⟨hs0, hsLen⟩ := validateIdentifier_ok hsae
  obtain ⟨hk0, hkLen⟩ := validateIdentifier_ok hkey
  have hs1 : a.saeId.length ≠ 0 := by simpa using hs0
  have hk1 : a.keyId.length ≠ 0 := by simpa using hk0
  have hdaemon : fromBe (between data 1 9) = a.daemonId := by
    rw [hdata, between_skip (w := 1) rfl (Nat.le_refl 1), between_head (toBe_length 8 _)]
    exact fromBe_toBe (by simpa using hid)
  have hsaeLen : fromBe (between data 9 11) = a.saeId.length := by
    rw [hdata, between_skip (w := 1) rfl (by decide), between_skip (toBe_length 8 _) (by decide),
      between_head (toBe_length 2 _)]
    exact fromBe_toBe (Nat.lt_trans hsLen (by decide))
  have hkeyLen : fromBe (between data 11 13) = a.keyId.length := by
    rw [hdata, between_skip (w := 1) rfl (by decide), between_skip (toBe_length 8 _) (by decide),
      between_skip (toBe_length 2 _) (by decide), between_head (toBe_length 2 _)]
    exact fromBe_toBe (Nat.lt_trans hkLen (by decide))
  have hfront : data = ([msgQkdKeyAnnounce] ++ toBe 8 a.daemonId ++ toBe 2 a.saeId.length ++
      toBe 2 a.keyId.length) ++ (a.saeId ++ a.keyId) := by
    rw [hdata]
    simp
  have hfrontLen : ([msgQkdKeyAnnounce] ++ toBe 8 a.daemonId ++ toBe 2 a.saeId.length ++
      toBe 2 a.keyId.length).length = 13 := by simp [toBe_length]
  have hsae : between data 13 (13 + a.saeId.length) = a.saeId := by
    rw [hfront, between_skip hfrontLen (Nat.le_refl _), Nat.sub_self, Nat.add_sub_cancel_left]
    exact between_head rfl
  have hkeyId : data.drop (13 + a.saeId.length) = a.keyId := by
    rw [hfront, ← append_assoc]
    exact drop_left' (by rw [length_append, hfrontLen])
  have hsize : data.length = 13 + a.saeId.length + a.keyId.length := by
    rw [hfront, length_append, hfrontLen, length_append]
    omega
  have hhead : data.head? = some msgQkdKeyAnnounce := by
    rw [hdata]
    rfl
  rw [decodeKeyAnnouncement, if_neg (by rw [hsize, hhead]; simp; omega)]
  simp only [hsaeLen, hkeyLen, hsae, hkeyId, hdaemon, hs, hk]
  rw [if_neg (by omega)]
  rfl

def Printable (s : Text) : Prop := ∀ b ∈ s, isAsciiControl b = false

theorem validateIdentifier_iff {name : String} {s : Text} {maxLen : Nat} (hs : s.length ≠ 0)
    (hlen : s.length < maxLen) : validateIdentifier name s maxLen = .ok () ↔ Printable s := by
  have hzero : ∀ b, (decide (b = 0) || isAsciiControl b) = isAsciiControl b := by
    intro b
    by_cases hb : b = 0
    · rw [hb]
      rfl
    · simp [hb]
  have hne : s ≠ [] := fun h => hs (h ▸ rfl)
  rw [validateIdentifier, if_neg (by simp [hne, hlen])]
  simp [hzero, Printable]

theorem drop_field (i w j : Nat) (h : i + w = j) (hj : j ≤ data.length) :
    toBe w (fromBe (between data i j)) ++ data.drop j = data.drop i := by
  have hlen : (data.take j).length = j := by rw [length_take, Nat.min_eq_left hj]
  have hfield : (between data i j).length = w := by
    rw [between, length_drop, hlen, ← h, Nat.add_sub_cancel_left]
  rw [← hfield, toBe_fromBe, between, ← drop_append_of_le_length (by omega), take_append_drop]

theorem cons_drop_one {b : UInt8} (h : ¬ data.head? ≠ some b) : data = [b] ++ data.drop 1 := by
  cases data with
  | nil => simp at h
  | cons c cs => simpa using h

theorem decodeKeyAck_some (h : decodeKeyAck data = some keyId) :
    (keyId.length ≠ 0 ∧ keyId.length < maxKeyIdLen) ∧
      data = [msgQkdKeyAck] ++ (toBe 2 keyId.length ++ keyId) := by
  simp only [decodeKeyAck] at h
  split_ifs at h with hhead hlen
  cases h
  obtain ⟨hsize, hmsg⟩ := not_or.mp hhead
  simp only [not_or, not_not, not_le] at hlen
  have hid : (data.drop 3).length = fromBe (between data 1 3) := by
    rw [length_drop, hlen.2.2, Nat.add_sub_cancel_left]
  refine ⟨hid ▸ ⟨hlen.1, hlen.2.1⟩, ?_⟩
  rw [hid, drop_field 1 2 3 rfl (by omega)]
  exact cons_drop_one hmsg

theorem decodeKeyAnnouncement_ok (h : decodeKeyAnnouncement data = .ok a) :
    ((a.saeId.length ≠ 0 ∧ a.saeId.length < maxSaeIdLen) ∧ a.keyId.length ≠ 0 ∧
      a.keyId.length < maxKeyIdLen) ∧
      data = [msgQkdKeyAnnounce] ++ (toBe 8 a.daemonId ++ (toBe 2 a.saeId.length ++ (toBe 2 a.keyId.length ++
        (a.saeId ++ a.keyId)))) := by
  simp only [decodeKeyAnnouncement] at h
  split_ifs at h with hhead hlen
  cases h
  obtain ⟨hsize, hmsg⟩ := not_or.mp hhead
  simp only [not_or, not_not, not_le] at hlen
  obtain ⟨hs0, hs, hk0, hk, hall⟩ := hlen
  have hsae : (between data 13 (13 + fromBe (between data 9 11))).length = fromBe (between data 9 11) := by
    rw [between, length_drop, length_take]
    omega
  have hkey : (data.drop (13 + fromBe (between data 9 11))).length = fromBe (between data 11 13) := by
    rw [length_drop]
    omega
  refine ⟨⟨hsae.symm ▸ ⟨hs0, hs⟩, hkey.symm ▸ ⟨hk0, hk⟩⟩, ?_⟩
  have hids : between data 13 (13 + fromBe (between data 9 11)) ++
      data.drop (13 + fromBe (between data 9 11)) = data.drop 13 := by
    rw [between, ← drop_append_of_le_length (by rw [length_take]; omega), take_append_drop]
  rw [hsae, hkey, hids, drop_field 11 2 13 rfl (by omega), drop_field 9 2 11 rfl (by omega),
    drop_field 1 8 9 rfl (by omega)]
  exact cons_drop_one hmsg

/-- The decoders read back what the encoders have written. What they read is what
an encoder would have written exactly if it has no control character in it. -/
theorem key_messages_exact (a : QkdKeyAnnouncement) (keyId : Text) (data : Bytes) :
    (a.daemonId < 2 ^ 64 → validUtf8 a.saeId = true → validUtf8 a.keyId = true →
      encodeKeyAnnouncement a = .ok data → decodeKeyAnnouncement data = .ok a) ∧
    (decodeKeyAnnouncement data = .ok a →
      (encodeKeyAnnouncement a = .ok data ↔ Printable a.saeId ∧ Printable a.keyId)) ∧
    (validUtf8 keyId = true → encodeKeyAck keyId = .ok data → decodeKeyAck data = some keyId) ∧
    (decodeKeyAck data = some keyId → (encodeKeyAck keyId = .ok data ↔ Printable keyId)) := by
  refine ⟨decodeKeyAnnouncement_encode, fun h => ?_, decodeKeyAck_encode, fun h => ?_⟩
  · obtain ⟨⟨⟨hs0, hs⟩, hk0, hk⟩, hdata⟩ := decodeKeyAnnouncement_ok h
    rw [encodeKeyAnnouncement_iff, validateIdentifier_iff hs0 hs, validateIdentifier_iff hk0 hk]
    exact and_iff_left hdata
  · obtain ⟨⟨hk0, hk⟩, hdata⟩ := decodeKeyAck_some h
    rw [encodeKeyAck_iff, validateIdentifier_iff hk0 hk]
    exact and_iff_left hdata

theorem plain_ack_read :
    decodeKeyAck [0x52, 0, 1, 65] = some [65] ∧ encodeKeyAck [65] = .ok [0x52, 0, 1, 65] := by
  have hread : decodeKeyAck [0x52, 0, 1, 65] = some [65] := by decide +kernel
  exact ⟨hread,
    ((key_messages_exact ⟨7, [], []⟩ [65] _).2.2.2 hread).mpr (by simp [Printable, isAsciiControl])⟩

/-- An identifier with a line break in it is refused by every other check. -/
theorem control_character_read :
    decodeKeyAnnouncement [0x51, 0, 0, 0, 0, 0, 0, 0, 7, 0, 1, 0, 1, 65, 10] = .ok ⟨7, [65], [10]⟩ ∧
      encodeKeyAnnouncement ⟨7, [65], [10]⟩ = .error "QKD key_ID contains an invalid character" := by
  decide +kernel

end Codec

end RmwAxon.KeyStore
