import RmwAxon.SyncCodec

namespace RmwAxon.SyncIndex

open Endian NodeTable PeerSync SyncWire List

inductive Fault
  | outOfRange
  | error (message : String)
  deriving DecidableEq, Repr

abbrev Decoder := StateT Nat (Except Fault)

/-- The bytes from i up to j; a range that is not inside the buffer panics. -/
def bytesAt (buf : Bytes) (i j : Nat) : Except Fault Bytes :=
  if i ≤ j ∧ j ≤ buf.length then .ok ((buf.take j).drop i) else .error .outOfRange

def numberAt (buf : Bytes) (i j : Nat) : Except Fault Nat := do
  let bs ← bytesAt buf i j
  pure (fromLe bs)

def byteAt (buf : Bytes) (i : Nat) : Except Fault UInt8 :=
  match buf[i]? with
  | some b => .ok b
  | none => .error .outOfRange

def fail {α : Type} (message : String) : Decoder α := throw (.error message)

def countAt (buf : Bytes) (k : Nat) (message : String) : Decoder Nat := do
  let off ← get
  if buf.length < off + k then fail message
  let count ← numberAt buf off (off + k)
  set (off + k)
  pure count

def readStringAt (buf : Bytes) : Decoder Text := do
  let len ← countAt buf 2 "truncated len"
  let off ← get
  if buf.length < off + len then fail "truncated string"
  let s ← bytesAt buf off (off + len)
  if validUtf8 s then
    set (off + len)
    pure s
  else fail "bad utf8"

def readTopicAt (buf : Bytes) : Decoder PeerTopicInfo := do
  let off ← get
  if buf.length < off + 48 then fail "truncated topic"
  let hash ← numberAt buf off (off + 8)
  let typeHash ← numberAt buf (off + 8) (off + 16)
  let reliability ← byteAt buf (off + 16)
  let durability ← byteAt buf (off + 17)
  let historyKind ← byteAt buf (off + 18)
  let historyDepth ← numberAt buf (off + 19) (off + 23)
  let deadlineSec ← numberAt buf (off + 23) (off + 27)
  let deadlineNsec ← numberAt buf (off + 27) (off + 31)
  let lifespanSec ← numberAt buf (off + 31) (off + 35)
  let lifespanNsec ← numberAt buf (off + 35) (off + 39)
  let liveliness ← byteAt buf (off + 39)
  let livelinessLeaseSec ← numberAt buf (off + 40) (off + 44)
  let livelinessLeaseNsec ← numberAt buf (off + 44) (off + 48)
  set (off + 48)
  let name ← readStringAt buf
  let topicType ← readStringAt buf
  let nodeName ← readStringAt buf
  let nodeNamespace ← readStringAt buf
  pure ⟨hash, typeHash, ⟨reliability.toNat, durability.toNat, historyKind.toNat, asI32 historyDepth,
    deadlineSec, deadlineNsec, lifespanSec, lifespanNsec, liveliness.toNat, livelinessLeaseSec,
    livelinessLeaseNsec⟩, name, topicType, nodeName, nodeNamespace⟩

def readManyAt {α : Type} (d : Decoder α) : Nat → Decoder (List α)
  | 0 => pure []
  | k + 1 => do
      let a ← d
      let as ← readManyAt d k
      pure (a :: as)

def readAddrAt (buf : Bytes) : Decoder Addr := do
  let off ← get
  let addr ← bytesAt buf off (off + 4)
  set (off + 4)
  pure (addr.getD 0 0, addr.getD 1 0, addr.getD 2 0, addr.getD 3 0)

def readHeaderAt (buf : Bytes) : Decoder (Nat × Nat) := do
  let off ← get
  if buf.length < off + 12 then fail "truncated node header"
  let nodeId ← numberAt buf off (off + 8)
  let domId ← numberAt buf (off + 8) (off + 12)
  set (off + 12)
  pure (nodeId, domId)

def readPortAt (buf : Bytes) : Decoder Nat := do
  let off ← get
  if buf.length < off + 6 then fail "truncated endpoint"
  let quicPort ← numberAt buf off (off + 2)
  set (off + 2)
  pure quicPort

/-- The loop over the addresses does not look at the length again. -/
def readAddrsAt (buf : Bytes) (limit : Nat) : Decoder (List Addr) := do
  let off ← get
  if buf.length < off + limit * 4 then fail "truncated addrs"
  readManyAt (readAddrAt buf) limit

def readNodeAt (buf : Bytes) : Decoder PeerNodeInfo := do
  let (nodeId, domId) ← readHeaderAt buf
  let nodeName ← readStringAt buf
  let nodeNamespace ← readStringAt buf
  let pubCount ← countAt buf 4 "truncated pub count"
  let publishedTopics ← readManyAt (readTopicAt buf) pubCount
  let subCount ← countAt buf 4 "truncated sub count"
  let subscribedTopics ← readManyAt (readTopicAt buf) subCount
  let quicPort ← readPortAt buf
  let addrCount ← countAt buf 4 "truncated addr count"
  let quicAddrs ← readAddrsAt buf (min addrCount maxQuicAddrs)
  pure ⟨nodeId, domId, publishedTopics, subscribedTopics, quicPort, quicAddrs, nodeName, nodeNamespace⟩

/-- Is the buffer too short, or its first byte another one. The byte is not looked
at in a short buffer. -/
def wrongKind (buf : Bytes) (least : Nat) (kind : UInt8) : Except Fault Bool :=
  if buf.length < least then .ok true
  else do
    let b ← byteAt buf 0
    pure (decide (b ≠ kind))

def decodeSyncResponseAt (buf : Bytes) : Except Fault (Nat × List PeerNodeInfo) := do
  if ← wrongKind buf 9 msgSyncResponse then throw (.error "bad sync response")
  let domainId ← numberAt buf 1 5
  let count ← numberAt buf 5 9
  let (nodes, _) ← (readManyAt (readNodeAt buf) count).run 9
  pure (domainId, nodes)

def decodeSyncRequestAt (buf : Bytes) : Except Fault Nat := do
  if ← wrongKind buf 5 msgSyncRequest then throw (.error "bad sync request")
  numberAt buf 1 5

def syncRequestDaemonIdAt (buf : Bytes) : Except Fault (Option Nat) := do
  if ← wrongKind buf 5 msgSyncRequest then throw (.error "bad sync request")
  if buf.length = 5 then return none
  if buf.length < 13 then throw (.error "truncated sync request daemon id")
  let id ← numberAt buf 5 13
  return some id

def decodeSyncRequestPushAt (buf : Bytes) : Except Fault (Option (Nat × List PeerNodeInfo)) := do
  if buf.length = 5 then return none
  if ← wrongKind buf 14 msgSyncRequest then throw (.error "bad sync request push")
  let daemonId ← numberAt buf 5 13
  let rest ← bytesAt buf 13 buf.length
  let (_, nodes) ← decodeSyncResponseAt rest
  return some (daemonId, nodes)

section Ranges

variable {buf : Bytes}

theorem bytesAt_ok {i j : Nat} (hij : i ≤ j) (hj : j ≤ buf.length) :
    bytesAt buf i j = .ok ((buf.take j).drop i) := if_pos ⟨hij, hj⟩

theorem numberAt_ok {i j : Nat} (hij : i ≤ j) (hj : j ≤ buf.length) :
    numberAt buf i j = .ok (fromLe ((buf.take j).drop i)) := by
  rw [numberAt, bytesAt_ok hij hj]
  rfl

theorem numberAt_field {i j : Nat} (hij : i ≤ j) (hj : j ≤ buf.length) :
    numberAt buf i j = .ok (field buf i j) := numberAt_ok hij hj

theorem byteAt_ok {i : Nat} (hi : i < buf.length) : byteAt buf i = .ok buf[i] := by
  rw [byteAt, getElem?_eq_getElem hi]

theorem block_field {off k i j : Nat} (hj : j ≤ k) :
    field ((buf.drop off).take k) i j = fromLe ((buf.take (off + j)).drop (off + i)) := by
  rw [field, take_take, Nat.min_eq_left hj, take_drop, drop_drop]

theorem field_one {i : Nat} (hi : i < buf.length) : field buf i (i + 1) = buf[i].toNat := by
  rw [field, take_add_one, getElem?_eq_getElem hi, drop_left' (by simp; omega)]
  simp [fromLe, fromBe]

end Ranges

end RmwAxon.SyncIndex
