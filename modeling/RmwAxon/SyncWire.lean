import RmwAxon.Codec
import RmwAxon.Endian
import RmwAxon.PeerSync

namespace RmwAxon.SyncWire

open Endian NodeTable PeerSync
open Codec (many)

abbrev Bytes := List UInt8

def msgSyncRequest : UInt8 := 0x01
def msgSyncResponse : UInt8 := 0x02
def msgPing : UInt8 := 0x04
def msgPong : UInt8 := 0x05

/-- A length is cut to two bytes. -/
def putString (s : Text) : Bytes := toLe 2 s.length ++ s

def putQos (q : EntryQos) : Bytes :=
  [UInt8.ofNat q.reliability, UInt8.ofNat q.durability, UInt8.ofNat q.historyKind] ++
    toLe 4 (q.historyDepth % 2 ^ 32).toNat ++ toLe 4 q.deadlineSec ++ toLe 4 q.deadlineNsec ++
    toLe 4 q.lifespanSec ++ toLe 4 q.lifespanNsec ++ [UInt8.ofNat q.liveliness] ++
    toLe 4 q.livelinessLeaseSec ++ toLe 4 q.livelinessLeaseNsec

def putTopic (t : PeerTopicInfo) : Bytes :=
  toLe 8 t.hash ++ toLe 8 t.typeHash ++ putQos t.qos ++ putString t.name ++ putString t.topicType ++
    putString t.nodeName ++ putString t.nodeNamespace

def putAddr (a : Addr) : Bytes := [a.1, a.2.1, a.2.2.1, a.2.2.2]

def putNode (node : PeerNodeInfo) : Bytes :=
  toLe 8 node.nodeId ++ toLe 4 node.domainId ++ putString node.nodeName ++ putString node.nodeNamespace ++
    toLe 4 node.publishedTopics.length ++ node.publishedTopics.flatMap putTopic ++
    toLe 4 node.subscribedTopics.length ++ node.subscribedTopics.flatMap putTopic ++
    toLe 2 node.quicPort ++ toLe 4 node.quicAddrs.length ++ node.quicAddrs.flatMap putAddr

def encodeSyncRequest (domainId : Nat) : Bytes := msgSyncRequest :: toLe 4 domainId

def encodeSyncResponse (domainId : Nat) (nodes : List PeerNodeInfo) : Bytes :=
  msgSyncResponse :: toLe 4 domainId ++ toLe 4 nodes.length ++ nodes.flatMap putNode

def encodeSyncRequestWithNodes (domainId daemonId : Nat) (nodes : List PeerNodeInfo) : Bytes :=
  encodeSyncRequest domainId ++ toLe 8 daemonId ++ encodeSyncResponse domainId nodes

def encodePong : Bytes := [msgPong]

abbrev Reader := StateT Bytes (Except String)

def need (k : Nat) (error : String) : Reader Unit := do
  if (← get).length < k then throw error

def take (k : Nat) (error : String) : Reader Bytes := do
  need k error
  modifyGet fun rest => (rest.take k, rest.drop k)

def field (block : Bytes) (i j : Nat) : Nat := fromLe ((block.take j).drop i)

def asI32 (n : Nat) : Int := if n < 2 ^ 31 then n else n - 2 ^ 32

def validUtf8 (s : Text) : Bool := (ByteArray.mk s.toArray).validateUTF8

def readString : Reader Text := do
  let len ← take 2 "truncated len"
  let s ← take (fromLe len) "truncated string"
  if validUtf8 s then pure s else throw "bad utf8"

def qosOf (block : Bytes) : EntryQos where
  reliability := field block 16 17
  durability := field block 17 18
  historyKind := field block 18 19
  historyDepth := asI32 (field block 19 23)
  deadlineSec := field block 23 27
  deadlineNsec := field block 27 31
  lifespanSec := field block 31 35
  lifespanNsec := field block 35 39
  liveliness := field block 39 40
  livelinessLeaseSec := field block 40 44
  livelinessLeaseNsec := field block 44 48

def readTopic : Reader PeerTopicInfo := do
  let block ← take 48 "truncated topic"
  let name ← readString
  let topicType ← readString
  let nodeName ← readString
  let nodeNamespace ← readString
  pure ⟨field block 0 8, field block 8 16, qosOf block, name, topicType, nodeName, nodeNamespace⟩

def readAddr : Reader Addr := do
  let block ← take 4 "truncated addrs"
  pure (block.getD 0 0, block.getD 1 0, block.getD 2 0, block.getD 3 0)

/-- Of a longer list of addresses only the first ones are read. -/
def readNode : Reader PeerNodeInfo := do
  let header ← take 12 "truncated node header"
  let nodeName ← readString
  let nodeNamespace ← readString
  let pubCount ← take 4 "truncated pub count"
  let publishedTopics ← many readTopic (fromLe pubCount)
  let subCount ← take 4 "truncated sub count"
  let subscribedTopics ← many readTopic (fromLe subCount)
  need 6 "truncated endpoint"
  let quicPort ← take 2 "truncated endpoint"
  let addrCount ← take 4 "truncated addr count"
  let limit := min (fromLe addrCount) maxQuicAddrs
  need (limit * 4) "truncated addrs"
  let quicAddrs ← many readAddr limit
  pure ⟨field header 0 8, field header 8 12, publishedTopics, subscribedTopics, fromLe quicPort, quicAddrs,
    nodeName, nodeNamespace⟩

def decodeSyncResponse (buf : Bytes) : Except String (Nat × List PeerNodeInfo) :=
  if buf.length < 9 ∨ buf.head? ≠ some msgSyncResponse then .error "bad sync response"
  else do
    let (nodes, _) ← many readNode (field buf 5 9) (buf.drop 9)
    pure (field buf 1 5, nodes)

def decodeSyncRequest (buf : Bytes) : Except String Nat :=
  if buf.length < 5 ∨ buf.head? ≠ some msgSyncRequest then .error "bad sync request"
  else .ok (field buf 1 5)

/-- The daemon that a push names, without a look at its nodes. -/
def syncRequestDaemonId (buf : Bytes) : Except String (Option Nat) :=
  if buf.length < 5 ∨ buf.head? ≠ some msgSyncRequest then .error "bad sync request"
  else if buf.length = 5 then .ok none
  else if buf.length < 13 then .error "truncated sync request daemon id"
  else .ok (some (field buf 5 13))

def decodeSyncRequestPush (buf : Bytes) : Except String (Option (Nat × List PeerNodeInfo)) :=
  if buf.length = 5 then .ok none
  else if buf.length < 14 ∨ buf.head? ≠ some msgSyncRequest then .error "bad sync request push"
  else do
    let (_, nodes) ← decodeSyncResponse (buf.drop 13)
    pure (some (field buf 5 13, nodes))

def textOr (buffer fallback : Text) : Text :=
  if validUtf8 (readStr buffer) then readStr buffer else fallback

def orElse (s fallback : Text) : Text := if s = [] then fallback else s

def topicEntryToInfo (nodeName nodeNamespace : Text) (t : TopicEntry) : PeerTopicInfo where
  hash := t.hash
  typeHash := t.typeHash
  qos := t.qos
  name := textOr t.topicName []
  topicType := textOr t.topicType []
  nodeName := orElse (textOr t.nodeName nodeName) nodeName
  nodeNamespace := orElse (textOr t.nodeNamespace nodeNamespace) nodeNamespace

def nodeEntryToInfo (e : NodeTableEntry) (nodeName nodeNamespace : Text) : PeerNodeInfo where
  nodeId := e.nodeId
  domainId := e.domainId
  publishedTopics := e.publishedTopics.map (topicEntryToInfo nodeName nodeNamespace)
  subscribedTopics := e.subscribedTopics.map (topicEntryToInfo nodeName nodeNamespace)
  quicPort := e.quicPort
  quicAddrs := e.quicAddrs.take maxQuicAddrs
  nodeName := nodeName
  nodeNamespace := nodeNamespace

variable {n : Nat}

def collectDomainNodes (alive : Nat → Nat → Bool) (table : Table n) (domainId : Nat) : List PeerNodeInfo :=
  (List.finRange n).filterMap fun k =>
    let e := table k
    if e.state ≠ .active ∨ e.domainId ≠ domainId ∨ e.daemonOrigin ≠ 0 ∨
        0 < e.pid ∧ alive e.pid e.procStarttime = false then none
    else some (nodeEntryToInfo e (textOr e.nodeName []) (textOr e.nodeNamespace [47]))

def handleSyncPayload (alive : Nat → Nat → Bool) (now : Nat) (table : Table n) (data : Bytes) :
    Except String (Bytes × Table n) :=
  match data with
  | [] => .ok ([], table)
  | kind :: _ =>
    if kind = msgSyncRequest then do
      let reqDomain ← decodeSyncRequest data
      let pushed ← decodeSyncRequestPush data
      let table := pushed.elim table fun p => mergeRemoteNodes p.1 now p.2 table
      pure (encodeSyncResponse reqDomain (collectDomainNodes alive table reqDomain), table)
    else if kind = msgPing then .ok (encodePong, table)
    else .error "unsupported daemon sync message"

end RmwAxon.SyncWire
