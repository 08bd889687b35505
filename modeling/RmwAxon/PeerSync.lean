import RmwAxon.Matching

namespace RmwAxon.PeerSync

open Matching NodeTable

variable {n : Nat}

structure PeerTopicInfo where
  hash : Nat
  typeHash : Nat
  qos : EntryQos
  name : Text
  topicType : Text
  nodeName : Text
  nodeNamespace : Text
  deriving DecidableEq, Repr

structure PeerNodeInfo where
  nodeId : Nat
  domainId : Nat
  publishedTopics : List PeerTopicInfo
  subscribedTopics : List PeerTopicInfo
  quicPort : Nat
  quicAddrs : List Addr
  nodeName : Text
  nodeNamespace : Text
  deriving DecidableEq, Repr

def topicInfoToEntry (topic : PeerTopicInfo) : TopicEntry where
  hash := topic.hash
  typeHash := topic.typeHash
  qos := topic.qos
  topicName := copyStr maxTopicNameLen topic.name
  topicType := copyStr maxTopicTypeLen topic.topicType
  nodeName := copyStr maxNodeNameLen topic.nodeName
  nodeNamespace := copyStr maxNodeNsLen topic.nodeNamespace

def topicsMatch (current : List TopicEntry) (incoming : List PeerTopicInfo) : Bool :=
  decide (current.length = min incoming.length maxTopicsPerNode) &&
    (current.zip incoming).all fun p => decide (p.1 = topicInfoToEntry p.2)

def peerNodeEndpointsMatch (e : NodeTableEntry) (node : PeerNodeInfo) : Bool :=
  if e.domainId ≠ node.domainId ∨ e.quicPort ≠ node.quicPort ∨
      e.quicAddrs.length ≠ min node.quicAddrs.length maxQuicAddrs ∨
      e.quicAddrs.take maxQuicAddrs ≠ node.quicAddrs.take maxQuicAddrs then false
  else topicsMatch e.publishedTopics node.publishedTopics &&
    topicsMatch e.subscribedTopics node.subscribedTopics

def removeMatchesForNode (table : Table n) (deadNodeId : Nat) : Table n :=
  fun k =>
    let e := table k
    if e.state ≠ .active then e
    else compactMatches (fun m => decide (m.nodeId ≠ deadNodeId))
      (min e.remoteMatches.length maxMatches) e

/-- A slot with what a peer daemon says of one of its nodes. The matches and
the response counter stay. -/
def fillEntry (origin now : Nat) (node : PeerNodeInfo) (e : NodeTableEntry) : NodeTableEntry :=
  { e with
    state := .active
    nodeId := node.nodeId
    domainId := node.domainId
    pid := 0
    quicPort := node.quicPort
    quicAddrs := node.quicAddrs.take maxQuicAddrs
    daemonOrigin := origin
    lastSeenSecs := now
    nodeName := copyStr maxNodeNameLen node.nodeName
    nodeNamespace := copyStr maxNodeNsLen node.nodeNamespace
    publishedTopics := (node.publishedTopics.take maxTopicsPerNode).map topicInfoToEntry
    subscribedTopics := (node.subscribedTopics.take maxTopicsPerNode).map topicInfoToEntry }

def staleFromOrigin (origin : Nat) (ids : List Nat) (e : NodeTableEntry) : Bool :=
  decide (e.daemonOrigin = origin) && !ids.contains e.nodeId

def duplicateRemote (origin : Nat) (ids : List Nat) (e : NodeTableEntry) : Bool :=
  decide (e.daemonOrigin ≠ 0) && decide (e.daemonOrigin ≠ origin) && ids.contains e.nodeId

def clearObsolete (origin : Nat) (ids : List Nat) (table : Table n) : Table n :=
  fun k =>
    if isOccupied (table k) &&
        (staleFromOrigin origin ids (table k) || duplicateRemote origin ids (table k)) then zeroEntry
    else table k

/-- A node goes to the slot that has its number, if there is one. -/
def placeNode (origin now : Nat) (node : PeerNodeInfo) (existing : Option (Fin n)) (idx : Fin n)
    (table : Table n) : Table n :=
  let endpointsChanged := existing.any fun k => !peerNodeEndpointsMatch (table k) node
  let table := if endpointsChanged then removeMatchesForNode table node.nodeId else table
  let e := if existing.isNone then zeroEntry else table idx
  Function.update table idx { fillEntry origin now node e with procStarttime := 0 }

/-- The first node for which there is no slot ends the loop. -/
def mergeNodes (origin now : Nat) : List PeerNodeInfo → Table n → Table n
  | [], table => table
  | node :: rest, table =>
    let existing := findSlotByNodeId table node.nodeId
    match existing.or (findFreeSlot table) with
    | none => table
    | some idx => mergeNodes origin now rest (placeNode origin now node existing idx table)

def mergeRemoteNodes (origin now : Nat) (nodes : List PeerNodeInfo) (table : Table n) : Table n :=
  if origin = 0 then table
  else
    let cleared := clearObsolete origin (nodes.map PeerNodeInfo.nodeId) table
    mergeNodes origin now nodes
      ((clearedNodeIds table cleared).foldl removeMatchesForNode cleared)

end RmwAxon.PeerSync
