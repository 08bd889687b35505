import RmwAxon.DaemonRun
import RmwAxon.DomainSync

namespace RmwAxon.SlotSteps

open DaemonRun DomainSync Matching NodeTable
open PeerSync (PeerNodeInfo topicInfoToEntry)

inductive FieldWrite
  | state (s : SlotState)
  | nodeId (id : Nat)
  | domainId (domain : Nat)
  | pid (p : Nat)
  | procStarttime (t : Nat)
  | quicPort (port : Nat)
  | quicAddrs (addrs : List Addr)
  | daemonOrigin (origin : Nat)
  | lastSeenSecs (t : Nat)
  | nodeName (name : Text)
  | nodeNamespace (namespace_ : Text)
  | publishedTopics (topics : List TopicEntry)
  | subscribedTopics (topics : List TopicEntry)
  | remoteMatches (ms : List MatchEntry)
  | responseGen (g : Nat)

def assign (e : NodeTableEntry) : FieldWrite → NodeTableEntry
  | .state s => { e with state := s }
  | .nodeId id => { e with nodeId := id }
  | .domainId domain => { e with domainId := domain }
  | .pid p => { e with pid := p }
  | .procStarttime t => { e with procStarttime := t }
  | .quicPort port => { e with quicPort := port }
  | .quicAddrs addrs => { e with quicAddrs := addrs }
  | .daemonOrigin origin => { e with daemonOrigin := origin }
  | .lastSeenSecs t => { e with lastSeenSecs := t }
  | .nodeName name => { e with nodeName := name }
  | .nodeNamespace namespace_ => { e with nodeNamespace := namespace_ }
  | .publishedTopics topics => { e with publishedTopics := topics }
  | .subscribedTopics topics => { e with subscribedTopics := topics }
  | .remoteMatches ms => { e with remoteMatches := ms }
  | .responseGen g => { e with responseGen := g }

/-- All but the daemon's own notes: when the node was last seen, its matches
and the answer counter. -/
def tracked : FieldWrite → Bool
  | .lastSeenSecs _ => false
  | .remoteMatches _ => false
  | .responseGen _ => false
  | _ => true

def isActivation : FieldWrite → Bool
  | .state .active => true
  | _ => false

def clearNames : List FieldWrite :=
  [.nodeName (List.replicate maxNodeNameLen 0), .nodeNamespace (List.replicate maxNodeNsLen 0)]

/-- In all three the state comes first. -/
def clearNodeEntryWrites : List FieldWrite :=
  [.state .empty, .nodeId 0, .domainId 0, .pid 0, .procStarttime 0, .publishedTopics [],
    .subscribedTopics [], .quicPort 0, .remoteMatches [], .responseGen 0, .quicAddrs [],
    .daemonOrigin 0, .lastSeenSecs 0] ++ clearNames

def clearDepartedWrites : List FieldWrite :=
  [.state .empty, .nodeId 0, .domainId 0, .publishedTopics [], .subscribedTopics [],
    .remoteMatches [], .pid 0, .procStarttime 0, .daemonOrigin 0, .lastSeenSecs 0, .quicAddrs [],
    .responseGen 0] ++ clearNames

def clearStaleWrites : List FieldWrite :=
  [.state .empty, .nodeId 0, .domainId 0, .publishedTopics [], .subscribedTopics [],
    .remoteMatches [], .daemonOrigin 0, .pid 0, .lastSeenSecs 0, .quicAddrs [], .responseGen 0] ++
    clearNames

def clearWrites : Side → List FieldWrite
  | .receiving => clearNodeEntryWrites
  | .requesting => clearStaleWrites

def nodeTopics (node : PeerNodeInfo) : List FieldWrite :=
  [.publishedTopics ((node.publishedTopics.take maxTopicsPerNode).map topicInfoToEntry),
    .subscribedTopics ((node.subscribedTopics.take maxTopicsPerNode).map topicInfoToEntry)]

def nodeNames (node : PeerNodeInfo) : List FieldWrite :=
  [.nodeName (copyStr maxNodeNameLen node.nodeName),
    .nodeNamespace (copyStr maxNodeNsLen node.nodeNamespace)]

/-- The pushed graph makes the slot active last, the sync loop first. -/
def fillWrites (side : Side) (origin now : Nat) (node : PeerNodeInfo) (isNew : Bool) :
    List FieldWrite :=
  match side with
  | .receiving => (if isNew then clearNodeEntryWrites else []) ++
      [.nodeId node.nodeId, .domainId node.domainId, .pid 0, .procStarttime 0,
        .quicPort node.quicPort, .quicAddrs (node.quicAddrs.take maxQuicAddrs),
        .daemonOrigin origin, .lastSeenSecs now] ++ nodeNames node ++ nodeTopics node ++ [.state .active]
  | .requesting => [.state .active, .nodeId node.nodeId, .domainId node.domainId, .pid 0,
        .quicPort node.quicPort, .quicAddrs (node.quicAddrs.take maxQuicAddrs),
        .daemonOrigin origin, .lastSeenSecs now] ++ nodeTopics node ++ nodeNames node ++
      if isNew then [.remoteMatches [], .responseGen 0] else []

def registerWrites (r : Registration) : List FieldWrite :=
  [.nodeId r.nodeId, .domainId r.domainId, .pid r.pid, .procStarttime r.procStarttime,
    .quicPort r.quicPort, .quicAddrs (r.quicAddrs.take maxQuicAddrs), .publishedTopics [],
    .subscribedTopics [], .remoteMatches [], .lastSeenSecs r.lastSeenSecs]

end RmwAxon.SlotSteps
