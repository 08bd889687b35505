import RmwAxon.Loops
import RmwAxon.NodeTable

namespace RmwAxon.Matching

open Loops NodeTable Function

variable {n : Nat}

def wake (e : NodeTableEntry) : NodeTableEntry := { e with responseGen := e.responseGen + 1 }

def setMatches (e : NodeTableEntry) (ms : List MatchEntry) : NodeTableEntry :=
  { e with remoteMatches := ms }

/-- The lists are searched without regard to the port. -/
def known (ms : List MatchEntry) (m : MatchEntry) : Bool :=
  ms.any fun k => decide (k.nodeId = m.nodeId ∧ k.topicHash = m.topicHash ∧ k.addr = m.addr)

def pushMatchesForAllAddrs (ms : List MatchEntry) (nodeId topicHash port : Nat)
    (addrs : List Addr) : List MatchEntry :=
  let limit := min addrs.length maxQuicAddrs
  let space := maxMatches - ms.length
  let toAdd := min limit space
  ms ++ (addrs.take toAdd).map fun addr => ⟨nodeId, topicHash, port, addr⟩

def pushUnlessKnown (ms : List MatchEntry) (m : MatchEntry) : List MatchEntry :=
  if !known ms m && decide (ms.length < maxMatches) then ms ++ [m] else ms

def pushMatchForAllAddrsDedup (ms : List MatchEntry) (nodeId topicHash port : Nat)
    (addrs : List Addr) : List MatchEntry :=
  let limit := min addrs.length maxQuicAddrs
  (addrs.take limit).foldl (fun ms addr => pushUnlessKnown ms ⟨nodeId, topicHash, port, addr⟩) ms

/-- The place after the last match is written; past the array this panics. -/
def store (ms : List MatchEntry) (m : MatchEntry) : Option (List MatchEntry) :=
  if ms.length < maxMatches then some (ms ++ [m]) else none

/-- Matches are added to a list in the table. They are compared with those that
were there before the first of them. -/
def insertMatches (ms : List MatchEntry) (nodeId topicHash port : Nat) (addrs : List Addr) :
    Option (List MatchEntry) :=
  let limit := min addrs.length maxQuicAddrs
  let space := maxMatches - ms.length
  let toAdd := min limit space
  (addrs.take toAdd).foldlM (fun acc addr => do
    let old ← slice maxMatches ms
    let m : MatchEntry := ⟨nodeId, topicHash, port, addr⟩
    if known old m then some acc else store acc m) ms

def offered (pubEntry : TopicEntry) (subs : List TopicEntry) : Bool :=
  subs.any fun s => decide (s.hash = pubEntry.hash) && topicEntryQosCompatible pubEntry s

def offerToActive (i j : Fin n) (acc : List MatchEntry × Table n) (p : TopicEntry) :
    Option (List MatchEntry × Table n) := do
  let table := acc.2
  let subs ← slice maxTopicsPerNode (table j).subscribedTopics
  if offered p subs then
    let ms ← insertMatches (table j).remoteMatches (table i).nodeId p.hash (table i).quicPort
      (table i).quicAddrs
    let mine := pushMatchForAllAddrsDedup acc.1 (table j).nodeId p.hash (table j).quicPort
      (table j).quicAddrs
    if (table j).remoteMatches.length < ms.length then
      some (mine, update table j (wake (setMatches (table j) ms)))
    else some (mine, table)
  else some acc

def meet (i : Fin n) (subs : List TopicEntry) (acc : List MatchEntry × Table n) (j : Fin n) :
    Option (List MatchEntry × Table n) :=
  let table := acc.2
  if i = j ∨ (table j).state ≠ .active ∨ (table j).domainId ≠ (table i).domainId then some acc
  else do
    let pubs ← slice maxTopicsPerNode (table j).publishedTopics
    let mine := pubs.foldl (fun ms p =>
      if offered p subs then
        pushMatchesForAllAddrs ms (table j).nodeId p.hash (table j).quicPort (table j).quicAddrs
      else ms) acc.1
    let own ← slice maxTopicsPerNode (table i).publishedTopics
    own.foldlM (offerToActive i j) (mine, table)

def refersToActive (table : Table n) (m : MatchEntry) : Bool :=
  (findSlotByNodeId table m.nodeId).any fun k => decide ((table k).state = .active)

def processPendingRegistration (table : Table n) (i : Fin n) : Option (Table n) :=
  if (table i).state = .pending then do
    let table := update table i { table i with state := .active }
    let subs ← slice maxTopicsPerNode (table i).subscribedTopics
    let r ← (List.finRange n).foldlM (meet i subs) ([], table)
    let validated := r.1.filter (refersToActive r.2)
    let ms ← slice maxMatches validated
    some (update r.2 i (wake (setMatches (r.2 i) ms)))
  else some table

def processPendingRegistrations (table : Table n) : Option (Table n) :=
  (List.finRange n).foldlM processPendingRegistration table

def offerTopic (i j : Fin n) (table : Table n) (p : TopicEntry) : Option (Table n) := do
  let subs ← slice maxTopicsPerNode (table j).subscribedTopics
  if offered p subs then
    let toJ ← insertMatches (table j).remoteMatches (table i).nodeId p.hash (table i).quicPort
      (table i).quicAddrs
    let table := update table j (setMatches (table j) toJ)
    let toI ← insertMatches (table i).remoteMatches (table j).nodeId p.hash (table j).quicPort
      (table j).quicAddrs
    some (update table i (setMatches (table i) toI))
  else some table

def wakeChanged (before table : Table n) (k : Fin n) : Table n :=
  if (before k).remoteMatches.length < (table k).remoteMatches.length then
    update table k (wake (table k))
  else table

def matchPair (i : Fin n) (table : Table n) (j : Fin n) : Option (Table n) :=
  if i = j ∨ (table j).state ≠ .active ∨ (table j).domainId ≠ (table i).domainId ∨
      (table j).subscribedTopics = [] then some table
  else do
    let pubs ← slice maxTopicsPerNode (table i).publishedTopics
    let r ← pubs.foldlM (offerTopic i j) table
    some (wakeChanged table (wakeChanged table r j) i)

def matchPublisher (table : Table n) (i : Fin n) : Option (Table n) :=
  if (table i).state ≠ .active ∨ (table i).publishedTopics = [] then some table
  else (List.finRange n).foldlM (matchPair i) table

def matchTopics (table : Table n) : Option (Table n) :=
  (List.finRange n).foldlM matchPublisher table

def compactMatches (keep : MatchEntry → Bool) (count : Nat) (e : NodeTableEntry) :
    NodeTableEntry :=
  let r := sweep keep e.remoteMatches (min count maxMatches)
  if r.1 < count then wake (setMatches e (r.2.take r.1)) else e

def activeNodeIds (table : Table n) : List Nat :=
  (List.finRange n).filterMap fun k =>
    if (table k).state = .active ∧ (table k).nodeId ≠ 0 then some (table k).nodeId else none

def dropInactive (table : Table n) : Table n :=
  fun k =>
    let e := table k
    if e.state ≠ .active ∨ e.remoteMatches.length = 0 then e
    else compactMatches (fun m => (activeNodeIds table).contains m.nodeId) e.remoteMatches.length e

def processTopicUpdates (table : Table n) : Option (Table n) :=
  (matchTopics table).map dropInactive

def removeMatchesForNode (table : Table n) (deadNodeId : Nat) : Table n :=
  fun k =>
    let e := table k
    if e.state ≠ .active ∨ e.remoteMatches.length = 0 then e
    else compactMatches (fun m => decide (m.nodeId ≠ deadNodeId)) e.remoteMatches.length e

/-- A slot as the daemon clears it: the port stays behind. -/
def clearDeparted (e : NodeTableEntry) : NodeTableEntry := { zeroEntry with quicPort := e.quicPort }

/-- The first of the two tests of a slot. The processes that are alive are
given by their number and start time. -/
def afterFirstTest (alive : Nat → Nat → Bool) (now : Nat) (e : NodeTableEntry) : NodeTableEntry :=
  if e.state = .leaving then clearDeparted e
  else if e.state = .pending ∧ 0 < e.lastSeenSecs then
    if 2 < now - e.lastSeenSecs then clearDeparted e else e
  else if e.state = .active ∧ 0 < e.pid then
    if alive e.pid e.procStarttime = false then clearDeparted e else { e with lastSeenSecs := now }
  else if e.state = .active ∧ e.daemonOrigin ≠ 0 ∧ 0 < e.lastSeenSecs ∧
      30 < now - e.lastSeenSecs then clearDeparted e
  else e

def afterSecondTest (now : Nat) (e : NodeTableEntry) : NodeTableEntry :=
  if e.state = .active ∧ e.daemonOrigin = 0 ∧ e.nodeId ≠ 0 ∧ 0 < e.lastSeenSecs ∧
      10 < now - e.lastSeenSecs then clearDeparted e
  else e

def testDeparted (alive : Nat → Nat → Bool) (now : Nat) (e : NodeTableEntry) : NodeTableEntry :=
  afterSecondTest now (afterFirstTest alive now e)

def clearedNodeIds (before after : Table n) : List Nat :=
  (List.finRange n).filterMap fun k =>
    if isOccupied (before k) && !isOccupied (after k) && decide ((before k).nodeId ≠ 0) then
      some (before k).nodeId
    else none

def processDepartedNodes (alive : Nat → Nat → Bool) (now : Nat) (table : Table n) : Table n :=
  let cleared : Table n := fun k => testDeparted alive now (table k)
  (clearedNodeIds table cleared).foldl removeMatchesForNode cleared

end RmwAxon.Matching
