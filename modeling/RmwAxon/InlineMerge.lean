import RmwAxon.PeerSync

namespace RmwAxon.InlineMerge

open Matching NodeTable
open PeerSync (PeerNodeInfo peerNodeEndpointsMatch fillEntry)

variable {n : Nat}

def clearStale (e : NodeTableEntry) : NodeTableEntry :=
  { zeroEntry with quicPort := e.quicPort, procStarttime := e.procStarttime }

def clearObsolete (origin : Nat) (ids : List Nat) (table : Table n) : Table n :=
  fun k =>
    if isOccupied (table k) && PeerSync.staleFromOrigin origin ids (table k) then
      clearStale (table k)
    else table k

/-- Only the first slots are searched. -/
def findSlot (table : Table n) (p : NodeTableEntry → Bool) : Option (Fin n) :=
  (List.finRange n).find? fun k => decide (k.val < min maxNodes n) && p (table k)

def placeNode (origin now : Nat) (node : PeerNodeInfo) (existing : Option (Fin n)) (idx : Fin n)
    (table : Table n) : Table n :=
  let endpointsChanged := existing.any fun k => !peerNodeEndpointsMatch (table k) node
  let table := if endpointsChanged then removeMatchesForNode table node.nodeId else table
  let e := fillEntry origin now node (table idx)
  Function.update table idx
    (if existing.isNone then { e with remoteMatches := [], responseGen := 0 } else e)

/-- A node for which there is no slot is passed over. -/
def mergeNode (origin now : Nat) (table : Table n) (node : PeerNodeInfo) : Table n :=
  let existing := findSlot table fun e => isOccupied e && decide (e.nodeId = node.nodeId)
  match existing.or (findSlot table fun e => !isOccupied e) with
  | none => table
  | some idx => placeNode origin now node existing idx table

def inlineMerge (origin now : Nat) (nodes : List PeerNodeInfo) (table : Table n) : Table n :=
  let cleared := clearObsolete origin (nodes.map PeerNodeInfo.nodeId) table
  nodes.foldl (mergeNode origin now)
    ((clearedNodeIds table cleared).foldl removeMatchesForNode cleared)

end RmwAxon.InlineMerge
