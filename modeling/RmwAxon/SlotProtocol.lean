import RmwAxon.SlotSteps

namespace RmwAxon.SlotProtocol

open DomainSync NodeTable SlotSteps Function
open DaemonRun (Registration)
open PeerSync (PeerNodeInfo duplicateRemote staleFromOrigin)

/-- The thread that activates registered sessions and clears departed ones:
what it has read and what it is about to write. -/
inductive Monitor (n : Nat)
  | idle
  | pendingScan (ks : List (Fin n))
  | activating (k : Fin n) (ks : List (Fin n))
  | departedScan (now : Nat) (ks : List (Fin n))
  | tested (now : Nat) (k : Fin n) (st : SlotState) (ks : List (Fin n))
  | noting (now : Nat) (k : Fin n) (ks : List (Fin n))
  | clearing (now : Nat) (k : Fin n) (ws : List FieldWrite) (again : Bool) (ks : List (Fin n))
  | retest (now : Nat) (k : Fin n) (ks : List (Fin n))
  | retested (now : Nat) (k : Fin n) (st : SlotState) (ks : List (Fin n))

structure MergeOp where
  side : Side
  origin : Nat
  now : Nat
  nodes : List PeerNodeInfo

inductive Merger (n : Nat)
  | idle
  | scan (op : MergeOp) (ks : List (Fin n))
  | judge (op : MergeOp) (k : Fin n) (ks : List (Fin n))
  | clearing (op : MergeOp) (k : Fin n) (ws : List FieldWrite) (ks : List (Fin n))
  | find (op : MergeOp) (node : PeerNodeInfo) (rest : List PeerNodeInfo) (ks : List (Fin n))
  | compare (op : MergeOp) (node : PeerNodeInfo) (rest : List PeerNodeInfo) (k : Fin n)
      (ks : List (Fin n))
  | findFree (op : MergeOp) (node : PeerNodeInfo) (rest : List PeerNodeInfo) (ks : List (Fin n))
  | filling (op : MergeOp) (k : Fin n) (ws : List FieldWrite) (rest : List PeerNodeInfo)

/-- A session that has claimed a slot: the fields it has still to write before
it stores Pending, or nothing more. -/
inductive Tenant
  | registering (fields : List FieldWrite)
  | registered

/-- The table with the sessions that hold its slots and the daemon's tasks.
Whether the daemon has written to a slot that was held is noted. -/
structure State (n m : Nat) where
  table : Table n
  tenants : Fin n → Option Tenant
  monitor : Monitor n
  mergers : Fin m → Merger n
  trespassed : Bool

variable {n m : Nat}

def start (n m : Nat) : State n m :=
  ⟨emptyTable n, fun _ => none, .idle, fun _ => .idle, false⟩

/-- A write to a field of a held slot that says what the node is, other than the
step from Pending to Active. -/
def trespass (s : State n m) (k : Fin n) (w : FieldWrite) : Bool :=
  (s.tenants k).isSome && tracked w &&
    !(isActivation w && decide ((s.table k).state = .pending))

def daemonWrite (s : State n m) (k : Fin n) (w : FieldWrite) : State n m :=
  { s with
    table := update s.table k (assign (s.table k) w)
    trespassed := s.trespassed || trespass s k w }

/-- The state was loaded before; the other fields are read now. -/
def firstTest (alive : Bool) (now : Nat) (k : Fin n) (st : SlotState) (e : NodeTableEntry)
    (ks : List (Fin n)) : Monitor n :=
  if st = .leaving then .clearing now k clearDepartedWrites true ks
  else if st = .pending ∧ 0 < e.lastSeenSecs then
    if 2 < now - e.lastSeenSecs then .clearing now k clearDepartedWrites true ks else .retest now k ks
  else if st = .active ∧ 0 < e.pid then
    if alive then .noting now k ks else .clearing now k clearDepartedWrites true ks
  else if st = .active ∧ e.daemonOrigin ≠ 0 ∧ 0 < e.lastSeenSecs ∧ 30 < now - e.lastSeenSecs then
    .clearing now k clearDepartedWrites true ks
  else .retest now k ks

def secondTest (now : Nat) (k : Fin n) (st : SlotState) (e : NodeTableEntry) (ks : List (Fin n)) :
    Monitor n :=
  if st = .active ∧ e.daemonOrigin = 0 ∧ e.nodeId ≠ 0 ∧ 0 < e.lastSeenSecs ∧
      10 < now - e.lastSeenSecs then .clearing now k clearDepartedWrites false ks
  else .departedScan now ks

def monitorStep (s : State n m) (alive : Bool) : Option (State n m) :=
  match s.monitor with
  | .idle => none
  | .pendingScan [] => some { s with monitor := .idle }
  | .pendingScan (k :: ks) => some { s with
      monitor := if (s.table k).state = .pending then .activating k ks else .pendingScan ks }
  | .activating k ks => some { daemonWrite s k (.state .active) with monitor := .pendingScan ks }
  | .departedScan _ [] => some { s with monitor := .idle }
  | .departedScan now (k :: ks) => some { s with monitor := .tested now k (s.table k).state ks }
  | .tested now k st ks => some { s with monitor := firstTest alive now k st (s.table k) ks }
  | .noting now k ks => some { daemonWrite s k (.lastSeenSecs now) with monitor := .retest now k ks }
  | .clearing now k [] again ks => some { s with
      monitor := if again then .retest now k ks else .departedScan now ks }
  | .clearing now k (w :: ws) again ks =>
    some { daemonWrite s k w with monitor := .clearing now k ws again ks }
  | .retest now k ks => some { s with monitor := .retested now k (s.table k).state ks }
  | .retested now k st ks => some { s with monitor := secondTest now k st (s.table k) ks }

def searched (n : Nat) : Side → List (Fin n)
  | .receiving => List.finRange n
  | .requesting => (List.finRange n).filter fun k => k.val < maxNodes

def nextNode (n : Nat) (op : MergeOp) : List PeerNodeInfo → Merger n
  | [] => .idle
  | node :: rest => .find op node rest (searched n op.side)

def obsoleteFor (op : MergeOp) (e : NodeTableEntry) : Bool :=
  let ids := op.nodes.map PeerNodeInfo.nodeId
  match op.side with
  | .receiving => staleFromOrigin op.origin ids e || duplicateRemote op.origin ids e
  | .requesting => staleFromOrigin op.origin ids e

def setMerger (s : State n m) (i : Fin m) (t : Merger n) : State n m :=
  { s with mergers := update s.mergers i t }

def mergerStep (s : State n m) (i : Fin m) : Option (State n m) :=
  match s.mergers i with
  | .idle => none
  | .scan op [] => some (setMerger s i (nextNode n op op.nodes))
  | .scan op (k :: ks) =>
    some (setMerger s i (if (s.table k).state = .empty then .scan op ks else .judge op k ks))
  | .judge op k ks => some (setMerger s i
      (if obsoleteFor op (s.table k) then .clearing op k (clearWrites op.side) ks else .scan op ks))
  | .clearing op _ [] ks => some (setMerger s i (.scan op ks))
  | .clearing op k (w :: ws) ks => some (setMerger (daemonWrite s k w) i (.clearing op k ws ks))
  | .find op node rest [] => some (setMerger s i (.findFree op node rest (searched n op.side)))
  | .find op node rest (k :: ks) => some (setMerger s i
      (if (s.table k).state = .empty then .find op node rest ks else .compare op node rest k ks))
  | .compare op node rest k ks => some (setMerger s i
      (if (s.table k).nodeId = node.nodeId then
        .filling op k (fillWrites op.side op.origin op.now node false) rest
      else .find op node rest ks))
  | .findFree op _ rest [] => some (setMerger s i
      (match op.side with
        | .receiving => .idle
        | .requesting => nextNode n op rest))
  | .findFree op node rest (k :: ks) => some (setMerger s i
      (if (s.table k).state = .empty then
        .filling op k (fillWrites op.side op.origin op.now node true) rest
      else .findFree op node rest ks))
  | .filling op _ [] rest => some (setMerger s i (nextNode n op rest))
  | .filling op k (w :: ws) rest => some (setMerger (daemonWrite s k w) i (.filling op k ws rest))

def announces : FieldWrite → Bool
  | .publishedTopics _ => true
  | .subscribedTopics _ => true
  | .nodeName _ => true
  | .nodeNamespace _ => true
  | _ => false

inductive Action (n m : Nat)
  | claim (k : Fin n) (r : Registration)
  | register (k : Fin n)
  | announce (k : Fin n) (w : FieldWrite)
  | leave (k : Fin n)
  | die (k : Fin n)
  | startPending
  | startDeparted (now : Nat)
  | monitor (alive : Bool)
  | startMerge (i : Fin m) (op : MergeOp)
  | merger (i : Fin m)

def tenantWrite (s : State n m) (k : Fin n) (w : FieldWrite) (tn : Option Tenant) : State n m :=
  { s with
    table := update s.table k (assign (s.table k) w)
    tenants := update s.tenants k tn }

def registerStep (s : State n m) (k : Fin n) : Option (State n m) :=
  match s.tenants k with
  | some (.registering (w :: ws)) => some (tenantWrite s k w (some (.registering ws)))
  | some (.registering []) => some (tenantWrite s k (.state .pending) (some .registered))
  | _ => none

def step (s : State n m) : Action n m → Option (State n m)
  | .claim k r =>
    if (s.table k).state = .empty ∧ 0 < r.pid then
      some (tenantWrite s k (.state .claiming) (some (.registering (registerWrites r))))
    else none
  | .register k => registerStep s k
  | .announce k w =>
    match s.tenants k with
    | some .registered => if announces w then some (tenantWrite s k w (some .registered)) else none
    | _ => none
  | .leave k =>
    match s.tenants k with
    | some .registered => some (tenantWrite s k (.state .leaving) none)
    | _ => none
  | .die k => some { s with tenants := update s.tenants k none }
  | .startPending =>
    match s.monitor with
    | .idle => some { s with monitor := .pendingScan (List.finRange n) }
    | _ => none
  | .startDeparted now =>
    match s.monitor with
    | .idle => some { s with monitor := .departedScan now (List.finRange n) }
    | _ => none
  | .monitor alive => monitorStep s alive
  | .startMerge i op =>
    match s.mergers i with
    | .idle => if op.side = .receiving ∧ op.origin = 0 then none
        else some (setMerger s i (.scan op (List.finRange n)))
    | _ => none
  | .merger i => mergerStep s i

end RmwAxon.SlotProtocol
