import RmwAxon.Qos
import RmwAxon.RingBuffer
import RmwAxon.Transition
import Mathlib.Data.Finset.Basic

namespace RmwAxon.RetainedHistory

open Qos Function
open RingBuffer (Bytes)

/-- A message as it is kept and sent. Ghost: the publish call it comes from. -/
structure Sample where
  id : Nat
  data : Bytes
  call : Nat
  deriving DecidableEq, Repr

structure Match where
  peer : Nat
  topic : Nat
  addr : Nat
  deriving DecidableEq, Repr

/-- What a synchronisation reads of the daemon: its own entry, and those of the
matches in it whose peer is active and belongs to another daemon. -/
structure Entry where
  active : Bool
  responseGen : Nat
  matchCount : Nat
  valid : List Match
  deriving DecidableEq, Repr

/-- The part of a flush that is left for one peer. Ghost: whether the peer was
matched after a delivery of the topic had completed. -/
structure Job where
  peer : Nat
  topic : Nat
  samples : List Sample
  late : Bool
  deriving DecidableEq, Repr

structure Tables where
  topicQosCache : Nat → Option RemoteQos
  publisherCounts : Nat → Nat
  retainedRemoteSamples : Nat → List Sample
  retainedRemotePeers : Nat → Finset Nat
  retainedRemotePending : Nat → Finset Nat
  retainedRemoteRetry : Bool
  daemonLastResponseGen : Nat
  knownAddrs : List (Nat × Nat)
  remoteRoutes : Nat → List Nat

inductive Table
  | routes
  | known
  | peers
  | pending
  deriving DecidableEq, Repr

/-- Where a thread is between two steps. Each step holds its locks at once. -/
inductive Point
  | retain
  | checkPeers (history : HistoryKind)
  | checkPending (history : HistoryKind)
  | push (history : HistoryKind)
  | enter
  | wipe (rest : List Table) (valid : List Match)
  | know (valid : List Match)
  | route (valid : List Match)
  | plan (valid : List Match)
  | flush (jobs : List Job)
  | live
  deriving DecidableEq, Repr

structure Call where
  topic : Nat
  sample : Sample
  deriving DecidableEq, Repr

inductive Thread
  | idle
  | busy (call : Option Call) (point : Point)
  deriving DecidableEq, Repr

inductive Stage
  | settle
  | record
  deriving DecidableEq, Repr

structure Completion where
  peer : Nat
  topic : Nat
  stage : Stage
  deriving DecidableEq, Repr

/-- What is known about a match: whether a delivery of the topic had completed
before it, and which publish calls had returned. -/
structure MatchInfo where
  late : Bool
  finished : Nat → Bool

structure Delivery where
  peer : Nat
  topic : Nat
  sample : Sample
  startup : Bool
  late : Bool
  info : Option MatchInfo

/-- A session with a QUIC transport, used by n threads: its tables, the next
number of each topic's ring, and the numbers handed to the pipeline of each
peer and topic. Ghost state: which calls have returned, for which topics a
delivery has completed, the matches, and every message handed over. -/
structure State (n : Nat) where
  tables : Tables
  next : Nat → Nat
  threads : Fin n → Thread
  tasks : List Completion
  sent : Nat → Nat → List Nat
  calls : Nat
  finished : Nat → Bool
  completed : Nat → Bool
  matched : Nat → Nat → Option MatchInfo
  deliveries : List Delivery

variable {n : Nat}

def setThread (st : State n) (i : Fin n) (th : Thread) : State n :=
  { st with threads := update st.threads i th }

def handOver (st : State n) (peer topic : Nat) (s : Sample) (startup late : Bool) : State n :=
  { st with
    sent := update st.sent peer
      (update (st.sent peer) topic (st.sent peer topic ++ [s.id]))
    deliveries := ⟨peer, topic, s, startup, late, st.matched topic peer⟩ :: st.deliveries }

def historyDepth : HistoryKind → Nat
  | .keepLast depth => max 1 (min depth 256)
  | .keepAll => 256

def keepNewest (depth : Nat) (samples : List Sample) : List Sample :=
  samples.drop (samples.length - depth)

def setSamples (s : Tables) (topic : Nat) (samples : List Sample) : Tables :=
  { s with retainedRemoteSamples := update s.retainedRemoteSamples topic samples }

def setPeers (s : Tables) (topic : Nat) (peers : Finset Nat) : Tables :=
  { s with retainedRemotePeers := update s.retainedRemotePeers topic peers }

def setPending (s : Tables) (topic : Nat) (peers : Finset Nat) : Tables :=
  { s with retainedRemotePending := update s.retainedRemotePending topic peers }

def retainSample (s : Tables) (topic : Nat) (sample : Sample) (history : HistoryKind) : Tables :=
  setSamples s topic (keepNewest (historyDepth history) (s.retainedRemoteSamples topic ++ [sample]))

def afterQos : Option RemoteQos → Point
  | none => .enter
  | some qos =>
    if qos.durability = .transientLocal then .push qos.history
    else if qos.reliability = .reliable then .checkPeers qos.history
    else .enter

def afterSync : Option Call → Thread
  | none => .idle
  | some c => .busy (some c) .live

def enter (s : Tables) (e : Entry) : Tables × Option Point :=
  if e.active = false then (s, some (.wipe [.routes, .known, .peers, .pending] []))
  else
    let retry := s.retainedRemoteRetry
    let s := { s with retainedRemoteRetry := false }
    if s.daemonLastResponseGen = e.responseGen ∧ e.responseGen ≠ 0 ∧ retry = false then (s, none)
    else
      let s := { s with daemonLastResponseGen := e.responseGen }
      if e.matchCount = 0 then (s, some (.wipe [.routes, .known, .peers, .pending] []))
      else if e.valid = [] then (s, some (.wipe [.known, .routes, .peers, .pending] []))
      else (s, some (.wipe [.known, .routes] e.valid))

def wipeTable (s : Tables) : Table → Tables
  | .routes => { s with remoteRoutes := fun _ => [] }
  | .known => { s with knownAddrs := [] }
  | .peers => { s with retainedRemotePeers := fun _ => ∅ }
  | .pending => { s with retainedRemotePending := fun _ => ∅ }

def insertKnown (known : List (Nat × Nat)) (m : Match) : List (Nat × Nat) :=
  (m.peer, m.addr) :: known.filter fun p => decide (p.1 ≠ m.peer)

def know (s : Tables) (valid : List Match) : Tables :=
  { s with knownAddrs := valid.reverse.foldl insertKnown s.knownAddrs }

def addRoute (known : List (Nat × Nat)) (routes : Nat → List Nat) (m : Match) : Nat → List Nat :=
  match known.find? fun p => decide (p.1 = m.peer) with
  | none => routes
  | some (_, addr) =>
    if addr ∈ routes m.topic then routes
    else update routes m.topic (routes m.topic ++ [addr])

def route (s : Tables) (valid : List Match) : Tables :=
  { s with remoteRoutes := valid.foldl (addRoute s.knownAddrs) s.remoteRoutes }

def activePeers (valid : List Match) (topic : Nat) : Finset Nat :=
  ((valid.filter fun m => decide (m.topic = topic)).map Match.peer).toFinset

def planOne (s : Tables) (late : Nat → Nat → Bool) (acc : (Nat → Finset Nat) × List Job) (m : Match) :
    (Nat → Finset Nat) × List Job :=
  if s.retainedRemoteSamples m.topic ≠ [] ∧ m.peer ∉ s.retainedRemotePeers m.topic ∧
      m.peer ∉ acc.1 m.topic then
    (update acc.1 m.topic (insert m.peer (acc.1 m.topic)),
      acc.2 ++ [⟨m.peer, m.topic, s.retainedRemoteSamples m.topic, late m.topic m.peer⟩])
  else acc

def prunePeers (s : Tables) (valid : List Match) : Tables :=
  { s with
    retainedRemotePending := fun t => s.retainedRemotePending t ∩ activePeers valid t
    retainedRemotePeers := fun t => s.retainedRemotePeers t ∩ activePeers valid t }

def plan (s : Tables) (late : Nat → Nat → Bool) (valid : List Match) : Tables × List Job :=
  let s := prunePeers s valid
  let r := valid.foldl (planOne s late) (s.retainedRemotePending, [])
  ({ s with retainedRemotePending := r.1 }, r.2)

def rematch (st : State n) (valid : List Match) (topic peer : Nat) : Option MatchInfo :=
  if peer ∈ activePeers valid topic then
    (st.matched topic peer).or (some ⟨st.completed topic, st.finished⟩)
  else none

def isLate (info : Option MatchInfo) : Bool := info.any MatchInfo.late

def addPeer (known : List (Nat × Nat)) (seen : List Nat) (addr : Nat) : List Nat :=
  match known.find? fun p => decide (p.2 = addr) with
  | none => seen
  | some (peer, _) => if peer ∈ seen then seen else seen ++ [peer]

def livePeers (s : Tables) (topic : Nat) : List Nat :=
  (s.remoteRoutes topic).foldl (addPeer s.knownAddrs) []

def sendAll (st : State n) (c : Call) (peers : List Nat) : State n :=
  peers.foldl
    (fun st peer => handOver st peer c.topic c.sample false (isLate (st.matched c.topic peer))) st

def sendLive (st : State n) (c : Call) : State n :=
  let st := sendAll st c (livePeers st.tables c.topic)
  { st with finished := update st.finished c.sample.call true }

def flushOne (st : State n) (i : Fin n) (call : Option Call) : List Job → State n
  | [] => setThread st i (afterSync call)
  | j :: rest =>
    match j.samples with
    | [] => setThread { st with tasks := st.tasks ++ [⟨j.peer, j.topic, .settle⟩] } i
        (.busy call (.flush rest))
    | s :: more => setThread (handOver st j.peer j.topic s true j.late) i
        (.busy call (.flush ({ j with samples := more } :: rest)))

def advance (st : State n) (i : Fin n) (e : Entry) (call : Option Call) : Point → State n
  | .retain => call.elim (setThread st i .idle) fun c =>
    setThread st i (.busy call (afterQos (st.tables.topicQosCache c.topic)))
  | .checkPeers history => call.elim (setThread st i .idle) fun c => setThread st i (.busy call
      (if st.tables.retainedRemotePeers c.topic ≠ ∅ then .enter else .checkPending history))
  | .checkPending history => call.elim (setThread st i .idle) fun c => setThread st i (.busy call
      (if st.tables.retainedRemotePending c.topic ≠ ∅ then .enter else .push history))
  | .push history => call.elim (setThread st i .idle) fun c =>
    setThread { st with tables := retainSample st.tables c.topic c.sample history } i
      (.busy call .enter)
  | .live => call.elim (setThread st i .idle) fun c => setThread (sendLive st c) i .idle
  | .enter =>
    let r := enter st.tables e
    setThread { st with tables := r.1 } i (r.2.elim (afterSync call) (Thread.busy call))
  | .wipe [] valid => setThread st i (if valid = [] then afterSync call else .busy call (.know valid))
  | .wipe (table :: rest) valid =>
    setThread { st with
      tables := wipeTable st.tables table
      matched := if table = .pending then fun _ _ => none else st.matched } i
      (.busy call (.wipe rest valid))
  | .know valid => setThread { st with tables := know st.tables valid } i (.busy call (.route valid))
  | .route valid => setThread { st with tables := route st.tables valid } i (.busy call (.plan valid))
  | .plan valid =>
    let matched := rematch st valid
    let r := plan st.tables (fun t p => isLate (matched t p)) valid
    setThread { st with tables := r.1, matched := matched } i (.busy call (.flush r.2))
  | .flush jobs => flushOne st i call jobs

/-- The completion of a flush is always reported as a success. -/
def settleTask (st : State n) (k : Nat) (c : Completion) : State n :=
  let s := st.tables
  match c.stage with
  | .settle =>
    { st with
      tables := setPending s c.topic ((s.retainedRemotePending c.topic).erase c.peer)
      tasks := if c.peer ∈ s.retainedRemotePending c.topic then
          st.tasks.set k ⟨c.peer, c.topic, .record⟩
        else st.tasks.eraseIdx k }
  | .record =>
    { st with
      tables := setPeers s c.topic (insert c.peer (s.retainedRemotePeers c.topic))
      tasks := st.tasks.eraseIdx k
      completed := update st.completed c.topic true }

def forget (s : Tables) (topic : Nat) : Tables :=
  setPending (setPeers (setSamples s topic []) topic ∅) topic ∅

def createPublisher (s : Tables) (topic : Nat) (qos : QosProfile) : Tables :=
  let first := s.publisherCounts topic = 0
  let s := { s with
    publisherCounts := update s.publisherCounts topic (s.publisherCounts topic + 1)
    topicQosCache := update s.topicQosCache topic (some (fromQosProfile qos)) }
  if qos.durability = .transientLocal ∧ first then forget s topic else s

/-- The QoS stays cached while the session subscribes to the topic. -/
def destroyPublisher (s : Tables) (topic : Nat) (subscribed : Bool) : Tables :=
  let s := { s with
    publisherCounts := update s.publisherCounts topic (s.publisherCounts topic - 1) }
  if s.publisherCounts topic ≠ 0 then s
  else
    let s := forget s topic
    if subscribed then s
    else { s with topicQosCache := update s.topicQosCache topic none }

inductive Event (n : Nat)
  | create (topic : Nat) (qos : QosProfile) (opened : Option Nat)
  | destroy (topic : Nat) (subscribed : Bool)
  | publish (i : Fin n) (topic : Nat) (data : Bytes)
  | sync (i : Fin n)
  | act (i : Fin n) (entry : Entry)
  | settle (k : Nat)
  | others (topic count : Nat)

def beginPublish (st : State n) (i : Fin n) (topic : Nat) (data : Bytes) : State n :=
  setThread { st with
    next := update st.next topic (st.next topic + 1)
    calls := st.calls + 1 } i
    (.busy (some ⟨topic, ⟨st.next topic, data, st.calls⟩⟩) .retain)

/-- A publisher may be created on another ring, which then has numbers of its
own; and other sessions take numbers of a ring as well. -/
def step (st : State n) : Event n → Option (State n)
  | .create topic qos opened => some { st with
      tables := createPublisher st.tables topic qos
      next := update st.next topic (opened.getD (st.next topic)) }
  | .destroy topic subscribed =>
    if st.tables.publisherCounts topic = 0 then none
    else some { st with tables := destroyPublisher st.tables topic subscribed }
  | .publish i topic data =>
    if st.threads i = .idle ∧ st.tables.publisherCounts topic ≠ 0 then
      some (beginPublish st i topic data)
    else none
  | .sync i => if st.threads i = .idle then some (setThread st i (.busy none .enter)) else none
  | .act i entry =>
    match st.threads i with
    | .idle => none
    | .busy call point => some (advance st i entry call point)
  | .settle k => (st.tasks[k]?).map (settleTask st k)
  | .others topic count => some { st with
      next := update st.next topic (st.next topic + count) }

def noTables : Tables where
  topicQosCache := fun _ => none
  publisherCounts := fun _ => 0
  retainedRemoteSamples := fun _ => []
  retainedRemotePeers := fun _ => ∅
  retainedRemotePending := fun _ => ∅
  retainedRemoteRetry := false
  daemonLastResponseGen := 0
  knownAddrs := []
  remoteRoutes := fun _ => []

def start (n : Nat) : State n where
  tables := noTables
  next := fun _ => 0
  threads := fun _ => .idle
  tasks := []
  sent := fun _ _ => []
  calls := 0
  finished := fun _ => false
  completed := fun _ => false
  matched := fun _ _ => none
  deliveries := []

def noPeer : Entry := ⟨true, 0, 0, []⟩

def onePeer : Entry := ⟨true, 1, 1, [⟨1, 5, 9⟩]⟩

def soloThread : Fin 1 := 0

def firstDelivery : List (Event 1) :=
  [.create 5 reliable none, .publish soloThread 5 [7]] ++ List.replicate 11 (.act soloThread noPeer) ++
    [.sync soloThread] ++ List.replicate 10 (.act soloThread onePeer) ++ [.settle 0, .settle 0]

end RmwAxon.RetainedHistory
