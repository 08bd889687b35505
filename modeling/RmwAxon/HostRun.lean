import RmwAxon.Host
import RmwAxon.ReceiveBySeq
import RmwAxon.ReceiveSpec
import RmwAxon.Transition

namespace RmwAxon.HostRun

open Compress Qos Session Segment Receive SubscriberQueue Host Function
open RingBuffer (Bytes)
open ReceiveSpec (selected)

structure Endpoint where
  publisher : Bool
  session : Nat
  topic : Nat
  qos : QosProfile
  deriving DecidableEq, Repr

structure Frame where
  publisher : Nat
  session : Nat
  topic : Nat
  qos : QosProfile
  time : Nat
  loaned : Bool
  deriving DecidableEq, Repr

structure Taken where
  lifespan : Option Duration
  time : Nat
  since : Option Nat
  deriving DecidableEq, Repr

/-- The machine with its clock. Ghost state: the live sessions and endpoints,
the messages under each number of a segment, the arrival times under each
number of a queue, and the payloads handed out. -/
structure State where
  machine : Machine
  clock : Nat
  alive : Nat → Bool
  endpoints : Nat → Option Endpoint
  named : Nat
  frames : Nat → Nat → Option Frame
  arrivals : Nat → Nat → Nat → Option Nat
  taken : List Taken

inductive Event
  | createPublisher (os : Os) (env : Option Nat) (i : Nat) (topic : Topic) (qos : QosProfile)
  | createSubscription (os : Os) (env : Option Nat) (allowed : Bool) (i : Nat) (topic : Topic)
      (qos : QosProfile)
  | destroy (e : Nat)
  | publish (e : Nat) (data : Bytes) (gid : Nat)
  | borrow (i t maxSize : Nat)
  | store (i h ptr : Nat) (data : Bytes)
  | commit (e ptr size : Nat)
  | arrive (i t : Nat) (payload : Bytes)
  | receive (i t seq : Nat) (out : Bytes)
  | receiveNext (i t requested : Nat) (out : Bytes)
  | tick (d : Nat)
  | die (i : Nat)
  | reap (t : Nat)

def tables (st : State) (i : Nat) : Tables := (st.machine.processes i).tables

def segment (st : State) (i h : Nat) : Nat := ((st.machine.processes i).handles h).segment

def addEndpoint (st : State) (x : Machine) (created : Bool) (e : Endpoint) : State :=
  if created then
    { st with
      machine := x
      endpoints := update st.endpoints st.named (some e)
      named := st.named + 1 }
  else { st with machine := x }

def isOk {ε α : Type} : Except ε α → Bool
  | .ok _ => true
  | .error _ => false

def applyDestroy (st : State) (e : Nat) (p : Endpoint) : State :=
  let r := if p.publisher then Host.destroyPublisher st.machine p.session p.topic
    else Host.destroySubscription st.machine p.session p.topic
  { st with
    machine := r.2
    endpoints := if isOk r.1 then update st.endpoints e none else st.endpoints }

def recordFrame (st : State) (i t : Nat) (seq : Option Nat) (f : Frame) :
    Nat → Nat → Option Frame :=
  match (tables st i).publishers t, seq with
  | some h, some s => update st.frames (segment st i h)
      (update (st.frames (segment st i h)) s (some f))
  | _, _ => st.frames

def frameOf (st : State) (e : Nat) (p : Endpoint) (loaned : Bool) : Frame :=
  ⟨e, p.session, p.topic, p.qos, st.clock, loaned⟩

def applyPublish (st : State) (e : Nat) (p : Endpoint) (data : Bytes) (gid : Nat) : State :=
  let r := Host.publishWithGid st.machine p.session p.topic st.clock data gid
  { st with
    machine := r.2
    frames := recordFrame st p.session p.topic r.1.toOption (frameOf st e p false) }

def loanNumber (st : State) (i t ptr : Nat) : Option Nat :=
  ((tables st i).publishers t).bind fun h => (st.machine.processes i).loans h ptr

def applyCommit (st : State) (e : Nat) (p : Endpoint) (ptr size : Nat) : State :=
  let r := Host.commitLoaned st.machine p.session p.topic ptr size
  { st with
    machine := r.2
    frames := recordFrame st p.session p.topic
      (if r.1 then loanNumber st p.session p.topic ptr else none) (frameOf st e p true) }

variable (codec : Codec)

def applyArrival (st : State) (i t : Nat) (payload : Bytes) : State :=
  let r := Host.arrive st.machine i t st.clock (compress codec payload)
  { st with
    machine := r.2
    arrivals := match r.1 with
      | none => st.arrivals
      | some s => update st.arrivals i (update (st.arrivals i) t
          (update (st.arrivals i t) s (some st.clock))) }

def publishedAt (st : State) (i t s : Nat) : Option Nat :=
  ((tables st i).subscriptions t).bind fun h => (st.frames (segment st i h) s).map Frame.time

def handOut (st : State) (i t size : Nat) (out : Bytes) (since : Option Nat) : List Taken :=
  if size ≤ out.length then
    ⟨lifespanOf (tables st i) t, st.clock, since⟩ :: st.taken
  else st.taken

def applyReceive (st : State) (i t seq : Nat) (out : Bytes) : State :=
  let r := ReceiveBySeq.receive codec (world st.machine i) st.clock t seq out
  let queued := ((tables st i).remoteRecvQueues t).bind fun q => (tryTake q seq out).1
  { st with
    machine := put st.machine i r.2.2
    taken := match r.1 with
      | .error _ => st.taken
      | .ok size => handOut st i t size out
          (match queued with
            | some (_, actual) => st.arrivals i t actual
            | none => publishedAt st i t seq) }

def servedNumber (q : Queue) (seq : Nat) : Option Nat :=
  (select q seq).bind fun m => q.messages.head?.bind fun oldest =>
    (q.messages[m.2 - oldest.1]?).map Prod.fst

def queuedAt (st : State) (i t requested : Nat) : Option Nat :=
  ((tables st i).remoteRecvQueues t).bind fun q =>
    (servedNumber q requested).bind (st.arrivals i t)

def applyReceiveNext (st : State) (i t requested : Nat) (out : Bytes) : State :=
  let r := Receive.receiveNext codec (world st.machine i) st.clock t requested out
  { st with
    machine := put st.machine i r.2.2
    taken := match r.1 with
      | .error _ => st.taken
      | .ok (size, actual) => handOut st i t size out
          (if (selected (tables st i) t requested).isSome then queuedAt st i t requested
            else publishedAt st i t actual) }

def applyDeath (st : State) (i : Nat) : State :=
  { st with
    machine := Host.die st.machine i
    alive := update st.alive i false
    endpoints := fun e => (st.endpoints e).filter fun p => decide (p.session ≠ i) }

def liveEndpoint (st : State) (e : Nat) : Option Endpoint :=
  (st.endpoints e).filter fun p => st.alive p.session

def publisherOf (st : State) (e : Nat) : Option Endpoint :=
  (liveEndpoint st e).filter fun p => p.publisher

def whenAlive (st : State) (i : Nat) (next : State) : Option State :=
  if st.alive i then some next else none

def step (st : State) : Event → Option State
  | .createPublisher os env i topic qos =>
    let r := Host.createPublisher os env st.machine i topic qos
    whenAlive st i (addEndpoint st r.2 (isOk r.1) ⟨true, i, topic.hash, qos⟩)
  | .createSubscription os env allowed i topic qos =>
    let r := Host.createSubscription os env allowed st.machine i topic qos
    whenAlive st i (addEndpoint st r.2 (isOk r.1) ⟨false, i, topic.hash, qos⟩)
  | .destroy e => (liveEndpoint st e).map (applyDestroy st e)
  | .publish e data gid => (publisherOf st e).map fun p => applyPublish st e p data gid
  | .borrow i t maxSize => whenAlive st i { st with machine := (Host.borrowLoaned st.machine i t maxSize).2 }
  | .store i h ptr data => whenAlive st i { st with machine := Host.storeLoaned st.machine i h ptr data }
  | .commit e ptr size => (publisherOf st e).map fun p => applyCommit st e p ptr size
  | .arrive i t payload => whenAlive st i (applyArrival codec st i t payload)
  | .receive i t seq out => whenAlive st i (applyReceive codec st i t seq out)
  | .receiveNext i t requested out => whenAlive st i (applyReceiveNext codec st i t requested out)
  | .tick d => some { st with clock := st.clock + d }
  | .die i => some (applyDeath st i)
  | .reap t => some { st with machine := Host.reap st.machine t }

def newProcess (quicTransport : Nat → Bool) (i : Nat) : Process where
  handles := fun _ => ⟨0, fun _ => none, fun _ => none⟩
  opened := 0
  loans := fun _ _ => none
  tables := newTables i (quicTransport i)

def start (quicTransport : Nat → Bool) : State where
  machine := ⟨noMemory, newProcess quicTransport⟩
  clock := 0
  alive := fun _ => true
  endpoints := fun _ => none
  named := 0
  frames := fun _ _ => none
  arrivals := fun _ _ _ => none
  taken := []

def roomyOs : Os := ⟨2 ^ 30, none, fun _ => .done, fun _ => none⟩

end RmwAxon.HostRun
