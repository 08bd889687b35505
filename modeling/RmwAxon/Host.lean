import RmwAxon.LocalPubSub
import RmwAxon.Segment
import RmwAxon.Session

namespace RmwAxon.Host

open Qos Session Segment SubscriberQueue Function
open RingBuffer (Bytes payloadCapacity)
open LocalPubSub (Loans borrowBuffer commitBuffer storeLoan)

/-- A session in its process: the handles it has opened, counted so that each
gets a name of its own, and the loan table of each handle. -/
structure Process where
  handles : Nat → Handle
  opened : Nat
  loans : Nat → Loans
  tables : Tables

structure Machine where
  shm : Shm
  processes : Nat → Process

def world (x : Machine) (i : Nat) : World :=
  ⟨x.shm.rings, (x.processes i).handles, (x.processes i).tables⟩

def put (x : Machine) (i : Nat) (w : World) : Machine where
  shm := { x.shm with rings := w.rings }
  processes := update x.processes i
    { x.processes i with handles := w.handles, tables := w.session }

def reused (w : World) (existing : Option Nat) (slotSize : Nat) : Option Nat :=
  existing.filter fun h => decide (slotSize ≤ payloadCapacity (ringOf w h))

/-- The channel is opened unless a handle is reused, in which case the answer
of create_or_open is not asked for. -/
def openChannel (os : Os) (x : Machine) (i : Nat) (existing : Option Nat) (t depth slotSize : Nat) :
    Opened × Machine :=
  match reused (world x i) existing slotSize with
  | some _ => (.error "", x)
  | none =>
    match createOrOpen os x.shm t depth slotSize with
    | (.error e, shm) => (.error e, { x with shm := shm })
    | (.ok seg, shm) =>
      let p := x.processes i
      (.ok (p.opened, seg), ⟨shm, update x.processes i { p with opened := p.opened + 1 }⟩)

def existingPublisher (s : Tables) (t : Nat) : Option Nat := (s.publishers t).or (s.subscriptions t)

def existingSubscription (s : Tables) (t : Nat) : Option Nat :=
  (s.subscriptions t).or (s.publishers t)

def createPublisher (os : Os) (env : Option Nat) (x : Machine) (i : Nat) (topic : Topic)
    (qos : QosProfile) : Except SessionError Unit × Machine :=
  let r := openChannel os x i (existingPublisher (x.processes i).tables topic.hash) topic.hash
    (topicRingDepth topic qos) (slotSizeFor env topic qos)
  let c := Session.createPublisher (world r.2 i) env topic qos r.1
  (c.1, put r.2 i c.2)

def createSubscription (os : Os) (env : Option Nat) (allowed : Bool) (x : Machine) (i : Nat)
    (topic : Topic) (qos : QosProfile) : Except SessionError Nat × Machine :=
  if allowed = false then (.error .accessDenied, x)
  else
    let r := openChannel os x i (existingSubscription (x.processes i).tables topic.hash) topic.hash
      (topicRingDepth topic qos) (slotSizeFor env topic qos)
    let c := Session.createSubscription (world r.2 i) env allowed topic qos r.1
    (c.1, put r.2 i c.2)

def destroyPublisher (x : Machine) (i t : Nat) : Except SessionError Unit × Machine :=
  let c := Session.destroyPublisher (world x i) t
  (c.1, put x i c.2)

def destroySubscription (x : Machine) (i t : Nat) : Except SessionError Unit × Machine :=
  let c := Session.destroySubscription (world x i) t
  (c.1, put x i c.2)

def publishWithGid (x : Machine) (i t now : Nat) (data : Bytes) (gid : Nat) :
    Except SessionError Nat × Machine :=
  let c := Session.publishWithGid (world x i) t now data gid
  (c.1, put x i c.2)

def setLoans (x : Machine) (i h : Nat) (loans : Loans) : Machine :=
  let p := x.processes i
  ⟨x.shm, update x.processes i { p with loans := update p.loans h loans }⟩

def borrowLoaned (x : Machine) (i t maxSize : Nat) : Option (Nat × Nat) × Machine :=
  match (x.processes i).tables.publishers t with
  | none => (none, x)
  | some h =>
    let r := borrowBuffer (ringOf (world x i) h) ((x.processes i).loans h) maxSize
    (r.1, setLoans (put x i (setRing (world x i) h r.2.1)) i h r.2.2)

def storeLoaned (x : Machine) (i h ptr : Nat) (data : Bytes) : Machine :=
  put x i (setRing (world x i) h (storeLoan (ringOf (world x i) h) ptr data))

def commitLoaned (x : Machine) (i t ptr size : Nat) : Bool × Machine :=
  match (x.processes i).tables.publishers t with
  | none => (false, x)
  | some h =>
    let r := commitBuffer (ringOf (world x i) h) ((x.processes i).loans h) ptr size
    (r.1, setLoans (put x i (setRing (world x i) h r.2.1)) i h r.2.2)

def arrive (x : Machine) (i t now : Nat) (frame : Bytes) : Option Nat × Machine :=
  let s := (x.processes i).tables
  match s.remoteRecvQueues t with
  | none => (none, x)
  | some q =>
    let r := push q now frame
    (r.1, put x i { world x i with session := { s with
      remoteRecvQueues := update s.remoteRecvQueues t (some r.2) } })

def die (x : Machine) (i : Nat) : Machine :=
  let p := x.processes i
  ⟨x.shm, update x.processes i
    { p with tables := newTables p.tables.nodeId p.tables.quicTransport }⟩

def reap (x : Machine) (t : Nat) : Machine := { x with shm := unlink x.shm t }

end RmwAxon.Host
