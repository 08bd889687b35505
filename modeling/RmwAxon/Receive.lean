import RmwAxon.Compress
import RmwAxon.Session

namespace RmwAxon.Receive

open Cells Compress Qos Session SubscriberQueue Endian
open RingBuffer (Bytes Ring RingError currentSeq oldestAvailableSeq slotDataSize)

inductive ReceiveError
  | subscriptionNotFound
  | noData
  | qosIncompatible
  | expired
  | size (e : RingError)
  | slot (e : RingError) (writeIdx actualSeq requestedSeq oldest : Nat)
  deriving DecidableEq, Repr

def decompressedSizeFromPrefix (seq : Nat) (q : Queue) (front : Bytes) : Option Nat :=
  match front with
  | [] => none
  | flag :: lengthBytes =>
    if flag = 1 ∧ lengthBytes.any (fun b => decide (b ≠ 0)) then some (fromBe lengthBytes)
    else if flag = 0 then (messageSize q seq).map fun n => n - 1
    else messageSize q seq

/-- Where a ring subscription starts to look: its cursor if that is still
retained, else the newest number. -/
def startSeq (m : Ring) (requested : Nat) : Nat :=
  if oldestAvailableSeq m ≤ requested then requested else currentSeq m - 1

def peekLocal (m : Ring) (requested : Nat) : Except ReceiveError (Nat × Nat) :=
  if currentSeq m = 0 ∨ currentSeq m ≤ requested then .error .noData
  else
    match slotDataSize m (startSeq m requested) with
    | .ok n => .ok (n, startSeq m requested)
    | .error .slotOverwritten =>
      match slotDataSize m (currentSeq m - 1) with
      | .ok n => .ok (n, currentSeq m - 1)
      | .error e => .error (.size e)
    | .error e => .error (.size e)

def peekNextMessageSize (w : World) (t requested : Nat) : Except ReceiveError (Nat × Nat) :=
  let remote := (w.session.remoteRecvQueues t).bind fun q =>
    (peekPrefix q requested).map fun p => (decompressedSizeFromPrefix requested q p.1, p.2)
  match remote with
  | some (some n, actual) => .ok (n, actual)
  | some (none, _) => .error .subscriptionNotFound
  | none =>
    match w.session.subscriptions t with
    | none => .error .subscriptionNotFound
    | some h => peekLocal (ringOf w h) requested

def dataAvailableFrom (w : World) (t seq : Nat) : Bool :=
  let remote := match w.session.remoteRecvQueues t with
    | some q => isActive q && SubscriberQueue.dataAvailableFrom q seq
    | none => false
  remote || match w.session.subscriptions t with
    | some h => RingBuffer.dataAvailableFrom (ringOf w h) seq
    | none => false

def lifespanOf (s : Tables) (t : Nat) : Option Duration :=
  (s.topicQosCache s.nodeId t).bind fun rq => rq.toQosProfile.lifespan

/-- A message without a timestamp counts as new. -/
def outlived (lifespan : Option Duration) (now : Nat) (stamp : Option Nat) : Bool :=
  match lifespan, stamp with
  | some l, some ts => decide (l ≠ 0 ∧ l < now - ts)
  | _, _ => false

/-- The queue's part of receive_next; none means that the ring is asked next. -/
def receiveRemote (codec : Codec) (s : Tables) (now t : Nat) (q : Queue) (requested : Nat)
    (out : Bytes) : Option (Except ReceiveError (Nat × Nat) × Bytes) :=
  let oversized := (peekPrefix q requested).bind fun p =>
    ((decompressedSizeFromPrefix requested q p.1).filter fun n => decide (out.length < n)).map
      fun n => (n, p.2)
  match oversized with
  | some r => some (.ok r, out)
  | none =>
    match readAt q requested out with
    | (none, _) => none
    | (some (size, actual), out) =>
      if out.length < size then some (.ok (size, actual), out)
      else if outlived (lifespanOf s t) now (timestampFor q actual) then
        some (.error .expired, out)
      else
        match decompress codec (out.take size) with
        | some d =>
          let d := d.take (min d.length out.length)
          some (.ok (d.length, actual), copyOut d out)
        | none => some (.ok (size, actual), out)

def slotError (m : Ring) (requested actual : Nat) (e : RingError) : ReceiveError :=
  .slot e (currentSeq m) actual requested (oldestAvailableSeq m)

/-- The scan of the ring: at most four retries, each of which may move on to
the newest number. -/
def receiveLoop (m : Ring) (requested : Nat) :
    Nat → Nat → Bytes → Except ReceiveError (Nat × Nat) × Bytes × Ring
  | 0, actual, out =>
    match RingBuffer.read m actual out with
    | (.ok size, out, m) => (.ok (size, actual), out, m)
    | (.error .slotNotYetWritten, out, m) => (.error .noData, out, m)
    | (.error e, out, m) => (.error (slotError m requested actual e), out, m)
  | retries + 1, actual, out =>
    let latest := currentSeq m - 1
    match RingBuffer.read m actual out with
    | (.ok size, out, m) => (.ok (size, actual), out, m)
    | (.error .slotOverwritten, out, m) =>
      if latest = actual then
        (.error (slotError m requested actual .slotOverwritten), out, m)
      else receiveLoop m requested retries latest out
    | (.error .slotNotYetWritten, out, m) =>
      receiveLoop m requested retries (if actual < latest then latest else actual) out
    | (.error e, out, m) => (.error (slotError m requested actual e), out, m)

/-- The endpoints of this session on the topic, if it has both kinds, agree. -/
def qosAdmits (s : Tables) (t : Nat) : Bool :=
  match s.localPublishers t, s.localSubscriptions t with
  | some pubQos, some subQos => qosProfilesCompatible pubQos subQos
  | _, _ => true

def localTimestamp (w : World) (t h seq : Nat) : Option Nat :=
  (w.session.messageTimestamps t seq).or ((w.handles h).timestamps seq)

def receiveLocal (w : World) (now t h requested : Nat) (out : Bytes) :
    Except ReceiveError (Nat × Nat) × Bytes × World :=
  let m := ringOf w h
  if currentSeq m = 0 ∨ currentSeq m ≤ requested then (.error .noData, out, w)
  else if qosAdmits w.session t = false then (.error .qosIncompatible, out, w)
  else
    let w := pruneTopic w t h (oldestAvailableSeq m)
    match receiveLoop m requested 4 (startSeq m requested) out with
    | (.error e, out, m) => (.error e, out, setRing w h m)
    | (.ok (size, actual), out, m) =>
      let w := setRing w h m
      if outlived (lifespanOf w.session t) now (localTimestamp w t h actual) then
        (.error .expired, out, w)
      else (.ok (size, actual), out, w)

def receiveNext (codec : Codec) (w : World) (now t requested : Nat) (out : Bytes) :
    Except ReceiveError (Nat × Nat) × Bytes × World :=
  let remote := (w.session.remoteRecvQueues t).bind fun q =>
    receiveRemote codec w.session now t q requested out
  match remote with
  | some (r, out) => (r, out, w)
  | none =>
    match w.session.subscriptions t with
    | none => (.error .subscriptionNotFound, out, w)
    | some h => receiveLocal w now t h requested out

end RmwAxon.Receive
