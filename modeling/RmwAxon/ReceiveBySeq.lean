import RmwAxon.SessionFrame

namespace RmwAxon.ReceiveBySeq

open Cells Compress Session Receive SubscriberQueue SessionFrame
open RingBuffer (Bytes oldestAvailableSeq)

/-- The queue's part of receive, which takes the message out before it asks
for its timestamp; none means that the ring is asked next. -/
def receiveQueued (codec : Codec) (s : Tables) (now t : Nat) (q : Queue) (seq : Nat) (out : Bytes) :
    Option (Except ReceiveError Nat × Bytes × Queue) :=
  let oversized := (peekPrefix q seq).bind fun p =>
    (decompressedSizeFromPrefix seq q p.1).filter fun n => decide (out.length < n)
  match oversized with
  | some n => some (.ok n, out, q)
  | none =>
    match tryTake q seq out with
    | (none, _, _) => none
    | (some (size, _), out, q) =>
      if out.length < size then some (.ok size, out, q)
      else if outlived (lifespanOf s t) now (timestampFor q seq) then
        some (.error .expired, out, q)
      else
        match decompress codec (out.take size) with
        | some d =>
          let d := d.take (min d.length out.length)
          some (.ok d.length, copyOut d out, q)
        | none => some (.ok size, out, q)

def receiveSlot (w : World) (now t h seq : Nat) (out : Bytes) :
    Except ReceiveError Nat × Bytes × World :=
  if qosAdmits w.session t = false then (.error .qosIncompatible, out, w)
  else if outlived (lifespanOf w.session t) now (localTimestamp w t h seq) then
    (.error .expired, out, w)
  else
    let m := ringOf w h
    let w := pruneTopic w t h (oldestAvailableSeq m)
    match RingBuffer.read m seq out with
    | (.ok n, out, m) => (.ok n, out, setRing w h m)
    | (.error e, out, m) => (.error (.size e), out, setRing w h m)

def receive (codec : Codec) (w : World) (now t seq : Nat) (out : Bytes) :
    Except ReceiveError Nat × Bytes × World :=
  let remote := (w.session.remoteRecvQueues t).bind fun q =>
    receiveQueued codec w.session now t q seq out
  match remote with
  | some (r, out, q) => (r, out, setQueue w t q)
  | none =>
    match w.session.subscriptions t with
    | none => (.error .subscriptionNotFound, out, w)
    | some h => receiveSlot w now t h seq out

end RmwAxon.ReceiveBySeq
