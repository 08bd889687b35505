import RmwAxon.ServiceEnvelope

namespace RmwAxon.ServiceRequest

open RingBuffer ServiceEnvelope Function
open AclSession (Gid encodeServiceEnvelope)

structure Request where
  clientGid : Gid
  requestSequence : Int
  payload : Bytes
  lower : -2 ^ 63 ≤ requestSequence
  upper : requestSequence < 2 ^ 63

def Request.frame (r : Request) : Bytes := encodeServiceEnvelope 1 r.clientGid r.requestSequence r.payload

/-- Where a call of rmw_take_request is. Its first look at a request asks for the
size, its second one takes it; both find the slot's size and then read it. -/
inductive Point
  | idle
  | size (attempt cap : Nat)
  | receive (attempt cap n : Nat)
  | sizeAgain (attempt cap : Nat)
  | receiveAgain (attempt cap n : Nat)
  | index (attempt cap : Nat)
  deriving DecidableEq, Repr

structure Returned where
  seq : Nat
  clientGid : Gid
  requestSequence : Int
  payload : Bytes
  deriving DecidableEq

/-- A service with its request ring. Kept for the statements only: the requests
by their numbers and which of them are complete, what the calls have returned,
whether the request that the running call looks for was complete when it began,
and whether such a call has found nothing. -/
structure State where
  ring : Ring
  nextSeq : Nat
  point : Point
  requests : Nat → Option Request
  completed : Nat → Bool
  taken : List Returned
  promised : Bool
  missed : Bool

def start (m : Ring) : State where
  ring := m
  nextSeq := m.writeIndex
  point := .idle
  requests := fun _ => none
  completed := fun _ => false
  taken := []
  promised := false
  missed := false

def smallBuf : Nat := 65536

def giveUp (st : State) : State := { st with point := .idle, missed := st.missed || st.promised }

def retry (st : State) (attempt cap : Nat) : State :=
  if attempt + 1 < 2 then { st with point := .size (attempt + 1) cap } else giveUp st

/-- A request that is being written is left for the next call. After any other
error the call looks at the write index. -/
def failed (st : State) (attempt cap : Nat) (e : RingError) : State :=
  if e = .slotNotYetWritten then giveUp st else { st with point := .index attempt cap }

def messageSize (st : State) (attempt cap : Nat) (next : Nat → Point) : State :=
  match slotDataSize st.ring st.nextSeq with
  | .ok n => { st with point := next n }
  | .error e => failed st attempt cap e

/-- The cursor moves on even if the payload cannot be deserialised. -/
def give (deserialize : Bytes → Bool) (st : State) (gid : Gid) (seq : Int) (payload : Bytes) : State :=
  let st := { st with nextSeq := st.nextSeq + 1 }
  if deserialize payload then
    { st with point := .idle, taken := st.taken ++ [⟨st.nextSeq - 1, gid, seq, payload⟩] }
  else giveUp st

def payloadLen (data : Bytes) : Nat := (decodeServiceEnvelope data).elim data.length fun e => e.2.length

def takeWithInfo (deserialize : Bytes → Bool) (st : State) (attempt cap : Nat) (data : Bytes) : State :=
  match decodeServiceEnvelope data with
  | some (header, payload) =>
    if header.kind ≠ 1 ∨ cap < payload.length then { st with point := .index attempt cap }
    else give deserialize st header.clientGid header.requestSequence payload
  | none =>
    if cap < data.length then { st with point := .index attempt cap }
    else give deserialize st (Vector.replicate 16 0) (asI64 st.nextSeq) data

/-- The next step of a call. Memory for a larger buffer may be refused: the call
then fails and the request stays where it is. -/
def advance (deserialize : Bytes → Bool) (allocated : Bool) (st : State) : Point → Option State
  | .idle => none
  | .size attempt cap => some (messageSize st attempt cap (.receive attempt cap))
  | .receive attempt cap n =>
    match read st.ring st.nextSeq (List.replicate n 0) with
    | (.ok k, buf, m) =>
      let st := { st with ring := m }
      let required := payloadLen (buf.take k)
      some (if cap = 0 ∨ cap < required then
          if allocated then retry st attempt required else { st with point := .idle }
        else { st with point := .sizeAgain attempt cap })
    | (.error e, _, m) => some (failed { st with ring := m } attempt cap e)
  | .sizeAgain attempt cap => some (messageSize st attempt cap (.receiveAgain attempt cap))
  | .receiveAgain attempt cap n =>
    match read st.ring st.nextSeq (List.replicate n 0) with
    | (.ok k, buf, m) => some (takeWithInfo deserialize { st with ring := m } attempt cap (buf.take k))
    | (.error e, _, m) => some (failed { st with ring := m } attempt cap e)
  | .index attempt cap =>
    some (if st.nextSeq < currentSeq st.ring then
        retry { st with nextSeq := currentSeq st.ring } attempt cap
      else giveUp st)

inductive Event
  | reserve (r : Request)
  | complete (s : Nat)
  | call
  | act (allocated : Bool)

def reserveSlot (m : Ring) : Ring :=
  let writeIdx := m.writeIndex
  let m := reserve m
  if lagging m writeIdx m.readIndex then compareExchangeRead m m.readIndex (retainedFrom m writeIdx) else m

def step (deserialize : Bytes → Bool) (st : State) : Event → Option State
  | .reserve r =>
    if payloadCapacity st.ring < r.frame.length then none
    else some { st with
      ring := reserveSlot st.ring
      requests := update st.requests st.ring.writeIndex (some r) }
  | .complete s =>
    (st.requests s).bind fun r =>
      if st.completed s then none
      else some { st with
        ring := fillSlot st.ring s r.frame
        completed := update st.completed s true }
  | .call =>
    if st.point = .idle then
      some { st with point := .size 0 smallBuf, promised := st.completed st.nextSeq }
    else none
  | .act allocated => advance deserialize allocated st st.point

end RmwAxon.ServiceRequest
