import RmwAxon.Acl
import RmwAxon.Endpoints
import RmwAxon.LocalPubSub

namespace RmwAxon.AclSession

open Registry Acl LocalPubSub Function
open Cells (slice)
open Endpoints (Creation Endpoint)
open RingBuffer (Bytes Ring RingError slotDataSize slotAt)
open Session (World SessionError Opened ringOf setRing publishOn newTables)

abbrev Gid := Vector UInt8 16

/-- The bytes of AXSRV001. -/
def serviceEnvelopeMagic : Bytes := [0x41, 0x58, 0x53, 0x52, 0x56, 0x30, 0x30, 0x31]

def toLeBytes (n : Int) : Bytes := (Endian.toBe 8 (n % 2 ^ 64).toNat).reverse

def encodeServiceEnvelope (kind : UInt8) (clientGid : Gid) (requestSequence : Int)
    (payload : Bytes) : Bytes :=
  serviceEnvelopeMagic ++ kind :: List.replicate 7 0 ++ clientGid.toList ++ toLeBytes requestSequence ++
    payload

inductive SendError
  | accessDenied
  | budgetExceeded
  | session (e : SessionError)
  | service (e : ServiceError)
  | publish (e : RingError)
  deriving DecidableEq, Repr

/-- A session with its access rules. A task of the transport holds the
internal topic it serves and the handle it captured. The rules as they were
given and the next name of a handle are kept for the statements only. -/
structure State where
  records : Records
  acl : AclEngine
  loans : Nat → Loans
  requestSequence : Nat
  tasks : List (Nat × Nat)
  rules : List Rule
  nextHandle : Nat

def State.world (st : State) : World := st.records.world

def setWorld (st : State) (w : World) : State := { st with records := { st.records with world := w } }

def allows (glob : Glob) (st : State) (t : Nat) : Bool :=
  aclAllows glob st.acl st.records.topicNameCache .publish t

/-- Whether the budget of the topic lets the message pass is read off a clock. -/
def publishWithGid (glob : Glob) (st : State) (t now : Nat) (data : Bytes) (gid : Nat)
    (inBudget : Bool) : Except SendError Nat × State :=
  if allows glob st t = false then (.error .accessDenied, st)
  else if inBudget = false then (.error .budgetExceeded, st)
  else
    match Session.publishWithGid st.world t now data gid with
    | (.error e, w) => (.error (.session e), setWorld st w)
    | (.ok seq, w) => (.ok seq, setWorld st w)

def borrowLoaned (st : State) (t maxSize : Nat) : Option (Nat × Nat) × State :=
  match st.world.session.publishers t with
  | none => (none, st)
  | some h =>
    let r := borrowBuffer (ringOf st.world h) (st.loans h) maxSize
    (r.1, { setWorld st (setRing st.world h r.2.1) with loans := update st.loans h r.2.2 })

def commitLoaned (st : State) (t ptr size : Nat) : Bool × State :=
  match st.world.session.publishers t with
  | none => (false, st)
  | some h =>
    let r := commitBuffer (ringOf st.world h) (st.loans h) ptr size
    (r.1, { setWorld st (setRing st.world h r.2.1) with loans := update st.loans h r.2.2 })

def calls (r : Records) (serviceId peers : Nat) : List (Nat × Nat) :=
  match r.world.session.quicTransport, r.serviceResponseSubs serviceId with
  | true, some h => List.replicate peers (serviceResponseTopic serviceId, h)
  | _, _ => []

def sendRequestWithGid (glob : Glob) (st : State) (serviceId : Nat) (clientGid : Gid) (now : Nat)
    (data : Bytes) (peers : Nat) : Except SendError Nat × State :=
  if allows glob st (serviceRequestTopic serviceId) = false then (.error .accessDenied, st)
  else
    let seq := st.requestSequence
    let st := { st with requestSequence := seq + 1 }
    match st.records.serviceRequestPubs serviceId with
    | none => (.error (.service .clientNotFound), st)
    | some h =>
      match publishOn st.world h now (encodeServiceEnvelope 1 clientGid seq data) 0 with
      | (.error e, w) => (.error (.publish e), setWorld st w)
      | (.ok _, w) =>
        let st := setWorld st w
        (.ok seq, { st with tasks := st.tasks ++ calls st.records serviceId peers })

/-- Only a response to a known client is wrapped. -/
def responseData (clientGid : Gid) (requestSequence : Int) (data : Bytes) : Bytes :=
  if clientGid.toList.any (· ≠ 0) then encodeServiceEnvelope 2 clientGid requestSequence data else data

def sendResponseWithInfo (glob : Glob) (st : State) (serviceId : Nat) (clientGid : Gid)
    (requestSequence : Int) (now : Nat) (data : Bytes) : Except SendError Nat × State :=
  if allows glob st (serviceResponseTopic serviceId) = false then (.error .accessDenied, st)
  else
    match st.records.serviceResponsePubs serviceId with
    | none => (.error (.service .serverNotFound), st)
    | some h =>
      match publishOn st.world h now (responseData clientGid requestSequence data) 0 with
      | (.error e, w) => (.error (.publish e), setWorld st w)
      | (.ok seq, w) => (.ok seq, setWorld st w)

/-- A task puts what came in over the network on the handle it captured,
without a look at the rules. -/
def deliver (st : State) (i now : Nat) (data : Bytes) : State :=
  match st.tasks[i]? with
  | none => st
  | some (_, h) => setWorld st (publishOn st.world h now data 0).2

/-- A subscription is created only if a rule allows its name or its hash text. -/
def gated (glob : Glob) (acl : AclEngine) : Creation → Creation
  | .subscription env _ topic qos opened => .subscription env
      (check glob acl .subscribe topic.name.toList || check glob acl .subscribe (hexText topic.hash))
      topic qos opened
  | c => c

def handlers (r : Records) (ok : Bool) : Creation → List (Nat × Nat)
  | .service serviceId _ _ _ _ _ =>
    match ok, r.world.session.quicTransport, r.serviceRequestSubs serviceId with
    | true, true, some h => [(serviceRequestTopic serviceId, h)]
    | _, _, _ => []
  | _ => []

def create (glob : Glob) (st : State) (c : Creation) : State :=
  let (ok, r) := Endpoints.create st.records (gated glob st.acl c)
  { st with records := r, tasks := st.tasks ++ handlers r ok c, nextHandle := st.nextHandle + 2 }

def addAcl (glob : Glob) (st : State) (direction : AclDirection) (pattern : Text) (allowed : Bool) :
    State :=
  { st with
    acl := (Acl.addAcl glob st.acl direction pattern allowed).2
    rules := st.rules ++ [⟨direction, pattern, allowed⟩] }

inductive Event
  | addAcl (direction : AclDirection) (pattern : Text) (allowed : Bool)
  | create (c : Creation)
  | destroy (e : Endpoint)
  | publish (t now : Nat) (data : Bytes) (gid : Nat) (inBudget : Bool)
  | borrow (t maxSize : Nat)
  | store (h ptr : Nat) (data : Bytes)
  | commit (t ptr size : Nat)
  | request (serviceId : Nat) (clientGid : Gid) (now : Nat) (data : Bytes) (peers : Nat)
  | response (serviceId : Nat) (clientGid : Gid) (requestSequence : Int) (now : Nat) (data : Bytes)
  | deliver (i now : Nat) (data : Bytes)
  | elsewhere (rings : Nat → Ring)

/-- Whether the session itself acts; elsewhere stands for every other process. -/
def Event.own : Event → Bool
  | .elsewhere _ => false
  | _ => true

/-- What create_or_open may return for a topic: a new handle of a segment
that carries the topic's channel. -/
def fits (channelOf : Nat → Nat) (h t : Nat) : Opened → Bool
  | .ok (k, segment) => k == h && channelOf segment == t
  | .error _ => true

def placed (channelOf : Nat → Nat) (h : Nat) : Creation → Bool
  | .publisher _ topic _ opened | .subscription _ _ topic _ opened => fits channelOf h topic.hash opened
  | .service serviceId _ _ _ openedReq openedRes | .client serviceId _ _ _ openedReq openedRes =>
    fits channelOf h (serviceRequestTopic serviceId) openedReq &&
      fits channelOf (h + 1) (serviceResponseTopic serviceId) openedRes

def step (glob : Glob) (channelOf : Nat → Nat) (st : State) : Event → Option State
  | .addAcl direction pattern allowed => some (addAcl glob st direction pattern allowed)
  | .create c => if placed channelOf st.nextHandle c then some (create glob st c) else none
  | .destroy e => some { st with records := (Endpoints.destroy st.records e).2 }
  | .publish t now data gid inBudget => some (publishWithGid glob st t now data gid inBudget).2
  | .borrow t maxSize => some (borrowLoaned st t maxSize).2
  | .store h ptr data =>
    if (st.loans h ptr).isSome then
      some (setWorld st (setRing st.world h (storeLoan (ringOf st.world h) ptr data)))
    else none
  | .commit t ptr size => some (commitLoaned st t ptr size).2
  | .request serviceId clientGid now data peers =>
    some (sendRequestWithGid glob st serviceId clientGid now data peers).2
  | .response serviceId clientGid requestSequence now data =>
    some (sendResponseWithInfo glob st serviceId clientGid requestSequence now data).2
  | .deliver i now data => some (deliver st i now data)
  | .elsewhere rings => some (setWorld st { st.world with rings := rings })

def start (glob : Glob) (publish subscribe : Option Text) (rings : Nat → Ring)
    (handles : Nat → Session.Handle) (nodeId : Nat) (quicTransport : Bool) : State where
  records := newRecords ⟨rings, handles, newTables nodeId quicTransport⟩
  acl := fromEnv glob publish subscribe
  loans := fun _ _ => none
  requestSequence := 1
  tasks := []
  rules := envRules publish subscribe
  nextHandle := 0

def shown (m : Ring) (s : Nat) : Option Bytes :=
  match slotDataSize m s with
  | .ok n => some (slice (slotAt m s).data n)
  | .error _ => none

def Exposes (st st' : State) (g : Nat) : Prop :=
  ∃ s p, shown (st'.world.rings g) s = some p ∧ shown (st.world.rings g) s ≠ some p

def permitted (glob : Glob) (st : State) (t : Nat) : Bool :=
  permits glob st.rules (nameOf st.records.topicNameCache t)

end RmwAxon.AclSession
