import RmwAxon.Registry
import RmwAxon.Roster
import RmwAxon.SessionFrame
import RmwAxon.Transition

namespace RmwAxon.Endpoints

open Qos Registry
open Session (Topic Opened newTables)

inductive Endpoint
  | publisher (t : Nat)
  | subscription (t : Nat)
  | server (serviceId : Nat)
  | client (serviceId : Nat)
  deriving DecidableEq, Repr

/-- The endpoint of the other direction, which shares the caches. -/
@[simp] def Endpoint.partner : Endpoint → Endpoint
  | .publisher t => .subscription t
  | .subscription t => .publisher t
  | .server serviceId => .client serviceId
  | .client serviceId => .server serviceId

inductive Table
  | publishers
  | subscriptions
  | serviceRequestSubs
  | serviceRequestPubs
  | serviceResponseSubs
  | serviceResponsePubs
  | localPublishers
  | localSubscriptions
  | localServices
  | localClients
  | publishedTopics
  | subscribedTopics
  | topicNameCache
  | topicTypeCache
  | topicQosCache
  deriving DecidableEq, Repr

@[simp] def Table.isCache : Table → Bool
  | .topicNameCache | .topicTypeCache | .topicQosCache => true
  | _ => false

@[simp] def has (r : Records) : Table → Nat → Bool
  | .publishers, k => (r.world.session.publishers k).isSome
  | .subscriptions, k => (r.world.session.subscriptions k).isSome
  | .serviceRequestSubs, k => (r.serviceRequestSubs k).isSome
  | .serviceRequestPubs, k => (r.serviceRequestPubs k).isSome
  | .serviceResponseSubs, k => (r.serviceResponseSubs k).isSome
  | .serviceResponsePubs, k => (r.serviceResponsePubs k).isSome
  | .localPublishers, k => (r.world.session.localPublishers k).isSome
  | .localSubscriptions, k => (r.world.session.localSubscriptions k).isSome
  | .localServices, k => (r.localServices k).isSome
  | .localClients, k => (r.localClients k).isSome
  | .publishedTopics, k => r.publishedTopics.contains k
  | .subscribedTopics, k => r.subscribedTopics.contains k
  | .topicNameCache, k => (r.topicNameCache k).isSome
  | .topicTypeCache, k => (r.topicTypeCache k).isSome
  | .topicQosCache, k => (r.world.session.topicQosCache r.world.session.nodeId k).isSome

@[simp] def count (r : Records) : Endpoint → Option Nat
  | .publisher t => r.world.session.publisherCounts t
  | .subscription t => r.world.session.subscriptionCounts t
  | .server serviceId => r.serviceServerCounts serviceId
  | .client serviceId => r.serviceClientCounts serviceId

@[simp] def Endpoint.published : Endpoint → Option Nat
  | .publisher t => some t
  | .subscription _ => none
  | .server serviceId => some (serviceResponseTopic serviceId)
  | .client serviceId => some (serviceRequestTopic serviceId)

@[simp] def Endpoint.subscribed : Endpoint → Option Nat
  | .publisher _ => none
  | .subscription t => some t
  | .server serviceId => some (serviceRequestTopic serviceId)
  | .client serviceId => some (serviceResponseTopic serviceId)

@[simp] def Needs (e : Endpoint) : Table → Nat → Prop
  | .publishers, k => e = .publisher k
  | .subscriptions, k => e = .subscription k
  | .serviceRequestSubs, k | .serviceResponsePubs, k | .localServices, k => e = .server k
  | .serviceRequestPubs, k | .serviceResponseSubs, k | .localClients, k => e = .client k
  | .localPublishers, k | .publishedTopics, k => e.published = some k
  | .localSubscriptions, k | .subscribedTopics, k => e.subscribed = some k
  | .topicNameCache, k | .topicTypeCache, k | .topicQosCache, k =>
    e.published = some k ∨ e.subscribed = some k

/-- What makes the last endpoint leave the caches in place. -/
@[simp] def registered (r : Records) : Endpoint → Bool
  | .publisher t => (r.world.session.publisherCounts t).isSome
  | .subscription t => (r.world.session.subscriptionCounts t).isSome
  | .server serviceId => (r.localServices serviceId).isSome
  | .client serviceId => (r.localClients serviceId).isSome

/-- The places where a publishing and a subscribing side of one session meet. -/
inductive Route
  | topic (t : Nat)
  | request (serviceId : Nat)
  | response (serviceId : Nat)

def sender (r : Records) : Route → Option Nat
  | .topic t => r.world.session.publishers t
  | .request serviceId => r.serviceRequestPubs serviceId
  | .response serviceId => r.serviceResponsePubs serviceId

def receiver (r : Records) : Route → Option Nat
  | .topic t => r.world.session.subscriptions t
  | .request serviceId => r.serviceRequestSubs serviceId
  | .response serviceId => r.serviceResponseSubs serviceId

def Shared (r : Records) : Prop :=
  ∀ route a b, sender r route = some a → receiver r route = some b → a = b

inductive Creation
  | publisher (env : Option Nat) (topic : Topic) (qos : QosProfile) (opened : Opened)
  | subscription (env : Option Nat) (allowed : Bool) (topic : Topic) (qos : QosProfile)
      (opened : Opened)
  | service (serviceId : Nat) (name type : String) (qos : QosProfile) (openedReq openedRes : Opened)
  | client (serviceId : Nat) (name type : String) (qos : QosProfile) (openedReq openedRes : Opened)

def Creation.endpoint : Creation → Endpoint
  | .publisher _ topic _ _ => .publisher topic.hash
  | .subscription _ _ topic _ _ => .subscription topic.hash
  | .service serviceId _ _ _ _ _ => .server serviceId
  | .client serviceId _ _ _ _ _ => .client serviceId

def outcome {ε α : Type} (x : Except ε α × Records) : Bool × Records := (x.1.isOk, x.2)

def create (r : Records) : Creation → Bool × Records
  | .publisher env topic qos opened => outcome (createPublisher r env topic qos opened)
  | .subscription env allowed topic qos opened => outcome (createSubscription r env allowed topic qos opened)
  | .service serviceId name type qos openedReq openedRes =>
    outcome (createNamedService r serviceId name type qos openedReq openedRes)
  | .client serviceId name type qos openedReq openedRes =>
    outcome (createNamedClient r serviceId name type qos openedReq openedRes)

def destroy (r : Records) : Endpoint → Bool × Records
  | .publisher t => outcome (destroyPublisher r t)
  | .subscription t => outcome (destroySubscription r t)
  | .server serviceId => outcome (destroyService r serviceId)
  | .client serviceId => outcome (destroyClient r serviceId)

/-- The list of live endpoints is kept for the statements only. -/
structure State where
  records : Records
  live : List Endpoint

inductive Event
  | create (c : Creation)
  | destroy (e : Endpoint)

def start (rings : Nat → RingBuffer.Ring) (handles : Nat → Session.Handle) (nodeId : Nat)
    (quicTransport : Bool) : State :=
  ⟨newRecords ⟨rings, handles, newTables nodeId quicTransport⟩, []⟩

def step (st : State) : Event → Option State
  | .create c =>
    let (ok, r) := create st.records c
    some ⟨r, if ok then c.endpoint :: st.live else st.live⟩
  | .destroy e =>
    let (ok, r) := destroy st.records e
    some ⟨r, if ok then st.live.erase e else st.live⟩

end RmwAxon.Endpoints
