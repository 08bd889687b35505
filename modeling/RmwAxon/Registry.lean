import RmwAxon.Session

namespace RmwAxon.Registry

open Qos Session Function

def serviceRequestTopic (serviceId : Nat) : Nat := serviceId ^^^ 0x52655100

def serviceResponseTopic (serviceId : Nat) : Nat := serviceId ^^^ 0x52657300

def serviceRequestPrefix : String := "__axon_service_request:"

def serviceResponsePrefix : String := "__axon_service_response:"

structure Records where
  world : World
  topicNameCache : Nat → Option String
  topicTypeCache : Nat → Option String
  publishedTopics : List Nat
  subscribedTopics : List Nat
  serviceRequestSubs : Nat → Option Nat
  serviceRequestPubs : Nat → Option Nat
  serviceResponseSubs : Nat → Option Nat
  serviceResponsePubs : Nat → Option Nat
  serviceServerCounts : Nat → Option Nat
  serviceClientCounts : Nat → Option Nat
  localServices : Nat → Option (String × String)
  localClients : Nat → Option (String × String)

def newRecords (w : World) : Records where
  world := w
  topicNameCache := fun _ => none
  topicTypeCache := fun _ => none
  publishedTopics := []
  subscribedTopics := []
  serviceRequestSubs := fun _ => none
  serviceRequestPubs := fun _ => none
  serviceResponseSubs := fun _ => none
  serviceResponsePubs := fun _ => none
  serviceServerCounts := fun _ => none
  serviceClientCounts := fun _ => none
  localServices := fun _ => none
  localClients := fun _ => none

inductive ServiceError
  | requestSub (io : String)
  | responsePub (io : String)
  | requestPub (io : String)
  | responseSub (io : String)
  | serverNotFound
  | clientNotFound
  deriving DecidableEq, Repr

def addTopic (topics : List Nat) (t : Nat) : List Nat := if t ∈ topics then topics else topics ++ [t]

def retainOthers (topics : List Nat) (t : Nat) : List Nat := topics.filter (· ≠ t)

def cacheTopic (r : Records) (t : Nat) (name type : String) : Records :=
  { r with
    topicNameCache := update r.topicNameCache t (some name)
    topicTypeCache := update r.topicTypeCache t (some type) }

def uncacheTopic (r : Records) (t : Nat) : Records :=
  { r with
    topicNameCache := update r.topicNameCache t none
    topicTypeCache := update r.topicTypeCache t none }

def createPublisher (r : Records) (env : Option Nat) (topic : Topic) (qos : QosProfile)
    (opened : Opened) : Except SessionError Unit × Records :=
  match Session.createPublisher r.world env topic qos opened with
  | (.error e, w) => (.error e, { r with world := w })
  | (.ok (), w) => (.ok (), cacheTopic { r with
      world := w
      publishedTopics := addTopic r.publishedTopics topic.hash } topic.hash topic.name topic.type)

def createSubscription (r : Records) (env : Option Nat) (allowed : Bool) (topic : Topic)
    (qos : QosProfile) (opened : Opened) : Except SessionError Nat × Records :=
  match Session.createSubscription r.world env allowed topic qos opened with
  | (.error e, w) => (.error e, { r with world := w })
  | (.ok seq, w) => (.ok seq, cacheTopic { r with
      world := w
      subscribedTopics := addTopic r.subscribedTopics topic.hash } topic.hash topic.name topic.type)

/-- The caches of a topic stay while the other direction has an endpoint. -/
def destroyPublisher (r : Records) (t : Nat) : Except SessionError Unit × Records :=
  match Session.destroyPublisher r.world t with
  | (.error e, w) => (.error e, { r with world := w })
  | (.ok (), w) =>
    if (w.session.publisherCounts t).isSome then (.ok (), { r with world := w })
    else
      let r := { r with world := w, publishedTopics := retainOthers r.publishedTopics t }
      (.ok (), if (w.session.subscriptionCounts t).isSome then r else uncacheTopic r t)

def destroySubscription (r : Records) (t : Nat) : Except SessionError Unit × Records :=
  match Session.destroySubscription r.world t with
  | (.error e, w) => (.error e, { r with world := w })
  | (.ok (), w) =>
    if (w.session.subscriptionCounts t).isSome then (.ok (), { r with world := w })
    else
      let r := { r with world := w, subscribedTopics := retainOthers r.subscribedTopics t }
      (.ok (), if (w.session.publisherCounts t).isSome then r else uncacheTopic r t)

/-- A service endpoint takes the other side's handle whatever its capacity. -/
def serviceHandle (w : World) (existing : Option Nat) (opened : Opened) :
    Except String (Nat × World) :=
  chooseHandle w existing 0 opened

def announce (r : Records) (serviceId published subscribed : Nat) (name type : String)
    (qos : QosProfile) : Records :=
  let req := serviceRequestTopic serviceId
  let res := serviceResponseTopic serviceId
  let s := r.world.session
  let s := { s with topicQosCache := cacheQos s req qos }
  let s := { s with topicQosCache := cacheQos s res qos }
  let r := { r with
    world := { r.world with session := { s with
      localPublishers := update s.localPublishers published (some qos)
      localSubscriptions := update s.localSubscriptions subscribed (some qos) } }
    publishedTopics := addTopic r.publishedTopics published
    subscribedTopics := addTopic r.subscribedTopics subscribed }
  cacheTopic (cacheTopic r req (serviceRequestPrefix ++ name) type) res
    (serviceResponsePrefix ++ name) type

/-- What the last server or client takes back. The caches of the internal
topics stay while the other side is registered. -/
def withdraw (r : Records) (serviceId published subscribed : Nat) (other : Bool) : Records :=
  let req := serviceRequestTopic serviceId
  let res := serviceResponseTopic serviceId
  let s := r.world.session
  let s := { s with
    localPublishers := update s.localPublishers published none
    localSubscriptions := update s.localSubscriptions subscribed none }
  let r := { r with
    world := { r.world with session := s }
    publishedTopics := retainOthers r.publishedTopics published
    subscribedTopics := retainOthers r.subscribedTopics subscribed }
  if other then r
  else
    let s := { s with topicQosCache := forgetQos s req }
    let s := { s with topicQosCache := forgetQos s res }
    uncacheTopic (uncacheTopic { r with world := { r.world with session := s } } req) res

/-- The server is counted before its response channel is opened. -/
def createNamedService (r : Records) (serviceId : Nat) (name type : String) (qos : QosProfile)
    (openedReq openedRes : Opened) : Except ServiceError Unit × Records :=
  match serviceHandle r.world (r.serviceRequestPubs serviceId) openedReq with
  | .error e => (.error (.requestSub e), r)
  | .ok (h, w) =>
    let r := { r with
      world := w
      serviceRequestSubs := update r.serviceRequestSubs serviceId (some h)
      serviceServerCounts := increment r.serviceServerCounts serviceId }
    match serviceHandle r.world (r.serviceResponseSubs serviceId) openedRes with
    | .error e => (.error (.responsePub e), r)
    | .ok (h, w) => (.ok (), announce { r with
        world := w
        serviceResponsePubs := update r.serviceResponsePubs serviceId (some h)
        localServices := update r.localServices serviceId (some (name, type)) }
        serviceId (serviceResponseTopic serviceId) (serviceRequestTopic serviceId) name type qos)

/-- The client is counted only after both channels have been opened. -/
def createNamedClient (r : Records) (serviceId : Nat) (name type : String) (qos : QosProfile)
    (openedReq openedRes : Opened) : Except ServiceError Unit × Records :=
  match serviceHandle r.world (r.serviceRequestSubs serviceId) openedReq with
  | .error e => (.error (.requestPub e), r)
  | .ok (h, w) =>
    match serviceHandle w (r.serviceResponsePubs serviceId) openedRes with
    | .error e => (.error (.responseSub e), { r with world := w })
    | .ok (h', w) => (.ok (), announce { r with
        world := w
        serviceRequestPubs := update r.serviceRequestPubs serviceId (some h)
        serviceResponseSubs := update r.serviceResponseSubs serviceId (some h')
        serviceClientCounts := increment r.serviceClientCounts serviceId
        localClients := update r.localClients serviceId (some (name, type)) }
        serviceId (serviceRequestTopic serviceId) (serviceResponseTopic serviceId) name type qos)

def destroyService (r : Records) (serviceId : Nat) : Except ServiceError Unit × Records :=
  match r.serviceServerCounts serviceId with
  | none => (.error .serverNotFound, r)
  | some count =>
    if 1 < count then
      (.ok (), { r with
        serviceServerCounts := update r.serviceServerCounts serviceId (some (count - 1)) })
    else
      (.ok (), withdraw { r with
        serviceServerCounts := update r.serviceServerCounts serviceId none
        serviceRequestSubs := update r.serviceRequestSubs serviceId none
        serviceResponsePubs := update r.serviceResponsePubs serviceId none
        localServices := update r.localServices serviceId none }
        serviceId (serviceResponseTopic serviceId) (serviceRequestTopic serviceId)
        (r.localClients serviceId).isSome)

def destroyClient (r : Records) (serviceId : Nat) : Except ServiceError Unit × Records :=
  match r.serviceClientCounts serviceId with
  | none => (.error .clientNotFound, r)
  | some count =>
    if 1 < count then
      (.ok (), { r with
        serviceClientCounts := update r.serviceClientCounts serviceId (some (count - 1)) })
    else
      (.ok (), withdraw { r with
        serviceClientCounts := update r.serviceClientCounts serviceId none
        serviceResponseSubs := update r.serviceResponseSubs serviceId none
        serviceRequestPubs := update r.serviceRequestPubs serviceId none
        localClients := update r.localClients serviceId none }
        serviceId (serviceRequestTopic serviceId) (serviceResponseTopic serviceId)
        (r.localServices serviceId).isSome)

end RmwAxon.Registry
