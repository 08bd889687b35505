import RmwAxon.Qos
import RmwAxon.SubscriberQueue

namespace RmwAxon.Session

open Qos SubscriberQueue Function
open RingBuffer (Bytes Ring RingError oldestAvailableSeq generationStart currentSeq markGeneration
  payloadCapacity)

/-- A pub/sub handle of this process: the segment it maps and the tables it
keeps beside the mapping. -/
structure Handle where
  segment : Nat
  timestamps : Timestamps
  publisherGids : Nat → Option Nat

structure Topic where
  name : String
  type : String
  hash : Nat

/-- The tables of one session. Handles are shared between the publisher and
the subscription table, so both hold names of handles. -/
structure Tables where
  nodeId : Nat
  quicTransport : Bool
  publishers : Nat → Option Nat
  subscriptions : Nat → Option Nat
  publisherCounts : Nat → Option Nat
  subscriptionCounts : Nat → Option Nat
  localPublishers : Nat → Option QosProfile
  localSubscriptions : Nat → Option QosProfile
  topicQosCache : Nat → Nat → Option RemoteQos
  remoteRecvQueues : Nat → Option Queue
  messageTimestamps : Nat → Timestamps

def newTables (nodeId : Nat) (quicTransport : Bool) : Tables where
  nodeId := nodeId
  quicTransport := quicTransport
  publishers := fun _ => none
  subscriptions := fun _ => none
  publisherCounts := fun _ => none
  subscriptionCounts := fun _ => none
  localPublishers := fun _ => none
  localSubscriptions := fun _ => none
  topicQosCache := fun _ _ => none
  remoteRecvQueues := fun _ => none
  messageTimestamps := fun _ _ => none

structure World where
  rings : Nat → Ring
  handles : Nat → Handle
  session : Tables

inductive SessionError
  | accessDenied
  | createSubscription (io : String)
  | createPublisher (io : String)
  | subscriptionNotFound
  | publisherNotFound
  | publish (e : RingError)
  deriving DecidableEq, Repr

def ringOf (w : World) (h : Nat) : Ring := w.rings (w.handles h).segment

def setRing (w : World) (h : Nat) (m : Ring) : World :=
  { w with rings := update w.rings (w.handles h).segment m }

def typeCapacity (topicType : String) (configured : Nat) : Nat :=
  match topicType with
  | "sensor_msgs/msg/Image" => 8 * 1024 * 1024
  | "sensor_msgs/msg/CompressedImage" => 4 * 1024 * 1024
  | "sensor_msgs/msg/PointCloud2" => 16 * 1024 * 1024
  | "nav_msgs/msg/OccupancyGrid" => 4 * 1024 * 1024
  | "nav2_msgs/msg/Costmap" => 16 * 1024 * 1024
  | "nav2_msgs/msg/VoxelGrid" => 16 * 1024 * 1024
  | "map_msgs/msg/OccupancyGridUpdate" => 4 * 1024 * 1024
  | "octomap_msgs/msg/Octomap" => 16 * 1024 * 1024
  | "rtabmap_msgs/msg/MapData" => 64 * 1024 * 1024
  | "rtabmap_msgs/msg/SensorData" => 64 * 1024 * 1024
  | "rtabmap_msgs/msg/RGBDImage" => 64 * 1024 * 1024
  | "rtabmap_msgs/msg/Info" | "rtabmap_msgs/msg/OdomInfo" => 8 * 1024 * 1024
  | "rtabmap_msgs/msg/MapGraph" => 4 * 1024 * 1024
  | _ => configured

/-- The environment may override the capacity of the type, never the configured one. -/
def topicMessageCapacity (env : Option Nat) (topicType : String) (configured : Nat) : Nat :=
  max (env.getD (typeCapacity topicType configured)) configured

def topicRingDepth (topic : Topic) (qos : QosProfile) : Nat :=
  match qos.history with
  | .keepAll => 256
  | .keepLast depth =>
    let minDepth :=
      if topic.name = "/clock" ∨ topic.type = "rosgraph_msgs/msg/Clock" then 64
      else if topic.type = "sensor_msgs/msg/PointCloud2" then 8
      else 2
    min (max depth minDepth) 4096

def slotSizeFor (env : Option Nat) (topic : Topic) (qos : QosProfile) : Nat :=
  min (topicMessageCapacity env topic.type qos.maxMessageSize) (2 ^ 32 - 1)

abbrev Opened := Except String (Nat × Nat)

/-- An endpoint reuses a handle of the session whose slots are large enough. -/
def chooseHandle (w : World) (existing : Option Nat) (slotSize : Nat) (opened : Opened) :
    Except String (Nat × World) :=
  let reused := existing.filter fun h => decide (slotSize ≤ payloadCapacity (ringOf w h))
  match reused, opened with
  | some h, _ => .ok (h, w)
  | none, .ok (h, segment) =>
    .ok (h, { w with
      handles := update w.handles h ⟨segment, fun _ => none, fun _ => none⟩ })
  | none, .error e => .error e

def increment (counts : Nat → Option Nat) (t : Nat) : Nat → Option Nat :=
  update counts t (some ((counts t).getD 0 + 1))

def initialSeq (m : Ring) (qos : QosProfile) : Nat :=
  if qos.durability = .transientLocal then max (oldestAvailableSeq m) (generationStart m)
  else currentSeq m

/-- A topic keeps one transport queue for all its subscriptions. -/
def openQueue (s : Tables) (t depth seq : Nat) (keepAll : Bool) : Nat → Option Queue :=
  if s.quicTransport ∧ s.remoteRecvQueues t = none then
    update s.remoteRecvQueues t (some (withSeqAndMode depth seq keepAll))
  else s.remoteRecvQueues

def cacheQos (s : Tables) (t : Nat) (qos : QosProfile) : Nat → Nat → Option RemoteQos :=
  update s.topicQosCache s.nodeId
    (update (s.topicQosCache s.nodeId) t (some (fromQosProfile qos)))

def addSubscription (s : Tables) (topic : Topic) (qos : QosProfile) (h seq : Nat) : Tables :=
  let t := topic.hash
  { s with
    publishers := if (s.publisherCounts t).isSome then update s.publishers t (some h)
      else s.publishers
    localSubscriptions := update s.localSubscriptions t (some qos)
    remoteRecvQueues := openQueue s t (topicRingDepth topic qos) seq
      (decide (qos.history = .keepAll))
    subscriptions := update s.subscriptions t (some h)
    subscriptionCounts := increment s.subscriptionCounts t
    topicQosCache := cacheQos s t qos }

def createSubscription (w : World) (env : Option Nat) (allowed : Bool) (topic : Topic)
    (qos : QosProfile) (opened : Opened) : Except SessionError Nat × World :=
  if allowed = false then (.error .accessDenied, w)
  else
    let existing := (w.session.subscriptions topic.hash).or (w.session.publishers topic.hash)
    match chooseHandle w existing (slotSizeFor env topic qos) opened with
    | .error e => (.error (.createSubscription e), w)
    | .ok (h, w) =>
      let seq := initialSeq (ringOf w h) qos
      (.ok seq, { w with session := addSubscription w.session topic qos h seq })

def forgetQos (s : Tables) (t : Nat) : Nat → Nat → Option RemoteQos :=
  update s.topicQosCache s.nodeId (update (s.topicQosCache s.nodeId) t none)

def destroySubscription (w : World) (t : Nat) : Except SessionError Unit × World :=
  let s := w.session
  match s.subscriptionCounts t with
  | none => (.error .subscriptionNotFound, w)
  | some count =>
    if 1 < count then
      (.ok (), { w with session := { s with
        subscriptionCounts := update s.subscriptionCounts t (some (count - 1)) } })
    else
      (.ok (), { w with session := { s with
        subscriptionCounts := update s.subscriptionCounts t none
        remoteRecvQueues := update s.remoteRecvQueues t none
        subscriptions := update s.subscriptions t none
        localSubscriptions := update s.localSubscriptions t none
        topicQosCache := if (s.publisherCounts t).isSome then s.topicQosCache
          else forgetQos s t } })

def addPublisher (s : Tables) (t : Nat) (qos : QosProfile) (h : Nat) : Tables :=
  { s with
    subscriptions := if (s.subscriptionCounts t).isSome then
        update s.subscriptions t (some h)
      else s.subscriptions
    publishers := update s.publishers t (some h)
    publisherCounts := increment s.publisherCounts t
    localPublishers := update s.localPublishers t (some qos)
    topicQosCache := cacheQos s t qos }

/-- The first publisher of a topic in the session marks a new generation. -/
def createPublisher (w : World) (env : Option Nat) (topic : Topic) (qos : QosProfile)
    (opened : Opened) : Except SessionError Unit × World :=
  let existing := (w.session.publishers topic.hash).or (w.session.subscriptions topic.hash)
  match chooseHandle w existing (slotSizeFor env topic qos) opened with
  | .error e => (.error (.createPublisher e), w)
  | .ok (h, w) =>
    let first := (w.session.publishers topic.hash).isNone
    let w := if first then setRing w h (markGeneration (ringOf w h)) else w
    (.ok (), { w with session := addPublisher w.session topic.hash qos h })

def destroyPublisher (w : World) (t : Nat) : Except SessionError Unit × World :=
  let s := w.session
  match s.publisherCounts t with
  | none => (.error .publisherNotFound, w)
  | some count =>
    if 1 < count then
      (.ok (), { w with session := { s with
        publisherCounts := update s.publisherCounts t (some (count - 1)) } })
    else
      (.ok (), { w with session := { s with
        publisherCounts := update s.publisherCounts t none
        publishers := update s.publishers t none
        localPublishers := update s.localPublishers t none
        topicQosCache := if (s.subscriptionCounts t).isSome then s.topicQosCache
          else forgetQos s t } })

def pruneBelow {γ : Type} (table : Nat → Option γ) (oldest : Nat) : Nat → Option γ :=
  fun s => if oldest ≤ s then table s else none

def pruneHandle (h : Handle) (oldest : Nat) : Handle :=
  { h with
    timestamps := pruneBelow h.timestamps oldest
    publisherGids := pruneBelow h.publisherGids oldest }

def pruneTopic (w : World) (t h oldest : Nat) : World :=
  { w with
    handles := update w.handles h (pruneHandle (w.handles h) oldest)
    session := { w.session with
      messageTimestamps := update w.session.messageTimestamps t
        (pruneBelow (w.session.messageTimestamps t) oldest) } }

/-- Publishing on a handle, which any process of the host may do on its own
handle of the segment. -/
def publishOn (w : World) (h now : Nat) (data : Bytes) (gid : Nat) :
    Except RingError Nat × World :=
  match RingBuffer.write (ringOf w h) data with
  | (.error e, _) => (.error e, w)
  | (.ok seq, m) =>
    let handle := w.handles h
    (.ok seq, { setRing w h m with
      handles := update w.handles h { handle with
        timestamps := update handle.timestamps seq (some now)
        publisherGids := if gid = 0 then handle.publisherGids
          else update handle.publisherGids seq (some gid) } })

def publishWithGid (w : World) (t now : Nat) (data : Bytes) (gid : Nat) :
    Except SessionError Nat × World :=
  match w.session.publishers t with
  | none => (.error .publisherNotFound, w)
  | some h =>
    match publishOn w h now data gid with
    | (.error e, w) => (.error (.publish e), w)
    | (.ok seq, w) =>
      let s := w.session
      let w := { w with session := { s with
        messageTimestamps := update s.messageTimestamps t
          (update (s.messageTimestamps t) seq (some now)) } }
      (.ok seq, if seq % 128 = 0 then pruneTopic w t h (oldestAvailableSeq (ringOf w h)) else w)

end RmwAxon.Session
