import RmwAxon.Endpoints
import RmwAxon.NodeTable

namespace RmwAxon.Advertised

open Endpoints NodeTable Qos Registry Transition List

def asBytes (s : String) : Text := s.toByteArray.data.toList

def durationToEntryFields (d : Option Duration) : Nat × Nat :=
  match d with
  | none => (0, 0)
  | some d => (min (d / nanosPerSec) (2 ^ 32 - 1), d % nanosPerSec)

/-- The depth is cast to a signed 32-bit number. -/
def historyFields : HistoryKind → Nat × Int
  | .keepLast depth => (1, (depth : Int).bmod (2 ^ 32))
  | .keepAll => (0, -1)

def livelinessField : Liveliness → Nat
  | .automatic => 0
  | .manualByTopic => 1
  | .manualByParticipant => 2
  | .unknown => 0

def qosToEntryFields (qos : QosProfile) : EntryQos where
  reliability := if qos.reliability = .reliable then 1 else 0
  durability := if qos.durability = .transientLocal then 1 else 0
  historyKind := (historyFields qos.history).1
  historyDepth := (historyFields qos.history).2
  deadlineSec := (durationToEntryFields qos.deadline).1
  deadlineNsec := (durationToEntryFields qos.deadline).2
  lifespanSec := (durationToEntryFields qos.lifespan).1
  lifespanNsec := (durationToEntryFields qos.lifespan).2
  liveliness := livelinessField qos.liveliness
  livelinessLeaseSec := (durationToEntryFields qos.livelinessLeaseDuration).1
  livelinessLeaseNsec := (durationToEntryFields qos.livelinessLeaseDuration).2

structure Advert where
  hash : Nat
  name : String
  type : String
  qos : QosProfile
  deriving DecidableEq

structure Owner where
  name : String
  nodeNamespace : String

def topicEntry (owner : Owner) (a : Advert) : TopicEntry where
  hash := a.hash
  typeHash := 0
  qos := qosToEntryFields a.qos
  topicName := copyStr maxTopicNameLen (asBytes a.name)
  topicType := copyStr maxTopicTypeLen (asBytes a.type)
  nodeName := copyStr maxNodeNameLen (asBytes owner.name)
  nodeNamespace := copyStr maxNodeNsLen (asBytes owner.nodeNamespace)

/-- The topic is appended while there is room, whether or not it is there. -/
def append (owner : Owner) (topics : List TopicEntry) (a : Advert) : List TopicEntry :=
  if topics.length < maxTopicsPerNode then topics ++ [topicEntry owner a] else topics

def registerPublishedTopicWithDaemon (owner : Owner) (slot : NodeTableEntry) (a : Advert) :
    NodeTableEntry :=
  { slot with publishedTopics := append owner slot.publishedTopics a }

def registerSubscribedTopicWithDaemon (owner : Owner) (slot : NodeTableEntry) (a : Advert) :
    NodeTableEntry :=
  { slot with subscribedTopics := append owner slot.subscribedTopics a }

structure Live where
  endpoint : Endpoint
  name : String
  type : String
  qos : QosProfile
  deriving DecidableEq

def Live.published (l : Live) : Option Advert :=
  match l.endpoint with
  | .publisher t => some ⟨t, l.name, l.type, l.qos⟩
  | .subscription _ => none
  | .server s => some ⟨serviceResponseTopic s, serviceResponsePrefix ++ l.name, l.type, l.qos⟩
  | .client s => some ⟨serviceRequestTopic s, serviceRequestPrefix ++ l.name, l.type, l.qos⟩

def Live.subscribed (l : Live) : Option Advert :=
  match l.endpoint with
  | .publisher _ => none
  | .subscription t => some ⟨t, l.name, l.type, l.qos⟩
  | .server s => some ⟨serviceRequestTopic s, serviceRequestPrefix ++ l.name, l.type, l.qos⟩
  | .client s => some ⟨serviceResponseTopic s, serviceResponsePrefix ++ l.name, l.type, l.qos⟩

def created : Creation → Live
  | .publisher _ topic qos _ => ⟨.publisher topic.hash, topic.name, topic.type, qos⟩
  | .subscription _ _ topic qos _ => ⟨.subscription topic.hash, topic.name, topic.type, qos⟩
  | .service s name type qos _ _ => ⟨.server s, name, type, qos⟩
  | .client s name type qos _ _ => ⟨.client s, name, type, qos⟩

def register (owner : Owner) (slot : NodeTableEntry) (l : Live) : NodeTableEntry :=
  let slot := l.published.elim slot (registerPublishedTopicWithDaemon owner slot)
  l.subscribed.elim slot (registerSubscribedTopicWithDaemon owner slot)

/-- A session and its slot. The list of live endpoints is kept for the
statements only. -/
structure State where
  records : Records
  slot : NodeTableEntry
  live : List Live

inductive Event
  | create (owner : Owner) (c : Creation)
  | destroy (l : Live)
  | destroyStray (e : Endpoint)

def start (r : Records) (slot : NodeTableEntry) : State :=
  ⟨r, { slot with publishedTopics := [], subscribedTopics := [] }, []⟩

/-- A destroy call names the topic only; which endpoint it was made for is
known to the caller. A stray one is made for none. -/
def step (st : State) : Event → Option State
  | .create owner c =>
    let (ok, r) := create st.records c
    some (if ok then ⟨r, register owner st.slot (created c), created c :: st.live⟩
      else { st with records := r })
  | .destroy l =>
    if l ∈ st.live then
      let (ok, r) := destroy st.records l.endpoint
      some { st with records := r, live := if ok then st.live.erase l else st.live }
    else none
  | .destroyStray e =>
    if e ∈ st.live.map Live.endpoint then none
    else some { st with records := (destroy st.records e).2 }

def NamesTopic (e : TopicEntry) (a : Advert) : Prop :=
  e.hash = a.hash ∧ readStr e.topicName = asBytes a.name ∧ readStr e.topicType = asBytes a.type

/-- The listed topics are those of the endpoints, each with the QoS of one. -/
structure Exact (topics : List TopicEntry) (adverts : List Advert) : Prop where
  sound : ∀ e ∈ topics, ∃ a ∈ adverts, NamesTopic e a ∧ e.qos = qosToEntryFields a.qos
  complete : ∀ a ∈ adverts, ∃ e ∈ topics, NamesTopic e a

def published (live : List Live) : List Advert := live.filterMap Live.published

def subscribed (live : List Live) : List Advert := live.filterMap Live.subscribed

def fitsText (size : Nat) (s : String) : Prop := (asBytes s).length < size ∧ 0 ∉ asBytes s
  deriving Decidable

def Lists (topics : List TopicEntry) (adverts : List Advert) (a : Advert) : Prop :=
  (fitsText maxTopicNameLen a.name ∧ fitsText maxTopicTypeLen a.type) ∧
    (topics.length < maxTopicsPerNode ∨
      ∃ b ∈ adverts, b.hash = a.hash ∧ b.name = a.name ∧ b.type = a.type)

instance (topics : List TopicEntry) (adverts : List Advert) (a : Advert) :
    Decidable (Lists topics adverts a) :=
  inferInstanceAs (Decidable (_ ∧ _))

/-- A creation finds room for what it announces, and what a destroyed endpoint
announced is announced by another one as well. -/
def orderly (st : State) : Event → Prop
  | .create _ c =>
    (∀ a ∈ (created c).published, Lists st.slot.publishedTopics (published st.live) a) ∧
      ∀ a ∈ (created c).subscribed, Lists st.slot.subscribedTopics (subscribed st.live) a
  | .destroy l =>
    (∀ a ∈ l.published, a ∈ published (st.live.erase l)) ∧
      ∀ a ∈ l.subscribed, a ∈ subscribed (st.live.erase l)
  | .destroyStray _ => True

instance (st : State) (ev : Event) : Decidable (orderly st ev) := by
  unfold orderly
  split <;> infer_instance

def Inv (st : State) : Prop :=
  Exact st.slot.publishedTopics (published st.live) ∧
    Exact st.slot.subscribedTopics (subscribed st.live)

variable {topics : List TopicEntry}

theorem exact_append {adverts : List Advert} {a : Advert}
    (h : Exact topics adverts) (ha : Lists topics adverts a) (owner : Owner) :
    Exact (append owner topics a) (a :: adverts) := by
  obtain ⟨⟨⟨hname, hname0⟩, htype, htype0⟩, hroom⟩ := ha
  have hnew : NamesTopic (topicEntry owner a) a :=
    ⟨rfl, readStr_copyStr hname hname0, readStr_copyStr htype htype0⟩
  unfold append
  split_ifs with hlt
  · constructor
    · intro e he
      rcases mem_append.mp he with he | he
      · obtain ⟨b, hb, hnames⟩ := h.sound e he
        exact ⟨b, mem_cons_of_mem a hb, hnames⟩
      · rw [mem_singleton.mp he]
        exact ⟨a, mem_cons_self, hnew, rfl⟩
    · intro b hb
      rcases mem_cons.mp hb with rfl | hb
      · exact ⟨_, mem_append_right topics (mem_singleton_self _), hnew⟩
      · obtain ⟨e, he, hnames⟩ := h.complete b hb
        exact ⟨e, mem_append_left _ he, hnames⟩
  · obtain ⟨b, hb, hhash, hbname, hbtype⟩ := hroom.resolve_left hlt
    constructor
    · intro e he
      obtain ⟨c, hc, hnames⟩ := h.sound e he
      exact ⟨c, mem_cons_of_mem a hc, hnames⟩
    intro c hc
    rcases mem_cons.mp hc with rfl | hc
    · obtain ⟨e, he, hnames⟩ := h.complete b hb
      exact ⟨e, he, by rwa [NamesTopic, ← hhash, ← hbname, ← hbtype]⟩
    · exact h.complete c hc

theorem Exact.congr {adverts adverts' : List Advert}
    (h : Exact topics adverts) (hmem : ∀ a, a ∈ adverts' ↔ a ∈ adverts) : Exact topics adverts' :=
  ⟨fun e he => (h.sound e he).imp fun a ha => ⟨(hmem a).mpr ha.1, ha.2⟩,
    fun a ha => h.complete a ((hmem a).mp ha)⟩

variable {announce : Live → Option Advert}

theorem mem_filterMap_erase {live : List Live} {l : Live}
    (hother : ∀ a ∈ announce l, a ∈ (live.erase l).filterMap announce) (a : Advert) :
    a ∈ (live.erase l).filterMap announce ↔ a ∈ live.filterMap announce := by
  simp only [mem_filterMap] at hother ⊢
  constructor
  · rintro ⟨l', hl', ha⟩
    exact ⟨l', mem_of_mem_erase hl', ha⟩
  rintro ⟨l', hl', ha⟩
  by_cases heq : l' = l
  · exact hother a (heq ▸ ha)
  · exact ⟨l', (mem_erase_of_ne heq).mpr hl', ha⟩

theorem register_publishedTopics (owner : Owner) (slot : NodeTableEntry) (l : Live) :
    (register owner slot l).publishedTopics =
      l.published.elim slot.publishedTopics (append owner slot.publishedTopics) := by
  unfold register
  cases l.published <;> cases l.subscribed <;> rfl

theorem register_subscribedTopics (owner : Owner) (slot : NodeTableEntry) (l : Live) :
    (register owner slot l).subscribedTopics =
      l.subscribed.elim slot.subscribedTopics (append owner slot.subscribedTopics) := by
  unfold register
  cases l.published <;> cases l.subscribed <;> rfl

theorem exact_announce {live : List Live} {l : Live} (h : Exact topics (live.filterMap announce))
    (hl : ∀ a ∈ announce l, Lists topics (live.filterMap announce) a) (owner : Owner) :
    Exact ((announce l).elim topics (append owner topics)) ((l :: live).filterMap announce) := by
  rw [filterMap_cons]
  cases ha : announce l with
  | none => exact h
  | some a => exact exact_append h (hl a ha) owner

theorem step_inv {st st' : State} {ev : Event} (hst : Inv st) (hok : orderly st ev)
    (hs : step st ev = some st') : Inv st' := by
  cases ev with
  | create owner c =>
    simp only [step, Option.some.injEq] at hs
    subst hs
    split_ifs
    · constructor
      · rw [register_publishedTopics]
        exact exact_announce hst.1 hok.1 owner
      · rw [register_subscribedTopics]
        exact exact_announce hst.2 hok.2 owner
    · exact hst
  | destroy l =>
    simp only [step] at hs
    split_ifs at hs
    · cases hs
      exact ⟨hst.1.congr (mem_filterMap_erase hok.1), hst.2.congr (mem_filterMap_erase hok.2)⟩
    · cases hs
      exact hst
  | destroyStray e =>
    simp only [step] at hs
    split_ifs at hs
    cases hs
    exact hst

/-- While no advertisement is withdrawn and the lists have room, a slot
announces the topics of the live endpoints. -/
theorem orderly_run_advertises_live {r : Records} {slot : NodeTableEntry} {st : State}
    (h : Reach step orderly (start r slot) st) :
    Exact st.slot.publishedTopics (published st.live) ∧
      Exact st.slot.subscribedTopics (subscribed st.live) :=
  h.invariant (I := Inv) ⟨⟨by simp [start], by simp [start, published]⟩,
    by simp [start], by simp [start, subscribed]⟩ fun _ _ _ hi hok hs => step_inv hi hok hs

def freshSession : State :=
  start (newRecords ⟨fun _ => RingBuffer.create RingHistory.twoSlots,
    fun _ => ⟨0, fun _ => none, fun _ => none⟩, Session.newTables 1 false⟩) zeroEntry

def talker : Owner := ⟨"talker", "/"⟩

def chatterPublisher : Creation :=
  .publisher none ⟨"/chatter", "std_msgs/msg/String", 5⟩ defaultSensor (.ok (0, 0))

/-- The topic of a publisher that has been destroyed is still announced. -/
theorem destroyed_publisher_advertised :
    ¬ ∀ r slot st, Reach step anyStep (start r slot) st →
      Exact st.slot.publishedTopics (published st.live) ∧
        Exact st.slot.subscribedTopics (subscribed st.live) := by
  intro hall
  have hrun : (run step [.create talker chatterPublisher, .destroy (created chatterPublisher)]
      freshSession).any (fun st => decide (st.slot.publishedTopics.length = 1 ∧ st.live = [])) = true := by
    decide +kernel
  obtain ⟨st, hst, hlen, hlive⟩ := exists_of_any hrun
  have hexact := (hall _ _ st (reach_of_run hst fun _ _ _ => trivial)).1
  obtain ⟨e, he⟩ := exists_mem_of_length_pos (hlen.symm ▸ Nat.one_pos)
  obtain ⟨a, ha, _⟩ := hexact.sound e he
  simp [hlive, published] at ha

/-- Of two publishers with one profile the first may go, and a server is
announced in both directions. -/
theorem second_publisher_advertised :
    ∃ st, Reach step orderly freshSession st ∧ st.live.length = 2 ∧
      st.slot.publishedTopics.length = 3 ∧ Exact st.slot.publishedTopics (published st.live) ∧
        Exact st.slot.subscribedTopics (subscribed st.live) := by
  have hrun : (guardedRun step orderly [.create talker chatterPublisher, .create talker chatterPublisher,
        .destroy (created chatterPublisher),
        .create talker (.service 9 "/add" "example_interfaces/srv/AddTwoInts" defaultSensor (.ok (1, 1))
          (.ok (2, 2)))] freshSession).any
      (fun st => decide (st.live.length = 2 ∧ st.slot.publishedTopics.length = 3)) = true := by
    decide +kernel
  obtain ⟨st, hst, hlive, hlen⟩ := exists_of_any hrun
  have hreach := reach_of_guardedRun hst
  exact ⟨st, hreach, hlive, hlen, orderly_run_advertises_live hreach⟩

end RmwAxon.Advertised
