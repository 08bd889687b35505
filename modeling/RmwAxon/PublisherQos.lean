import RmwAxon.RetainedHistory
import RmwAxon.SessionFrame

namespace RmwAxon.PublisherQos

open Qos Session List Option
open RingBuffer (Bytes payloadCapacity)
open RetainedHistory (historyDepth afterQos retainSample Sample)

def usizeMax : Nat := 2 ^ 64 - 1

def sendDepth : Option RemoteQos → Nat
  | none => 1
  | some qos =>
    if qos.reliability = .reliable then usizeMax
    else match qos.history with
      | .keepLast depth => max depth 1
      | .keepAll => 256

/-- How many samples are kept for remote peers. The flag says whether a peer
has received the history or is about to. -/
def retainDepth (delivered : Bool) : Option RemoteQos → Option Nat
  | none => none
  | some qos =>
    let transient := decide (qos.durability = .transientLocal)
    let reliableStartup := decide (qos.reliability = .reliable)
    if !transient && !reliableStartup then none
    else if !transient && delivered then none
    else some (historyDepth qos.history)

def isAutomatic : Option RemoteQos → Bool
  | none => true
  | some qos => decide (qos.liveliness = .automatic)

def cachedQos (s : Tables) (t : Nat) : Option RemoteQos := s.topicQosCache s.nodeId t

def publisherSendDepth (s : Tables) (t : Nat) : Nat := sendDepth (cachedQos s t)

def retainRemoteSample (s : Tables) (t : Nat) (delivered : Bool) (history : List (Nat × Bytes))
    (seq : Nat) (data : Bytes) : List (Nat × Bytes) :=
  match retainDepth delivered (cachedQos s t) with
  | none => history
  | some depth => (history ++ [(seq, data)]).drop (history.length + 1 - depth)

def assertsLiveliness (s : Tables) (t : Nat) : Bool := isAutomatic (cachedQos s t)

structure SameDecisions (s s' : Tables) (t : Nat) : Prop where
  sendDepth : publisherSendDepth s' t = publisherSendDepth s t
  retains : ∀ delivered history seq data,
    retainRemoteSample s' t delivered history seq data =
      retainRemoteSample s t delivered history seq data
  liveliness : assertsLiveliness s' t = assertsLiveliness s t

def Alike (p q : Option RemoteQos) : Prop :=
  sendDepth q = sendDepth p ∧ (∀ delivered, retainDepth delivered q = retainDepth delivered p) ∧
    isAutomatic q = isAutomatic p

variable {delivered : Bool} {s : Tables} {t : Nat} {w : World}

/-- What the session keeps is what the step of the retained history keeps. -/
theorem retainRemoteSample_eq_retainSample {r : RetainedHistory.Tables} (m : Sample) {history : HistoryKind}
    (h : afterQos (cachedQos s t) = .push history ∨
      afterQos (cachedQos s t) = .checkPeers history ∧ delivered = false) :
    retainRemoteSample s t delivered ((r.retainedRemoteSamples t).map fun m => (m.id, m.data)) m.id m.data =
      ((retainSample r t m history).retainedRemoteSamples t).map fun m => (m.id, m.data) := by
  have hdepth : retainDepth delivered (cachedQos s t) = some (historyDepth history) := by
    cases hq : cachedQos s t with
    | none => simp [hq, afterQos] at h
    | some qos =>
      rw [hq, afterQos] at h
      rw [retainDepth]
      split_ifs at h with hd hr <;> simp_all
  simp [retainRemoteSample, hdepth, retainSample, RetainedHistory.setSamples, RetainedHistory.keepNewest]

theorem retainDepth_pos {qos : Option RemoteQos} {depth : Nat}
    (h : retainDepth delivered qos = some depth) : 0 < depth := by
  cases qos with
  | none => cases h
  | some qos =>
    simp only [retainDepth] at h
    split_ifs at h
    cases h
    cases qos.history <;> simp [historyDepth]

theorem retainRemoteSample_none (h : retainDepth delivered (cachedQos s t) = none)
    (history : List (Nat × Bytes)) (seq : Nat) (data : Bytes) :
    retainRemoteSample s t delivered history seq data = history := by
  simp [retainRemoteSample, h]

theorem length_retainRemoteSample {depth : Nat}
    (h : retainDepth delivered (cachedQos s t) = some depth) (history : List (Nat × Bytes))
    (seq : Nat) (data : Bytes) :
    (retainRemoteSample s t delivered history seq data).length = min (history.length + 1) depth := by
  simp only [retainRemoteSample, h, length_drop, length_append, length_singleton]
  omega

theorem retainDepth_eq_of_retains {s' : Tables}
    (h : ∀ history seq data, retainRemoteSample s' t delivered history seq data =
      retainRemoteSample s t delivered history seq data) :
    retainDepth delivered (cachedQos s' t) = retainDepth delivered (cachedQos s t) := by
  have hlen : ∀ history : List (Nat × Bytes), (retainRemoteSample s' t delivered history 0 []).length =
        (retainRemoteSample s t delivered history 0 []).length :=
    fun history => congrArg length (h history 0 [])
  cases hd' : retainDepth delivered (cachedQos s' t) with
  | none =>
    cases hd : retainDepth delivered (cachedQos s t) with
    | none => rfl
    | some d =>
      have hnil := hlen []
      rw [retainRemoteSample_none hd', length_retainRemoteSample hd, length_nil] at hnil
      have := retainDepth_pos hd
      omega
  | some d' =>
    cases hd : retainDepth delivered (cachedQos s t) with
    | none =>
      have hnil := hlen []
      rw [retainRemoteSample_none hd, length_retainRemoteSample hd', length_nil] at hnil
      have := retainDepth_pos hd'
      omega
    | some d =>
      have hlong := hlen (replicate (d + d') (0, []))
      rw [length_retainRemoteSample hd, length_retainRemoteSample hd', length_replicate] at hlong
      exact congrArg some (by omega)

theorem sameDecisions_iff {s' : Tables} : SameDecisions s s' t ↔ Alike (cachedQos s t) (cachedQos s' t) := by
  constructor
  · intro h
    exact ⟨h.sendDepth, fun delivered => retainDepth_eq_of_retains (h.retains delivered), h.liveliness⟩
  · rintro ⟨hsend, hretain, hlive⟩
    refine ⟨hsend, fun delivered history seq data => ?_, hlive⟩
    simp only [retainRemoteSample, hretain]

inductive Call
  | create (env : Option Nat) (allowed : Bool) (name type : String) (qos : QosProfile)
      (opened : Opened)
  | destroy

def perform (t : Nat) (w : World) : Call → World
  | .create env allowed name type qos opened =>
    (createSubscription w env allowed ⟨name, type, t⟩ qos opened).2
  | .destroy => (destroySubscription w t).2

def granted (t : Nat) (w : World) : Call → Option QosProfile
  | .create env allowed name type qos opened =>
    let existing := (w.session.subscriptions t).or (w.session.publishers t)
    let slotSize := slotSizeFor env ⟨name, type, t⟩ qos
    if allowed && (existing.any (fun h => decide (slotSize ≤ payloadCapacity (ringOf w h))) ||
      opened.isOk) then some qos
    else none
  | .destroy => none

def lastGranted (t : Nat) (w : World) : List Call → Option QosProfile
  | [] => none
  | c :: cs => (lastGranted t (perform t w c) cs).or (granted t w c)

theorem createSubscription_cache {env : Option Nat} {allowed : Bool} {name type : String}
    {qos : QosProfile} {opened : Opened} :
    let w' := (createSubscription w env allowed ⟨name, type, t⟩ qos opened).2
    w'.session.publisherCounts = w.session.publisherCounts ∧ cachedQos w'.session t =
        ((granted t w (.create env allowed name type qos opened)).map fromQosProfile).or
          (cachedQos w.session t) := by
  cases allowed with
  | false => simp [createSubscription, granted]
  | true =>
    simp only [createSubscription, granted, chooseHandle]
    cases hex : (w.session.subscriptions t).or (w.session.publishers t) with
    | none =>
      cases opened with
      | error e => simp [Except.isOk, Except.toBool]
      | ok p => simp [Except.isOk, Except.toBool, addSubscription, cachedQos, cacheQos]
    | some h =>
      by_cases hfit : slotSizeFor env ⟨name, type, t⟩ qos ≤ payloadCapacity (ringOf w h)
      · simp [hfit, filter_some, addSubscription, cachedQos, cacheQos]
      cases opened with
      | error e => simp [hfit, filter_some, Except.isOk, Except.toBool]
      | ok p => simp [hfit, filter_some, Except.isOk, Except.toBool, addSubscription, cachedQos, cacheQos]

theorem perform_cache (c : Call) (hpub : (w.session.publisherCounts t).isSome) :
    (perform t w c).session.publisherCounts = w.session.publisherCounts ∧
      cachedQos (perform t w c).session t =
        ((granted t w c).map fromQosProfile).or (cachedQos w.session t) := by
  cases c with
  | create env allowed name type qos opened => exact createSubscription_cache
  | destroy =>
    simp only [perform, granted, destroySubscription, hpub, if_true]
    split
    · exact ⟨rfl, rfl⟩
    · split_ifs <;> exact ⟨rfl, rfl⟩

theorem performs_cache (calls : List Call) (hpub : (w.session.publisherCounts t).isSome) :
    cachedQos (calls.foldl (perform t) w).session t =
      ((lastGranted t w calls).map fromQosProfile).or (cachedQos w.session t) := by
  induction calls generalizing w with
  | nil => rfl
  | cons c cs ih =>
    obtain ⟨hcounts, hcache⟩ := perform_cache c hpub
    rw [foldl_cons, ih (by rwa [hcounts]), hcache, lastGranted]
    cases lastGranted t (perform t w c) cs <;> rfl

/-- The publishing side of a topic decides as before exactly when the last
subscription that went through asked for nothing else than what was cached. -/
theorem decisions_kept_iff (t : Nat) (w : World) (calls : List Call)
    (hpub : (w.session.publisherCounts t).isSome) :
    SameDecisions w.session (calls.foldl (perform t) w).session t ↔
      ∀ qos ∈ lastGranted t w calls, Alike (cachedQos w.session t) (some (fromQosProfile qos)) := by
  rw [sameDecisions_iff, performs_cache calls hpub]
  cases lastGranted t w calls with
  | none => simp [Alike]
  | some qos => simp

def latchedPublisher : World :=
  (createPublisher ⟨fun _ => RingBuffer.create RingHistory.twoSlots,
      fun _ => ⟨0, fun _ => none, fun _ => none⟩, newTables 1 false⟩ none
    ⟨"/map", "nav_msgs/msg/OccupancyGrid", 5⟩
    { defaultSensor with durability := .transientLocal, reliability := .reliable } (.ok (0, 0))).2

def subscribe (qos : QosProfile) : Call :=
  .create none true "/map" "nav_msgs/msg/OccupancyGrid" qos (.ok (1, 0))

theorem volatile_subscription_ends_retention :
    ¬ ∀ (t : Nat) (w : World) (calls : List Call), (w.session.publisherCounts t).isSome →
      SameDecisions w.session (calls.foldl (perform t) w).session t := by
  intro hall
  have hsame := hall 5 latchedPublisher [subscribe defaultSensor, .destroy] rfl
  have hdepth := (sameDecisions_iff.mp hsame).2.1 false
  have hpair : retainDepth false (cachedQos latchedPublisher.session 5) = some 5 ∧
      retainDepth false (cachedQos (([subscribe defaultSensor, .destroy]).foldl (perform 5)
        latchedPublisher).session 5) = none := by
    decide +kernel
  rw [hpair.1, hpair.2] at hdepth
  cases hdepth

/-- A subscription that is latched and reliable as well changes nothing. -/
theorem latched_subscription_keeps_decisions :
    SameDecisions latchedPublisher.session
      (([subscribe { defaultSensor with durability := .transientLocal, reliability := .reliable },
        .destroy]).foldl (perform 5) latchedPublisher).session 5 := by
  refine (decisions_kept_iff 5 latchedPublisher _ rfl).mpr ?_
  have hlast : lastGranted 5 latchedPublisher
      [subscribe { defaultSensor with durability := .transientLocal, reliability := .reliable }, .destroy] =
      some { defaultSensor with durability := .transientLocal, reliability := .reliable } := by
    decide +kernel
  rw [hlast]
  rintro qos ⟨⟩
  exact ⟨rfl, fun _ => rfl, rfl⟩

end RmwAxon.PublisherQos
