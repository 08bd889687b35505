import RmwAxon.Cursor

namespace RmwAxon.KeepAll

open Compress NumberedList Qos Session Cursor SubscriberQueue QueueHistory QueueSelect ReceiveSpec List Option
open Transition
open SessionFrame (setQueue)
open SessionRun (chatter newSession)
open RingBuffer (Bytes)

structure State where
  subscriber : Subscriber
  accepted : List Nat
  returned : List Nat

def queueOf (t : Nat) (st : State) : Option Queue :=
  st.subscriber.world.session.remoteRecvQueues t

inductive Action
  | arrive (now : Nat) (payload : Bytes)
  | receiveNext (now : Nat) (out : Bytes)

variable (codec : Codec) (t : Nat)

def applyArrival (st : State) (now : Nat) (payload : Bytes) : State :=
  match queueOf t st with
  | none => st
  | some q =>
    let r := push q now (compress codec payload)
    { st with
      subscriber := { st.subscriber with world := setQueue st.subscriber.world t r.2 }
      accepted := st.accepted ++ r.1.toList }

def applyReceive (st : State) (now : Nat) (out : Bytes) : State :=
  match receive codec t st.subscriber now out with
  | (some ⟨.queue, s, _⟩, subscriber) => { st with subscriber := subscriber, returned := st.returned ++ [s] }
  | (_, subscriber) => { st with subscriber := subscriber }

def apply (st : State) : Action → State
  | .arrive now payload => applyArrival codec t st now payload
  | .receiveNext now out => applyReceive codec t st now out

def step (st : State) (a : Action) : Option State := some (apply codec t st a)

def start (w : World) (initial : Nat) : State := ⟨⟨w, initial⟩, [], []⟩

def unreturned (st : State) : List Nat := st.accepted.filter fun s => decide (s ∉ st.returned)

/-- A message is accepted whenever fewer messages than the capacity wait to
be returned. -/
def Admits (st : State) : Prop :=
  ∀ q, queueOf t st = some q → (unreturned st).length < q.capacity →
    ∀ now data, (push q now data).1 ≠ none

structure Held (q : Queue) (capacity lo : Nat) (accepted : List Nat) : Prop where
  size : q.capacity = capacity
  keepAll : q.keepAll = true
  numbered : Consecutive lo q.messages
  all : accepted = numbers q
  bounded : q.messages.length ≤ q.capacity
  next : q.messages.length < q.capacity → lo + q.messages.length = q.nextSeq

structure Inv (capacity lo : Nat) (st : State) : Prop where
  held : ∃ q, queueOf t st = some q ∧ Held q capacity lo st.accepted
  returned : ∀ s ∈ st.returned, s ∈ st.accepted

variable {q : Queue} {capacity lo : Nat} {accepted : List Nat} {st : State}

section

variable (h : Held q capacity lo accepted)
include h

theorem Held.length_le : accepted.length ≤ capacity := by
  rw [h.all, numbers, length_map, ← h.size]
  exact h.bounded

theorem push_held (now : Nat) (data : Bytes) :
    Held (push q now data).2 capacity lo (accepted ++ (push q now data).1.toList) := by
  rcases Nat.lt_or_ge q.messages.length q.capacity with hroom | hfull
  · have hr : refuses q = false := by simp [refuses, hroom]
    have hdrop : q.messages.length + 1 - q.capacity = 0 := by omega
    have hc := h.numbered.concat data
    rw [h.next hroom] at hc
    rw [push_accepted hr, hdrop, drop_zero]
    refine ⟨h.size, h.keepAll, hc, ?_, ?_, ?_⟩
    · simp [numbers, h.all]
    · rw [length_append]
      exact hroom
    · intro _
      simp [← h.next hroom, Nat.add_assoc]
  · have hr : refuses q = true := by simp [refuses, h.keepAll, hfull]
    rw [push_refused hr]
    rw [toList_none, append_nil]
    exact ⟨h.size, h.keepAll, h.numbered, h.all, h.bounded, fun hlt => absurd hlt (Nat.not_lt.mpr hfull)⟩

theorem push_ne_none_iff : (∀ now data, (push q now data).1 ≠ none) ↔ accepted.length < capacity := by
  rw [← h.size]
  have hlen : accepted.length = q.messages.length := by simp [h.all, numbers]
  rw [hlen]
  constructor
  · intro hp
    by_contra hfull
    have hr : refuses q = true := by simpa [refuses, h.keepAll] using hfull
    exact hp 0 [] (by rw [push_refused hr])
  · intro hroom now data
    have hr : refuses q = false := by simp [refuses, hroom]
    simp [push_accepted hr]

end

variable {t}

theorem arrival_inv (h : Inv t capacity lo st) (now : Nat) (payload : Bytes) :
    Inv t capacity lo (applyArrival codec t st now payload) := by
  obtain ⟨q, hq, hheld⟩ := h.held
  simp only [applyArrival, hq]
  refine ⟨⟨_, by simp [queueOf, setQueue], push_held hheld now _⟩, fun s hs => ?_⟩
  exact mem_append_left _ (h.returned s hs)

theorem receive_inv (h : Inv t capacity lo st) (now : Nat) (out : Bytes) :
    Inv t capacity lo (applyReceive codec t st now out) := by
  have hqueues := (receive_kept codec t st.subscriber now out).queues
  have hheld : ∃ q, (receive codec t st.subscriber now out).2.world.session.remoteRecvQueues t =
      some q ∧ Held q capacity lo st.accepted := by
    simpa only [hqueues, queueOf] using h.held
  unfold applyReceive
  split
  · rename_i s p subscriber hr
    rw [hr] at hheld
    refine ⟨hheld, fun v hv => ?_⟩
    rcases mem_append.mp hv with hv | hv
    · exact h.returned v hv
    obtain ⟨q, data, hsel⟩ := receive_queue (congrArg Prod.fst hr)
    obtain ⟨q', hq', hheld'⟩ := h.held
    obtain ⟨hq, hsel⟩ := selected_some_iff.mp hsel
    cases hq'.symm.trans hq
    rw [mem_singleton.mp hv, hheld'.all]
    exact mem_map_of_mem (select_mem hheld'.numbered hsel)
  · rename_i m subscriber _ hr
    rw [hr] at hheld
    exact ⟨hheld, h.returned⟩

theorem filter_length_eq_iff (h : ∀ s ∈ st.returned, s ∈ st.accepted) :
    (unreturned st).length = st.accepted.length ↔ st.returned = [] := by
  rw [unreturned, length_filter_eq_length_iff]
  simp only [decide_eq_true_eq]
  constructor
  · intro hall
    cases hr : st.returned with
    | nil => rfl
    | cons s ss =>
      have hs : s ∈ st.returned := by simp [hr]
      exact absurd hs (hall s (h s hs))
  · intro hnil s _
    simp [hnil]

theorem inv_admits_iff (h : Inv t capacity lo st) :
    Admits t st ↔ st.accepted.length < capacity ∨ st.returned = [] := by
  obtain ⟨q, hq, hheld⟩ := h.held
  have hle := hheld.length_le
  have hun : (unreturned st).length ≤ st.accepted.length := length_filter_le _ _
  have hadm : Admits t st ↔ ((unreturned st).length < capacity → st.accepted.length < capacity) := by
    rw [← push_ne_none_iff hheld, ← hheld.size]
    constructor
    · exact fun ha => ha q hq
    · intro ha q' hq'
      cases hq.symm.trans hq'
      exact ha
  rw [hadm, ← filter_length_eq_iff h.returned]
  omega

theorem start_inv {w : World} {initial : Nat} (hpos : 0 < capacity)
    (hq : w.session.remoteRecvQueues t = some (withSeqAndMode capacity initial true)) :
    Inv t capacity initial (start w initial) :=
  ⟨⟨_, hq, Nat.max_eq_left hpos, rfl, .empty _, rfl, Nat.zero_le _, fun _ => rfl⟩, by simp [start]⟩

theorem reach_inv {st' : State} (h : Inv t capacity lo st)
    (hreach : Reach (step codec t) anyStep st st') : Inv t capacity lo st' := by
  refine hreach.invariant h ?_
  intro s a u hi _ hs
  cases hs
  cases a with
  | arrive now payload => exact arrival_inv codec hi now payload
  | receiveNext now out => exact receive_inv codec hi now out

theorem arrival_accepted (h : Inv t capacity lo st) (now : Nat) (payload : Bytes) :
    (applyArrival codec t st now payload).accepted.length = min capacity (st.accepted.length + 1) ∧
      (applyArrival codec t st now payload).returned = st.returned := by
  obtain ⟨q, hq, hheld⟩ := h.held
  simp only [applyArrival, hq]
  refine ⟨?_, trivial⟩
  rw [hheld.all]
  rcases Nat.lt_or_ge q.messages.length q.capacity with hroom | hfull
  · have hr : refuses q = false := by simp [refuses, hroom]
    simp [push_accepted hr, numbers, ← hheld.size, Nat.min_eq_right hroom]
  have hr : refuses q = true := by simp [refuses, hheld.keepAll, hfull]
  have := hheld.bounded
  simp [push_refused hr, numbers, ← hheld.size]
  omega

theorem arrivals_fill (now : Nat) (payload : Bytes) (n : Nat) (h : Inv t capacity lo st) :
    ∃ st', run (step codec t) (List.replicate n (.arrive now payload)) st = some st' ∧
      Inv t capacity lo st' ∧ st'.accepted.length = min capacity (st.accepted.length + n) ∧
      st'.returned = st.returned := by
  induction n generalizing st with
  | zero =>
    obtain ⟨q, _, hheld⟩ := h.held
    exact ⟨st, rfl, h, (Nat.min_eq_right hheld.length_le).symm, rfl⟩
  | succ n ih =>
    obtain ⟨hlen, hret⟩ := arrival_accepted codec h now payload
    obtain ⟨st', hrun, hinv, hlen', hret'⟩ := ih (arrival_inv codec h now payload)
    refine ⟨st', hrun, hinv, ?_, hret'.trans hret⟩
    rw [hlen', hlen]
    omega

/-- For a subscription that keeps all and has opened the queue of its topic,
in every state of every run: messages already returned never cause a refusal
exactly while the queue has not yet accepted as many messages as it can hold,
or none of them has been returned. -/
theorem keepAll_admits_iff {w₀ w : World} {env : Option Nat} {allowed : Bool} {topic : Topic}
    {qos : QosProfile} {opened : Opened} {initial : Nat}
    (hc : createSubscription w₀ env allowed topic qos opened = (.ok initial, w))
    (hquic : w₀.session.quicTransport = true)
    (hnew : w₀.session.remoteRecvQueues topic.hash = none) (hkeep : qos.history = .keepAll)
    {st : State} (h : Reach (step codec topic.hash) anyStep (start w initial) st) :
    Admits topic.hash st ↔
      st.accepted.length < topicRingDepth topic qos ∨ st.returned = [] := by
  have hdepth : topicRingDepth topic qos = 256 := by simp [topicRingDepth, hkeep]
  have hq := SessionFrame.createSubscription_opens hc hquic hnew
  simp only [hkeep, decide_true, hdepth] at hq
  rw [hdepth]
  exact inv_admits_iff (reach_inv codec (start_inv (by decide) hq) h)

def keepAllSensor : QosProfile := { defaultSensor with history := .keepAll }

def subscribed : World :=
  (createSubscription newSession.world none true chatter keepAllSensor (.ok (0, 0))).2

theorem subscribed_created :
    createSubscription newSession.world none true chatter keepAllSensor (.ok (0, 0)) =
      (.ok 0, subscribed) := rfl

def returnOne : List Action := [.arrive 0 [7], .receiveNext 0 [0, 0]]

/-- One message of the full queue has been returned, so 255 wait, and the next
arrival is refused. -/
theorem returned_messages_fill_queue :
    ¬ ∀ (codec : Codec) (w₀ w : World) (env : Option Nat) (allowed : Bool) (topic : Topic)
      (qos : QosProfile) (opened : Opened) (initial : Nat) (st : State),
      createSubscription w₀ env allowed topic qos opened = (.ok initial, w) →
      w₀.session.quicTransport = true → w₀.session.remoteRecvQueues topic.hash = none →
      qos.history = .keepAll → Reach (step codec topic.hash) anyStep (start w initial) st →
      Admits topic.hash st := by
  intro hall
  have hrun : (run (step plain 5) returnOne (start subscribed 0)).map (·.returned) = some [0] := by
    decide +kernel
  obtain ⟨st, hst, hret⟩ := map_eq_some_iff.mp hrun
  have hreach : Reach (step plain 5) anyStep (start subscribed 0) st :=
    reach_of_run hst (fun _ _ _ => trivial)
  have hinv : Inv 5 256 0 st := reach_inv plain (start_inv (by decide) rfl) hreach
  obtain ⟨st', hfill, hinv', hlen, hret'⟩ := arrivals_fill plain 0 [7] 256 hinv
  have hadmits := hall plain _ _ _ _ chatter keepAllSensor _ 0 st' subscribed_created rfl rfl rfl
    (hreach.trans (reach_of_run hfill fun _ _ _ => trivial))
  rcases (inv_admits_iff hinv').mp hadmits with hroom | hnone
  · omega
  · rw [hret', hret] at hnone
    cases hnone

/-- A message that was returned does not count against the next one while the
queue has room. -/
theorem returned_message_admits : ∃ st : State, st.returned = [0] ∧ Admits 5 st := by
  have hrun : (run (step plain 5) returnOne (start subscribed 0)).map
      (fun st => (st.accepted, st.returned)) = some ([0], [0]) := by decide +kernel
  obtain ⟨st, hst, hobs⟩ := map_eq_some_iff.mp hrun
  rw [Prod.mk.injEq] at hobs
  refine ⟨st, hobs.2, (keepAll_admits_iff plain subscribed_created rfl rfl rfl
    (reach_of_run hst fun _ _ _ => trivial)).mpr (.inl ?_)⟩
  rw [hobs.1]
  decide

end RmwAxon.KeepAll
