import RmwAxon.Cursor

namespace RmwAxon.TwoSources

open Compress Qos Session Receive SubscriberQueue QueueHistory ReceiveSpec Cursor Transition Option
open RingBuffer (Bytes)
open SessionFrame (setQueue)
open SessionRun (chatter newSession)

/-- A message comes from another session of the host, from a publisher of the
subscriber's own session or from the network. -/
inductive Origin
  | host
  | session (gid : Nat)
  | network

structure Arrival where
  origin : Origin
  payload : Bytes
  now : Nat
  later : Nat
  out : Bytes

structure State where
  subscriber : Subscriber
  arrived : List Message
  obtained : List Message

variable (codec : Codec) (t : Nat)

def deliver (w : World) (a : Arrival) : Option (Message × World) :=
  match a.origin with
  | .host =>
    match w.session.subscriptions t with
    | none => none
    | some h =>
      match RingBuffer.write (ringOf w h) a.payload with
      | (.ok s, m) => some (⟨.ring, s, a.payload⟩, setRing w h m)
      | (.error _, _) => none
  | .session gid =>
    match publishWithGid w t a.now a.payload gid with
    | (.ok s, w) => some (⟨.ring, s, a.payload⟩, w)
    | (.error _, _) => none
  | .network =>
    match w.session.remoteRecvQueues t with
    | none => none
    | some q => some (⟨.queue, q.nextSeq, a.payload⟩,
        setQueue w t (push q a.now (compress codec a.payload)).2)

def step (st : State) (a : Arrival) : Option State :=
  match deliver codec t st.subscriber.world a with
  | none => none
  | some (m, w) =>
    let r := receive codec t { st.subscriber with world := w } a.later a.out
    some ⟨r.2, st.arrived ++ [m], st.obtained ++ r.1.toList⟩

def start (w : World) (initial : Nat) : State := ⟨⟨w, initial⟩, [], []⟩

variable {codec t}

def Origin.source : Origin → Source
  | .network => .queue
  | _ => .ring

/-- A publisher of the session itself writes on the ring that its
subscription reads. -/
def onRing (t : Nat) (w : World) (h : Nat) : Origin → Prop
  | .session _ => w.session.publishers t = some h
  | _ => True

def stampOf (t : Nat) (w : World) (h : Nat) (a : Arrival) : Option Nat :=
  match a.origin with
  | .host => localTimestamp w t h (ringOf w h).writeIndex
  | _ => some a.now

def proper (a : Arrival) : Prop :=
  a.payload ≠ [] ∧ a.payload.length < 2 ^ 32 ∧ a.payload.length < a.out.length

/-- What a message needs apart from its number: it is not refused by the
queue, not turned away by the endpoints of the session and not outlived. -/
def deliverable (t : Nat) (st : State) (a : Arrival) : Prop :=
  proper a ∧
  match a.origin.source with
  | .ring => ∀ h, st.subscriber.world.session.subscriptions t = some h →
      onRing t st.subscriber.world h a.origin ∧
      qosAdmits st.subscriber.world.session t = true ∧
      outlived (lifespanOf st.subscriber.world.session t) a.later
        (stampOf t st.subscriber.world h a) = false
  | .queue => ∀ q, st.subscriber.world.session.remoteRecvQueues t = some q →
      refuses q = false ∧
      outlived (lifespanOf st.subscriber.world.session t) a.later (some a.now) = false

structure Drained (t : Nat) (s : Subscriber) (q : Queue) : Prop where
  queue : s.world.session.remoteRecvQueues t = some q
  window : ∃ lo, Window q lo
  read : select q s.cursor = none

theorem Drained.selected {s : Subscriber} {q : Queue} (h : Drained t s q) :
    ReceiveSpec.selected s.world.session t s.cursor = none := by
  refine selected_none_iff.mpr fun q' hq' => ?_
  cases h.queue.symm.trans hq'
  exact h.read

/-- The source of the message numbers it where the cursor stands. -/
def inStep (t : Nat) (st : State) (a : Arrival) : Prop :=
  deliverable t st a ∧
  match a.origin.source with
  | .ring => selected st.subscriber.world.session t st.subscriber.cursor = none ∧
      ∃ h, st.subscriber.world.session.subscriptions t = some h ∧
        (ringOf st.subscriber.world h).writeIndex = st.subscriber.cursor
  | .queue => ∃ q, Drained t st.subscriber q ∧ st.subscriber.cursor ≤ q.nextSeq

variable {a : Arrival} {st st' : State}

theorem step_ring {h : Nat} (hs : step codec t st a = some st')
    (ho : a.origin.source = .ring) (hsub : st.subscriber.world.session.subscriptions t = some h)
    (hon : onRing t st.subscriber.world h a.origin) :
    ∃ w', Published t st.subscriber.world w' h a.payload (stampOf t st.subscriber.world h a) ∧
      st' = ⟨(receive codec t ⟨w', st.subscriber.cursor⟩ a.later a.out).2,
        st.arrived ++ [⟨.ring, (ringOf st.subscriber.world h).writeIndex, a.payload⟩],
        st.obtained ++ (receive codec t ⟨w', st.subscriber.cursor⟩ a.later a.out).1.toList⟩ := by
  obtain ⟨origin, payload, now, later, out⟩ := a
  cases origin with
  | host =>
    simp only [step, deliver, hsub] at hs
    split at hs
    · cases hs
    rename_i m w' hd
    split at hd
    · rename_i s m' hw
      obtain ⟨rfl, hp⟩ := host_published hw
      cases hd
      exact ⟨_, hp, (some.inj hs).symm⟩
    · cases hd
  | session gid =>
    simp only [step, deliver] at hs
    split at hs
    · cases hs
    rename_i m w' hd
    split at hd
    · rename_i s w'' hw
      obtain ⟨rfl, hp⟩ := session_published hon hw
      cases hd
      exact ⟨_, hp, (some.inj hs).symm⟩
    · cases hd
  | network => cases ho

theorem step_queue {q : Queue} (hs : step codec t st a = some st') (ho : a.origin.source = .queue)
    (hq : st.subscriber.world.session.remoteRecvQueues t = some q) :
    st' = ⟨(receive codec t ⟨setQueue st.subscriber.world t
          (push q a.now (compress codec a.payload)).2, st.subscriber.cursor⟩ a.later a.out).2,
        st.arrived ++ [⟨.queue, q.nextSeq, a.payload⟩],
        st.obtained ++ (receive codec t ⟨setQueue st.subscriber.world t
          (push q a.now (compress codec a.payload)).2, st.subscriber.cursor⟩ a.later a.out).1.toList⟩ := by
  obtain ⟨origin, payload, now, later, out⟩ := a
  cases origin with
  | host | session gid => cases ho
  | network =>
    simp only [step, deliver, hq] at hs
    exact (some.inj hs).symm

theorem inStep_obtains (hi : inStep t st a) (hs : step codec t st a = some st') :
    ∃ m, st'.arrived = st.arrived ++ [m] ∧ st'.obtained = st.obtained ++ [m] := by
  obtain ⟨⟨⟨hne, hshort, hout⟩, hdel⟩, hi⟩ := hi
  cases ho : a.origin.source with
  | ring =>
    simp only [ho] at hdel hi
    obtain ⟨hsel, h, hsub, hcur⟩ := hi
    obtain ⟨hon, hqos, hlive⟩ := hdel h hsub
    obtain ⟨w', hp, rfl⟩ := step_ring hs ho hsub hon
    rw [← hcur] at hsel ⊢
    obtain ⟨w'', hr⟩ := ring_obtained codec hp hsub hsel hqos hlive hne hout.le
    exact ⟨_, rfl, by rw [hr]; rfl⟩
  | queue =>
    simp only [ho] at hdel hi
    obtain ⟨q, ⟨hq, ⟨lo, hw⟩, hsel⟩, hle⟩ := hi
    obtain ⟨hr, hlive⟩ := hdel q hq
    obtain rfl := step_queue hs ho hq
    refine ⟨_, rfl, ?_⟩
    rw [queue_obtained hr hw hsel hle hshort hlive hout]
    rfl

/-- In every run in which each message is numbered where the cursor stands,
every message is obtained exactly once. -/
theorem inStep_exactly_once {w : World} {initial : Nat} {st : State}
    (h : Reach (step codec t) (inStep t) (start w initial) st) :
    st.obtained.Perm st.arrived := by
  have heq : st.obtained = st.arrived := by
    refine h.invariant (I := fun st => st.obtained = st.arrived) rfl ?_
    intro s a u hsame hi hs
    obtain ⟨m, ha, ho⟩ := inStep_obtains hi hs
    rw [ha, ho, hsame]
  rw [heq]

def subscribed : World :=
  (createSubscription newSession.world none true chatter defaultSensor (.ok (0, 0))).2

theorem subscribed_created :
    createSubscription newSession.world none true chatter defaultSensor (.ok (0, 0)) =
      (.ok 0, subscribed) := rfl

def fromHost : Arrival := ⟨.host, [7], 0, 0, [0, 0]⟩

def fromNetwork : Arrival := ⟨.network, [8], 0, 0, [0, 0]⟩

/-- The host's message moves the cursor to 1, and the first message from the
network, which the queue numbers 0, is never obtained. -/
theorem second_source_skipped :
    ¬ ∀ (codec : Codec) (w₀ w : World) (env : Option Nat) (allowed : Bool) (topic : Topic)
      (qos : QosProfile) (opened : Opened) (initial : Nat) (st : State),
      createSubscription w₀ env allowed topic qos opened = (.ok initial, w) →
      Reach (step codec topic.hash) (fun _ => proper) (start w initial) st →
      st.obtained.Perm st.arrived := by
  intro hall
  have hrun : (run (step plain 5) [fromHost, fromNetwork] (start subscribed 0)).map
      (fun st => (st.obtained.length, st.arrived.length)) = some (1, 2) := by decide +kernel
  obtain ⟨st, hst, hobs⟩ := map_eq_some_iff.mp hrun
  rw [Prod.mk.injEq] at hobs
  have hreach : Reach (step plain 5) (fun _ => proper) (start subscribed 0) st :=
    reach_of_run hst (by simp [proper, fromHost, fromNetwork])
  have hperm := hall plain _ _ _ _ chatter _ _ 0 st subscribed_created hreach
  have hlen := hperm.length_eq
  omega

/-- Two messages from the network are both obtained. -/
theorem one_source_obtained :
    ∃ st : State, st.arrived.length = 2 ∧ st.obtained.Perm st.arrived := by
  have hproper : proper fromNetwork := ⟨by decide, by decide, by decide⟩
  have hfirst : inStep 5 (start subscribed 0) fromNetwork := by
    refine ⟨⟨hproper, ?_⟩, ⟨_, ⟨rfl, ⟨0, fresh_window ..⟩, rfl⟩, by decide +kernel⟩⟩
    rintro q ⟨⟩
    exact ⟨by decide +kernel, by decide +kernel⟩
  have hreach : Reach (step plain 5) (inStep 5) (start subscribed 0) _ :=
    .tail fromNetwork .refl hfirst rfl
  refine ⟨_, ?_, inStep_exactly_once (.tail fromNetwork hreach ⟨⟨hproper, ?_⟩,
    ⟨_, ⟨rfl, ⟨0, rfl, rfl⟩, rfl⟩, by decide +kernel⟩⟩ rfl)⟩
  · decide +kernel
  · rintro q ⟨⟩
    exact ⟨by decide +kernel, by decide +kernel⟩

end RmwAxon.TwoSources
