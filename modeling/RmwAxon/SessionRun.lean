import RmwAxon.Loan
import RmwAxon.SessionFrame

namespace RmwAxon.SessionRun

open Compress Qos Session Receive SubscriberQueue QueueHistory SessionFrame Transition Function
open RingBuffer (Bytes Ring Geometry skipAllPending)
open RingHistory (History SameSlots publish_cases)
open LocalPubSub (Loans)

/-- A session and the rings of its host. Ghost state: the loans of each
segment, and the payloads published under each number of a segment and
arrived under each number of a topic's queue. -/
structure State where
  world : World
  loans : Nat → Nat → Loans
  published : Nat → History
  arrived : Nat → History

def segmentState (st : State) (i : Nat) : Loan.State :=
  ⟨st.world.rings i, st.loans i, st.published i⟩

/-- Ring operations on a segment are made by any process of the host; the
other events are calls on the session and arrivals from the network. -/
inductive Event
  | ring (segment : Nat) (op : Loan.Op)
  | skipAllPending (segment : Nat)
  | createPublisher (env : Option Nat) (topic : Topic) (qos : QosProfile) (opened : Opened)
  | destroyPublisher (t : Nat)
  | createSubscription (env : Option Nat) (allowed : Bool) (topic : Topic) (qos : QosProfile)
      (opened : Opened)
  | destroySubscription (t : Nat)
  | publish (t now : Nat) (data : Bytes) (gid : Nat)
  | arrive (t now : Nat) (payload : Bytes)
  | tryTake (t seq : Nat) (out : Bytes)
  | receiveNext (t now requested : Nat) (out : Bytes)

def applyRing (st : State) (i : Nat) (op : Loan.Op) : State :=
  let s := Loan.apply (segmentState st i) op
  { st with
    world := { st.world with rings := update st.world.rings i s.ring }
    loans := update st.loans i s.loans
    published := update st.published i s.published }

variable (codec : Codec)

def applyArrival (st : State) (t now : Nat) (payload : Bytes) : State :=
  match st.world.session.remoteRecvQueues t with
  | none => st
  | some q =>
    let r := push q now (compress codec payload)
    { st with
      world := setQueue st.world t r.2
      arrived := update st.arrived t (record (st.arrived t) r.1 payload) }

def applyPublish (st : State) (t now : Nat) (data : Bytes) (gid : Nat) : State :=
  match st.world.session.publishers t with
  | none => st
  | some h =>
    let i := (st.world.handles h).segment
    { st with
      world := (publishWithGid st.world t now data gid).2
      published := update st.published i
        (Loan.publishWrite (segmentState st i) data) }

def apply (st : State) : Event → State
  | .ring i op => applyRing st i op
  | .skipAllPending i => { st with world := { st.world with
      rings := update st.world.rings i (skipAllPending (st.world.rings i)) } }
  | .createPublisher env topic qos opened =>
    { st with world := (createPublisher st.world env topic qos opened).2 }
  | .destroyPublisher t => { st with world := (destroyPublisher st.world t).2 }
  | .createSubscription env allowed topic qos opened =>
    { st with
      world := (createSubscription st.world env allowed topic qos opened).2
      arrived := match st.world.session.remoteRecvQueues topic.hash with
        | none => update st.arrived topic.hash fun _ => none
        | some _ => st.arrived }
  | .destroySubscription t => { st with world := (destroySubscription st.world t).2 }
  | .publish t now data gid => applyPublish st t now data gid
  | .arrive t now payload => applyArrival codec st t now payload
  | .tryTake t seq out =>
    match st.world.session.remoteRecvQueues t with
    | none => st
    | some q => { st with world := setQueue st.world t (tryTake q seq out).2.2 }
  | .receiveNext t now requested out =>
    { st with world := (receiveNext codec st.world now t requested out).2.2 }

def step (st : State) (e : Event) : Option State := some (apply codec st e)

def start (g : Nat → Geometry) (handles : Nat → Handle) (s : Tables) : State where
  world := ⟨fun i => RingBuffer.create (g i), handles, { s with remoteRecvQueues := fun _ => none }⟩
  loans := fun _ _ _ => none
  published := fun _ _ => none
  arrived := fun _ _ => none

/-- Loans are used in time, and a payload from the network has passed a ring
of its sender, whose slots are shorter than four gigabytes. -/
def meets (st : State) : Event → Prop
  | .ring i op => Loan.lent (segmentState st i) op ∧ Loan.timely (segmentState st i) op
  | .arrive _ _ payload => payload.length < 2 ^ 32
  | _ => True

def framed (arrived : History) : History := fun s => (arrived s).map (compress codec)

structure Sound (st : State) : Prop where
  rings : ∀ i, Loan.Inv (segmentState st i)
  queues : ∀ t q, st.world.session.remoteRecvQueues t = some q →
    Stored q (framed codec (st.arrived t))
  short : ∀ t s p, st.arrived t s = some p → p.length < 2 ^ 32

variable {codec}
variable {st : State}

theorem sound_of_frame (h : Sound codec st) {w : World} (hr : ∀ i, SameSlots (w.rings i) (st.world.rings i))
    (hq : ∀ t q, w.session.remoteRecvQueues t = some q →
      st.world.session.remoteRecvQueues t = some q) : Sound codec { st with world := w } :=
  ⟨fun i => Loan.inv_of_slots (h.rings i) (hr i), fun t q ht => h.queues t q (hq t q ht), h.short⟩

theorem segments_update {rings : Nat → Ring} {loans : Nat → Nat → Loans} {published : Nat → History}
    (h : ∀ j, Loan.Inv ⟨rings j, loans j, published j⟩) {s : Loan.State} (hs : Loan.Inv s)
    (i j : Nat) :
    Loan.Inv ⟨update rings i s.ring j, update loans i s.loans j, update published i s.published j⟩ := by
  by_cases hj : j = i
  · subst hj
    simpa only [update_self] using hs
  · simpa only [update_of_ne hj] using h j

theorem publish_sound (h : Sound codec st) (t now : Nat) (data : Bytes) (gid : Nat) :
    Sound codec (applyPublish st t now data gid) := by
  unfold applyPublish
  split
  · exact h
  rename_i k hk
  obtain ⟨hr, hq⟩ := publishWithGid_frame hk now data gid
  have hi := Loan.write_inv (h.rings (st.world.handles k).segment) data
  refine ⟨fun j => ?_, ?_, h.short⟩
  · have hj := segments_update h.rings hi (st.world.handles k).segment j
    simp only [segmentState, Loan.apply, update_eq_self] at hj
    simpa only [segmentState, hr, ringOf] using hj
  · simpa only [hq] using h.queues

theorem record_framed (arrived : History) (reply : Option Nat) (payload : Bytes) :
    framed codec (record arrived reply payload) =
      record (framed codec arrived) reply (compress codec payload) := by
  cases reply with
  | none => rfl
  | some s =>
    funext v
    simp only [framed, record, update_apply]
    split_ifs <;> rfl

section

variable (h : Sound codec st)
include h

theorem setQueue_sound {t : Nat} {q : Queue} {arrived : History}
    (hq : Stored q (framed codec arrived)) (hs : ∀ s p, arrived s = some p → p.length < 2 ^ 32) :
    Sound codec { st with
      world := setQueue st.world t q, arrived := update st.arrived t arrived } := by
  refine ⟨h.rings, fun u r hr => ?_, fun u s p hp => ?_⟩
  · by_cases hu : u = t
    · subst hu
      simp only [setQueue, update_self, Option.some.injEq] at hr
      subst hr
      simpa only [update_self] using hq
    · simp only [setQueue, update_of_ne hu] at hr
      simpa only [update_of_ne hu] using h.queues u r hr
  · by_cases hu : u = t
    · subst hu
      simp only [update_self] at hp
      exact hs s p hp
    · simp only [update_of_ne hu] at hp
      exact h.short u s p hp

theorem arrival_sound (t now : Nat) {payload : Bytes}
    (hp : payload.length < 2 ^ 32) : Sound codec (applyArrival codec st t now payload) := by
  unfold applyArrival
  split
  · exact h
  rename_i q hq
  refine setQueue_sound h ?_ ?_
  · rw [record_framed]
    exact push_stored (h.queues t q hq) now (compress codec payload)
  intro s p hs
  cases hr : (push q now (compress codec payload)).1 with
  | none =>
    rw [hr] at hs
    exact h.short t s p hs
  | some v =>
    rw [hr] at hs
    rcases publish_cases hs with ⟨_, rfl⟩ | ⟨_, hs⟩
    · exact hp
    · exact h.short t s p hs

theorem tryTake_sound (t seq : Nat) (out : Bytes) : Sound codec (apply codec st (.tryTake t seq out)) := by
  simp only [apply]
  split
  · exact h
  · rename_i q hq
    have hs := setQueue_sound (t := t) h (tryTake_stored (h.queues t q hq) seq out) (h.short t)
    simpa only [update_eq_self] using hs

theorem createSubscription_sound (env : Option Nat) (allowed : Bool)
    (topic : Topic) (qos : QosProfile) (opened : Opened) :
    Sound codec (apply codec st (.createSubscription env allowed topic qos opened)) := by
  obtain ⟨hr, hq⟩ := createSubscription_frame st.world env allowed topic qos opened
  have hrings (i : Nat) : SameSlots
      ((createSubscription st.world env allowed topic qos opened).2.rings i) (st.world.rings i) :=
    hr ▸ .refl _
  refine ⟨fun i => Loan.inv_of_slots (h.rings i) (hrings i), fun t q ht => ?_, fun t s p hp => ?_⟩
  · simp only [apply] at ht ⊢
    by_cases hu : t = topic.hash
    · subst hu
      rcases hq with hq | ⟨hnone, depth, seq, keepAll, hq⟩
      · rw [hq] at ht
        simpa only [ht] using h.queues _ q ht
      rw [hq, update_self, Option.some.injEq] at ht
      subst ht
      simp only [hnone, update_self]
      exact fresh_stored depth seq keepAll
    · have hold : st.world.session.remoteRecvQueues t = some q := by
        rcases hq with hq | ⟨_, depth, seq, keepAll, hq⟩
        · rwa [hq] at ht
        · rwa [hq, update_of_ne hu] at ht
      cases st.world.session.remoteRecvQueues topic.hash with
      | none => simpa only [update_of_ne hu] using h.queues t q hold
      | some _ => exact h.queues t q hold
  · simp only [apply] at hp
    cases hn : st.world.session.remoteRecvQueues topic.hash with
    | none =>
      simp only [hn, update_apply] at hp
      split_ifs at hp
      exact h.short t s p hp
    | some _ =>
      simp only [hn] at hp
      exact h.short t s p hp

theorem apply_sound {e : Event} (he : meets st e) : Sound codec (apply codec st e) := by
  cases e with
  | ring i op => exact ⟨segments_update h.rings (Loan.apply_inv (h.rings i) he.1 he.2) i, h.queues, h.short⟩
  | skipAllPending i => exact sound_of_frame h (sameSlots_update ⟨rfl, rfl, rfl⟩) fun _ _ hq => hq
  | createPublisher env topic qos opened =>
    obtain ⟨hr, hq⟩ := createPublisher_frame st.world env topic qos opened
    exact sound_of_frame h hr fun t q ht => hq ▸ ht
  | destroyPublisher t =>
    obtain ⟨hr, hq⟩ := destroyPublisher_frame st.world t
    exact sound_of_frame h (fun i => hr ▸ .refl _) fun t q ht => hq ▸ ht
  | createSubscription env allowed topic qos opened =>
    exact createSubscription_sound h env allowed topic qos opened
  | destroySubscription t =>
    obtain ⟨hr, hq⟩ := destroySubscription_frame st.world t
    exact sound_of_frame h (fun i => hr ▸ .refl _) hq
  | publish t now data gid => exact publish_sound h t now data gid
  | arrive t now payload => exact arrival_sound h t now he
  | tryTake t seq out => exact tryTake_sound h t seq out
  | receiveNext t now requested out =>
    have hk := receiveNext_kept codec st.world now t requested out
    exact sound_of_frame h hk.rings fun t q ht => hk.queues ▸ ht

end

/-- Every state that a session and its host can reach is sound. -/
theorem reach_sound {g : Nat → Geometry} {handles : Nat → Handle} {s : Tables}
    (h : Reach (step codec) meets (start g handles s) st) : Sound codec st := by
  refine h.invariant ⟨fun i => Loan.start_inv (g i), by simp [start], by simp [start]⟩ ?_
  intro s e t hi he hs
  cases hs
  exact apply_sound hi he

def chatter : Topic := ⟨"/chatter", "std_msgs/msg/String", 5⟩

def sensorRing : RingBuffer.Geometry := ⟨5, 65552, by decide, by decide, by decide, by decide⟩

def newSession : State :=
  start (fun _ => sensorRing) (fun _ => ⟨0, fun _ => none, fun _ => none⟩)
    (newTables 1 true)

end RmwAxon.SessionRun
