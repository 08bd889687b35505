import RmwAxon.Expiry
import RmwAxon.HostStamp
import RmwAxon.QueueTimes
import RmwAxon.SessionRun

namespace RmwAxon.Lifespan

open Compress Qos Session Receive SubscriberQueue QueueHistory QueueSelect QueueTimes Expiry List Option
open ReceiveSpec NumberedList Host HostFrame HostRun HostInv HostChange HostStamp Transition
open RingBuffer (Bytes oldestAvailableSeq)
open SessionRun (chatter)

variable {codec : Codec} {st : State} {i t : Nat}

def youngQueue (st : State) (i t L : Nat) : Prop :=
  ∀ q ∈ queueOf st i t, ∀ m ∈ q.messages, ∀ τ ∈ st.arrivals i t m.1, st.clock - τ ≤ L

def unbrokenQueue (st : State) (i t : Nat) : Prop :=
  ∀ q ∈ queueOf st i t, Consecutive ((numbers q).headD 0) q.messages

/-- Every retained message that is older than L was published by the session
itself, and not through a loan. -/
def ownRing (st : State) (i t L : Nat) : Prop :=
  ∀ h ∈ (tables st i).subscriptions t,
    ∀ s < (st.machine.shm.rings (segment st i h)).writeIndex,
      oldestAvailableSeq (st.machine.shm.rings (segment st i h)) ≤ s →
      ∀ f ∈ st.frames (segment st i h) s, L < st.clock - f.time →
        f.session = i ∧ f.loaned = false

def datable (st : State) : Event → Prop
  | .receive i t _ _ => ∀ L ∈ lifespanOf (tables st i) t, youngQueue st i t L ∧ ownRing st i t L
  | .receiveNext i t _ _ => ∀ L ∈ lifespanOf (tables st i) t,
      (youngQueue st i t L ∨ unbrokenQueue st i t) ∧ ownRing st i t L
  | _ => True

def Fresh (r : Taken) : Prop :=
  ∀ L τ, r.lifespan = some L → r.since = some τ → r.time - τ ≤ L

structure Inv (st : State) : Prop where
  tidy : AllTidy st.machine
  stamped : Stamped st
  timed : ∀ i t q, queueOf st i t = some q → Timed q (st.arrivals i t)
  fresh : ∀ r ∈ st.taken, Fresh r

variable {L requested s τ : Nat}

theorem ring_fresh (h : Inv st) (ha : st.alive i = true) {k : Nat}
    (hk : (tables st i).subscriptions t = some k) (hl : lifespanOf (tables st i) t = some L)
    (hown : ownRing st i t L)
    (hread : s < (ringOf (world st.machine i) k).writeIndex ∧
      oldestAvailableSeq (ringOf (world st.machine i) k) ≤ s ∧
      outlived (lifespanOf (tables st i) t) st.clock (localTimestamp (world st.machine i) t k s) = false)
    (hτ : publishedAt st i t s = some τ) : st.clock - τ ≤ L := by
  obtain ⟨hlt, hge, hout⟩ := hread
  simp only [publishedAt, hk, bind_some] at hτ
  obtain ⟨f, hf, rfl⟩ := map_eq_some_iff.mp hτ
  by_contra hold
  obtain ⟨rfl, hloan⟩ := hown k hk s hlt hge f hf (Nat.lt_of_not_le hold)
  obtain ⟨k', hk', hseg, hch⟩ := h.stamped.home _ s f hf hloan
  have ht : f.topic = t := hch.symm.trans ((h.tidy _).channel t k (.inr hk))
  have hnew : Newest st f.session f.topic (segment st f.session k) :=
    fun j hj hc => (h.tidy _).latest t k j (.inr hk) hj (hc.trans ht)
  have hst := h.stamped.stamp _ s f hf hloan ha hnew hge
  have hlocal : localTimestamp (world st.machine f.session) t k s = some f.time := by
    rw [stampOf, ht] at hst
    simp only [localTimestamp]
    exact (congrArg (Option.or · _) hst).trans rfl
  rw [hlocal] at hout
  exact hold (outlived_false hout hl (lifespanOf_ne_zero hl))

variable {q : Queue} {seq v n now : Nat} {out : Bytes}

theorem servedNumber_mem (h : servedNumber q seq = some v) : ∃ data, (v, data) ∈ q.messages := by
  obtain ⟨m, _, hm⟩ := bind_eq_some_iff.mp h
  obtain ⟨o, _, ho⟩ := bind_eq_some_iff.mp hm
  obtain ⟨⟨v', data⟩, hat, rfl⟩ := map_eq_some_iff.mp ho
  exact ⟨data, mem_of_getElem? hat⟩

theorem servedNumber_of_select {lo : Nat} {data : Bytes} (hc : Consecutive lo q.messages)
    (hs : select q seq = some (data, s)) (h : servedNumber q seq = some v) : v = s := by
  obtain ⟨hle, hat⟩ := hc.mem_iff.mp (select_mem hc hs)
  simp only [servedNumber, hs, bind_some] at h
  obtain ⟨⟨o, first⟩, ho, hv⟩ := bind_eq_some_iff.mp h
  rw [hc.head ho, hat] at hv
  exact (some.inj hv).symm

theorem handOut_fresh (h : ∀ r ∈ st.taken, Fresh r) {size : Nat} {since : Option Nat}
    (hr : size ≤ out.length → Fresh ⟨lifespanOf (tables st i) t, st.clock, since⟩) :
    ∀ r ∈ handOut st i t size out since, Fresh r := by
  intro r hin
  unfold handOut at hin
  split_ifs at hin with hfit
  · rcases mem_cons.mp hin with rfl | hin
    · exact hr hfit
    · exact h r hin
  · exact h r hin

theorem queue_fresh (h : Inv st) {out' : Bytes} (hq : queueOf st i t = some q)
    (hl : lifespanOf (tables st i) t = some L) (hok : youngQueue st i t L ∨ unbrokenQueue st i t)
    (hr : receiveRemote codec (tables st i) st.clock t q requested out = some (.ok (n, v), out'))
    (hn : n ≤ out.length) (hτ : queuedAt st i t requested = some τ) : st.clock - τ ≤ L := by
  have hqueue : (tables st i).remoteRecvQueues t = some q := hq
  simp only [queuedAt, hqueue, bind_some] at hτ
  obtain ⟨s, hs, harr⟩ := bind_eq_some_iff.mp hτ
  obtain ⟨d, hd⟩ := servedNumber_mem hs
  rcases hok with hyoung | hunbroken
  · exact hyoung q hq _ hd τ harr
  obtain ⟨data, hsel, hout⟩ := receiveRemote_unexpired hr hn
  obtain rfl := servedNumber_of_select (hunbroken q hq) hsel hs
  rw [(h.timed i t q hq).entry hd, harr] at hout
  exact outlived_false hout hl (lifespanOf_ne_zero hl)

theorem receiveNext_fresh (h : Inv st) (ha : st.alive i = true)
    (hok : datable st (.receiveNext i t requested out)) :
    ∀ r ∈ (applyReceiveNext codec st i t requested out).taken, Fresh r := by
  simp only [applyReceiveNext]
  rcases hr : (receiveNext codec (world st.machine i) st.clock t requested out).1 with e | ⟨size, actual⟩
  · exact h.fresh
  simp only
  refine handOut_fresh h.fresh fun hfit L τ hl hτ => ?_
  obtain ⟨hqueue, hring⟩ := hok L hl
  cases hsel : selected (tables st i) t requested with
  | none =>
    simp only [hsel, isSome_none, Bool.false_eq_true, if_false] at hτ
    obtain ⟨k, hk, _⟩ := bind_eq_some_iff.mp hτ
    rw [receive_unselected codec out hsel hk] at hr
    exact ring_fresh h ha hk hl hring (receiveLocal_unexpired hr) hτ
  | some m =>
    obtain ⟨q, data, v⟩ := m
    simp only [hsel, isSome_some, if_true] at hτ
    obtain ⟨hq, hs⟩ := selected_some_iff.mp hsel
    obtain ⟨r, out', hrem, _⟩ := receiveRemote_selected codec (tables st i) st.clock t out hs
    have hq' : (world st.machine i).session.remoteRecvQueues t = some q := hq
    have hrem' : receiveRemote codec (world st.machine i).session st.clock t q requested out =
      some (r, out') := hrem
    simp only [receiveNext, hq', bind_some, hrem'] at hr
    subst hr
    exact queue_fresh h hq hl hqueue hrem hfit hτ

theorem tryTake_mem (h : (tryTake q seq out).1 = some (n, v)) : ∃ data, (v, data) ∈ q.messages := by
  unfold tryTake at h
  split at h
  · rename_i oldest first newest latest hhead hlast
    split_ifs at h
    · cases h
      exact ⟨latest, mem_of_getLast? hlast⟩
    · cases h
      exact ⟨latest, mem_of_getLast? hlast⟩
    dsimp only at h
    split at h
    · cases h
    · rename_i actual data hat
      split_ifs at h <;> cases h <;> exact ⟨data, mem_of_getElem? hat⟩
  · cases h

theorem receiveQueued_taken {s : Tables} {q' : Queue} {out' : Bytes}
    (h : ReceiveBySeq.receiveQueued codec s now t q seq out = some (.ok n, out', q'))
    (hn : n ≤ out.length) : (tryTake q seq out).1 ≠ none := by
  unfold ReceiveBySeq.receiveQueued at h
  dsimp only at h
  split at h
  · rename_i k hk
    cases h
    obtain ⟨p, _, hp⟩ := bind_eq_some_iff.mp hk
    exact absurd hn (Nat.not_le.mpr (of_decide_eq_true (filter_eq_some_iff.mp hp).2))
  · split at h
    · cases h
    · rename_i ht
      simp [ht]

theorem receiveQueued_none {s : Tables}
    (h : ReceiveBySeq.receiveQueued codec s now t q seq out = none) : (tryTake q seq out).1 = none := by
  unfold ReceiveBySeq.receiveQueued at h
  dsimp only at h
  split at h
  · cases h
  split at h
  · rename_i ht
    simp [ht]
  · split_ifs at h
    split at h <;> cases h

theorem receive_source {w : World} (h : (ReceiveBySeq.receive codec w now t seq out).1 = .ok n)
    (hn : n ≤ out.length) :
    (∃ q m v, w.session.remoteRecvQueues t = some q ∧ (tryTake q seq out).1 = some (m, v)) ∨
    ((w.session.remoteRecvQueues t).bind (fun q => (tryTake q seq out).1) = none ∧
      ∃ k, w.session.subscriptions t = some k ∧ (ReceiveBySeq.receiveSlot w now t k seq out).1 = .ok n) := by
  unfold ReceiveBySeq.receive at h
  dsimp only at h
  split at h
  · rename_i r out' q' hr
    obtain ⟨q, hq, hrec⟩ := bind_eq_some_iff.mp hr
    dsimp only at h
    subst h
    obtain ⟨⟨m, v⟩, hm⟩ := ne_none_iff_exists'.mp (receiveQueued_taken hrec hn)
    exact .inl ⟨q, m, v, hq, hm⟩
  · rename_i hr
    refine .inr ⟨?_, ?_⟩
    · refine bind_eq_none_iff.mpr fun q hq => ?_
      exact receiveQueued_none (bind_eq_none_iff.mp hr q hq)
    split at h
    · cases h
    · rename_i k hk
      exact ⟨k, hk, h⟩

theorem receive_fresh (h : Inv st) (ha : st.alive i = true) (hok : datable st (.receive i t seq out)) :
    ∀ r ∈ (applyReceive codec st i t seq out).taken, Fresh r := by
  simp only [applyReceive]
  rcases hr : (ReceiveBySeq.receive codec (world st.machine i) st.clock t seq out).1 with e | size
  · exact h.fresh
  simp only
  refine handOut_fresh h.fresh fun hfit L τ hl hτ => ?_
  obtain ⟨hyoung, hring⟩ := hok L hl
  rcases receive_source hr hfit with ⟨q, m, v, hq, hv⟩ | ⟨hnone, k, hk, hslot⟩
  · have hq : (tables st i).remoteRecvQueues t = some q := hq
    simp only [hq, bind_some, hv] at hτ
    obtain ⟨d, hd⟩ := tryTake_mem hv
    exact hyoung q hq _ hd τ hτ
  · have hnone : ((tables st i).remoteRecvQueues t).bind (fun q => (tryTake q seq out).1) = none :=
      hnone
    simp only [hnone] at hτ
    exact ring_fresh h ha hk hl hring (receiveSlot_unexpired hslot) hτ

theorem step_taken {st' : State} {ev : Event} (h : Inv st) (hok : datable st ev)
    (hs : step codec st ev = some st') : ∀ r ∈ st'.taken, Fresh r := by
  cases ev with
  | createPublisher | createSubscription =>
    obtain ⟨_, rfl⟩ := whenAlive_some hs
    rw [(addEndpoint_kept ..).taken]
    exact h.fresh
  | borrow | store | arrive =>
    obtain ⟨_, rfl⟩ := whenAlive_some hs
    exact h.fresh
  | destroy | publish | commit =>
    obtain ⟨p, _, rfl⟩ := map_eq_some_iff.mp hs
    exact h.fresh
  | receive i t seq out =>
    obtain ⟨ha, rfl⟩ := whenAlive_some hs
    exact receive_fresh h ha hok
  | receiveNext i t requested out =>
    obtain ⟨ha, rfl⟩ := whenAlive_some hs
    exact receiveNext_fresh h ha hok
  | tick | die | reap =>
    cases hs
    exact h.fresh

theorem step_inv {st' : State} {ev : Event} (h : Inv st) (hok : datable st ev)
    (hs : step codec st ev = some st') : Inv st' where
  tidy := step_tidy h.tidy hs
  stamped := step_stamped h.tidy h.stamped hs
  timed i t _ hq := step_timed (h.timed i t) (step_queue h.tidy hs hq)
  fresh := step_taken h hok hs

theorem start_inv (quicTransport : Nat → Bool) : Inv (start quicTransport) := by
  refine ⟨start_tidy quicTransport, ⟨?_, ?_, ?_⟩, ?_, ?_⟩
  · intro g s f hf
    cases hf
  · intro g s f hf
    cases hf
  · intro g s f hf
    cases hf
  · intro i t q hq
    cases hq
  · intro r hr
    cases hr

/-- In every run in which each receive on a topic with a lifespan can date the
old messages that it may find, no payload is handed out after its lifespan. -/
theorem datable_never_expired {quicTransport : Nat → Bool}
    (h : Reach (step codec) datable (start quicTransport) st) :
    ∀ r ∈ st.taken, ∀ L τ, r.lifespan = some L → r.since = some τ → r.time - τ ≤ L :=
  (h.invariant (I := Inv) (start_inv quicTransport) fun _ _ _ => step_inv).fresh

def shortLived : QosProfile := { defaultSensor with lifespan := some 10 }

/-- A frame waits in the queue for twice its lifespan; receive removes the
timestamp with the message and takes the message for a new one. -/
def lateTake : List Event :=
  [.createSubscription roomyOs none true 0 chatter shortLived, .arrive 0 5 [7], .tick 20,
    .receive 0 5 0 [0, 0]]

theorem queued_message_outlives :
    ¬ ∀ codec quicTransport st, Reach (step codec) anyStep (start quicTransport) st →
      ∀ r ∈ st.taken, ∀ L τ, r.lifespan = some L → r.since = some τ → r.time - τ ≤ L := by
  intro hall
  have hrun : (run (step plain) lateTake (start fun _ => true)).map (fun st => st.taken) =
      some [⟨some 10, 20, some 0⟩] := by decide +kernel
  obtain ⟨st, hst, hobs⟩ := map_eq_some_iff.mp hrun
  have hle := hall plain _ st (reach_of_run hst fun _ _ _ => trivial) _ (hobs ▸ mem_cons_self) 10 0
    rfl rfl
  simp at hle

instance (st : State) (i t L : Nat) : Decidable (youngQueue st i t L) :=
  inferInstanceAs (Decidable (∀ q ∈ queueOf st i t, ∀ m ∈ q.messages, ∀ τ ∈ st.arrivals i t m.1, _))

instance (st : State) (i t : Nat) : Decidable (unbrokenQueue st i t) :=
  inferInstanceAs (Decidable (∀ q ∈ queueOf st i t, _ = _))

instance (st : State) (i t L : Nat) : Decidable (ownRing st i t L) :=
  inferInstanceAs (Decidable (∀ h ∈ (tables st i).subscriptions t,
    ∀ s < (st.machine.shm.rings (segment st i h)).writeIndex, _ →
      ∀ f ∈ st.frames (segment st i h) s, _ → _))

instance (st : State) (ev : Event) : Decidable (datable st ev) := by
  unfold datable
  split <;> infer_instance

def ownMessage : List Event :=
  [.createSubscription roomyOs none true 0 chatter shortLived,
    .createPublisher roomyOs none 0 chatter shortLived, .publish 1 [7] 0, .tick 5,
    .receiveNext 0 5 0 [0], .tick 15, .receiveNext 0 5 0 [0]]

theorem own_message_in_time :
    ∃ st : State, st.taken = [⟨some 10, 5, some 0⟩] ∧
      ∀ r ∈ st.taken, ∀ L τ, r.lifespan = some L → r.since = some τ → r.time - τ ≤ L := by
  have hrun : (guardedRun (step plain) datable ownMessage (start fun _ => false)).map
      (fun st => st.taken) = some [⟨some 10, 5, some 0⟩] := by decide +kernel
  obtain ⟨st, hst, hobs⟩ := map_eq_some_iff.mp hrun
  exact ⟨st, hobs, datable_never_expired (reach_of_guardedRun hst)⟩

end RmwAxon.Lifespan
