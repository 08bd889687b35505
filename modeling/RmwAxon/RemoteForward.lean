import RmwAxon.QueueHistory
import RmwAxon.Transition

namespace RmwAxon.RemoteForward

open QueueHistory SubscriberQueue Transition List Option
open RingBuffer (Bytes)

/-- The stream reader, the bounded channel and the forwarding task of one topic. `reading` is a
message that was read but not yet sent, and `held` one that was received but not yet pushed. The
messages that were read, that the channel accepted and that were pushed are recorded. -/
structure State where
  queue : Queue
  channel : List Bytes
  reading : Option Bytes
  held : Option Bytes
  read : List Bytes
  accepted : List Bytes
  pushed : List Bytes

def start (q : Queue) : State := ⟨q, [], none, none, [], [], []⟩

def channelCapacity (s : State) : Nat := max s.queue.capacity 1

inductive Action
  | read (data : Bytes)
  | trySend
  | receive
  | push (now : Nat)
  deriving DecidableEq

def step (s : State) : Action → Option State
  | .read data =>
    if s.reading = none then some { s with reading := some data, read := s.read ++ [data] } else none
  | .trySend =>
    s.reading.map fun data =>
      -- a full channel refuses the message, and the reader goes on without it
      if s.channel.length < channelCapacity s then
        { s with channel := s.channel ++ [data], reading := none, accepted := s.accepted ++ [data] }
      else { s with reading := none }
  | .receive =>
    match s.held, s.channel with
    | none, data :: rest => some { s with held := some data, channel := rest }
    | _, _ => none
  | .push now =>
    s.held.map fun data =>
      { s with queue := (push s.queue now data).2, held := none, pushed := s.pushed ++ [data] }

def Idle (s : State) : Prop := s.reading = none ∧ s.held = none ∧ s.channel = []
  deriving Decidable

def lastOf {α : Type} (d : Nat) (l : List α) : List α := l.drop (l.length - d)

theorem lastOf_append_singleton {α : Type} {d : Nat} (hd : 0 < d) (l : List α) (a : α) :
    lastOf d (l ++ [a]) = (lastOf d l).drop ((lastOf d l).length + 1 - d) ++ [a] := by
  simp only [lastOf, length_append, length_singleton, length_drop, drop_drop]
  rw [drop_append_of_le_length (by omega)]
  congr 2
  omega

variable {s t : State} {q : Queue}

structure Flows (q : Queue) (s : State) : Prop where
  keepAll : s.queue.keepAll = false
  capacity : s.queue.capacity = q.capacity
  accepted : s.accepted = s.pushed ++ s.held.toList ++ s.channel
  kept : s.queue.messages.map Prod.snd = lastOf q.capacity s.pushed

theorem Flows.push (h : Flows q s) {data : Bytes} (hh : s.held = some data) (now : Nat) : Flows q { s with
      queue := (SubscriberQueue.push s.queue now data).2, held := none, pushed := s.pushed ++ [data] } := by
  have hr : refuses s.queue = false := by simp [refuses, h.keepAll]
  rw [push_accepted hr]
  refine ⟨h.keepAll, h.capacity, ?_, ?_⟩
  · simpa [hh] using h.accepted
  have hlen : (lastOf q.capacity s.pushed).length = s.queue.messages.length := by
    rw [← h.kept, length_map]
  rw [lastOf_append_singleton q.capacity_pos, hlen, ← h.kept]
  simp [h.capacity]

theorem Flows.step (h : Flows q s) {a : Action} (hs : step s a = some t) : Flows q t := by
  cases a with
  | read data =>
    simp only [RemoteForward.step, ite_none_right_eq_some] at hs
    obtain rfl := some.inj hs.2
    exact ⟨h.keepAll, h.capacity, h.accepted, h.kept⟩
  | trySend =>
    obtain ⟨data, hd, rfl⟩ := map_eq_some_iff.mp hs
    split
    · refine ⟨h.keepAll, h.capacity, ?_, h.kept⟩
      simp [h.accepted]
    · exact ⟨h.keepAll, h.capacity, h.accepted, h.kept⟩
  | receive =>
    simp only [RemoteForward.step] at hs
    split at hs
    next data rest hheld hch =>
      obtain rfl := some.inj hs
      refine ⟨h.keepAll, h.capacity, ?_, h.kept⟩
      simpa [hheld, hch] using h.accepted
    next => cases hs
  | push now =>
    obtain ⟨data, hd, rfl⟩ := map_eq_some_iff.mp hs
    exact h.push hd now

variable {ok : State → Action → Prop}

theorem flows_of_reach (hq : q.keepAll = false) (hm : q.messages = []) (h : Reach step ok (start q) s) :
    Flows q s :=
  h.invariant ⟨hq, rfl, rfl, by simp [start, hm, lastOf]⟩ fun _ _ _ hi _ hs => hi.step hs

/-- Whatever the schedule, an idle pipeline has kept the newest of what the channel accepted. -/
theorem idle_keeps_accepted (hq : q.keepAll = false) (hm : q.messages = []) (h : Reach step ok (start q) s)
    (hi : Idle s) :
    s.queue.messages.map Prod.snd = lastOf q.capacity s.accepted := by
  have hf := flows_of_reach hq hm h
  rw [hf.kept, hf.accepted, hi.2.1, hi.2.2]
  simp

/-- Every message that is sent finds room in the channel. -/
def Roomy (s : State) : Action → Prop
  | .trySend => s.channel.length < channelCapacity s
  | _ => True

theorem accepted_step (h : s.read = s.accepted ++ s.reading.toList) {a : Action} (hok : Roomy s a)
    (hs : step s a = some t) : t.read = t.accepted ++ t.reading.toList := by
  cases a with
  | read data =>
    simp only [step, ite_none_right_eq_some] at hs
    obtain rfl := some.inj hs.2
    simp [h, hs.1]
  | trySend =>
    obtain ⟨data, hd, rfl⟩ := map_eq_some_iff.mp hs
    have hroom : s.channel.length < channelCapacity s := hok
    simp [hroom, h, hd]
  | receive =>
    simp only [step] at hs
    split at hs
    next => exact some.inj hs ▸ h
    next => cases hs
  | push now =>
    obtain ⟨data, hd, rfl⟩ := map_eq_some_iff.mp hs
    exact h

/-- As long as the channel is never found full, the newest of all messages are kept. -/
theorem newest_kept (depth seq : Nat) {s : State}
    (h : Reach step Roomy (start (withSeqAndMode depth seq false)) s) (hi : Idle s) :
    s.queue.messages.map Prod.snd = lastOf s.queue.capacity s.read := by
  have hread : s.read = s.accepted ++ s.reading.toList :=
    h.invariant (I := fun s => s.read = s.accepted ++ s.reading.toList) rfl
      fun _ _ _ hi hok hs => accepted_step hi hok hs
  rw [idle_keeps_accepted rfl rfl h hi, (flows_of_reach rfl rfl h).capacity, hread, hi.1]
  simp

instance (s : State) (a) : Decidable (Roomy s a) := by
  unfold Roomy
  split <;> infer_instance

/-- Two messages through a queue of depth one, each forwarded before the next is read. -/
theorem second_kept : ∃ s, Reach step Roomy (start (withSeqAndMode 1 0 false)) s ∧ Idle s ∧
    s.read = [[1], [2]] ∧ s.queue.messages.map Prod.snd = lastOf s.queue.capacity s.read := by
  obtain ⟨s, hs, hi, hr⟩ : ∃ s, guardedRun step Roomy
      [.read [1], .trySend, .receive, .push 0, .read [2], .trySend, .receive, .push 0]
        (start (withSeqAndMode 1 0 false)) = some s ∧ Idle s ∧ s.read = [[1], [2]] :=
        exists_of_any (by decide)
  have hreach := reach_of_guardedRun hs
  exact ⟨s, hreach, hi, hr, newest_kept 1 0 hreach hi⟩

/-- The same messages, with the forwarding task late: the older one is kept. -/
theorem first_kept_instead : ∃ s, Reach step anyStep (start (withSeqAndMode 1 0 false)) s ∧ Idle s ∧
    s.queue.capacity = 1 ∧ s.read = [[1], [2]] ∧ s.queue.messages.map Prod.snd = [[1]] := by
  obtain ⟨s, hs, h⟩ : ∃ s, run step [.read [1], .trySend, .read [2], .trySend, .receive, .push 0]
      (start (withSeqAndMode 1 0 false)) = some s ∧ Idle s ∧ s.queue.capacity = 1 ∧ s.read = [[1], [2]] ∧
        s.queue.messages.map Prod.snd = [[1]] := exists_of_any (by decide)
  exact ⟨s, reach_of_run hs fun _ _ _ => trivial, h⟩

end RmwAxon.RemoteForward
