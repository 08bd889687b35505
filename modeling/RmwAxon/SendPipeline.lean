import RmwAxon.PublisherQos
import Mathlib.Data.List.Count
import Mathlib.Data.List.Nodup

namespace RmwAxon.SendPipeline

open Transition List
open RingBuffer (Bytes)
open PublisherQos (usizeMax)

/-- Ghost: how many samples were enqueued before this one. -/
structure PendingTopicSend where
  data : Bytes
  publicationId : Nat
  ticket : Nat
  deriving DecidableEq

def topicPrepareDepth : Nat := 4

/-- Where the worker is between two steps. A sample stays in send until its
write returns Ok, over any number of streams. -/
inductive Point
  | fill
  | wait
  | select
  | send (sample : PendingTopicSend)
  deriving DecidableEq

/-- The pipeline of one peer and topic with the connections to the peer. The
permit is the notification stored by notify_one; notifying counts the calls
between their push and their notify_one. What write returned Ok for is buffered
by its connection until the peer has received it. Ghost state: the lists of all
samples enqueued, evicted, written, received and lost with a connection. -/
structure State where
  pending : List PendingTopicSend
  permit : Bool
  notifying : Nat
  preparing : List PendingTopicSend
  point : Point
  stream : Option Nat
  up : Nat → Bool
  buffered : List (Nat × PendingTopicSend)
  enqueued : List PendingTopicSend
  evicted : List PendingTopicSend
  written : List PendingTopicSend
  received : List PendingTopicSend
  discarded : List PendingTopicSend

def start : State := ⟨[], false, 0, [], .fill, none, fun _ => true, [], [], [], [], [], []⟩

inductive Action
  | enqueue (data : Bytes) (publicationId sendDepth : Nat)
  | notify
  | pop
  | notified
  | ready
  | openStream (connection : Nat)
  | fail
  | written
  | receive (i : Nat)
  | lose (connection : Nat)

def newSample (st : State) (data : Bytes) (publicationId : Nat) : PendingTopicSend :=
  ⟨data, publicationId, st.enqueued.length⟩

/-- How many samples an enqueue pops first. -/
def popped (st : State) (sendDepth : Nat) : Nat :=
  if sendDepth = usizeMax then 0 else st.pending.length + 1 - max sendDepth 1

def enqueue (st : State) (data : Bytes) (publicationId sendDepth : Nat) : State :=
  { st with
    pending := st.pending.drop (popped st sendDepth) ++ [newSample st data publicationId]
    notifying := st.notifying + 1
    enqueued := st.enqueued ++ [newSample st data publicationId]
    evicted := st.evicted ++ st.pending.take (popped st sendDepth) }

/-- One round of the loop that starts preparations. -/
def pop (st : State) : State :=
  if st.preparing.length < topicPrepareDepth then
    match st.pending with
    | [] => { st with point := if st.preparing = [] then .wait else .select }
    | x :: rest => { st with pending := rest, preparing := st.preparing ++ [x] }
  else { st with point := .select }

/-- Does the worker look at the notification? With every preparation slot
taken the select does not. -/
def waits (st : State) : Prop :=
  st.point = .wait ∨ st.point = .select ∧ st.preparing.length < topicPrepareDepth
  deriving Decidable

/-- A preparation may take any time, so its end is a step of its own. The
connection may be another one each time a stream is opened. -/
def step (st : State) : Action → Option State
  | .enqueue data id depth => some (enqueue st data id depth)
  | .notify =>
    if 0 < st.notifying then some { st with permit := true, notifying := st.notifying - 1 } else none
  | .pop => if st.point = .fill then some (pop st) else none
  | .notified =>
    if waits st ∧ st.permit = true then some { st with permit := false, point := .fill } else none
  | .ready =>
    match st.point, st.preparing with
    | .select, x :: rest => some { st with preparing := rest, point := .send x }
    | _, _ => none
  | .openStream c =>
    match st.point, st.stream with
    | .send _, none => if st.up c then some { st with stream := some c } else none
    | _, _ => none
  | .fail =>
    match st.point with
    | .send _ => some { st with stream := none }
    | _ => none
  | .written =>
    match st.point, st.stream with
    | .send x, some c =>
      if st.up c then some { st with
        point := .fill, written := st.written ++ [x], buffered := st.buffered ++ [(c, x)] }
      else none
    | _, _ => none
  | .receive i =>
    match st.buffered[i]? with
    | some e => some { st with
        received := st.received ++ [e.2], buffered := st.buffered.eraseIdx i }
    | none => none
  | .lose c => some { st with
      up := Function.update st.up c false
      discarded := st.discarded ++ (st.buffered.filter (·.1 = c)).map Prod.snd
      buffered := st.buffered.filter (·.1 ≠ c) }

def held : Point → List PendingTopicSend
  | .send x => [x]
  | _ => []

/-- The samples from the wire back to the queue. -/
def line (st : State) : List PendingTopicSend :=
  st.written ++ (held st.point ++ (st.preparing ++ st.pending))

structure Accounted (st : State) : Prop where
  order : (line st).Sublist st.enqueued
  total : (line st ++ st.evicted).Perm st.enqueued
  tickets : st.enqueued.map PendingTopicSend.ticket = List.range st.enqueued.length
  sent : (st.received ++ st.discarded ++ st.buffered.map Prod.snd).Perm st.written
  awake : waits st → st.pending = [] ∨ st.permit = true ∨ 0 < st.notifying
  empty : st.point = .wait → st.preparing = []

/-- The worker sleeps with nothing to wake it. -/
structure Idle (st : State) : Prop where
  point : st.point = .wait
  permit : st.permit = false
  notifying : st.notifying = 0

variable {st st' : State} {a : Action}

theorem Accounted.moved (h : Accounted st) (hline : line st' = line st)
    (henq : st'.enqueued = st.enqueued) (hev : st'.evicted = st.evicted)
    (hsent : (st'.received ++ st'.discarded ++ st'.buffered.map Prod.snd).Perm st'.written)
    (hawake : waits st' → st'.pending = [] ∨ st'.permit = true ∨ 0 < st'.notifying)
    (hempty : st'.point = .wait → st'.preparing = []) : Accounted st' :=
  ⟨hline ▸ henq ▸ h.order, hline ▸ henq ▸ hev ▸ h.total, henq ▸ h.tickets, hsent, hawake, hempty⟩

theorem enqueue_accounted (h : Accounted st) (data : Bytes) (id depth : Nat) :
    Accounted (enqueue st data id depth) where
  order := by
    have hkept := (drop_sublist (popped st depth) st.pending).append_left st.preparing
    have hline := ((hkept.append_left (held st.point)).append_left st.written).trans h.order
    simpa [line, enqueue, newSample] using hline.append_right [newSample st data id]
  total := by
    refine perm_iff_count.mpr fun x => ?_
    have hcount := h.total.count_eq x
    have hparts := congrArg (count x) (take_append_drop (popped st depth) st.pending)
    simp only [line, enqueue, count_append] at hcount hparts ⊢
    omega
  tickets := by
    rw [enqueue, map_append, h.tickets, length_append, length_singleton, range_succ]
    rfl
  sent := h.sent
  awake _ := .inr (.inr (Nat.succ_pos _))
  empty := h.empty

theorem pop_accounted (h : Accounted st) (hfill : st.point = .fill) : Accounted (pop st) := by
  unfold pop
  split
  next =>
    split
    next hp =>
      refine h.moved ?_ rfl rfl h.sent (fun _ => .inl hp) fun hw => ?_
      · simp only [line, hfill]
        split <;> rfl
      · by_contra hne
        simp [hne] at hw
    next x rest hp =>
      exact h.moved (by simp [line, hp]) rfl rfl h.sent (by simp [waits, hfill]) (by simp [hfill])
  next hroom =>
    exact h.moved (by simp [line, hfill, held]) rfl rfl h.sent (by simp [waits, hroom]) (by simp)

theorem step_accounted (h : Accounted st) (hs : step st a = some st') : Accounted st' := by
  cases a with
  | enqueue data id depth => cases hs; exact enqueue_accounted h data id depth
  | notify =>
    simp only [step] at hs
    split_ifs at hs
    cases hs
    exact h.moved rfl rfl rfl h.sent (fun _ => .inr (.inl rfl)) h.empty
  | pop =>
    simp only [step] at hs
    split_ifs at hs with hfill
    cases hs
    exact pop_accounted h hfill
  | notified =>
    simp only [step] at hs
    split_ifs at hs with hw
    cases hs
    refine h.moved ?_ rfl rfl h.sent (by simp [waits]) (by simp)
    obtain ⟨hp | ⟨hp, _⟩, _⟩ := hw <;> simp [line, hp, held]
  | ready =>
    simp only [step] at hs
    split at hs
    next x rest hpoint hprep =>
      cases hs
      exact h.moved (by simp [line, hpoint, hprep, held]) rfl rfl h.sent (by simp [waits]) (by simp)
    next => cases hs
  | openStream c =>
    simp only [step] at hs
    split at hs
    next x hpoint _ =>
      split_ifs at hs
      cases hs
      exact h.moved rfl rfl rfl h.sent h.awake h.empty
    next => cases hs
  | fail =>
    simp only [step] at hs
    split at hs
    next => cases hs; exact h.moved rfl rfl rfl h.sent h.awake h.empty
    next => cases hs
  | written =>
    simp only [step] at hs
    split at hs
    next x c hpoint _ =>
      split_ifs at hs
      cases hs
      refine h.moved (by simp [line, hpoint, held]) rfl rfl ?_ (by simp [waits]) (by simp)
      simpa using h.sent.append_right [x]
    next => cases hs
  | receive i =>
    simp only [step] at hs
    split at hs
    next e he =>
      cases hs
      refine h.moved rfl rfl rfl (.trans ?_ h.sent) h.awake h.empty
      refine perm_iff_count.mpr fun y => ?_
      obtain ⟨hi, rfl⟩ := List.getElem?_eq_some_iff.mp he
      have herase := ((getElem_cons_eraseIdx_perm hi).map Prod.snd).count_eq y
      simp only [map_cons, count_append, count_cons, count_nil] at herase ⊢
      omega
    next => cases hs
  | lose c =>
    cases hs
    refine h.moved rfl rfl rfl (.trans ?_ h.sent) h.awake h.empty
    have hparts := (filter_append_perm (fun e : Nat × PendingTopicSend => decide (e.1 = c))
      st.buffered).map Prod.snd
    simpa [append_assoc] using (hparts.append_left st.discarded).append_left st.received

theorem reach_accounted {ok : State → Action → Prop} (h : Reach step ok start st) : Accounted st :=
  h.invariant ⟨.slnil, .nil, rfl, .nil, by simp [waits, start], by simp [start]⟩
    fun _ _ _ hi _ hs => step_accounted hi hs

theorem Accounted.nodup (h : Accounted st) : (line st ++ st.evicted).Nodup := by
  have henq : st.enqueued.Nodup := .of_map PendingTopicSend.ticket (h.tickets ▸ nodup_range)
  exact h.total.nodup_iff.mpr henq

theorem Accounted.mem_line (h : Accounted st) {x : PendingTopicSend} (hx : x ∈ st.enqueued) :
    x ∈ line st ↔ x ∉ st.evicted := by
  have hmem := h.total.mem_iff.mpr hx
  refine ⟨fun hl he => disjoint_of_nodup_append h.nodup hl he, fun he => ?_⟩
  exact (mem_append.mp hmem).resolve_right he

theorem Accounted.line_of_idle (h : Accounted st) (hidle : Idle st) : line st = st.written := by
  have hpending : st.pending = [] := by simpa [hidle.permit, hidle.notifying] using h.awake (.inl hidle.point)
  simp [line, hidle.point, held, h.empty hidle.point, hpending]

theorem step_lists (hs : step st a = some st') : (∃ data id depth, a = .enqueue data id depth) ∨
      st'.enqueued = st.enqueued ∧ st'.evicted = st.evicted := by
  cases a with
  | enqueue data id depth => exact .inl ⟨data, id, depth, rfl⟩
  | notify | pop | notified | ready | openStream | fail | written | receive | lose =>
    simp only [step, pop] at hs
    grind

theorem popped_unbounded {depth : Nat} (h : depth = usizeMax) : popped st depth = 0 := if_pos h

theorem step_evicted (hs : step st a = some st') (hne : st'.evicted ≠ st.evicted) :
    ∃ data id depth k, a = .enqueue data id depth ∧ depth ≠ usizeMax ∧
      st'.evicted = st.evicted ++ st.pending.take k := by
  obtain ⟨data, id, depth, rfl⟩ | ⟨_, he⟩ := step_lists hs
  · cases hs
    refine ⟨data, id, depth, popped st depth, rfl, fun hd => hne ?_, rfl⟩
    simp [enqueue, popped_unbounded hd]
  · exact absurd he hne

/-- The samples written are among those enqueued, in that order and each once.
A sample that is neither written nor on its way was popped by a later bounded
enqueue, and an idle worker has nothing on its way. While the worker looks for a
notification there is one if the queue holds a sample, or a call that has pushed
is about to give it. -/
theorem pipeline_orderly (h : Reach step anyStep start st) :
    st.written.Sublist st.enqueued ∧ st.written.Nodup ∧
      (∀ x ∈ st.enqueued, x ∈ line st ↔ x ∉ st.evicted) ∧ (Idle st → line st = st.written) ∧
      (∀ a st', step st a = some st' → st'.evicted ≠ st.evicted → ∃ data id depth k,
        a = .enqueue data id depth ∧ depth ≠ usizeMax ∧ st'.evicted = st.evicted ++ st.pending.take k) ∧
      (waits st → st.pending = [] ∨ st.permit = true ∨ 0 < st.notifying) := by
  have hst := reach_accounted h
  have hwritten : st.written.Sublist (line st) := sublist_append_left _ _
  refine ⟨hwritten.trans hst.order, ?_, fun x hx => hst.mem_line hx, hst.line_of_idle, ?_, hst.awake⟩
  · exact hst.nodup.of_append_left.sublist hwritten
  · exact fun _ _ => step_evicted

/-- The second enqueue pops the first sample; its own is written at the second attempt. -/
def evictThenRetry : List Action :=
  [.enqueue [1] 0 1, .notify, .enqueue [2] 1 1, .notify, .pop, .pop, .ready, .openStream 0, .fail,
    .openStream 1, .written, .pop, .notified, .pop]

theorem second_sample_written :
    ∃ st, run step evictThenRetry start = some st ∧ st.written = [⟨[2], 1, 1⟩] ∧ st.evicted = [⟨[1], 0, 0⟩] ∧
      line st = st.written :=
  ⟨_, rfl, rfl, rfl, (pipeline_orderly (@reach_of_run _ _ _ _ _ _ evictThenRetry rfl fun _ _ _ => trivial)
    ).2.2.2.1 ⟨rfl, rfl, rfl⟩⟩

/-- The worker waits when the sample is pushed, and its notification is still to come. -/
theorem queued_unnotified : ∃ st, Reach step anyStep start st ∧ waits st ∧ st.pending ≠ [] ∧
    st.permit = false :=
  ⟨_, @reach_of_run _ _ _ _ _ _ [.pop, .enqueue [1] 0 1] rfl fun _ _ _ => trivial, .inl rfl, by decide, rfl⟩

def unbounded (_ : State) : Action → Prop
  | .enqueue _ _ depth => depth = usizeMax
  | _ => True

/-- A connection is lost only when the peer has received all it was given. -/
def drained (st : State) : Action → Prop
  | .lose c => ∀ e ∈ st.buffered, e.1 ≠ c
  | _ => True

/-- A sample of the reliable queue reaches the peer unless it is lost with the
connection that buffered it: the worker has moved on by then. -/
theorem received_unless_discarded (h : Reach step unbounded start st) (hidle : Idle st)
    (hbuffered : st.buffered = []) :
    (∀ x ∈ st.enqueued, x ∈ st.received ↔ x ∉ st.discarded) ∧
      (Reach step drained start st → st.discarded = []) := by
  have hst := reach_accounted h
  have hevicted : st.evicted = [] := h.invariant (I := fun s => s.evicted = []) rfl fun s a t hs ha ht => by
    by_contra hne
    obtain ⟨data, id, depth, _, rfl, hd, _⟩ := step_evicted ht (hs ▸ hne)
    exact hd ha
  have hsent := hst.sent
  rw [hbuffered, map_nil, append_nil] at hsent
  have hnodup : (st.received ++ st.discarded).Nodup :=
    hsent.nodup_iff.mpr (hst.line_of_idle hidle ▸ hst.nodup.of_append_left)
  refine ⟨fun x hx => ⟨fun hr hd => disjoint_of_nodup_append hnodup hr hd, fun hd => ?_⟩, fun hrun => ?_⟩
  · have hline := (hst.mem_line hx).mpr (by simp [hevicted])
    rw [hst.line_of_idle hidle] at hline
    exact (mem_append.mp (hsent.mem_iff.mpr hline)).resolve_right hd
  refine hrun.invariant (I := fun s => s.discarded = []) rfl fun s a t hs ha ht => ?_
  cases a with
  | lose c =>
    cases ht
    simp only [hs, nil_append, map_eq_nil_iff, filter_eq_nil_iff, decide_eq_true_eq]
    exact ha
  | enqueue | notify | pop | notified | ready | openStream | fail | written | receive =>
    rw [← hs]
    simp only [step, pop, enqueue] at ht
    grind

def sendOne (data : Bytes) (id : Nat) : List Action :=
  [.enqueue data id usizeMax, .notify, .pop, .pop, .ready]

def finish (connection : Nat) : List Action := [.openStream connection, .written, .pop, .notified, .pop]

def sentOne : List Action := sendOne [1] 0 ++ finish 0 ++ [.receive 0]

theorem sample_received : ∃ st, run step sentOne start = some st ∧
    (∀ x ∈ st.enqueued, x ∈ st.received ↔ x ∉ st.discarded) ∧ st.discarded = [] :=
  ⟨_, rfl, (received_unless_discarded
    (@reach_of_run _ _ _ _ _ _ sentOne rfl (by simp [sentOne, sendOne, finish, unbounded]))
      ⟨rfl, rfl, rfl⟩ rfl).imp id fun h =>
        h (@reach_of_run _ _ _ _ _ _ sentOne rfl (by simp [sentOne, sendOne, finish, drained]))⟩

/-- Connection 0 is lost behind the write of the first sample. The second one is
retried on connection 1, the first is not. -/
def lostBehindWrite : List Action :=
  sendOne [1] 0 ++ finish 0 ++ [.lose 0] ++
    [.enqueue [2] 1 usizeMax, .notify, .notified, .pop, .pop, .ready, .fail, .openStream 1, .written, .pop,
      .receive 0]

theorem buffered_sample_lost :
    ∃ st, Reach step unbounded start st ∧ Idle st ∧ st.stream = some 1 ∧ st.up 1 = true ∧ st.buffered = [] ∧
      st.enqueued = [⟨[1], 0, 0⟩, ⟨[2], 1, 1⟩] ∧ st.received = [⟨[2], 1, 1⟩] :=
  ⟨_, @reach_of_run _ _ _ _ _ _ lostBehindWrite rfl (by simp [lostBehindWrite, sendOne, finish, unbounded]),
    ⟨rfl, rfl, rfl⟩, rfl, rfl, rfl, rfl, rfl⟩

end RmwAxon.SendPipeline
