import RmwAxon.SendPipeline

namespace RmwAxon.HistoryFirst

open Transition SendPipeline List
open Qos (RemoteQos)
open RingBuffer (Bytes)
open PublisherQos (usizeMax sendDepth)

/-- The pipeline of a peer from the moment it is newly matched, with the rest of
the retained history that send_retained_history is to enqueue. Ghost state: what
the history and the publishes behind it have enqueued. -/
structure State where
  pipe : SendPipeline.State
  todo : List (Nat × Bytes)
  history : List PendingTopicSend
  live : List PendingTopicSend

def matched (pipe : SendPipeline.State) (retained : List (Nat × Bytes)) : State := ⟨pipe, retained, [], []⟩

inductive Action
  | flush
  | publish (data : Bytes) (publicationId : Nat)
  | pipe (a : SendPipeline.Action)

def isEnqueue : SendPipeline.Action → Bool
  | .enqueue _ _ _ => true
  | _ => false

def step (qos : Option RemoteQos) (st : State) : Action → Option State
  | .flush =>
    match st.todo with
    | [] => none
    | s :: rest => some { st with
        pipe := enqueue st.pipe s.2 s.1 usizeMax
        todo := rest
        history := st.history ++ [newSample st.pipe s.2 s.1] }
  | .publish data id => some { st with
      pipe := enqueue st.pipe data id (sendDepth qos)
      live := st.live ++ [newSample st.pipe data id] }
  | .pipe a => if isEnqueue a then none else (SendPipeline.step st.pipe a).map fun p => { st with pipe := p }

/-- The calls that enqueue the history are not interleaved with a publish of
another thread. -/
def inOneCall (st : State) : Action → Prop
  | .publish _ _ => st.todo = []
  | _ => True

instance (st : State) (a : Action) : Decidable (inOneCall st a) := by
  unfold inOneCall
  split <;> infer_instance

def content (x : PendingTopicSend) : Nat × Bytes := (x.publicationId, x.data)

variable {qos : Option RemoteQos} {p : SendPipeline.State} {retained : List (Nat × Bytes)}
  {st st' : State} {a : Action}

structure Inv (qos : Option RemoteQos) (p : SendPipeline.State) (retained : List (Nat × Bytes))
    (st : State) : Prop where
  pipe : Accounted st.pipe
  enqueued : st.pipe.enqueued = p.enqueued ++ (st.history ++ st.live)
  live : st.todo ≠ [] → st.live = []
  retained : st.history.map content ++ st.todo = retained
  evicted : sendDepth qos = usizeMax → st.pipe.evicted = p.evicted

theorem step_inv (hi : Inv qos p retained st) (ha : inOneCall st a) (hs : step qos st a = some st') :
    Inv qos p retained st' := by
  cases a with
  | flush =>
    simp only [step] at hs
    split at hs
    next => cases hs
    next s rest htodo =>
      cases hs
      have hlive := hi.live (by simp [htodo])
      refine ⟨enqueue_accounted hi.pipe _ _ _, ?_, fun _ => hlive, ?_, fun hq => ?_⟩
      · simp [enqueue, hi.enqueued, hlive]
      · simp [← hi.retained, htodo, content, newSample]
      · simp [enqueue, popped_unbounded rfl, hi.evicted hq]
  | publish data id =>
    cases hs
    refine ⟨enqueue_accounted hi.pipe _ _ _, ?_, fun h => absurd ha h, hi.retained, fun hq => ?_⟩
    · simp [enqueue, hi.enqueued]
    · simp [enqueue, popped_unbounded hq, hi.evicted hq]
  | pipe a =>
    simp only [step] at hs
    split_ifs at hs with he
    obtain ⟨q, hq, rfl⟩ := Option.map_eq_some_iff.mp hs
    obtain ⟨data, id, depth, rfl⟩ | ⟨henq, hev⟩ := step_lists hq
    · exact absurd rfl he
    · exact ⟨step_accounted hi.pipe hq, henq.trans hi.enqueued, hi.live, hi.retained,
        fun h => hev.trans (hi.evicted h)⟩

/-- What is written, with the history in one piece before everything published later. -/
def HistoryWritten (p : SendPipeline.State) (st : State) : Prop :=
  ∃ before after, st.pipe.written = before ++ (st.history ++ after) ∧
    before.Sublist p.enqueued ∧ after.Sublist st.live

theorem Inv.written_iff (hi : Inv qos p retained st) (hidle : Idle st.pipe) :
    HistoryWritten p st ↔ ∀ x ∈ st.history, x ∉ st.pipe.evicted := by
  have hline := hi.pipe.line_of_idle hidle
  have hmem : ∀ x ∈ st.history, x ∈ st.pipe.written ↔ x ∉ st.pipe.evicted := fun x hx =>
    hline ▸ hi.pipe.mem_line (by simp [hi.enqueued, hx])
  constructor
  · rintro ⟨before, after, hw, _, _⟩ x hx
    exact (hmem x hx).mp (by simp [hw, hx])
  intro hkept
  have hnodup := hi.pipe.total.nodup_iff.mp hi.pipe.nodup
  have horder := hi.pipe.order
  rw [hline, hi.enqueued] at horder
  rw [hi.enqueued] at hnodup
  obtain ⟨before, rest, hw, hbefore, hrest⟩ := sublist_append_iff.mp horder
  obtain ⟨middle, after, rfl, hmiddle, hafter⟩ := sublist_append_iff.mp hrest
  have hfull : st.history ⊆ middle := fun x hx => by
    have hx' := (hmem x hx).mpr (hkept x hx)
    simp only [hw, mem_append] at hx'
    grind [nodup_append, hbefore.mem, hafter.mem]
  have heq := hmiddle.eq_of_length_le (hnodup.of_append_right.of_append_left.subperm hfull).length_le
  exact ⟨before, after, heq ▸ hw, hbefore, hafter⟩

/-- Once the worker is idle, the retained history has been written whole and in
order before everything published later just if no publish popped a sample of
it. Reliable publishers pop none. -/
theorem history_first_iff (hp : Reach SendPipeline.step anyStep start p)
    (h : Reach (step qos) inOneCall (matched p retained) st) (htodo : st.todo = []) (hidle : Idle st.pipe) :
    st.history.map content = retained ∧
      (HistoryWritten p st ↔ ∀ x ∈ st.history, x ∉ st.pipe.evicted) ∧
      (sendDepth qos = usizeMax → HistoryWritten p st) := by
  have hp := reach_accounted hp
  have hi : Inv qos p retained st := h.invariant (I := Inv qos p retained)
    ⟨hp, by simp [matched], fun _ => rfl, rfl, fun _ => rfl⟩ fun _ _ _ hi ha hs => step_inv hi ha hs
  refine ⟨by simpa [htodo] using hi.retained, hi.written_iff hidle, fun hq => (hi.written_iff hidle).mpr ?_⟩
  intro x hx hev
  have hbefore := hp.total.subset (mem_append_right _ (hi.evicted hq ▸ hev))
  have hnodup := hi.pipe.total.nodup_iff.mp hi.pipe.nodup
  rw [hi.enqueued] at hnodup
  exact disjoint_of_nodup_append hnodup hbefore (mem_append_left _ hx)

def bestEffort : RemoteQos := ⟨.bestEffort, .transientLocal, .keepLast 2, 0, 0, .automatic, 0, false⟩

def retainedTwo : List (Nat × Bytes) := [(0, [1]), (1, [2])]

/-- The worker runs when the history and the given samples are enqueued. -/
def publishedBehind (live : List (Nat × Bytes)) : List Action :=
  [.flush, .flush] ++ live.map (fun s => .publish s.2 s.1) ++
    (retainedTwo ++ live).map (fun _ => .pipe .notify) ++
    [.pipe .pop, .pipe .pop, .pipe .pop, .pipe .ready, .pipe (.openStream 0), .pipe .written, .pipe .pop,
      .pipe .notified, .pipe .pop, .pipe .ready, .pipe .written, .pipe .pop]

theorem history_alone_written :
    ∃ st, guardedRun (step (some bestEffort)) inOneCall (publishedBehind []) (matched start retainedTwo) =
      some st ∧ HistoryWritten start st := by
  refine ⟨_, rfl, ?_⟩
  have h := history_first_iff (p := start) .refl
    (@reach_of_guardedRun _ _ (step (some bestEffort)) inOneCall (matched start retainedTwo) _ _
      (publishedBehind []) rfl) rfl ⟨rfl, rfl, rfl⟩
  exact h.2.1.mpr (by decide)

theorem history_sample_popped :
    ∃ st, Reach (step (some bestEffort)) inOneCall (matched start retainedTwo) st ∧ st.todo = [] ∧
      Idle st.pipe ∧ st.pipe.written.map content = [(1, [2]), (2, [3])] :=
  ⟨_, @reach_of_guardedRun _ _ (step (some bestEffort)) inOneCall (matched start retainedTwo) _ _
    (publishedBehind [(2, [3])]) rfl, rfl, ⟨rfl, rfl, rfl⟩, rfl⟩

end RmwAxon.HistoryFirst
