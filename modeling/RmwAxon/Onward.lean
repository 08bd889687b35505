import RmwAxon.NoSkip
import RmwAxon.QueueSelect

namespace RmwAxon.Onward

open Compress Receive ReceiveAtomic RingBuffer SubscriberQueue Transition List Option
open NoSkip (State start)
open Session (Tables)

/-- The queue of the topic, if there is one, is asked before the ring. -/
def ask (codec : Codec) (s : Tables) (now t : Nat) (queue : Option Queue) (requested : Nat)
    (out : Bytes) : Call :=
  match queue.bind fun q => receiveRemote codec s now t q requested out with
  | some (r, out) => .returned requested out r
  | none => .running requested out .loadWrite

/-- The subscriber moves on when the message has fit into its buffer. -/
def take (st : State) : Call → Option State
  | .returned _ out (.ok (n, seq)) =>
    some (if n ≤ out.length then
      { st with cursor := seq + 1, call := none, obtained := st.obtained ++ [seq] }
    else { st with call := none })
  | .returned _ _ (.error _) => some { st with call := none }
  | .running _ _ _ => none

inductive Action
  | system (a : RingAtomic.Action)
  | call (s : Tables) (now t : Nat) (queue : Option Queue) (out : Bytes)
  | receive (k : Nat) (v : Verdict)
  | take

def step (codec : Codec) (st : State) : Action → Option State
  | .system a => NoSkip.step st (.system a)
  | .call s now t queue out =>
    if st.call.isSome then none
    else some { st with call := some (ask codec s now t queue st.cursor out) }
  | .receive k v => NoSkip.step st (.receive k v)
  | .take => st.call.bind (take st)

/-- The call asks for the cursor, and what it reads is not below it. -/
def Ahead (m : Ring) (cursor : Nat) : Call → Prop
  | .running requested _ p => requested = cursor ∧
      match p with
      | .loadOldest writeIdx => writeIdx ≤ m.writeIndex
      | .checkQos s | .read _ s _ | .reload _ s _ => cursor ≤ s ∧ s < m.writeIndex
      | .loadRead s _ | .storeRead s _ | .checkLifespan s _ => cursor ≤ s
      | .loadWrite | .report _ _ | .reportOldest _ _ _ => True
  | .returned requested _ r => requested = cursor ∧ ∀ size seq, r = .ok (size, seq) → cursor ≤ seq

variable {m m' : Ring} {call call' : Call} {q : Queue} {cursor seq retries k : Nat} {out data : Bytes}
  {v : Verdict} {st st' : State}

theorem Ahead.mono (h : Ahead m cursor call) (hw : m.writeIndex ≤ m'.writeIndex) : Ahead m' cursor call := by
  cases call with
  | returned => exact h
  | running requested out p =>
    refine ⟨h.1, ?_⟩
    have hp := h.2
    cases p with
    | loadWrite | loadRead | storeRead | checkLifespan | report | reportOldest => exact hp
    | loadOldest => exact le_trans hp hw
    | checkQos | read | reload => exact ⟨hp.1, lt_of_lt_of_le hp.2 hw⟩

theorem ahead_error {e : ReceiveError} : Ahead m cursor (.returned cursor out (.error e)) :=
  ⟨rfl, fun _ _ he => by cases he⟩

theorem afterRead_ahead (r : Except RingError Nat) (hle : cursor ≤ seq) (hlt : seq < m.writeIndex) :
    Ahead m cursor (afterRead cursor retries seq out r) := by
  unfold afterRead
  split
  · exact ⟨rfl, hle⟩
  · split_ifs
    · exact ⟨rfl, hle, hlt⟩
    · exact ⟨rfl, trivial⟩
  · split_ifs
    · exact ⟨rfl, hle, hlt⟩
    · exact ahead_error
  · exact ⟨rfl, trivial⟩

-- the newest number is not behind one that was below the write index
theorem retarget_ahead {overwritten : Bool} (hle : cursor ≤ seq) (hlt : seq < m.writeIndex) :
    Ahead m cursor (retarget m cursor retries seq overwritten out) := by
  have hlatest : seq ≤ currentSeq m - 1 ∧ currentSeq m - 1 < m.writeIndex := by
    unfold currentSeq
    omega
  cases overwritten with
  | true =>
    simp only [retarget, if_true]
    split
    · exact ⟨rfl, trivial⟩
    · exact ⟨rfl, hle.trans hlatest.1, hlatest.2⟩
  | false =>
    simp only [retarget, Bool.false_eq_true, if_false]
    refine ⟨rfl, ?_, ?_⟩
    · split_ifs <;> omega
    · split_ifs <;> omega

theorem stepReceive_ahead (ha : Ahead m cursor call) (h : stepReceive m k v call = some (m', call')) :
    Ahead m' cursor call' := by
  cases call with
  | returned => cases h
  | running requested out p =>
    obtain ⟨rfl, hp⟩ := ha
    cases p with
    | loadWrite => cases h; exact ⟨rfl, le_rfl⟩
    | loadOldest writeIdx =>
      cases h
      change writeIdx ≤ m.writeIndex at hp
      split_ifs
      · exact ahead_error
      · exact ⟨rfl, le_rfl, by omega⟩
      · exact ⟨rfl, by omega, by omega⟩
    | checkQos s =>
      cases h
      split_ifs
      · exact ⟨rfl, hp⟩
      · exact ahead_error
    | read retries actual call =>
      obtain ⟨rfl, ⟨_, out', r, _, rfl⟩ | ⟨_, _, rfl⟩⟩ := stepReceive_read h
      · exact afterRead_ahead r hp.1 hp.2
      · exact ⟨rfl, hp⟩
    | loadRead actual size =>
      cases h
      split_ifs <;> exact ⟨rfl, hp⟩
    | storeRead => cases h; exact ⟨rfl, hp⟩
    | checkLifespan actual size =>
      cases h
      refine ⟨rfl, fun n s he => ?_⟩
      split_ifs at he
      cases he
      exact hp
    | reload => cases h; exact retarget_ahead hp.1 hp.2
    | report => cases h; exact ⟨rfl, trivial⟩
    | reportOldest => cases h; exact ahead_error

theorem ask_ahead (codec : Codec) (s : Tables) (now t : Nat) (queue : Option Queue) :
    Ahead m cursor (ask codec s now t queue cursor out) := by
  cases hq : queue.bind fun q => receiveRemote codec s now t q cursor out with
  | none =>
    rw [ask, hq]
    exact ⟨rfl, trivial⟩
  | some answer =>
    obtain ⟨r, out'⟩ := answer
    obtain ⟨q, _, hr⟩ := bind_eq_some_iff.mp hq
    rw [ask, hq]
    refine ⟨rfl, fun size seq he => ?_⟩
    subst he
    cases hsel : select q cursor with
    | none => simp [receiveRemote, peekPrefix, readAt, hsel] at hr
    | some p =>
      obtain ⟨data, actual⟩ := p
      have hle := QueueSelect.select_le hsel
      simp only [receiveRemote, peekPrefix, readAt, hsel, map_some, bind_some] at hr
      split at hr
      · rename_i r hover
        obtain ⟨n, _, rfl⟩ := map_eq_some_iff.mp hover
        cases hr
        exact hle
      · split_ifs at hr
        · cases hr
          exact hle
        · cases hr
        · split at hr
          all_goals
            cases hr
            exact hle

structure Inv (st : State) : Prop where
  call : ∀ call, st.call = some call → Ahead st.system.ring st.cursor call
  below : ∀ s ∈ st.obtained, s < st.cursor
  ordered : st.obtained.Pairwise (· < ·)

theorem take_inv (hi : Inv st) (hc : st.call = some call) (h : take st call = some st') : Inv st' := by
  have hquit : Inv { st with call := none } := ⟨by simp, hi.below, hi.ordered⟩
  cases call with
  | running => cases h
  | returned requested out r =>
    cases r with
    | error e =>
      cases h
      exact hquit
    | ok p =>
      obtain ⟨n, seq⟩ := p
      have hseq := (hi.call _ hc).2 n seq rfl
      rw [take, some.injEq] at h
      subst h
      split_ifs
      · refine ⟨by simp, fun s hs => ?_, pairwise_append.mpr ⟨hi.ordered, by simp, ?_⟩⟩
        · rcases mem_append.mp hs with hs | hs
          · exact lt_of_lt_of_le (hi.below s hs) (le_trans hseq (Nat.le_succ seq))
          · exact mem_singleton.mp hs ▸ Nat.lt_succ_self seq
        · intro s hs s' hs'
          exact mem_singleton.mp hs' ▸ lt_of_lt_of_le (hi.below s hs) hseq
      · exact hquit

theorem step_inv {codec : Codec} {a : Action} (hi : Inv st) (h : step codec st a = some st') : Inv st' := by
  cases a with
  | system a =>
    obtain ⟨s, hs, rfl⟩ := map_eq_some_iff.mp h
    exact ⟨fun call hc => (hi.call call hc).mono (SlotOrder.step_advances hs).writeIndex,
      hi.below, hi.ordered⟩
  | call s now t queue out =>
    simp only [step] at h
    split_ifs at h
    cases h
    refine ⟨fun call hc => ?_, hi.below, hi.ordered⟩
    cases hc
    exact ask_ahead codec s now t queue
  | receive k v =>
    obtain ⟨⟨m, next⟩, hb, rfl⟩ := map_eq_some_iff.mp h
    obtain ⟨call, hc, hs⟩ := bind_eq_some_iff.mp hb
    refine ⟨fun call' hc' => ?_, hi.below, hi.ordered⟩
    cases hc'
    exact stepReceive_ahead (hi.call call hc) hs
  | take =>
    obtain ⟨call, hc, ht⟩ := bind_eq_some_iff.mp h
    exact take_inv hi hc ht

/-- From any ring, queues and cursor: no call returns a number below the one it
asked for, and the subscriber obtains strictly increasing numbers. -/
theorem receive_moves_onward (codec : Codec) (s : RingAtomic.State) (first : Nat) {st : State}
    (h : Reach (step codec) anyStep (start s first) st) :
    (∀ c out n seq, st.call = some (.returned c out (.ok (n, seq))) → c ≤ seq) ∧
      st.obtained.Pairwise (· < ·) := by
  have hi : Inv st := h.invariant (I := Inv) ⟨by simp [start], by simp [start], .nil⟩
    fun _ _ _ hi _ hs => step_inv hi hs
  refine ⟨fun c out n seq hc => ?_, hi.ordered⟩
  obtain ⟨rfl, hle⟩ := hi.call _ hc
  exact hle n seq rfl

def received (c : Nat) (data : Bytes) : List Action :=
  [.system (.beginWrite c data)] ++ List.replicate 8 (.system (.write c 0)) ++
    [.call (Session.newTables 1 false) 0 7 none (List.replicate 8 0)] ++
    List.replicate 13 (.receive 0 NoSkip.accepted)

theorem written_messages_obtained :
    ∃ st : State, st.obtained = [0, 1] ∧ st.obtained.Pairwise (· < ·) ∧
      ∀ c out n seq, st.call = some (.returned c out (.ok (n, seq))) → c ≤ seq := by
  have hrun : (run (step plain) (received 0 [10] ++ [.take] ++ received 1 [11] ++ [.take])
      (start (RingAtomic.initial RingHistory.twoSlots) 0)).map
        (fun st : State => st.obtained) = some [0, 1] := by decide +kernel
  obtain ⟨st, hst, hobs⟩ := map_eq_some_iff.mp hrun
  exact ⟨st, hobs, (receive_moves_onward plain _ 0 (reach_of_run hst fun _ _ _ => trivial)).symm⟩

end RmwAxon.Onward
