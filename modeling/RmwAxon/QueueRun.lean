import RmwAxon.QueueSelect
import RmwAxon.Transition

namespace RmwAxon.QueueRun

open SubscriberQueue QueueHistory QueueSelect Transition Option
open RingBuffer (Bytes)
open RingHistory (History)

structure State where
  queue : Queue
  pushed : History

def start (capacity startSeq : Nat) (keepAll : Bool) : State :=
  ⟨withSeqAndMode capacity startSeq keepAll, fun _ => none⟩

inductive Op
  | push (now : Nat) (data : Bytes)
  | tryTake (seq : Nat) (out : Bytes)
  | readAt (seq : Nat) (out : Bytes)
  | peekPrefix (seq : Nat)
  | peekSize (seq : Nat)
  | messageSize (seq : Nat)

def apply (st : State) : Op → State
  | .push now data =>
    let r := push st.queue now data
    ⟨r.2, record st.pushed r.1 data⟩
  | .tryTake seq out => { st with queue := (tryTake st.queue seq out).2.2 }
  | .readAt _ _ | .peekPrefix _ | .peekSize _ | .messageSize _ => st

def step (st : State) (op : Op) : Option State := some (apply st op)

structure Faithful (st : State) : Prop where
  consecutive : ∀ i s data s₀ data₀, st.queue.messages[i]? = some (s, data) →
    st.queue.messages[0]? = some (s₀, data₀) → s = s₀ + i
  counted : st.queue.messages.length = st.queue.len
  bounded : st.queue.len ≤ st.queue.capacity
  stamped : ∀ s, (timestampFor st.queue s).isSome ↔ ∃ data, (s, data) ∈ st.queue.messages
  readAt_pushed : ∀ c out n s out', readAt st.queue c out = (some (n, s), out') →
    ∃ data, st.pushed s = some data ∧ n = data.length ∧ out' = copyTo data out
  peekPrefix_pushed : ∀ c p s, peekPrefix st.queue c = some (p, s) →
    ∃ data, st.pushed s = some data ∧ p = framePrefix data
  peekSize_pushed : ∀ c n s, peekSize st.queue c = some (n, s) →
    ∃ data, st.pushed s = some data ∧ n = data.length
  available : ∀ c out, dataAvailableFrom st.queue c = true ↔
    (readAt st.queue c out).1.isSome

def roomy (st : State) : Op → Prop
  | .push _ _ => refuses st.queue = false
  | _ => True

instance (st : State) (op : Op) : Decidable (roomy st op) := by
  unfold roomy
  split <;> infer_instance

structure Inv (st : State) : Prop where
  stored : Stored st.queue st.pushed
  window : ∃ lo, Window st.queue lo

theorem start_inv (capacity startSeq : Nat) (keepAll : Bool) : Inv (start capacity startSeq keepAll) :=
  ⟨fresh_stored capacity startSeq keepAll, startSeq, fresh_window capacity startSeq keepAll⟩

variable {st : State}

theorem apply_inv (h : Inv st) {op : Op} (hop : roomy st op) : Inv (apply st op) := by
  obtain ⟨lo, hw⟩ := h.window
  cases op with
  | push now data => exact ⟨push_stored h.stored now data, push_window hw hop now data⟩
  | tryTake seq out => exact ⟨tryTake_stored h.stored seq out, tryTake_window hw seq out⟩
  | readAt | peekPrefix | peekSize | messageSize => exact h

theorem inv_select (h : Inv st) {c s : Nat} {data : Bytes}
    (hs : select st.queue c = some (data, s)) : st.pushed s = some data := by
  obtain ⟨lo, hw⟩ := h.window
  exact h.stored.origin s data (select_mem hw.numbered hs)

theorem inv_faithful (h : Inv st) : Faithful st := by
  obtain ⟨lo, hw⟩ := h.window
  refine ⟨?_, h.stored.counted.symm, h.stored.counted.trans_le h.stored.bounded, ?_, ?_, ?_, ?_, ?_⟩
  · intro i s data s₀ data₀ hi h₀
    rw [hw.numbered.number hi, hw.numbered.number h₀, Nat.add_zero]
  · intro s
    rw [timestampFor, h.stored.keyed s, numbers]
    simp
  · intro c out n s out' hr
    unfold readAt at hr
    split at hr
    · cases hr
    · rename_i data actual hsel
      cases hr
      exact ⟨data, inv_select h hsel, rfl, rfl⟩
  · intro c p s hp
    obtain ⟨⟨data, t⟩, hsel, he⟩ := map_eq_some_iff.mp hp
    cases he
    exact ⟨data, inv_select h hsel, rfl⟩
  · intro c n s hp
    obtain ⟨⟨data, t⟩, hsel, he⟩ := map_eq_some_iff.mp hp
    cases he
    exact ⟨data, inv_select h hsel, rfl⟩
  · intro c out
    rw [← select_isSome_iff hw.numbered, readAt]
    cases select st.queue c <;> rfl

/-- In every run without a refused push, of either mode and any capacity,
each state reached is numbered without a gap and read faithfully. -/
theorem roomy_faithful (capacity startSeq : Nat) (keepAll : Bool) {st : State}
    (h : Reach step roomy (start capacity startSeq keepAll) st) : Faithful st := by
  refine inv_faithful (h.invariant (start_inv capacity startSeq keepAll) ?_)
  intro s op t hi hop hs
  cases hs
  exact apply_inv hi hop

/-- The third push finds the queue full and uses up number 2; after a take
the fourth push is stored under number 3, next to number 1. -/
def refusedPush : List Op :=
  [.push 0 [10], .push 0 [11], .push 0 [12], .tryTake 0 [0], .push 0 [13]]

theorem refused_push_leaves_gap :
    ¬ ∀ capacity startSeq keepAll st,
      Reach step anyStep (start capacity startSeq keepAll) st → Faithful st := by
  intro hall
  have hrun : (run step refusedPush (start 2 0 true)).map (fun st => (st.pushed 2, readAt st.queue 2 [0])) =
      some (none, (some (1, 2), [13])) := by decide +kernel
  obtain ⟨st, hst, hobs⟩ := map_eq_some_iff.mp hrun
  obtain ⟨hpushed, hread⟩ := Prod.mk.inj hobs
  have hf := hall 2 0 true st (reach_of_run hst fun _ _ _ => trivial)
  obtain ⟨data, hdata, _⟩ := hf.readAt_pushed 2 [0] 1 2 [13] hread
  rw [hpushed] at hdata
  cases hdata

/-- Three pushes into a queue of two that keeps the last. -/
theorem roomy_keep_last :
    ∃ st, st.queue.messages = [(1, [11]), (2, [12])] ∧ Faithful st := by
  have hrun : (guardedRun step roomy [.push 0 [10], .push 0 [11], .push 0 [12]]
      (start 2 0 false)).map (fun st => st.queue.messages) = some [(1, [11]), (2, [12])] := by
    decide +kernel
  obtain ⟨st, hst, hm⟩ := map_eq_some_iff.mp hrun
  exact ⟨st, hm, roomy_faithful 2 0 false (reach_of_guardedRun hst)⟩

end RmwAxon.QueueRun
