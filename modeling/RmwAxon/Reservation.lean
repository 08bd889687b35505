import RmwAxon.LocalPubSub
import RmwAxon.RingAtomic
import RmwAxon.Tickets

namespace RmwAxon.Reservation

open RingBuffer RingHistory LocalPubSub RingAtomic Transition Tickets Function List Option

inductive BorrowPoint
  | loadRead
  | rollBack
  | invalidate
  | clearLen
  | register
  | returned
  deriving DecidableEq, Repr

inductive BorrowCall
  | entered (maxSize : Nat)
  | refused
  | reserved (maxSize writeIdx : Nat) (point : BorrowPoint)
  | rolledBack
  deriving DecidableEq, Repr

def stepBorrow (m : Ring) (loans : Loans) : BorrowCall → Option (Ring × Loans × BorrowCall)
  | .entered n =>
    if payloadCapacity m < n then some (m, loans, .refused)
    else some (reserve m, loans, .reserved n m.writeIndex .loadRead)
  | .refused => none
  | .reserved n w .loadRead =>
    some (m, loans, .reserved n w (if full m w m.readIndex then .rollBack else .invalidate))
  | .reserved _ _ .rollBack => some (unreserve m, loans, .rolledBack)
  | .reserved n w .invalidate => some (storeSeq m w none, loans, .reserved n w .clearLen)
  | .reserved n w .clearLen => some (storeLen m w 0, loans, .reserved n w .register)
  | .reserved n w .register => some (m, update loans (dataPtr m w) (some w), .reserved n w .returned)
  | .reserved _ _ .returned => none
  | .rolledBack => none

inductive Producer
  | idle
  | write (call : WriteCall)
  | borrow (handle : Nat) (call : BorrowCall)
  deriving DecidableEq, Repr

structure State where
  ring : Ring
  loans : Nat → Loans
  producers : Nat → Producer

def start (m : Ring) (loans : Nat → Loans) : State := ⟨m, loans, fun _ => .idle⟩

inductive Action
  | beginWrite (c : Nat) (data : Bytes)
  | beginBorrow (c handle maxSize : Nat)
  | advance (c k : Nat)

def setProducer (st : State) (c : Nat) (p : Producer) : State :=
  { st with producers := update st.producers c p }

def step (st : State) : Action → Option State
  | .beginWrite c data =>
    if st.producers c = .idle then some (setProducer st c (.write (.entered data))) else none
  | .beginBorrow c handle n =>
    if st.producers c = .idle then some (setProducer st c (.borrow handle (.entered n))) else none
  | .advance c k =>
    match st.producers c with
    | .idle => none
    | .write call => (stepWrite st.ring k call).map fun (m, call) =>
      setProducer { st with ring := m } c (.write call)
    | .borrow handle call => (stepBorrow st.ring (st.loans handle) call).map fun (m, l, call) =>
      setProducer ⟨m, update st.loans handle l, st.producers⟩ c (.borrow handle call)

/-- The number a producer holds. A borrow that found the ring full holds
none: all it has left to do is to give a number back. -/
def held : Producer → Option Nat
  | .write (.reserved _ w _) => some w
  | .borrow _ (.reserved _ w p) => if p = .rollBack then none else some w
  | _ => none

def succeeded : Producer → Option Nat
  | .write (.reserved _ w .returned) => some w
  | .borrow _ (.reserved _ w .returned) => some w
  | _ => none

theorem held_of_succeeded {p : Producer} {s : Nat} (h : succeeded p = some s) : held p = some s := by
  unfold succeeded at h
  split at h <;> first | exact h | cases h

def Distinct (st : State) : Prop :=
  ∀ c c' s, succeeded (st.producers c) = some s → succeeded (st.producers c') = some s → c = c'

/-- A roll-back is taken only when the number it makes available again, the
one below write_index, is not held by a producer. -/
def freeRollBack (st : State) : Action → Prop
  | .advance c _ => ∀ handle n w, st.producers c = .borrow handle (.reserved n w .rollBack) →
      ∀ d v, held (st.producers d) = some v → v + 1 ≠ st.ring.writeIndex
  | _ => True

inductive Moves (w : Nat) (old : Option Nat) : Nat → Option Nat → Prop
  | keep : Moves w old w old
  | issue : Moves w old (w + 1) (some w)
  | discard : Moves w old w none
  | rewind : old = none → Moves w old (w - 1) none

variable {m m' : Ring} {k : Nat} {call : WriteCall}

theorem stepWrite_moves {call' : WriteCall} (h : stepWrite m k call = some (m', call')) :
    Moves m.writeIndex (held (.write call)) m'.writeIndex (held (.write call')) ∧
      m.writeIndex ≤ m'.writeIndex := by
  cases call with
  | idle | refused => cases h
  | entered data =>
    simp only [stepWrite] at h
    split_ifs at h <;> cases h
    · exact ⟨.discard, le_rfl⟩
    · exact ⟨.issue, Nat.le_succ _⟩
  | reserved data w p =>
    obtain ⟨⟨m₁, p₁⟩, hm, he⟩ := map_eq_some_iff.mp h
    cases he
    rw [(movePoint_frame hm).2.1]
    exact ⟨.keep, le_rfl⟩

theorem stepBorrow_moves {l l' : Loans} {call call' : BorrowCall}
    (h : stepBorrow m l call = some (m', l', call')) (handle : Nat) :
    Moves m.writeIndex (held (.borrow handle call)) m'.writeIndex (held (.borrow handle call')) := by
  cases call with
  | refused | rolledBack => cases h
  | entered n =>
    simp only [stepBorrow] at h
    split_ifs at h <;> cases h
    · exact .discard
    · exact .issue
  | reserved n w p =>
    cases p with
    | loadRead =>
      simp only [stepBorrow] at h
      split_ifs at h <;> cases h
      · exact .discard
      · exact .keep
    | rollBack => cases h; exact .rewind rfl
    | invalidate | clearLen | register => cases h; exact .keep
    | returned => cases h

theorem stepBorrow_rollBack {l l' : Loans} {call call' : BorrowCall}
    (h : stepBorrow m l call = some (m', l', call')) (hlt : m'.writeIndex < m.writeIndex) :
    ∃ n w, call = .reserved n w .rollBack := by
  cases call with
  | refused | rolledBack => cases h
  | entered n =>
    simp only [stepBorrow] at h
    split_ifs at h <;> cases h
    · exact absurd hlt (lt_irrefl _)
    · exact absurd hlt (Nat.not_lt.mpr (Nat.le_succ _))
  | reserved n w p =>
    cases p with
    | rollBack => exact ⟨n, w, rfl⟩
    | loadRead | invalidate | clearLen | register => cases h; exact absurd hlt (lt_irrefl _)
    | returned => cases h

theorem moves_dispensed {w w' : Nat} {producers : Nat → Producer} {c : Nat} {p : Producer}
    (h : Dispensed w (held ∘ producers)) (hm : Moves w (held (producers c)) w' (held p))
    (hfree : w' < w → ∀ d v, held (producers d) = some v → v + 1 ≠ w) :
    Dispensed w' (held ∘ update producers c p) := by
  rw [comp_update]
  generalize held p = new at hm ⊢
  cases hm with
  | keep =>
    rw [show held (producers c) = (held ∘ producers) c from rfl, update_eq_self]
    exact h
  | issue => exact issue h c
  | discard => exact discard h c
  | rewind hold =>
    rcases Nat.eq_zero_or_pos w with rfl | hw
    · exact discard h c
    · exact discard (rewind h (hfree (by omega))) c

theorem step_dispensed {st st' : State} {a : Action}
    (h : Dispensed st.ring.writeIndex (held ∘ st.producers)) (ha : freeRollBack st a)
    (hs : step st a = some st') : Dispensed st'.ring.writeIndex (held ∘ st'.producers) := by
  cases a with
  | beginWrite c data | beginBorrow c handle n =>
    simp only [step] at hs
    split_ifs at hs with hc
    cases hs
    exact moves_dispensed h (by rw [hc]; exact .keep) fun hlt => absurd hlt (Nat.lt_irrefl _)
  | advance c k =>
    simp only [step] at hs
    cases hc : st.producers c with
    | idle => simp [hc] at hs
    | write call =>
      rw [hc] at hs
      obtain ⟨⟨m, call'⟩, hm, rfl⟩ := map_eq_some_iff.mp hs
      obtain ⟨hmoves, hle⟩ := stepWrite_moves hm
      exact moves_dispensed h (by rw [hc]; exact hmoves) fun hlt => absurd hlt hle.not_gt
    | borrow handle call =>
      rw [hc] at hs
      obtain ⟨⟨m, l, call'⟩, hm, rfl⟩ := map_eq_some_iff.mp hs
      have hmoves := stepBorrow_moves hm handle
      refine moves_dispensed h (by rw [hc]; exact hmoves) fun hlt => ?_
      obtain ⟨n, w, rfl⟩ := stepBorrow_rollBack hm hlt
      exact ha handle n w hc

/-- From any ring, in every schedule whose roll-backs make available again
only numbers that no producer holds, successful reservations differ. -/
theorem free_rollBack_distinct {m : Ring} {loans : Nat → Loans} {st : State}
    (h : Reach step freeRollBack (start m loans) st) : Distinct st := by
  have hd : Dispensed st.ring.writeIndex (held ∘ st.producers) :=
    h.invariant (I := fun st => Dispensed st.ring.writeIndex (held ∘ st.producers))
      (Tickets.empty m.writeIndex) fun _ _ _ hi ha hs => step_dispensed hi ha hs
  intro c c' s hc hc'
  exact hd.unique c c' s (held_of_succeeded hc) (held_of_succeeded hc')

def atRollBack : Producer → Bool
  | .borrow _ (.reserved _ _ .rollBack) => true
  | _ => false

/-- The check of a schedule of the first n producers. -/
def freeAmong (n : Nat) (st : State) : Action → Bool
  | .beginWrite c _ | .beginBorrow c _ _ => c < n
  | .advance c _ => c < n && (!atRollBack (st.producers c) ||
    (List.range n).all fun d => (held (st.producers d)).map (· + 1) != some st.ring.writeIndex)

theorem step_idle {n : Nat} {st st' : State} {a : Action} (hidle : ∀ d, n ≤ d → st.producers d = .idle)
    (ha : freeAmong n st a = true) (hs : step st a = some st') : ∀ d, n ≤ d → st'.producers d = .idle := by
  intro d hd
  cases a with
  | beginWrite c data | beginBorrow c handle k =>
    have hc : c < n := of_decide_eq_true ha
    simp only [step] at hs
    split_ifs at hs
    cases hs
    exact (update_of_ne (by omega) ..).trans (hidle d hd)
  | advance c k =>
    have hc : c < n := of_decide_eq_true (Bool.and_eq_true_iff.mp ha).1
    simp only [step] at hs
    cases hp : st.producers c with
    | idle => simp [hp] at hs
    | write call | borrow handle call =>
      rw [hp] at hs
      obtain ⟨_, -, rfl⟩ := map_eq_some_iff.mp hs
      exact (update_of_ne (by omega) ..).trans (hidle d hd)

theorem reach_of_freeAmong {n : Nat} {m : Ring} {loans : Nat → Loans} {as : List Action} {st : State}
    (h : guardedRun step (fun st a => freeAmong n st a = true) as (start m loans) = some st) :
    Reach step freeRollBack (start m loans) st := by
  refine (reach_of_guardedRun h).weaken (I := fun st => ∀ d, n ≤ d → st.producers d = .idle)
    (fun _ _ => rfl) (fun _ _ _ => step_idle) ?_
  intro st a _ hidle ha _
  cases a with
  | beginWrite | beginBorrow => exact trivial
  | advance c k =>
    intro handle k w hp d v hv
    rcases Nat.lt_or_ge d n with hd | hd
    · simp only [freeAmong, hp, atRollBack, Bool.and_eq_true, Bool.not_true, Bool.false_or,
        List.all_eq_true, mem_range] at ha
      have hne := ha.2 d hd
      simpa [hv] using hne
    · rw [hidle d hd] at hv
      cases hv

/-- A borrow finds the ring full and gives number 2 back, which the next write gets. -/
theorem free_rollBack_three_writes :
    ∃ st, Reach step freeRollBack (start (create twoSlots) fun _ _ => none) st ∧
      st.producers 2 = .borrow 0 .rolledBack ∧ succeeded (st.producers 0) = some 0 ∧
      succeeded (st.producers 1) = some 1 ∧ succeeded (st.producers 3) = some 2 ∧ Distinct st := by
  obtain ⟨st, hrun, h⟩ := exists_of_any
    (o := guardedRun step (fun st a => freeAmong 4 st a = true)
      ((.beginWrite 0 [10] :: List.replicate 8 (.advance 0 0)) ++
        (.beginWrite 1 [11] :: List.replicate 8 (.advance 1 0)) ++
        (.beginBorrow 2 0 1 :: List.replicate 3 (.advance 2 0)) ++
        (.beginWrite 3 [13] :: List.replicate 9 (.advance 3 0))) (start (create twoSlots) fun _ _ => none))
    (p := fun st => st.producers 2 = .borrow 0 .rolledBack ∧ succeeded (st.producers 0) = some 0 ∧
      succeeded (st.producers 1) = some 1 ∧ succeeded (st.producers 3) = some 2) (by decide +kernel)
  have hreach := reach_of_freeAmong hrun
  exact ⟨st, hreach, h.1, h.2.1, h.2.2.1, h.2.2.2, free_rollBack_distinct hreach⟩

/-- A full ring of two slots: producer 2 borrows number 2 and will roll back,
producer 3 writes number 3, the roll-back makes 3 available again and
producer 4 writes number 3 as well. -/
def reissue : List Action :=
  (.beginWrite 0 [10] :: List.replicate 8 (.advance 0 0)) ++
  (.beginWrite 1 [11] :: List.replicate 8 (.advance 1 0)) ++
  [.beginBorrow 2 0 1, .advance 2 0, .advance 2 0] ++
  (.beginWrite 3 [13] :: List.replicate 9 (.advance 3 0)) ++ [.advance 2 0] ++
  (.beginWrite 4 [14] :: List.replicate 8 (.advance 4 0))

theorem rollBack_reissues_number :
    ¬ ∀ m loans st, Reach step anyStep (start m loans) st → Distinct st := by
  intro hall
  have hrun : (run step reissue (start (create twoSlots) fun _ _ => none)).map
      (fun st => (succeeded (st.producers 3), succeeded (st.producers 4))) =
      some (some 3, some 3) := by decide +kernel
  obtain ⟨st, hst, hobs⟩ := map_eq_some_iff.mp hrun
  obtain ⟨h3, h4⟩ := Prod.mk.inj hobs
  have hreach : Reach step anyStep _ st := reach_of_run hst (by simp [anyStep])
  exact absurd (hall _ _ _ hreach 3 4 3 h3 h4) (by decide)

end RmwAxon.Reservation
