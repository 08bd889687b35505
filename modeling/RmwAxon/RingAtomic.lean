import RmwAxon.RingHistory
import RmwAxon.Transition

namespace RmwAxon.RingAtomic

open RingBuffer Function Option

/-- Program points of write behind its fetch_add, one per atomic access. A
copy lists the bytes still to be moved; they may be moved in any order. -/
inductive WritePoint
  | loadRead
  | exchangeRead (readIdx : Nat)
  | invalidate
  | clearLen
  | copy (todo : List Nat)
  | setLen
  | stamp
  | returned
  deriving DecidableEq, Repr

inductive WriteCall
  | idle
  | entered (data : Bytes)
  | refused (data : Bytes)
  | reserved (data : Bytes) (writeIdx : Nat) (point : WritePoint)
  deriving DecidableEq, Repr

inductive ReadPoint
  | loadWrite
  | loadSeq
  | loadLen
  | copy (n : Nat) (todo : List Nat)
  | recheck (n : Nat)
  deriving DecidableEq, Repr

inductive ReadCall
  | idle
  | running (s : Nat) (out : Bytes) (point : ReadPoint)
  | returned (s : Nat) (out : Bytes) (result : Except RingError Nat)
  deriving DecidableEq, Repr

/-- One atomic access of a write that holds writeIdx. The argument k picks
the byte when the call is copying and is ignored otherwise. -/
def movePoint (m : Ring) (k : Nat) (data : Bytes) (w : Nat) : WritePoint → Option (Ring × WritePoint)
  | .loadRead => some (m, if lagging m w m.readIndex then .exchangeRead m.readIndex else .invalidate)
  | .exchangeRead r => some (compareExchangeRead m r (retainedFrom m w), .invalidate)
  | .invalidate => some (storeSeq m w none, .clearLen)
  | .clearLen => some (storeLen m w 0, .copy (List.range data.length))
  | .copy todo =>
    if todo = [] then some (m, .setLen)
    else if k ∈ todo then some (storeByte m w k (data.getD k 0), .copy (todo.erase k))
    else none
  | .setLen => some (storeLen m w (asU32 data.length), .stamp)
  | .stamp => some (storeSeq m w (some w), .returned)
  | .returned => none

def stepWrite (m : Ring) (k : Nat) : WriteCall → Option (Ring × WriteCall)
  | .idle => none
  | .entered data =>
    if payloadCapacity m < data.length then some (m, .refused data)
    else some (reserve m, .reserved data m.writeIndex .loadRead)
  | .refused _ => none
  | .reserved data w p => (movePoint m k data w p).map fun (m, p) => (m, .reserved data w p)

def stepRead (m : Ring) (k : Nat) : ReadCall → Option ReadCall
  | .idle => none
  | .running s out .loadWrite =>
    some (if m.writeIndex ≤ s then .returned s out (.error .noData)
      else if slotCount m < m.writeIndex - s then .returned s out (.error .slotOverwritten)
      else .running s out .loadSeq)
  | .running s out .loadSeq =>
    some (if (slotAt m s).seq ≠ some s then .returned s out (.error .slotNotYetWritten)
      else .running s out .loadLen)
  | .running s out .loadLen =>
    let n := (slotAt m s).len
    some (if n = 0 then .returned s out (.error .slotNotYetWritten)
      else if out.length < n then .returned s out (.error .bufferTooSmall)
      else .running s out (.copy n (List.range n)))
  | .running s out (.copy n todo) =>
    if todo = [] then some (.running s out (.recheck n))
    else if k ∈ todo then
      some (.running s (out.set k ((slotAt m s).data k)) (.copy n (todo.erase k)))
    else none
  | .running s out (.recheck n) =>
    some (if (slotAt m s).seq ≠ some s then .returned s out (.error .slotOverwritten)
      else .returned s out (.ok n))
  | .returned _ _ _ => none

structure State where
  ring : Ring
  writes : Nat → WriteCall
  reads : Nat → ReadCall

def initial (g : Geometry) : State := ⟨create g, fun _ => .idle, fun _ => .idle⟩

inductive Action
  | beginWrite (c : Nat) (data : Bytes)
  | write (c k : Nat)
  | beginRead (c s : Nat) (out : Bytes)
  | read (c k : Nat)

def step (st : State) : Action → Option State
  | .beginWrite c data =>
    if st.writes c = .idle then
      some { st with writes := update st.writes c (.entered data) }
    else none
  | .write c k =>
    (stepWrite st.ring k (st.writes c)).map fun (m, call) =>
      { st with ring := m, writes := update st.writes c call }
  | .beginRead c s out =>
    if st.reads c = .idle then
      some { st with reads := update st.reads c (.running s out .loadWrite) }
    else none
  | .read c k =>
    (stepRead st.ring k (st.reads c)).map fun call =>
      { st with reads := update st.reads c call }

def settled : WriteCall → Bool
  | .idle | .refused _ | .reserved _ _ .returned => true
  | _ => false

def rank : WritePoint → Nat
  | .loadRead => 0
  | .exchangeRead _ => 1
  | .invalidate => 2
  | .clearLen => 3
  | .copy _ => 4
  | .setLen => 5
  | .stamp => 6
  | .returned => 7

variable {p : WritePoint} {k c : Nat} {data : Bytes} {st st' : State}

theorem rank_eq_returned (h : 7 ≤ rank p) : p = .returned := by
  cases p <;> simp [rank] at h ⊢

theorem movePoint_rank {m m' : Ring} {w : Nat} {p' : WritePoint}
    (h : movePoint m k data w p = some (m', p')) :
    rank p ≤ rank p' ∧ (2 ≤ rank p → 3 ≤ rank p') ∧ (rank p < 2 → rank p' ≤ 2) := by
  cases p with
  | loadRead =>
    simp only [movePoint, some.injEq, Prod.mk.injEq] at h
    obtain ⟨rfl, rfl⟩ := h
    split <;> simp [rank]
  | copy todo =>
    simp only [movePoint] at h
    split_ifs at h <;> cases h <;> simp [rank]
  | exchangeRead | invalidate | clearLen | setLen | stamp => cases h; simp [rank]
  | returned => cases h

theorem movePoint_frame {m m' : Ring} {w : Nat} {p' : WritePoint}
    (h : movePoint m k data w p = some (m', p')) :
    m'.geometry = m.geometry ∧ m'.writeIndex = m.writeIndex ∧
      ∀ s, (rank p < 2 ∨ slotIndex m s ≠ slotIndex m w) → slotAt m' s = slotAt m s := by
  cases p with
  | loadRead => cases h; exact ⟨rfl, rfl, fun _ _ => rfl⟩
  | exchangeRead r =>
    cases h
    unfold compareExchangeRead
    split <;> exact ⟨rfl, rfl, fun _ _ => rfl⟩
  | copy todo =>
    simp only [movePoint] at h
    split_ifs at h <;> cases h
    · exact ⟨rfl, rfl, fun _ _ => rfl⟩
    · exact ⟨rfl, rfl, fun s hs => slotAt_updateSlot_of_ne _ (by simpa [rank] using hs)⟩
  | invalidate | clearLen | setLen | stamp =>
    cases h
    exact ⟨rfl, rfl, fun s hs => slotAt_updateSlot_of_ne _ (by simpa [rank] using hs)⟩
  | returned => cases h

theorem step_write_cases (h : step st (.write c k) = some st') :
    (∃ data, st.writes c = .entered data ∧ payloadCapacity st.ring < data.length ∧
      st' = { st with writes := update st.writes c (.refused data) }) ∨
    (∃ data, st.writes c = .entered data ∧ data.length ≤ payloadCapacity st.ring ∧ st' = ⟨reserve st.ring,
        update st.writes c (.reserved data st.ring.writeIndex .loadRead), st.reads⟩) ∨
    (∃ data w p m p', st.writes c = .reserved data w p ∧ movePoint st.ring k data w p = some (m, p') ∧
      st' = ⟨m, update st.writes c (.reserved data w p'), st.reads⟩) := by
  obtain ⟨⟨m, call⟩, hs, rfl⟩ := map_eq_some_iff.mp h
  cases hc : st.writes c with
  | idle | refused => simp [hc, stepWrite] at hs
  | entered data =>
    simp only [hc, stepWrite] at hs
    split_ifs at hs with hd
    · cases hs; exact .inl ⟨data, rfl, hd, rfl⟩
    · cases hs; exact .inr (.inl ⟨data, rfl, Nat.le_of_not_lt hd, rfl⟩)
  | reserved data w p =>
    rw [hc] at hs
    obtain ⟨⟨m', p'⟩, hm, he⟩ := map_eq_some_iff.mp hs
    cases he
    exact .inr (.inr ⟨data, w, p, _, _, rfl, hm, rfl⟩)

theorem step_beginWrite (h : step st (.beginWrite c data) = some st') : st.writes c = .idle ∧
      st' = { st with writes := update st.writes c (.entered data) } := by
  simp only [step] at h
  split_ifs at h with hc
  cases h
  exact ⟨hc, rfl⟩

theorem step_beginRead {s : Nat} {out : Bytes} (h : step st (.beginRead c s out) = some st') :
    st.reads c = .idle ∧ st' = { st with reads := update st.reads c (.running s out .loadWrite) } := by
  simp only [step] at h
  split_ifs at h with hc
  cases h
  exact ⟨hc, rfl⟩

theorem step_read (h : step st (.read c k) = some st') : ∃ call, stepRead st.ring k (st.reads c) = some call ∧
      st' = { st with reads := update st.reads c call } := by
  obtain ⟨call, hs, rfl⟩ := map_eq_some_iff.mp h
  exact ⟨call, hs, rfl⟩

def writer : Action → Option Nat
  | .beginWrite c _ | .write c _ => some c
  | _ => none

theorem step_other_writer {a : Action} (h : step st a = some st') (hc : writer a ≠ some c) :
    st'.writes c = st.writes c := by
  cases a with
  | beginWrite d data =>
    obtain ⟨_, rfl⟩ := step_beginWrite h
    exact update_of_ne (by rintro rfl; exact hc rfl) _ _
  | write d k =>
    obtain ⟨⟨m, call⟩, _, rfl⟩ := map_eq_some_iff.mp h
    exact update_of_ne (by rintro rfl; exact hc rfl) _ _
  | beginRead d s out => obtain ⟨_, rfl⟩ := step_beginRead h; rfl
  | read d k => obtain ⟨_, _, rfl⟩ := step_read h; rfl

theorem run_other_writer {as : List Action} (h : Transition.run step as st = some st')
    (hc : ∀ a ∈ as, writer a ≠ some c) :
    st'.writes c = st.writes c := by
  induction as generalizing st with
  | nil => cases h; rfl
  | cons a as ih =>
    obtain ⟨u, hu, hrun⟩ := bind_eq_some_iff.mp h
    rw [ih hrun fun b hb => hc b (by simp [hb]), step_other_writer hu (hc a (by simp))]

end RmwAxon.RingAtomic
