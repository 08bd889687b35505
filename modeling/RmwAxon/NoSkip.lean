import RmwAxon.ReceiveAtomic
import RmwAxon.SlotOrder

namespace RmwAxon.NoSkip

open RingBuffer RingHistory ReceiveAtomic Transition List Option

/-- A subscriber beside the calls of a ring. It asks for its cursor, moves
behind what it obtained and asks for the same number again after an error. -/
structure State where
  system : RingAtomic.State
  cursor : Nat
  call : Option Call
  obtained : List Nat

inductive Action
  | system (a : RingAtomic.Action)
  | call (out : Bytes)
  | receive (k : Nat) (v : Verdict)
  | take

def take (st : State) : Call → Option State
  | .returned _ _ (.ok (_, seq)) =>
    some { st with cursor := seq + 1, call := none, obtained := st.obtained ++ [seq] }
  | .returned _ _ (.error _) => some { st with call := none }
  | .running _ _ _ => none

def step (st : State) : Action → Option State
  | .system a => (RingAtomic.step st.system a).map fun s => { st with system := s }
  | .call out =>
    match st.call with
    | none => some { st with call := some (.running st.cursor out .loadWrite) }
    | some _ => none
  | .receive k v =>
    (st.call.bind (stepReceive st.system.ring k v)).map fun r =>
      { st with system := { st.system with ring := r.1 }, call := some r.2 }
  | .take => st.call.bind (take st)

def start (s : RingAtomic.State) (cursor : Nat) : State := ⟨s, cursor, none, []⟩

def buffer : Action → Option Bytes
  | .call out => some out
  | _ => none

/-- The cursor is at most one turn of the ring behind, and buffers hold
whatever a slot can hold. -/
def keepsUp (st : State) (a : Action) : Prop :=
  st.system.ring.writeIndex ≤ st.cursor + slotCount st.system.ring ∧
    ∀ out ∈ buffer a, payloadCapacity st.system.ring ≤ out.length
  deriving Decidable

def awaited (st : State) : Option Nat :=
  match st.call with
  | some (.running _ _ (.reload _ actual _)) => some actual
  | _ => none

/-- The subscriber waits for no number but the newest one. -/
def awaitsNewest (st : State) : Action → Prop
  | .receive _ _ => ∀ actual ∈ awaited st, st.system.ring.writeIndex ≤ actual + 1
  | _ => True

def Unskipped (cursor : Nat) (st : State) : Prop :=
  st.obtained = List.range' cursor st.obtained.length

def OnTarget (m : Ring) (cursor : Nat) : Call → Prop
  | .running requested _ p => requested = cursor ∧
      match p with
      | .loadWrite => True
      | .loadOldest writeIdx => writeIdx ≤ m.writeIndex
      | .checkQos s => s = cursor ∧ cursor < m.writeIndex
      | .read _ actual _ => actual = cursor ∧ cursor < m.writeIndex
      | .reload _ actual _ => actual = cursor ∧ cursor < m.writeIndex
      | .loadRead actual _ => actual = cursor
      | .storeRead actual _ => actual = cursor
      | .checkLifespan actual _ => actual = cursor
      | .report _ _ => True
      | .reportOldest _ _ _ => True
  | .returned _ _ r => ∀ size seq, r = .ok (size, seq) → seq = cursor

variable {cursor first retries : Nat} {m m' : Ring}

theorem OnTarget.mono {call : Call} (h : OnTarget m cursor call)
    (hw : m.writeIndex ≤ m'.writeIndex) : OnTarget m' cursor call := by
  cases call with
  | returned => exact h
  | running requested out p =>
    refine ⟨h.1, ?_⟩
    have hp := h.2
    cases p with
    | loadWrite | loadRead | storeRead | checkLifespan | report | reportOldest => exact hp
    | loadOldest => exact le_trans hp hw
    | checkQos | read | reload => exact ⟨hp.1, lt_of_lt_of_le hp.2 hw⟩

theorem afterRead_onTarget (out : Bytes) (r : Except RingError Nat) (hc : cursor < m.writeIndex) :
    OnTarget m cursor (afterRead cursor retries cursor out r) := by
  cases r with
  | ok size => exact ⟨rfl, rfl⟩
  | error e =>
    cases e with
    | slotOverwritten =>
      simp only [afterRead]
      split_ifs
      · exact ⟨rfl, rfl, hc⟩
      · exact ⟨rfl, trivial⟩
    | slotNotYetWritten =>
      simp only [afterRead]
      split_ifs
      · exact ⟨rfl, rfl, hc⟩
      · exact fun _ _ h => by cases h
    | dataExceedsSlotSize | noData | bufferTooSmall => exact ⟨rfl, trivial⟩

theorem retarget_onTarget {overwritten : Bool} (out : Bytes) (hc : m.writeIndex = cursor + 1) :
    OnTarget m cursor (retarget m cursor retries cursor overwritten out) := by
  have hlatest : currentSeq m - 1 = cursor := by simp [currentSeq, hc]
  cases overwritten with
  | true => simp [retarget, hlatest, OnTarget]
  | false => simp [retarget, hlatest, OnTarget, hc]

theorem stepReceive_onTarget {k : Nat} {v : Verdict} {call call' : Call}
    (hup : m.writeIndex ≤ cursor + slotCount m)
    (hnew : ∀ requested out retries actual overwritten,
      call = .running requested out (.reload retries actual overwritten) →
      m.writeIndex ≤ actual + 1)
    (ht : OnTarget m cursor call) (h : stepReceive m k v call = some (m', call')) :
    OnTarget m' cursor call' := by
  cases call with
  | returned => cases h
  | running requested out p =>
    obtain ⟨rfl, hp⟩ := ht
    cases p with
    | loadWrite => cases h; exact ⟨rfl, le_rfl⟩
    | loadOldest writeIdx =>
      cases h
      split_ifs with hno hold
      · exact fun _ _ he => by cases he
      · exact ⟨rfl, rfl, lt_of_lt_of_le (Nat.lt_of_not_le fun hle => hno (.inr hle)) hp⟩
      · exact absurd (Nat.sub_le_iff_le_add.mpr hup) hold
    | checkQos s =>
      cases h
      split_ifs
      · exact ⟨rfl, hp⟩
      · exact fun _ _ he => by cases he
    | read retries actual call =>
      obtain ⟨rfl, hc⟩ := hp
      obtain ⟨rfl, ⟨_, out', r, _, rfl⟩ | ⟨_, _, rfl⟩⟩ := stepReceive_read h
      · exact afterRead_onTarget out' r hc
      · exact ⟨rfl, rfl, hc⟩
    | loadRead actual size =>
      cases h
      split_ifs <;> exact ⟨rfl, hp⟩
    | storeRead actual size => cases h; exact ⟨rfl, hp⟩
    | checkLifespan actual size =>
      cases h
      intro n s he
      split_ifs at he
      cases he
      exact hp
    | reload retries actual overwritten =>
      cases h
      obtain ⟨rfl, hc⟩ := hp
      exact retarget_onTarget out (le_antisymm (hnew _ _ _ _ _ rfl) hc)
    | report actual e => cases h; exact ⟨rfl, trivial⟩
    | reportOldest actual e writeIdx => cases h; exact fun _ _ he => by cases he

structure Inv (first : Nat) (st : State) : Prop where
  unskipped : Unskipped first st
  cursor : st.cursor = first + st.obtained.length
  call : ∀ call, st.call = some call → OnTarget st.system.ring st.cursor call

theorem start_inv (s : RingAtomic.State) (first : Nat) : Inv first (start s first) :=
  ⟨rfl, rfl, by simp [start]⟩

theorem take_inv {st st' : State} {call : Call} (hi : Inv first st)
    (hc : st.call = some call) (h : take st call = some st') : Inv first st' := by
  cases call with
  | running => cases h
  | returned requested out r =>
    cases r with
    | error e => cases h; exact ⟨hi.unskipped, hi.cursor, by simp⟩
    | ok p =>
      obtain ⟨size, seq⟩ := p
      have hseq : seq = st.cursor := hi.call _ hc size seq rfl
      cases h
      refine ⟨?_, ?_, by simp⟩
      · simp only [Unskipped, length_append, length_singleton, range'_concat]
        rw [← hi.unskipped, hseq, hi.cursor, one_mul]
      · simp [hseq, hi.cursor, Nat.add_assoc]

theorem step_inv {st st' : State} {a : Action} (hi : Inv first st)
    (hup : keepsUp st a) (hnew : awaitsNewest st a) (h : step st a = some st') : Inv first st' := by
  cases a with
  | system a =>
    obtain ⟨s, hs, rfl⟩ := map_eq_some_iff.mp h
    exact ⟨hi.unskipped, hi.cursor,
      fun call hc => (hi.call call hc).mono (SlotOrder.step_advances hs).writeIndex⟩
  | call out =>
    simp only [step] at h
    split at h
    · cases h
      refine ⟨hi.unskipped, hi.cursor, fun call hc => ?_⟩
      cases hc
      exact ⟨rfl, trivial⟩
    · cases h
  | receive k v =>
    obtain ⟨⟨m, next⟩, hb, rfl⟩ := map_eq_some_iff.mp h
    obtain ⟨call, hc, hs⟩ := bind_eq_some_iff.mp hb
    refine ⟨hi.unskipped, hi.cursor, fun call' hc' => ?_⟩
    cases hc'
    refine stepReceive_onTarget hup.1 (fun requested out retries actual overwritten he => ?_)
      (hi.call call hc) hs
    exact hnew actual (by simp [awaited, hc, he])
  | take =>
    obtain ⟨call, hc, ht⟩ := bind_eq_some_iff.mp h
    exact take_inv hi hc ht

/-- A subscriber that keeps up obtains every number in turn, as long as the
numbers it has to wait for are the newest ones. -/
theorem awaited_unskipped {s : RingAtomic.State} {first : Nat} {st : State}
    (h : Reach step (fun s a => keepsUp s a ∧ awaitsNewest s a) (start s first) st) :
    Unskipped first st :=
  (h.invariant (I := Inv first) (start_inv s first) fun _ _ _ hi ha hs => step_inv hi ha.1 ha.2 hs).unskipped

def accepted : Verdict := ⟨true, fun _ => false⟩

def obtainOne (steps : Nat) : List Action :=
  .call (List.replicate 8 0) :: List.replicate steps (.receive 0 accepted) ++ [.take]

instance (st : State) (a : Action) : Decidable (awaitsNewest st a) := by
  unfold awaitsNewest
  split <;> infer_instance

/-- Writer 0 has taken number 0 and stalls while writer 1 finishes number 1. -/
def stalledWriter : List Action :=
  [.system (.beginWrite 0 [10]), .system (.write 0 0), .system (.beginWrite 1 [11])] ++
    List.replicate 8 (.system (.write 1 0)) ++ obtainOne 18

theorem stalled_number_skipped :
    ¬ ∀ g first st, Reach step keepsUp (start (RingAtomic.initial g) first) st →
      Unskipped first st := by
  intro hall
  have hrun : (guardedRun step keepsUp stalledWriter
      (start (RingAtomic.initial twoSlots) 0)).map (fun st => st.obtained) = some [1] := by
    decide +kernel
  obtain ⟨st, hst, hobs⟩ := map_eq_some_iff.mp hrun
  have hun := hall twoSlots 0 st (reach_of_guardedRun hst)
  simp [Unskipped, hobs] at hun

def awaitedWriter : List Action :=
  [.system (.beginWrite 0 [10]), .system (.write 0 0), .call (List.replicate 8 0)] ++
    List.replicate 8 (.receive 0 accepted) ++ List.replicate 7 (.system (.write 0 0)) ++
    List.replicate 10 (.receive 0 accepted) ++ [.take]

theorem awaited_unskipped_single_write : ∃ st, st.obtained = [0] ∧ Unskipped 0 st := by
  have hrun : (guardedRun step (fun s a => keepsUp s a ∧ awaitsNewest s a) awaitedWriter
      (start (RingAtomic.initial twoSlots) 0)).map (fun st => st.obtained) = some [0] := by
    decide +kernel
  obtain ⟨st, hst, hobs⟩ := map_eq_some_iff.mp hrun
  exact ⟨st, hobs, awaited_unskipped (reach_of_guardedRun hst)⟩

end RmwAxon.NoSkip
