import RmwAxon.Loan
import RmwAxon.ServiceEnvelope

namespace RmwAxon.ServicePeek

open LocalPubSub RingBuffer RingHistory ServiceEnvelope List

/-- The size is found by receiving the message. -/
def messageSize (m : Ring) (seq : Nat) : Except RingError Nat × Ring :=
  match slotDataSize m seq with
  | .error e => (.error e, m)
  | .ok size =>
    match read m seq (List.replicate size 0) with
    | (.error e, _, m) => (.error e, m)
    | (.ok n, buf, m) => (.ok (((decodeServiceEnvelope (buf.take n)).map fun p => p.2.length).getD n), m)

inductive Peek
  | requestMessageSize (seq : Nat)
  | responseMessageSize (seq : Nat)
  | peekMessageSize (seq : Nat)
  | peekNextMessageSize (seq : Nat)
  | dataAvailableFrom (seq : Nat)

/-- What a peek leaves behind. Those of the topics load only. -/
def look (m : Ring) : Peek → Ring
  | .requestMessageSize seq | .responseMessageSize seq => (messageSize m seq).2
  | .peekMessageSize _ | .peekNextMessageSize _ | .dataAvailableFrom _ => m

/-- The message cannot be read, or has been consumed before. -/
def Harmless (m : Ring) : Peek → Prop
  | .requestMessageSize seq | .responseMessageSize seq => ∀ n, slotDataSize m seq = .ok n → seq < m.readIndex
  | .peekMessageSize _ | .peekNextMessageSize _ | .dataAvailableFrom _ => True

def run (st : Loan.State) : List (Loan.Op ⊕ Peek) → Loan.State
  | [] => st
  | .inl op :: ops => run (Loan.apply st op) ops
  | .inr p :: ops => run { st with ring := look st.ring p } ops

def AllHarmless (st : Loan.State) : List (Loan.Op ⊕ Peek) → Prop
  | [] => True
  | .inl op :: ops => AllHarmless (Loan.apply st op) ops
  | .inr p :: ops => Harmless st.ring p ∧ AllHarmless { st with ring := look st.ring p } ops

variable {m : Ring} {seq n : Nat}

theorem messageSize_ring (h : slotDataSize m seq = .ok n) :
    (messageSize m seq).2 = if m.readIndex ≤ seq then { m with readIndex := seq + 1 } else m := by
  have hread : ∃ buf, readSlot m seq (replicate n 0) = (.ok n, buf) := by
    unfold slotDataSize at h
    unfold readSlot
    dsimp only at h ⊢
    split_ifs at h with h1 h2 h3 h4
    cases h
    simp [h1, h2, h3, h4]
  obtain ⟨buf, hbuf⟩ := hread
  simp [messageSize, h, RingBuffer.read, hbuf]

theorem look_eq_iff (m : Ring) (p : Peek) : look m p = m ↔ Harmless m p := by
  cases p with
  | requestMessageSize seq | responseMessageSize seq =>
    simp only [look, Harmless]
    cases h : slotDataSize m seq with
    | error e => simp [messageSize, h]
    | ok n =>
      rw [messageSize_ring h]
      split_ifs with hle
      · refine ⟨fun heq => ?_, fun hlt => absurd (hlt n rfl) (Nat.not_lt.mpr hle)⟩
        have hindex : seq + 1 = m.readIndex := congrArg Ring.readIndex heq
        omega
      · exact ⟨fun _ _ _ => Nat.not_le.mp hle, fun _ => rfl⟩
  | peekMessageSize | peekNextMessageSize | dataAvailableFrom => exact ⟨fun _ => trivial, fun _ => rfl⟩

/-- A peek leaves the ring as it is exactly if it is harmless, and then the run
is the run without it. -/
theorem peeks_unnoticed (st : Loan.State) (ops : List (Loan.Op ⊕ Peek)) :
    (∀ p, look st.ring p = st.ring ↔ Harmless st.ring p) ∧
      (AllHarmless st ops → run st ops = (ops.filterMap Sum.getLeft?).foldl Loan.apply st) := by
  refine ⟨look_eq_iff st.ring, fun h => ?_⟩
  induction ops generalizing st with
  | nil => rfl
  | cons op ops ih =>
    cases op with
    | inl op => exact ih _ h
    | inr p =>
      have hsame : { st with ring := look st.ring p } = st := by rw [(look_eq_iff st.ring p).mpr h.1]
      rw [run, hsame]
      exact ih st (hsame ▸ h.2)

/-- A request that has been received may be asked for its size again, and so may one that is not there. -/
theorem taken_request_unnoticed :
    let ops : List (Loan.Op ⊕ Peek) := [.inl (.write [1]), .inl (.read 0 [0]), .inr (.requestMessageSize 0),
      .inl (.write [2]), .inr (.responseMessageSize 7)]
    AllHarmless (Loan.start twoSlots) ops ∧
      run (Loan.start twoSlots) ops =
        (ops.filterMap Sum.getLeft?).foldl Loan.apply (Loan.start twoSlots) := by
  intro ops
  have h : AllHarmless (Loan.start twoSlots) ops := by
    refine ⟨fun n _ => by decide +kernel, fun n hn => ?_, trivial⟩
    have habsurd : some n = none := (congrArg Except.toOption hn).symm.trans (by decide +kernel)
    cases habsurd
  exact ⟨h, (peeks_unnoticed (Loan.start twoSlots) ops).2 h⟩

/-- A full ring has no slot to lend until somebody asks for the size of its oldest
request. -/
theorem peek_makes_room :
    let m := (write (write (create twoSlots) [1]).2 [2]).2
    (borrowBuffer m (fun _ => none) 1).1 = none ∧
      (borrowBuffer (look m (.requestMessageSize 0)) (fun _ => none) 1).1 ≠ none := by
  decide +kernel

end RmwAxon.ServicePeek
