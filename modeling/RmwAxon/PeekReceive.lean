import RmwAxon.ReceiveSpec
import RmwAxon.SessionRun

namespace RmwAxon.PeekReceive

open Cells Compress Qos Session Receive SubscriberQueue QueueHistory QueueSelect ReceiveSpec Option
open SessionRun Transition
open RingBuffer (Bytes currentSeq readSlot)
open RingHistory (History)

variable {codec : Codec} {st : State} {now t c n s : Nat} {out : Bytes}

def ringHistory (st : State) (t : Nat) : History :=
  match st.world.session.subscriptions t with
  | some h => st.published (st.world.handles h).segment
  | none => fun _ => none

/-- The payloads of the source that a cursor is served from: the queue of the
topic while it has an entry for the cursor, else the ring. -/
def sourceOf (st : State) (t c : Nat) : History :=
  match selected st.world.session t c with
  | some _ => st.arrived t
  | none => ringHistory st t

def Delivers (codec : Codec) (st : State) (now t c n s : Nat) (out : Bytes) : Prop :=
  ∃ out' w, receiveNext codec st.world now t c out = (.ok (n, s), out', w) ∧
    sourceOf st t c s = some (out'.take n)

/-- A queued frame fits the buffer as it is stored, its entry carries the
number, and it is not too old; a message of the ring passes the QoS check and
is not too old. -/
def Deliverable (st : State) (now t c s : Nat) (out : Bytes) : Prop :=
  match selected st.world.session t c with
  | some (q, frame, _) => frame.length ≤ out.length ∧ (s, frame) ∈ q.messages ∧
      outlived (lifespanOf st.world.session t) now (timestampFor q s) = false
  | none => qosAdmits st.world.session t = true ∧
      ∀ h, st.world.session.subscriptions t = some h →
        outlived (lifespanOf st.world.session t) now (localTimestamp st.world t h s) = false

variable {frame p : Bytes} {q : Queue}

theorem compress_injective {p' : Bytes} (hp : p.length < 2 ^ 32) (hp' : p'.length < 2 ^ 32)
    (h : compress codec p = compress codec p') : p = p' := by
  have he := decompress_compress codec hp
  rw [h, decompress_compress codec hp'] at he
  exact (some.inj he).symm

theorem arrived_iff_mem (hs : Sound codec st)
    (hq : st.world.session.remoteRecvQueues t = some q) (hp : p.length < 2 ^ 32)
    (hsel : select q c = some (compress codec p, s)) :
    st.arrived t s = some p ↔ (s, compress codec p) ∈ q.messages := by
  have hst := hs.queues t q hq
  constructor
  · intro ha
    have hin : s ∈ numbers q := by
      by_contra hout
      obtain ⟨v, hv⟩ := select_entry hsel
      obtain ⟨oldest, hfirst⟩ : ∃ oldest, (numbers q).head? = some oldest := by
        cases hn : numbers q with
        | nil => simp [numbers] at hn; simp [hn] at hv
        | cons k ks => exact ⟨k, rfl⟩
      have := hst.missing oldest s hfirst (select_ge hst.ordered hfirst hsel) hout
      simp [framed, ha] at this
    obtain ⟨⟨v, frame⟩, hmem, rfl⟩ := List.mem_map.mp hin
    have ho := hst.origin v frame hmem
    simp only [framed, ha, map_some, some.injEq] at ho
    exact ho ▸ hmem
  · intro hmem
    obtain ⟨p', ha, he⟩ := map_eq_some_iff.mp (hst.origin s _ hmem)
    rw [ha, compress_injective (hs.short t s p' ha) hp he]

theorem remote_iff (hs : Sound codec st) {actual : Nat}
    (hsel : selected st.world.session t c = some (q, frame, actual))
    (hpeek : peekNextMessageSize st.world t c = .ok (n, s)) (hout : n ≤ out.length) :
    Delivers codec st now t c n s out ↔ Deliverable st now t c s out := by
  obtain ⟨hq, hsel'⟩ := selected_some_iff.mp hsel
  obtain ⟨v, hv⟩ := select_entry hsel'
  obtain ⟨p, harrived, rfl⟩ := map_eq_some_iff.mp ((hs.queues t q hq).origin v frame hv)
  have hp := hs.short t v p harrived
  have ho := (hs.queues t q hq).ordered
  rw [peek_frame codec ho hp hsel] at hpeek
  cases hpeek
  have hmem := arrived_iff_mem hs hq hp hsel'
  simp only [Delivers, Deliverable, sourceOf, hsel, receive_frame codec ho hp hsel hout, receiveFrame, ← hmem]
  by_cases hfit : out.length < (compress codec p).length
  · rw [if_pos hfit]
    simp only [Prod.mk.injEq, Except.ok.injEq]
    constructor
    · rintro ⟨out', w, ⟨⟨hlen, _⟩, _⟩, _⟩
      omega
    · rintro ⟨hle, _⟩
      omega
  · by_cases hold : outlived (lifespanOf st.world.session t) now (timestampFor q s) = true
    · simp [hfit, hold]
    · simp [hfit, hold, Nat.not_lt.mp hfit, take_copyOut]

theorem local_iff (hs : Sound codec st) (hsel : selected st.world.session t c = none)
    (hpeek : peekNextMessageSize st.world t c = .ok (n, s)) (hout : n ≤ out.length) :
    Delivers codec st now t c n s out ↔ Deliverable st now t c s out := by
  cases hsub : st.world.session.subscriptions t with
  | none =>
    rw [peek_unselected hsel, hsub] at hpeek
    cases hpeek
  | some h =>
    rw [peek_unselected hsel, hsub] at hpeek
    obtain ⟨hcur, rfl, hsize⟩ := peekLocal_ok hpeek
    simp only [Delivers, Deliverable, sourceOf, hsel, receive_unselected codec out hsel hsub,
      ringHistory, hsub]
    cases hqos : qosAdmits st.world.session t with
    | false =>
      have hcur' : ¬ (currentSeq (ringOf st.world h) = 0 ∨ currentSeq (ringOf st.world h) ≤ c) := by omega
      simp [receiveLocal, hqos, hcur']
    | true =>
      obtain ⟨w, hw⟩ := receiveLocal_slot now hcur hqos hsize hout
      have hread : (readSlot (ringOf st.world h) (startSeq (ringOf st.world h) c) out).1 =
          .ok n := by rw [readSlot_of_size hsize hout]
      obtain ⟨data, hpub, _, htake⟩ :=
        Loan.inv_shows (hs.rings (st.world.handles h).segment) hread
      have hpub' : st.published (st.world.handles h).segment (startSeq (ringOf st.world h) c) =
        some ((readSlot (ringOf st.world h) (startSeq (ringOf st.world h) c) out).2.take n) :=
        hpub.trans (congrArg some htake.symm)
      rw [hw]
      by_cases hold : outlived (lifespanOf st.world.session t) now
          (localTimestamp st.world t h (startSeq (ringOf st.world h) c)) = true
      · simp [hold]
      · simp [hold, hpub']

/-- In every state that a session can reach, a receive after a successful
peek, with a buffer of the size that the peek returned or larger, delivers the
message exactly if it is deliverable. -/
theorem peek_receive_agree {g : Nat → RingBuffer.Geometry} {handles : Nat → Handle} {tables : Tables}
    (h : Reach (step codec) meets (start g handles tables) st)
    (hpeek : peekNextMessageSize st.world t c = .ok (n, s)) (hout : n ≤ out.length) :
    Delivers codec st now t c n s out ↔ Deliverable st now t c s out := by
  have hs := reach_sound h
  cases hsel : selected st.world.session t c with
  | none => exact local_iff hs hsel hpeek hout
  | some m =>
    obtain ⟨q, frame, actual⟩ := m
    exact remote_iff hs hsel hpeek hout

def oneArrival : List Event :=
  [.createSubscription none true chatter defaultSensor (.ok (0, 0)), .arrive 5 0 [7]]

/-- The frame is one byte longer than the payload, so a buffer of the size
that the peek reports is refused. -/
theorem exact_buffer_refused :
    ¬ ∀ codec g handles tables st now t c n s out,
      Reach (step codec) meets (start g handles tables) st →
      lifespanOf st.world.session t = none →
      peekNextMessageSize st.world t c = .ok (n, s) → n ≤ out.length →
      Delivers codec st now t c n s out := by
  intro hall
  have hrun : (run (step plain) oneArrival newSession).map (fun st =>
      (lifespanOf st.world.session 5, peekNextMessageSize st.world 5 0,
        (receiveNext plain st.world 0 5 0 [0]).1)) =
      some (none, .ok (1, 0), .ok (2, 0)) := by decide +kernel
  obtain ⟨st, hst, hobs⟩ := map_eq_some_iff.mp hrun
  simp only [Prod.mk.injEq] at hobs
  obtain ⟨hlife, hpeek, hrecv⟩ := hobs
  have hreach : Reach (step plain) meets newSession st :=
    reach_of_run hst (by simp [oneArrival, meets])
  obtain ⟨out', w, he, _⟩ := hall plain _ _ _ st 0 5 0 1 0 [0] hreach hlife hpeek le_rfl
  rw [he] at hrecv
  cases hrecv

/-- One byte more in the buffer, and the same message is delivered. -/
theorem roomy_buffer_delivers :
    ∃ st, peekNextMessageSize st.world 5 0 = .ok (1, 0) ∧
      Delivers plain st 0 5 0 1 0 [0, 0] := by
  have hreach : Reach (step plain) meets newSession (apply plain (apply plain newSession
        (.createSubscription none true chatter defaultSensor (.ok (0, 0)))) (.arrive 5 0 [7])) :=
    .tail (.arrive 5 0 [7]) (.tail (.createSubscription none true chatter defaultSensor (.ok (0, 0)))
      .refl trivial rfl) (by simp [meets]) rfl
  refine ⟨_, by decide +kernel, (peek_receive_agree hreach (by decide +kernel) (by decide)).mpr ?_⟩
  exact ⟨by decide +kernel, by decide +kernel, by decide +kernel⟩

end RmwAxon.PeekReceive
