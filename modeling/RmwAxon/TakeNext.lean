import RmwAxon.Expiry
import RmwAxon.Readiness

namespace RmwAxon.TakeNext

open Compress Session Receive ReceiveSpec SubscriberQueue List Option
open RingBuffer (Bytes Ring currentSeq oldestAvailableSeq slotDataSize slotCount readSlot asU32)

structure Reply where
  code : Int
  outLen : Nat
  seq : Nat
  deriving DecidableEq, Repr

def takeNext (codec : Codec) (w : World) (now t requested : Nat) (out : Bytes) : Reply × Bytes × World :=
  let capacity := out.length
  if capacity = 0 then
    match peekNextMessageSize w t requested with
    | .ok (size, actual) => (⟨-1, asU32 size, actual⟩, out, w)
    | .error _ => (⟨-1, capacity, requested⟩, out, w)
  else
    match receiveNext codec w now t requested out with
    | (.ok (size, actual), out, w) =>
      if capacity < size then (⟨-2, asU32 size, actual⟩, out, w)
      else (⟨0, asU32 size, actual + 1⟩, out, w)
    | (.error _, out, w) =>
      match peekNextMessageSize w t requested with
      | .ok (size, actual) => (⟨-2, asU32 size, actual⟩, out, w)
      | .error _ => (⟨-3, capacity, requested⟩, out, w)

def readable (m : Ring) (s : Nat) : Bool := (slotDataSize m s).toOption.isSome

/-- The number of the message that a cursor is given from the ring: the one at
which the scan starts, or the newest one if that is not finished. -/
def nextNumber (m : Ring) (requested : Nat) : Option Nat :=
  if requested < currentSeq m then
    if readable m (startSeq m requested) then some (startSeq m requested)
    else if readable m (currentSeq m - 1) then some (currentSeq m - 1)
    else none
  else none

def settledOn (m : Ring) (requested : Nat) : Nat :=
  if requested < currentSeq m ∧ readable m (startSeq m requested) then startSeq m requested
  else requested

/-- The timestamp of the message that a cursor leads to, in the queue if that
has one for it and else in the ring, if there is such a message. -/
def nextStamp (w : World) (t h requested : Nat) : Option (Option Nat) :=
  match selected w.session t requested with
  | some (q, _, actual) => some (timestampFor q actual)
  | none =>
    if qosAdmits w.session t then (nextNumber (ringOf w h) requested).map (localTimestamp w t h)
    else none

def Served (w : World) (now t h requested : Nat) : Prop :=
  ∃ stamp, nextStamp w t h requested = some stamp ∧ outlived (lifespanOf w.session t) now stamp = false

def settled (w : World) (t h requested : Nat) : Nat :=
  match selected w.session t requested with
  | some (_, _, actual) => actual
  | none => settledOn (ringOf w h) requested

structure Roomy (w : World) (t h : Nat) (out : Bytes) : Prop where
  pos : 0 < out.length
  ring : ∀ s n, slotDataSize (ringOf w h) s = .ok n → n ≤ out.length
  stored : ∀ q requested data actual, selected w.session t requested = some (q, data, actual) →
    data.length ≤ out.length
  payload : ∀ q requested data actual n, selected w.session t requested = some (q, data, actual) →
    decompressedSizeFromPrefix requested q (framePrefix data) = some n → n ≤ out.length

section Ring

variable {m : Ring} {requested s n : Nat} {out : Bytes}

theorem readable_iff : readable m s = true ↔ ∃ n, slotDataSize m s = .ok n := by
  unfold readable
  cases slotDataSize m s <;> simp [Except.toOption]

theorem read_readable (h : slotDataSize m s = .ok n) (hout : n ≤ out.length) :
    ∃ out' m', RingBuffer.read m s out = (.ok n, out', m') :=
  ⟨_, _, read_ok (readSlot_of_size h hout)⟩

/-- A retained number without a message is one that is not finished. -/
theorem read_unreadable (hs : s < currentSeq m) (hwin : currentSeq m ≤ s + slotCount m)
    (h : readable m s = false) (out : Bytes) :
    RingBuffer.read m s out = (.error .slotNotYetWritten, out, m) := by
  have hfuture : ¬ m.writeIndex ≤ s := Nat.not_le.mpr hs
  have hold : ¬ slotCount m < m.writeIndex - s := by
    simp only [currentSeq] at hwin
    omega
  have hsize : ∀ n, slotDataSize m s ≠ .ok n := fun n hn =>
    absurd (readable_iff.mpr ⟨n, hn⟩) (by simp [h])
  unfold slotDataSize at hsize
  unfold RingBuffer.read readSlot
  simp only [hfuture, hold, if_false] at hsize ⊢
  by_cases hseq : (RingBuffer.slotAt m s).seq = some s
  · by_cases hlen : (RingBuffer.slotAt m s).len = 0
    · simp [hseq, hlen]
    · exact absurd (by simp [hseq, hlen]) (hsize (RingBuffer.slotAt m s).len)
  · simp [hseq]

theorem newest_window (h : requested < currentSeq m) :
    currentSeq m - 1 < currentSeq m ∧ currentSeq m ≤ currentSeq m - 1 + slotCount m := by
  have hpos := m.geometry.slotCount_pos
  simp only [slotCount]
  omega

theorem nextNumber_bounds (h : nextNumber m requested = some s) :
    requested < currentSeq m ∧ requested ≤ s ∧ s < currentSeq m ∧ oldestAvailableSeq m ≤ s := by
  unfold nextNumber at h
  split_ifs at h with hcur hfirst hlast <;> cases h
  · have hw := startSeq_window hcur
    refine ⟨hcur, ?_, hw.1, oldest_le_startSeq hcur⟩
    unfold startSeq
    split_ifs <;> omega
  · have hw := newest_window hcur
    refine ⟨hcur, by omega, hw.1, ?_⟩
    unfold oldestAvailableSeq
    omega

theorem receiveLoop_next (hroom : ∀ s n, slotDataSize m s = .ok n → n ≤ out.length)
    (h : nextNumber m requested = some s) :
    ∃ n out' m', n ≤ out.length ∧
      receiveLoop m requested 4 (startSeq m requested) out = (.ok (n, s), out', m') := by
  unfold nextNumber at h
  split_ifs at h with hcur hfirst hlast <;> cases h
  · obtain ⟨n, hn⟩ := readable_iff.mp hfirst
    obtain ⟨out', m', hread⟩ := read_readable hn (hroom _ _ hn)
    exact ⟨n, out', m', hroom _ _ hn, receiveLoop_ok requested 4 hread⟩
  obtain ⟨n, hn⟩ := readable_iff.mp hlast
  obtain ⟨out', m', hread⟩ := read_readable hn (hroom _ _ hn)
  obtain ⟨hlt, hwin⟩ := startSeq_window hcur
  have hmove : startSeq m requested < currentSeq m - 1 := by
    rcases Nat.lt_or_ge (startSeq m requested) (currentSeq m - 1) with hlt' | hge
    · exact hlt'
    · have heq : startSeq m requested = currentSeq m - 1 := by omega
      exact absurd (heq ▸ hlast) hfirst
  refine ⟨n, out', m', hroom _ _ hn, ?_⟩
  rw [receiveLoop]
  simp only [read_unreadable hlt hwin (eq_false_of_ne_true hfirst), hmove, if_true]
  exact receiveLoop_ok requested 3 hread

theorem receiveLoop_none (hcur : requested < currentSeq m) (h : nextNumber m requested = none) (out : Bytes) :
    receiveLoop m requested 4 (startSeq m requested) out = (.error .noData, out, m) := by
  unfold nextNumber at h
  split_ifs at h with hfirst hlast
  obtain ⟨hlt, hwin⟩ := startSeq_window hcur
  obtain ⟨hlt', hwin'⟩ := newest_window hcur
  exact Readiness.receiveLoop_empty rfl requested 4
    (read_unreadable hlt hwin (eq_false_of_ne_true hfirst) out)
    (read_unreadable hlt' hwin' (eq_false_of_ne_true hlast) out)

end Ring

variable {q : Queue} {requested actual : Nat} {data : Bytes}

theorem size_of_select (h : select q requested = some (data, actual)) :
    ∃ n, decompressedSizeFromPrefix requested q (framePrefix data) = some n := by
  have hsize : ∃ n, messageSize q requested = some n := by
    obtain ⟨_, _, _, _, _, hhead, hlast, hv, _, ⟨hold, _⟩ | ⟨hold, rfl⟩⟩ := QueueSelect.select_some h
    · exact ⟨_, by simp only [messageSize, hhead, if_pos hold, hlast]; rfl⟩
    · exact ⟨_, by simp only [messageSize, hhead, if_neg (Nat.not_lt.mpr hold), hv]; rfl⟩
  obtain ⟨n, hn⟩ := hsize
  cases hfront : framePrefix data with
  | nil =>
    have hlen := congrArg length hfront
    simp only [framePrefix, length_append, length_take, length_replicate, length_nil] at hlen
    omega
  | cons flag rest =>
    unfold decompressedSizeFromPrefix
    simp only [hn, map_some]
    split_ifs <;> exact ⟨_, rfl⟩

theorem receiveRemote_roomy (codec : Codec) (s : Tables) (now t : Nat) {out : Bytes}
    (hsel : select q requested = some (data, actual)) (hdata : data.length ≤ out.length)
    (hsize : ∀ n, decompressedSizeFromPrefix requested q (framePrefix data) = some n → n ≤ out.length) :
    ∃ n out', n ≤ out.length ∧ receiveRemote codec s now t q requested out =
      some (if outlived (lifespanOf s t) now (timestampFor q actual) then .error .expired
        else .ok (n, actual), out') := by
  obtain ⟨k, hk⟩ := size_of_select hsel
  have hsmall : Option.filter (fun n => decide (out.length < n)) (some k) = none :=
    filter_some_neg (by simpa using hsize k hk)
  unfold receiveRemote
  simp only [peekPrefix, readAt, hsel, map_some, bind_some, hk, hsmall, map_none,
    Expiry.copyTo_length, Nat.not_lt.mpr hdata, if_false]
  by_cases hold : outlived (lifespanOf s t) now (timestampFor q actual) = true
  · simp only [hold, if_true]
    exact ⟨0, _, Nat.zero_le _, rfl⟩
  simp only [eq_false_of_ne_true hold, Bool.false_eq_true, if_false]
  cases decompress codec (take data.length (copyTo data out)) with
  | some d =>
    refine ⟨_, _, ?_, rfl⟩
    simp only [length_take]
    omega
  | none => exact ⟨_, _, hdata, rfl⟩

variable {w : World} {t h : Nat} {out : Bytes}

/-- With a large enough buffer, receive_next returns a message exactly if the
cursor leads to one that has not outlived its lifespan. -/
theorem receiveNext_roomy (codec : Codec) (now requested : Nat) (hh : w.session.subscriptions t = some h)
    (hroom : Roomy w t h out) :
    (Served w now t h requested → ∃ n s, (receiveNext codec w now t requested out).1 = .ok (n, s) ∧
      n ≤ out.length ∧ requested ≤ s) ∧
    (¬ Served w now t h requested → ∃ e, (receiveNext codec w now t requested out).1 = .error e) := by
  unfold Served nextStamp
  cases hsel : selected w.session t requested with
  | some m =>
    obtain ⟨q, data, actual⟩ := m
    obtain ⟨hq, hsel'⟩ := selected_some_iff.mp hsel
    obtain ⟨n, out', hn, hr⟩ := receiveRemote_roomy codec w.session now t hsel'
      (hroom.stored _ _ _ _ hsel) fun n => hroom.payload _ _ _ _ n hsel
    simp only [receiveNext, hq, bind_some, hr, some.injEq, exists_eq_left']
    constructor
    · intro hlive
      simp only [hlive, Bool.false_eq_true, if_false]
      exact ⟨n, actual, rfl, hn, QueueSelect.select_le hsel'⟩
    · intro hold
      simp only [eq_true_of_ne_false hold, if_true]
      exact ⟨_, rfl⟩
  | none =>
    rw [receive_unselected codec out hsel hh]
    cases hqos : qosAdmits w.session t with
    | false =>
      refine ⟨by simp, fun _ => ?_⟩
      unfold receiveLocal
      simp only [hqos, if_true]
      split_ifs <;> exact ⟨_, rfl⟩
    | true =>
      simp only [if_true]
      cases hnext : nextNumber (ringOf w h) requested with
      | some s =>
        obtain ⟨hcur, hle, hlt, hold⟩ := nextNumber_bounds hnext
        obtain ⟨n, out', m', hn, hloop⟩ := receiveLoop_next hroom.ring hnext
        obtain ⟨w', hw⟩ := receiveLocal_found now hcur hqos hloop hold
        simp only [hw, map_some, some.injEq, exists_eq_left']
        constructor
        · intro hlive
          simp only [hlive, Bool.false_eq_true, if_false]
          exact ⟨n, s, rfl, hn, hle⟩
        · intro hdead
          simp only [eq_true_of_ne_false hdead, if_true]
          exact ⟨_, rfl⟩
      | none =>
        refine ⟨by simp, fun _ => ?_⟩
        by_cases hcur : requested < currentSeq (ringOf w h)
        · have hne : ¬ (currentSeq (ringOf w h) = 0 ∨ currentSeq (ringOf w h) ≤ requested) := by omega
          simp [receiveLocal, hne, hqos, receiveLoop_none hcur hnext]
        · have hne : currentSeq (ringOf w h) = 0 ∨ currentSeq (ringOf w h) ≤ requested := by omega
          simp [receiveLocal, hne]

theorem peek_settled (requested : Nat) (hh : w.session.subscriptions t = some h) :
    (∀ n s, peekNextMessageSize w t requested = .ok (n, s) → s = settled w t h requested) ∧
    (∀ e, peekNextMessageSize w t requested = .error e → settled w t h requested = requested) := by
  unfold settled
  cases hsel : selected w.session t requested with
  | some m =>
    obtain ⟨q, data, actual⟩ := m
    obtain ⟨hq, hsel'⟩ := selected_some_iff.mp hsel
    obtain ⟨k, hk⟩ := size_of_select hsel'
    simp [peekNextMessageSize, hq, peekPrefix, hsel', hk]
  | none =>
    rw [peek_unselected hsel, hh]
    unfold settledOn
    constructor
    · intro n s hp
      obtain ⟨hcur, rfl, hsize⟩ := peekLocal_ok hp
      exact (if_pos ⟨hcur, readable_iff.mpr ⟨n, hsize⟩⟩).symm
    rintro e hp
    refine if_neg fun hread => ?_
    obtain ⟨n, hn⟩ := readable_iff.mp hread.2
    have hne : ¬ (currentSeq (ringOf w h) = 0 ∨ currentSeq (ringOf w h) ≤ requested) := by omega
    simp [peekLocal, hne, hn] at hp

end RmwAxon.TakeNext
