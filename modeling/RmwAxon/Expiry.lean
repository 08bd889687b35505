import RmwAxon.ReceiveBySeq
import RmwAxon.ReceiveSpec

namespace RmwAxon.Expiry

open Cells Compress Qos Session Receive SubscriberQueue ReceiveSpec Option
open RingBuffer (Bytes Ring oldestAvailableSeq slotCount)

variable {now t s n requested : Nat} {m m' : Ring} {out out' : Bytes}

theorem outlived_false {lifespan : Option Duration} {L τ : Nat}
    (h : outlived lifespan now (some τ) = false) (hl : lifespan = some L) (hne : L ≠ 0) :
    now - τ ≤ L := by
  subst hl
  simpa [outlived, hne] using h

theorem lifespanOf_ne_zero {s : Tables} {L : Nat} (h : lifespanOf s t = some L) : L ≠ 0 := by
  obtain ⟨rq, _, hl⟩ := bind_eq_some_iff.mp h
  simp only [RemoteQos.toQosProfile, nonzero] at hl
  split_ifs at hl with hz
  cases hl
  exact hz

theorem read_error {e : RingBuffer.RingError} (h : RingBuffer.read m s out = (.error e, out', m')) :
    m' = m := by
  unfold RingBuffer.read at h
  split at h <;> cases h
  rfl

theorem read_window (h : RingBuffer.read m s out = (.ok n, out', m')) :
    s < m.writeIndex ∧ m.writeIndex ≤ s + slotCount m := by
  unfold RingBuffer.read at h
  split at h
  · rename_i k out'' hk
    exact RingHistory.readSlot_window (congrArg Prod.fst hk)
  · cases h

theorem receiveLoop_window {retries actual : Nat}
    (h : receiveLoop m requested retries actual out = (.ok (n, s), out', m')) :
    s < m.writeIndex ∧ m.writeIndex ≤ s + slotCount m := by
  induction retries generalizing actual out with
  | zero =>
    rw [receiveLoop] at h
    split at h <;> cases h
    rename_i hr
    exact read_window hr
  | succ retries ih =>
    rw [receiveLoop] at h
    split at h
    · rename_i hr
      cases h
      exact read_window hr
    · rename_i hr
      rw [read_error hr] at h
      split_ifs at h
      · cases h
      · exact ih h
    · rename_i hr
      rw [read_error hr] at h
      exact ih h
    · cases h

/-- A message that the ring's part of receive_next returns is retained and
has not outlived the lifespan by the timestamp that the session finds. -/
theorem receiveLocal_unexpired {w : World} {h : Nat}
    (hr : (receiveLocal w now t h requested out).1 = .ok (n, s)) :
    s < (ringOf w h).writeIndex ∧ oldestAvailableSeq (ringOf w h) ≤ s ∧
      outlived (lifespanOf w.session t) now (localTimestamp w t h s) = false := by
  unfold receiveLocal at hr
  dsimp only at hr
  split_ifs at hr
  split at hr
  · cases hr
  rename_i size actual out' m hloop
  split_ifs at hr with hold
  cases hr
  obtain ⟨hlt, hwin⟩ := receiveLoop_window hloop
  have hge : oldestAvailableSeq (ringOf w h) ≤ s := by
    simp only [oldestAvailableSeq, RingBuffer.currentSeq]
    omega
  rw [localTimestamp_prune w t h m hge] at hold
  exact ⟨hlt, hge, eq_false_of_ne_true hold⟩

theorem receiveSlot_unexpired {w : World} {h seq : Nat}
    (hr : (ReceiveBySeq.receiveSlot w now t h seq out).1 = .ok n) :
    seq < (ringOf w h).writeIndex ∧ oldestAvailableSeq (ringOf w h) ≤ seq ∧
      outlived (lifespanOf w.session t) now (localTimestamp w t h seq) = false := by
  unfold ReceiveBySeq.receiveSlot at hr
  split_ifs at hr with _ hold
  dsimp only at hr
  split at hr
  · rename_i hread
    obtain ⟨hlt, hwin⟩ := read_window hread
    refine ⟨hlt, ?_, eq_false_of_ne_true hold⟩
    simp only [oldestAvailableSeq, RingBuffer.currentSeq]
    omega
  · cases hr

theorem copyTo_length (data out : Bytes) : (copyTo data out).length = out.length := by
  unfold copyTo
  split_ifs with hlt
  · rfl
  · exact length_copyOut (Nat.not_lt.mp hlt)

theorem receiveRemote_unexpired {codec : Codec} {s : Tables} {q : Queue} {v : Nat}
    (h : receiveRemote codec s now t q requested out = some (.ok (n, v), out'))
    (hn : n ≤ out.length) :
    ∃ data, select q requested = some (data, v) ∧
      outlived (lifespanOf s t) now (timestampFor q v) = false := by
  cases hsel : select q requested with
  | none =>
    rw [receiveRemote_none codec out hsel] at h
    cases h
  | some m =>
    obtain ⟨data, actual⟩ := m
    unfold receiveRemote at h
    simp only [peekPrefix, readAt, hsel, map_some, bind_some] at h
    cases hbig : (decompressedSizeFromPrefix requested q (framePrefix data)).filter
        fun k => decide (out.length < k) with
    | some k =>
      have hk := (filter_eq_some_iff.mp hbig).2
      rw [hbig] at h
      cases h
      exact absurd hn (Nat.not_le.mpr (of_decide_eq_true hk))
    | none =>
      rw [hbig] at h
      simp only [map_none, copyTo_length] at h
      split_ifs at h with hfit hold
      · cases h
        exact absurd hn (Nat.not_le.mpr hfit)
      · cases h
      · refine ⟨data, ?_⟩
        split at h <;> cases h <;> exact ⟨rfl, eq_false_of_ne_true hold⟩

end RmwAxon.Expiry
