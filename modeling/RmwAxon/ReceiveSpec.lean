import RmwAxon.QueueSelect
import RmwAxon.Receive

namespace RmwAxon.ReceiveSpec

open Cells Compress Endian Session Receive SubscriberQueue QueueHistory QueueSelect List Option
open RingBuffer (Bytes Ring currentSeq oldestAvailableSeq slotDataSize slotAt slotCount readSlot asU32)

variable (codec : Codec)

theorem framePrefix_cons (flag : UInt8) (rest : Bytes) :
    framePrefix (flag :: rest) = flag :: (rest.take 4 ++ List.replicate (4 - rest.length) 0) := by
  simp [framePrefix]

variable {q : Queue} {seq now t actual h : Nat} {p out : Bytes} {s : Tables} {w : World}

theorem decompressedSize_frame (hp : p.length < 2 ^ 32)
    (hsize : messageSize q seq = some (compress codec p).length) :
    decompressedSizeFromPrefix seq q (framePrefix (compress codec p)) = some p.length := by
  rcases compress_cases codec p with he | ⟨z, _, hz, he⟩
  · rw [he, framePrefix_cons, decompressedSizeFromPrefix, hsize, he]
    simp
  have hn : asU32 p.length = p.length := Nat.mod_eq_of_lt hp
  have htake : (toBe 4 p.length ++ z).take 4 = toBe 4 p.length :=
    take_left' (toBe_length 4 _)
  have hpad : 4 - (toBe 4 p.length ++ z).length = 0 := by
    rw [length_append, toBe_length]
    omega
  have hp4 : p.length < 256 ^ 4 := hp
  obtain ⟨b, hb, hb0⟩ := exists_ne_zero_toBe hp4 (by omega)
  have hany : (toBe 4 p.length).any (fun b => decide (b ≠ 0)) = true :=
    any_eq_true.mpr ⟨b, hb, by simpa using hb0⟩
  rw [he, hn, framePrefix_cons, htake, hpad, replicate_zero, append_nil,
    decompressedSizeFromPrefix, if_pos ⟨rfl, hany⟩, fromBe_toBe hp4]

theorem receiveRemote_none (out : Bytes) (h : select q seq = none) :
    receiveRemote codec s now t q seq out = none := by
  simp [receiveRemote, peekPrefix, readAt, h]

/-- Whatever the entry holds, a receive from the queue reports the number
that the cursor selects. -/
theorem receiveRemote_selected (s : Tables) (now t : Nat) {data : Bytes} (out : Bytes)
    (hsel : select q seq = some (data, actual)) :
    ∃ r out', receiveRemote codec s now t q seq out = some (r, out') ∧
      ∀ n v, r = .ok (n, v) → v = actual := by
  unfold receiveRemote
  simp only [peekPrefix, readAt, hsel, map_some, bind_some]
  cases (decompressedSizeFromPrefix seq q (framePrefix data)).filter fun n => decide (out.length < n) with
  | some k => exact ⟨_, _, rfl, by simp⟩
  | none =>
    simp only [map_none]
    split_ifs
    · exact ⟨_, _, rfl, by simp⟩
    · exact ⟨_, _, rfl, by simp⟩
    · split <;> exact ⟨_, _, rfl, by simp⟩

/-- What a receive makes of a frame: it reports the stored size when the frame
does not fit the buffer as it is, although the payload may. -/
def receiveFrame (s : Tables) (now t : Nat) (q : Queue) (p : Bytes) (actual : Nat) (out : Bytes) :
    Except ReceiveError (Nat × Nat) × Bytes :=
  if out.length < (compress codec p).length then
    (.ok ((compress codec p).length, actual), out)
  else if outlived (lifespanOf s t) now (timestampFor q actual) then
    (.error .expired, copyOut (compress codec p) out)
  else (.ok (p.length, actual), copyOut p (copyOut (compress codec p) out))

theorem receiveRemote_frame (ho : (numbers q).Pairwise (· < ·)) (hp : p.length < 2 ^ 32)
    (hsel : select q seq = some (compress codec p, actual)) (hout : p.length ≤ out.length) :
    receiveRemote codec s now t q seq out = some (receiveFrame codec s now t q p actual out) := by
  have hsize := decompressedSize_frame codec hp (messageSize_of_select ho hsel)
  unfold receiveRemote receiveFrame
  simp only [peekPrefix, hsel, map_some, bind_some, hsize, readAt, copyTo]
  rw [filter_some_neg (by simpa using hout)]
  simp only [map_none]
  by_cases hfit : out.length < (compress codec p).length
  · simp [hfit]
  have hlen := length_copyOut (Nat.not_lt.mp hfit)
  have hmin : min p.length out.length = p.length := Nat.min_eq_left hout
  simp only [hfit, if_false, hlen, take_copyOut, decompress_compress codec hp, hmin, take_length]
  split_ifs <;> rfl

def selected (s : Tables) (t seq : Nat) : Option (Queue × Bytes × Nat) :=
  (s.remoteRecvQueues t).bind fun q => (select q seq).map fun m => (q, m)

theorem selected_none_iff :
    selected s t seq = none ↔ ∀ q, s.remoteRecvQueues t = some q → select q seq = none := by
  cases hr : s.remoteRecvQueues t with
  | none | some => simp [selected, hr]

theorem selected_some_iff {data : Bytes} : selected s t seq = some (q, data, actual) ↔
      s.remoteRecvQueues t = some q ∧ select q seq = some (data, actual) := by
  cases hr : s.remoteRecvQueues t with
  | none => simp [selected, hr]
  | some q' =>
    simp only [selected, hr, bind_some, map_eq_some_iff, Prod.mk.injEq, some.injEq, Prod.exists]
    constructor
    · rintro ⟨d, a, hd, rfl, rfl, rfl⟩
      exact ⟨rfl, hd⟩
    · rintro ⟨rfl, hd⟩
      exact ⟨data, actual, hd, rfl, rfl, rfl⟩

theorem peek_frame (ho : (numbers q).Pairwise (· < ·)) (hp : p.length < 2 ^ 32)
    (hsel : selected w.session t seq = some (q, compress codec p, actual)) :
    peekNextMessageSize w t seq = .ok (p.length, actual) := by
  obtain ⟨hq, hsel⟩ := selected_some_iff.mp hsel
  have hsize := decompressedSize_frame codec hp (messageSize_of_select ho hsel)
  simp [peekNextMessageSize, hq, peekPrefix, hsel, hsize]

theorem peek_unselected (hq : selected w.session t seq = none) : peekNextMessageSize w t seq =
    (w.session.subscriptions t).elim (.error .subscriptionNotFound) fun h => peekLocal (ringOf w h) seq := by
  unfold peekNextMessageSize
  cases hr : w.session.remoteRecvQueues t with
  | none => cases w.session.subscriptions t <;> rfl
  | some q => cases w.session.subscriptions t <;> simp [peekPrefix, selected_none_iff.mp hq q hr]

theorem receive_unselected (out : Bytes) (hq : selected w.session t seq = none)
    (hh : w.session.subscriptions t = some h) :
    receiveNext codec w now t seq out = receiveLocal w now t h seq out := by
  unfold receiveNext
  cases hr : w.session.remoteRecvQueues t with
  | none => simp [hh]
  | some q => simp [receiveRemote_none codec out (selected_none_iff.mp hq q hr), hh]

theorem receive_frame (ho : (numbers q).Pairwise (· < ·)) (hp : p.length < 2 ^ 32)
    (hsel : selected w.session t seq = some (q, compress codec p, actual))
    (hout : p.length ≤ out.length) :
    receiveNext codec w now t seq out = ((receiveFrame codec w.session now t q p actual out).1,
        (receiveFrame codec w.session now t q p actual out).2, w) := by
  obtain ⟨hq, hsel⟩ := selected_some_iff.mp hsel
  simp [receiveNext, hq, receiveRemote_frame codec ho hp hsel hout]

section Ring

variable {m : Ring} {requested n : Nat} {out : Bytes}

theorem startSeq_window (h : requested < currentSeq m) :
    startSeq m requested < currentSeq m ∧ currentSeq m ≤ startSeq m requested + slotCount m := by
  have hpos := m.geometry.slotCount_pos
  unfold startSeq oldestAvailableSeq
  by_cases hold : currentSeq m - slotCount m ≤ requested
  · rw [if_pos hold]
    omega
  · rw [if_neg hold]
    simp only [slotCount] at hold ⊢
    omega

theorem readSlot_of_size {s : Nat} (h : slotDataSize m s = .ok n) (hout : n ≤ out.length) :
    readSlot m s out = (.ok n, copyOut (slice (slotAt m s).data n) out) := by
  unfold slotDataSize at h
  simp only at h
  split_ifs at h with h₁ h₂ h₃ h₄
  cases h
  simp [readSlot, h₁, h₂, not_not.mp h₃, h₄, Nat.not_lt.mpr hout]

theorem read_ok {s : Nat} {out' : Bytes} (h : readSlot m s out = (.ok n, out')) : RingBuffer.read m s out =
      (.ok n, out', if m.readIndex ≤ s then { m with readIndex := s + 1 } else m) := by
  simp [RingBuffer.read, h]

variable (requested) in
theorem receiveLoop_ok {s : Nat} {out' : Bytes} {m' : Ring} (retries : Nat)
    (h : RingBuffer.read m s out = (.ok n, out', m')) :
    receiveLoop m requested retries s out = (.ok (n, s), out', m') := by
  cases retries <;> rw [receiveLoop] <;> simp only [h]

theorem peekLocal_ok {s : Nat} (h : peekLocal m requested = .ok (n, s)) :
    requested < currentSeq m ∧ s = startSeq m requested ∧ slotDataSize m s = .ok n := by
  unfold peekLocal at h
  split_ifs at h with hnone
  push Not at hnone
  have hw := startSeq_window hnone.2
  split at h
  · rename_i k hk
    cases h
    exact ⟨hnone.2, rfl, hk⟩
  · rename_i hk
    have hgap : ¬ slotCount m < m.writeIndex - startSeq m requested := by
      simp only [currentSeq] at hw
      omega
    unfold slotDataSize at hk
    simp only [hgap, if_false] at hk
    split_ifs at hk
    all_goals cases hk
  · cases h

theorem oldest_le_startSeq (h : requested < currentSeq m) : oldestAvailableSeq m ≤ startSeq m requested := by
  have := (startSeq_window h).2
  unfold oldestAvailableSeq
  omega

end Ring

theorem localTimestamp_prune (w : World) (t h : Nat) (m : Ring) {oldest s : Nat} (hs : oldest ≤ s) :
    localTimestamp (setRing (pruneTopic w t h oldest) h m) t h s = localTimestamp w t h s := by
  simp [localTimestamp, setRing, pruneTopic, pruneHandle, pruneBelow, hs]

theorem receiveLocal_found (now : Nat) {requested n s : Nat} {out' : Bytes} {m : Ring}
    (hcur : requested < currentSeq (ringOf w h)) (hqos : qosAdmits w.session t = true)
    (hloop : receiveLoop (ringOf w h) requested 4 (startSeq (ringOf w h) requested) out =
      (.ok (n, s), out', m)) (hs : oldestAvailableSeq (ringOf w h) ≤ s) :
    ∃ w', receiveLocal w now t h requested out =
      (if outlived (lifespanOf w.session t) now (localTimestamp w t h s) then .error .expired
        else .ok (n, s), out', w') := by
  have hnone : ¬ (currentSeq (ringOf w h) = 0 ∨ currentSeq (ringOf w h) ≤ requested) := by omega
  have hlife : lifespanOf (setRing (pruneTopic w t h (oldestAvailableSeq (ringOf w h))) h m).session
      t = lifespanOf w.session t := rfl
  unfold receiveLocal
  simp only [hnone, hqos, if_false, hloop, localTimestamp_prune w t h m hs, hlife, Bool.true_eq_false]
  split_ifs <;> exact ⟨_, rfl⟩

theorem receiveLocal_slot (now : Nat) {requested n : Nat}
    (hcur : requested < currentSeq (ringOf w h)) (hqos : qosAdmits w.session t = true)
    (hsize : slotDataSize (ringOf w h) (startSeq (ringOf w h) requested) = .ok n)
    (hout : n ≤ out.length) :
    ∃ w', receiveLocal w now t h requested out = (if outlived (lifespanOf w.session t) now
          (localTimestamp w t h (startSeq (ringOf w h) requested)) then .error .expired
        else .ok (n, startSeq (ringOf w h) requested),
        (readSlot (ringOf w h) (startSeq (ringOf w h) requested) out).2, w') := by
  have hread := readSlot_of_size hsize hout
  have hloop := receiveLoop_ok requested 4 (read_ok hread)
  rw [hread]
  exact receiveLocal_found now hcur hqos hloop (oldest_le_startSeq hcur)

end RmwAxon.ReceiveSpec
