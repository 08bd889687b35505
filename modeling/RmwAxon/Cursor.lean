import RmwAxon.ReceiveSpec
import RmwAxon.SessionRun

namespace RmwAxon.Cursor

open Cells Compress Session Receive SubscriberQueue QueueHistory QueueSelect ReceiveSpec Function Option
open RingBuffer (Bytes Ring currentSeq oldestAvailableSeq slotCount slotAt payloadCapacity fillSlot
  fillSlot_eq slotAt_updateSlot_self slotDataSize)
open RingHistory (Holds holds_of_fill readMessage_ok readSlot_of_holds slotDataSize_of_holds write_ok)
open SessionFrame (Kept receiveNext_kept setQueue)

structure Subscriber where
  world : World
  cursor : Nat

inductive Source
  | ring
  | queue
  deriving DecidableEq, Repr

structure Message where
  source : Source
  number : Nat
  payload : Bytes
  deriving DecidableEq, Repr

variable (codec : Codec) (t : Nat)

def sourceOf (s : Tables) (cursor : Nat) : Source :=
  if (selected s t cursor).isSome then .queue else .ring

/-- A call of receive_next. The cursor moves behind the message that is
returned; a size beyond the buffer only tells the caller to try again. -/
def receive (s : Subscriber) (now : Nat) (out : Bytes) : Option Message × Subscriber :=
  let r := receiveNext codec s.world now t s.cursor out
  match r.1 with
  | .error _ => (none, { s with world := r.2.2 })
  | .ok (n, v) =>
    if out.length < n then (none, { s with world := r.2.2 })
    else (some ⟨sourceOf t s.world.session s.cursor, v, r.2.1.take n⟩, ⟨r.2.2, v + 1⟩)

theorem receive_kept (s : Subscriber) (now : Nat) (out : Bytes) :
    Kept (receive codec t s now out).2.world s.world := by
  have hk := receiveNext_kept codec s.world now t s.cursor out
  unfold receive
  simp only
  split
  · exact hk
  · split_ifs <;> exact hk

variable {codec t}
variable {now h s : Nat} {w : World} {data : Bytes}

variable {gid v : Nat}

theorem receive_ok {s : Subscriber} {n : Nat} {out out' : Bytes}
    (h : receiveNext codec s.world now t s.cursor out = (.ok (n, v), out', w)) (hn : n ≤ out.length) :
    receive codec t s now out = (some ⟨sourceOf t s.world.session s.cursor, v, out'.take n⟩, ⟨w, v + 1⟩) := by
  simp [receive, h, Nat.not_lt.mpr hn]

theorem receive_queue {s : Subscriber} {out p : Bytes}
    (h : (receive codec t s now out).1 = some ⟨.queue, v, p⟩) :
    ∃ q data, selected s.world.session t s.cursor = some (q, data, v) := by
  unfold receive at h
  simp only at h
  split at h
  · cases h
  rename_i n v' hr
  split_ifs at h
  simp only [some.injEq, Message.mk.injEq, sourceOf, ite_eq_left_iff, reduceCtorEq, imp_false, not_not] at h
  obtain ⟨hsel, rfl, _⟩ := h
  obtain ⟨⟨q, data, actual⟩, hsel⟩ := isSome_iff_exists.mp hsel
  obtain ⟨hq, hs⟩ := selected_some_iff.mp hsel
  obtain ⟨r, out', he, hnum⟩ := receiveRemote_selected codec s.world.session now t out hs
  simp only [receiveNext, hq, bind_some, he] at hr
  exact ⟨q, data, by rw [hsel, hnum n v' hr]⟩

theorem receive_selected {q : Queue} {cursor : Nat} {payload out : Bytes} (ho : (numbers q).Pairwise (· < ·))
    (hsel : selected w.session t cursor = some (q, compress codec payload, v))
    (hshort : payload.length < 2 ^ 32) (hout : payload.length < out.length)
    (hlive : outlived (lifespanOf w.session t) now (timestampFor q v) = false) :
    receive codec t ⟨w, cursor⟩ now out = (some ⟨.queue, v, payload⟩, ⟨w, v + 1⟩) := by
  have hfit : ¬ out.length < (compress codec payload).length := by
    have := compress_length_le codec payload
    omega
  have hrecv := @receive_frame codec q cursor now t v payload out w ho hshort hsel hout.le
  simp only [receiveFrame, hfit, if_false, hlive, Bool.false_eq_true] at hrecv
  rw [receive_ok hrecv hout.le, take_copyOut, sourceOf, hsel]
  rfl

structure Published (t : Nat) (w w' : World) (h : Nat) (data : Bytes) (stamp : Option Nat) : Prop where
  fits : data.length ≤ payloadCapacity (ringOf w h)
  ring : ∃ r, ringOf w' h = fillSlot { ringOf w h with
    writeIndex := (ringOf w h).writeIndex + 1, readIndex := r } (ringOf w h).writeIndex data
  tables : ∃ ts, w'.session = { w.session with messageTimestamps := ts }
  stamped : localTimestamp w' t h (ringOf w h).writeIndex = stamp

theorem host_published {m : Ring} (hw : RingBuffer.write (ringOf w h) data = (.ok s, m)) :
    s = (ringOf w h).writeIndex ∧ Published t w (setRing w h m) h data
      (localTimestamp w t h (ringOf w h).writeIndex) := by
  obtain ⟨hs, hfit, r, hr⟩ := write_ok hw
  refine ⟨hs, hfit, ⟨r, ?_⟩, ⟨w.session.messageTimestamps, rfl⟩, rfl⟩
  simpa [ringOf, setRing] using hr

theorem publishOn_published {w' : World} (hw : publishOn w h now data gid = (.ok s, w')) :
    s = (ringOf w h).writeIndex ∧ w'.session = w.session ∧ data.length ≤ payloadCapacity (ringOf w h) ∧
      ∃ r, ringOf w' h = fillSlot { ringOf w h with
        writeIndex := (ringOf w h).writeIndex + 1, readIndex := r }
        (ringOf w h).writeIndex data := by
  unfold publishOn at hw
  split at hw
  · cases hw
  rename_i s' m hm
  obtain ⟨hs, hfit, r, hr⟩ := write_ok hm
  cases hw
  exact ⟨hs, rfl, hfit, r, by simpa [ringOf, setRing] using hr⟩

theorem oldest_le {m : Ring} (h : m.writeIndex = s + 1) : oldestAvailableSeq m ≤ s := by
  have hpos : 0 < slotCount m := m.geometry.slotCount_pos
  simp only [oldestAvailableSeq, currentSeq, h]
  omega

theorem session_published {w' : World} (hp : w.session.publishers t = some h)
    (hw : publishWithGid w t now data gid = (.ok s, w')) :
    s = (ringOf w h).writeIndex ∧ Published t w w' h data (some now) := by
  unfold publishWithGid at hw
  simp only [hp] at hw
  split at hw
  · cases hw
  rename_i s' w₁ hon
  obtain ⟨rfl, hs, hfit, r, hr⟩ := publishOn_published hon
  have hold : oldestAvailableSeq (ringOf w₁ h) ≤ (ringOf w h).writeIndex := oldest_le (by simp [hr])
  rw [Prod.mk.injEq, Except.ok.injEq] at hw
  obtain ⟨rfl, rfl⟩ := hw
  refine ⟨rfl, hfit, ⟨r, ?_⟩, ?_, ?_⟩
  · rw [← hr]
    split_ifs
    · simp [ringOf, pruneTopic, pruneHandle]
    · rfl
  · rw [hs]
    split_ifs <;> exact ⟨_, rfl⟩
  · split_ifs
    · have hold' : oldestAvailableSeq (ringOf { w₁ with session := { w₁.session with
          messageTimestamps := update w₁.session.messageTimestamps t
            (update (w₁.session.messageTimestamps t) (ringOf w h).writeIndex
              (some now)) } } h) ≤ (ringOf w h).writeIndex := hold
      simp [localTimestamp, pruneTopic, pruneBelow, hold']
    · simp [localTimestamp]

section Ring

variable {w w' : World} {h : Nat} {data : Bytes} {stamp : Option Nat}
  (hp : Published t w w' h data stamp)

include hp

theorem Published.index : currentSeq (ringOf w' h) = (ringOf w h).writeIndex + 1 := by
  obtain ⟨r, hr⟩ := hp.ring
  simp [currentSeq, hr]

theorem Published.holds :
    Holds (slotAt (ringOf w' h) (ringOf w h).writeIndex) (ringOf w h).writeIndex data := by
  obtain ⟨r, hr⟩ := hp.ring
  rw [hr, fillSlot_eq, slotAt_updateSlot_self]
  exact holds_of_fill _ _ hp.fits

theorem Published.selected (seq : Nat) :
    ReceiveSpec.selected w'.session t seq = ReceiveSpec.selected w.session t seq := by
  obtain ⟨ts, hts⟩ := hp.tables
  rw [hts]
  rfl

variable (codec) in
/-- A subscriber whose cursor stands at the next number of the ring obtains
the message that is published there. -/
theorem ring_obtained {later : Nat} {out : Bytes} (hsub : w.session.subscriptions t = some h)
    (hsel : ReceiveSpec.selected w.session t (ringOf w h).writeIndex = none)
    (hqos : qosAdmits w.session t = true)
    (hlive : outlived (lifespanOf w.session t) later stamp = false)
    (hne : data ≠ []) (hout : data.length ≤ out.length) :
    ∃ w'', receive codec t ⟨w', (ringOf w h).writeIndex⟩ later out =
      (some ⟨.ring, (ringOf w h).writeIndex, data⟩, ⟨w'', (ringOf w h).writeIndex + 1⟩) := by
  obtain ⟨ts, hts⟩ := hp.tables
  have hsub' : w'.session.subscriptions t = some h := by rw [hts]; exact hsub
  have hqos' : qosAdmits w'.session t = true := by rw [hts]; exact hqos
  have hlive' : outlived (lifespanOf w'.session t) later
      (localTimestamp w' t h (ringOf w h).writeIndex) = false := by
    rw [hp.stamped, hts]
    exact hlive
  have hsel' := (hp.selected (ringOf w h).writeIndex).trans hsel
  have hidx := hp.index
  have hcur : (ringOf w h).writeIndex < currentSeq (ringOf w' h) := by omega
  have hwin : (ringOf w' h).writeIndex ≤ (ringOf w h).writeIndex + slotCount (ringOf w' h) := by
    have hpos : 0 < slotCount (ringOf w' h) := (ringOf w' h).geometry.slotCount_pos
    simp only [currentSeq] at hidx
    omega
  have hstart : startSeq (ringOf w' h) (ringOf w h).writeIndex = (ringOf w h).writeIndex :=
    if_pos (oldest_le hidx)
  have hsize : slotDataSize (ringOf w' h) (startSeq (ringOf w' h) (ringOf w h).writeIndex) =
      .ok data.length := by
    rw [hstart, slotDataSize_of_holds hp.holds hcur hwin, if_neg hne]
  obtain ⟨w'', hr⟩ := receiveLocal_slot later hcur hqos' hsize hout
  rw [hstart, hlive', if_neg Bool.false_ne_true, readSlot_of_holds hp.holds hcur hwin,
    readMessage_ok hne hout] at hr
  refine ⟨w'', ?_⟩
  rw [receive_ok ((receive_unselected codec out hsel' hsub').trans hr) hout, take_copyOut, sourceOf, hsel']
  rfl

theorem ring_missed {later cursor : Nat} {out : Bytes} (hsub : w.session.subscriptions t = some h)
    (hsel : ReceiveSpec.selected w.session t cursor = none)
    (hahead : (ringOf w h).writeIndex < cursor) :
    receive codec t ⟨w', cursor⟩ later out = (none, ⟨w', cursor⟩) := by
  obtain ⟨ts, hts⟩ := hp.tables
  have hsub' : w'.session.subscriptions t = some h := by rw [hts]; exact hsub
  have hsel' := (hp.selected cursor).trans hsel
  have hidx := hp.index
  have hle : currentSeq (ringOf w' h) ≤ cursor := by omega
  simp [receive, receive_unselected codec out hsel' hsub', receiveLocal, hle]

end Ring

section Queue

variable {w : World} {q : Queue} {cursor now later : Nat} {payload out : Bytes}
  (hr : refuses q = false)

include hr

theorem queue_obtained {lo : Nat} (hw : Window q lo) (hsel : select q cursor = none)
    (hle : cursor ≤ q.nextSeq) (hshort : payload.length < 2 ^ 32)
    (hlive : outlived (lifespanOf w.session t) later (some now) = false)
    (hout : payload.length < out.length) :
    receive codec t ⟨setQueue w t (push q now (compress codec payload)).2, cursor⟩ later out =
      (some ⟨.queue, q.nextSeq, payload⟩,
        ⟨setQueue w t (push q now (compress codec payload)).2, q.nextSeq + 1⟩) := by
  obtain ⟨lo', hw'⟩ := push_window hw hr now (compress codec payload)
  have hstamp : timestampFor (push q now (compress codec payload)).2 q.nextSeq = some now := by
    simp [timestampFor, push_accepted hr]
  refine receive_selected hw'.ordered ?_ hshort hout (hstamp ▸ hlive)
  exact selected_some_iff.mpr ⟨by simp [setQueue], push_select hw hr hsel hle now _⟩

theorem queue_missed {h : Nat} (hsub : w.session.subscriptions t = some h)
    (hahead : q.nextSeq < cursor) (hring : (ringOf w h).writeIndex ≤ cursor) :
    receive codec t ⟨setQueue w t (push q now (compress codec payload)).2, cursor⟩ later out =
      (none, ⟨setQueue w t (push q now (compress codec payload)).2, cursor⟩) := by
  have hsel' : selected (setQueue w t (push q now (compress codec payload)).2).session t cursor =
      none := by
    refine selected_none_iff.mpr fun q' hq' => ?_
    simp only [setQueue, update_self, some.injEq] at hq'
    rw [← hq']
    exact push_select_none hr hahead now _
  have hle : currentSeq (ringOf (setQueue w t (push q now (compress codec payload)).2) h) ≤ cursor :=
    hring
  simp [receive, receive_unselected codec out hsel' (h := h) hsub, receiveLocal, hle]

end Queue

end RmwAxon.Cursor
