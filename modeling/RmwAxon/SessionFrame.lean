import RmwAxon.QueueHistory
import RmwAxon.Receive

namespace RmwAxon.SessionFrame

open Compress Qos Session Receive SubscriberQueue Function
open RingBuffer (Bytes Ring)
open RingHistory (SameSlots)

def setQueue (w : World) (t : Nat) (q : Queue) : World :=
  { w with session := { w.session with
      remoteRecvQueues := update w.session.remoteRecvQueues t (some q) } }

theorem sameSlots_update {rings : Nat → Ring} {i : Nat} {m : Ring} (hm : SameSlots m (rings i))
    (j : Nat) : SameSlots (update rings i m j) (rings j) := by
  rw [update_apply]
  split_ifs with hj
  · exact hj ▸ hm
  · exact .refl _

variable {w w' : World} {opened : Opened} {env : Option Nat} {allowed : Bool} {topic : Topic}
    {qos : QosProfile} {initial : Nat}
variable {h t : Nat}

theorem chooseHandle_frame {existing : Option Nat} {slotSize : Nat}
    (hc : chooseHandle w existing slotSize opened = .ok (h, w')) :
    w'.rings = w.rings ∧ w'.session = w.session := by
  unfold chooseHandle at hc
  simp only at hc
  split at hc <;> cases hc <;> exact ⟨rfl, rfl⟩

theorem createPublisher_frame (w : World) (env : Option Nat) (topic : Topic) (qos : QosProfile)
    (opened : Opened) :
    (∀ i, SameSlots ((createPublisher w env topic qos opened).2.rings i) (w.rings i)) ∧
      (createPublisher w env topic qos opened).2.session.remoteRecvQueues =
        w.session.remoteRecvQueues := by
  unfold createPublisher
  simp only
  split
  · exact ⟨fun i => .refl _, rfl⟩
  rename_i h w' hc
  obtain ⟨hr, hs⟩ := chooseHandle_frame hc
  rw [← hr, ← hs]
  split_ifs
  · exact ⟨sameSlots_update ⟨rfl, rfl, rfl⟩, rfl⟩
  · exact ⟨fun i => .refl _, rfl⟩

theorem destroyPublisher_frame (w : World) (t : Nat) : (destroyPublisher w t).2.rings = w.rings ∧
      (destroyPublisher w t).2.session.remoteRecvQueues = w.session.remoteRecvQueues := by
  unfold destroyPublisher
  simp only
  split
  · exact ⟨rfl, rfl⟩
  · split_ifs <;> exact ⟨rfl, rfl⟩

theorem destroySubscription_frame (w : World) (t : Nat) : (destroySubscription w t).2.rings = w.rings ∧
      ∀ u q, (destroySubscription w t).2.session.remoteRecvQueues u = some q →
        w.session.remoteRecvQueues u = some q := by
  unfold destroySubscription
  simp only
  split
  · exact ⟨rfl, fun _ _ hq => hq⟩
  split
  · exact ⟨rfl, fun _ _ hq => hq⟩
  refine ⟨rfl, fun u q hq => ?_⟩
  simp only [update_apply] at hq
  split_ifs at hq
  exact hq

theorem publishOn_frame (w : World) (h now : Nat) (data : Bytes) (gid : Nat) :
    (publishOn w h now data gid).2.rings = update w.rings (w.handles h).segment
      (RingBuffer.write (ringOf w h) data).2 ∧
    (publishOn w h now data gid).2.session = w.session := by
  unfold publishOn
  rcases Nat.lt_or_ge (RingBuffer.payloadCapacity (ringOf w h)) data.length with hbig | hfit
  · rw [RingHistory.write_refused hbig]
    exact ⟨(update_eq_self ..).symm, rfl⟩
  · obtain ⟨r, hr⟩ := RingHistory.write_accepted hfit
    simp [hr, setRing]

theorem publishWithGid_frame (hp : w.session.publishers t = some h) (now : Nat) (data : Bytes) (gid : Nat) :
    (publishWithGid w t now data gid).2.rings = update w.rings (w.handles h).segment
      (RingBuffer.write (ringOf w h) data).2 ∧
    (publishWithGid w t now data gid).2.session.remoteRecvQueues =
      w.session.remoteRecvQueues := by
  obtain ⟨hr, hs⟩ := publishOn_frame w h now data gid
  rw [← hr, ← hs]
  unfold publishWithGid
  simp only [hp]
  split
  · rename_i e w' he
    simp [he]
  · rename_i seq w' he
    simp only [he]
    split_ifs <;> exact ⟨rfl, rfl⟩

theorem createSubscription_frame (w : World) (env : Option Nat) (allowed : Bool) (topic : Topic)
    (qos : QosProfile) (opened : Opened) :
    (createSubscription w env allowed topic qos opened).2.rings = w.rings ∧
      ((createSubscription w env allowed topic qos opened).2.session.remoteRecvQueues =
          w.session.remoteRecvQueues ∨
        w.session.remoteRecvQueues topic.hash = none ∧
        ∃ depth seq keepAll, (createSubscription w env allowed topic qos opened).2.session.remoteRecvQueues =
            update w.session.remoteRecvQueues topic.hash (some (withSeqAndMode depth seq keepAll))) := by
  unfold createSubscription
  split_ifs
  · exact ⟨rfl, .inl rfl⟩
  simp only
  split
  · exact ⟨rfl, .inl rfl⟩
  rename_i h w' hc
  obtain ⟨hr, hs⟩ := chooseHandle_frame hc
  refine ⟨hr, ?_⟩
  simp only [addSubscription, openQueue, hs]
  split_ifs with hopen
  · exact .inr ⟨hopen.2, _, _, _, rfl⟩
  · exact .inl rfl

section

variable (hc : createSubscription w env allowed topic qos opened = (.ok initial, w'))
include hc

theorem createSubscription_ok : ∃ h w₁, w₁.session = w.session ∧ initial = initialSeq (ringOf w₁ h) qos ∧
      w' = { w₁ with session := addSubscription w₁.session topic qos h initial } := by
  unfold createSubscription at hc
  split_ifs at hc
  · cases hc
  simp only at hc
  split at hc
  · cases hc
  · rename_i h w₁ hh
    cases hc
    exact ⟨h, w₁, (chooseHandle_frame hh).2, rfl, rfl⟩

theorem createSubscription_opens
    (hquic : w.session.quicTransport = true) (hnew : w.session.remoteRecvQueues topic.hash = none) :
    w'.session.remoteRecvQueues topic.hash = some (withSeqAndMode (topicRingDepth topic qos) initial
      (decide (qos.history = .keepAll))) := by
  obtain ⟨h, w₁, hs, _, rfl⟩ := createSubscription_ok hc
  simp [addSubscription, openQueue, hs, hquic, hnew]

end

theorem read_index (m : Ring) (s : Nat) (out : Bytes) :
    ∃ r, (RingBuffer.read m s out).2.2 = { m with readIndex := r } := by
  unfold RingBuffer.read
  split
  · split_ifs
    · exact ⟨_, rfl⟩
    · exact ⟨m.readIndex, rfl⟩
  · exact ⟨m.readIndex, rfl⟩

theorem receiveLoop_index (m : Ring) (requested retries actual : Nat) (out : Bytes) :
    ∃ r, (receiveLoop m requested retries actual out).2.2 = { m with readIndex := r } := by
  induction retries generalizing m actual out with
  | zero =>
    obtain ⟨r, hr⟩ := read_index m actual out
    refine ⟨r, ?_⟩
    rw [receiveLoop]
    split <;> simpa only [*] using hr
  | succ retries ih =>
    obtain ⟨r, hr⟩ := read_index m actual out
    rw [receiveLoop]
    split <;> rename_i he <;> rw [he] at hr <;> cases hr
    · exact ⟨r, rfl⟩
    · split_ifs
      · exact ⟨r, rfl⟩
      · exact ih ..
    · exact ih ..
    · exact ⟨r, rfl⟩

/-- What a receive call leaves behind: it moves the read index of its ring and
prunes the stamps of its topic, or it does nothing. -/
inductive Received (w : World) (t : Nat) : World → Prop
  | same : Received w t w
  | read {h : Nat} (r : Nat) : w.session.subscriptions t = some h →
      Received w t (setRing (pruneTopic w t h (RingBuffer.oldestAvailableSeq (ringOf w h))) h
        { ringOf w h with readIndex := r })

theorem receiveNext_received (codec : Codec) (w : World) (now t requested : Nat) (out : Bytes) :
    Received w t (receiveNext codec w now t requested out).2.2 := by
  unfold receiveNext
  simp only
  split
  · exact .same
  split
  · exact .same
  rename_i h hh
  obtain ⟨r, hr⟩ := receiveLoop_index (ringOf w h) requested 4 (startSeq (ringOf w h) requested) out
  unfold receiveLocal
  simp only
  split_ifs
  · exact .same
  · exact .same
  · split <;> rename_i he <;> rw [he] at hr <;> cases hr
    · exact .read r hh
    · split_ifs <;> exact .read r hh

structure Kept (w' w : World) : Prop where
  rings : ∀ i, SameSlots (w'.rings i) (w.rings i)
  segments : ∀ h, (w'.handles h).segment = (w.handles h).segment
  tables : ∃ ts, w'.session = { w.session with messageTimestamps := ts }

theorem Kept.refl (w : World) : Kept w w :=
  ⟨fun _ => .refl _, fun _ => rfl, ⟨w.session.messageTimestamps, rfl⟩⟩

theorem Kept.trans {w'' : World} (h : Kept w'' w') (h' : Kept w' w) : Kept w'' w := by
  obtain ⟨ts, hts⟩ := h.tables
  obtain ⟨ts', hts'⟩ := h'.tables
  refine ⟨fun i => (h.rings i).trans (h'.rings i), fun k => (h.segments k).trans (h'.segments k), ts, ?_⟩
  rw [hts, hts']

theorem Kept.queues (h : Kept w' w) : w'.session.remoteRecvQueues = w.session.remoteRecvQueues := by
  obtain ⟨ts, hts⟩ := h.tables
  rw [hts]

theorem Kept.ringOf (h : Kept w' w) (k : Nat) : SameSlots (ringOf w' k) (ringOf w k) := by
  unfold Session.ringOf
  rw [h.segments k]
  exact h.rings _

theorem Received.kept (h : Received w t w') : Kept w' w := by
  cases h with
  | same => exact .refl w
  | read r hh =>
    refine ⟨sameSlots_update ?_, fun k => ?_, ⟨_, rfl⟩⟩
    · constructor <;> simp [pruneTopic, pruneHandle, ringOf]
    simp only [setRing, pruneTopic, update_apply]
    split_ifs with hk
    · rw [hk]
      rfl
    · rfl

theorem receiveNext_kept (codec : Codec) (w : World) (now t requested : Nat) (out : Bytes) :
    Kept (receiveNext codec w now t requested out).2.2 w :=
  (receiveNext_received ..).kept

end RmwAxon.SessionFrame
