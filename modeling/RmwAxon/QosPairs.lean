import RmwAxon.Expiry
import RmwAxon.HostCount
import RmwAxon.SessionRun

namespace RmwAxon.QosPairs

open Cells Compress Qos Session Receive ReceiveSpec Host HostRun HostCount
open Transition
open RingBuffer (Bytes Ring slotDataSize slotAt currentSeq oldestAvailableSeq)
open SessionRun (chatter)

variable {codec : Codec} {st : State}

def Obtains (codec : Codec) (st : State) (i t k n size : Nat) (out : Bytes) : Prop :=
  selected (tables st i) t n = none ∧
    ∃ w, receiveNext codec (world st.machine i) st.clock t n out =
      (.ok (size, n), copyOut (slice (slotAt (ringOf (world st.machine i) k) n).data size) out, w)

/-- What the call really asks for: that no message from the network comes
first, and that the two profiles which the receiving session registered last
for the topic, if it has both kinds of endpoints, are compatible. -/
def Offered (st : State) (i t n : Nat) : Prop :=
  selected (tables st i) t n = none ∧ qosAdmits (tables st i) t = true

theorem size_window {m : Ring} {n size : Nat} (h : slotDataSize m n = .ok size) :
    n < currentSeq m ∧ startSeq m n = n := by
  unfold slotDataSize at h
  dsimp only at h
  split_ifs at h with hfuture hold
  refine ⟨Nat.lt_of_not_le hfuture, if_pos ?_⟩
  simp only [oldestAvailableSeq, currentSeq]
  omega

theorem obtains_iff {i t k n size : Nat} {out : Bytes} (hk : (tables st i).subscriptions t = some k)
    (hsize : slotDataSize (ringOf (world st.machine i) k) n = .ok size) (hout : size ≤ out.length)
    (hage : outlived (lifespanOf (tables st i) t) st.clock
      (localTimestamp (world st.machine i) t k n) = false) :
    Obtains codec st i t k n size out ↔ Offered st i t n := by
  refine and_congr_right fun hsel => ?_
  obtain ⟨hlt, hstart⟩ := size_window hsize
  rw [receive_unselected codec out hsel hk]
  cases hqos : qosAdmits (tables st i) t with
  | true =>
    obtain ⟨w, hw⟩ := receiveLocal_slot (w := world st.machine i) st.clock (t := t) hlt hqos
      (hstart.symm ▸ hsize) hout
    rw [hstart, readSlot_of_size hsize hout] at hw
    have hage' : outlived (lifespanOf (world st.machine i).session t) st.clock
      (localTimestamp (world st.machine i) t k n) = false := hage
    simp only [hw, hage', Bool.false_eq_true, if_false, iff_true]
    exact ⟨w, rfl⟩
  | false =>
    have hnone : ¬ (currentSeq (ringOf (world st.machine i) k) = 0 ∨
      currentSeq (ringOf (world st.machine i) k) ≤ n) := by omega
    have hqos' : qosAdmits (world st.machine i).session t = false := hqos
    simp [receiveLocal, hnone, hqos']

/-- In every state that the sessions of a host can reach, a subscription
obtains a retained and unexpired message exactly as its QoS and the
publisher's decide, if and only if the profiles of the receiving session
decide the same. -/
theorem pair_decides_iff {quicTransport : Nat → Bool}
    (h : Reach (step codec) anyStep (start quicTransport) st) {e : Nat} {sub : Endpoint}
    (he : st.endpoints e = some sub) (hs : sub.publisher = false) :
    ∃ k, (tables st sub.session).subscriptions sub.topic = some k ∧
      ∀ n f size out, st.frames (segment st sub.session k) n = some f →
        slotDataSize (ringOf (world st.machine sub.session) k) n = .ok size → size ≤ out.length →
        outlived (lifespanOf (tables st sub.session) sub.topic) st.clock
          (localTimestamp (world st.machine sub.session) sub.topic k n) = false →
        ((Obtains codec st sub.session sub.topic k n size out ↔
            qosProfilesCompatible f.qos sub.qos = true) ↔
          (Offered st sub.session sub.topic n ↔ qosProfilesCompatible f.qos sub.qos = true)) := by
  obtain ⟨k, hk⟩ := (reach_counted h).2.handle_some he
  rw [hs] at hk
  refine ⟨k, hk, fun n f size out _ hsize hout hage => ?_⟩
  rw [obtains_iff hk hsize hout hage]

def pairOf (i : Nat) (pubQos subQos : QosProfile) : List Event :=
  [.createPublisher roomyOs none 0 chatter pubQos,
    .createSubscription roomyOs none true i chatter subQos, .publish 0 [7] 0]

/-- A reliable subscription in another session obtains what a best effort
publisher sends: the session that receives has no publisher to compare with. -/
theorem foreign_publisher_unchecked :
    ¬ ∀ codec quicTransport st e sub k n f size out,
      Reach (step codec) anyStep (start quicTransport) st → st.endpoints e = some sub →
      sub.publisher = false → (tables st sub.session).subscriptions sub.topic = some k →
      st.frames (segment st sub.session k) n = some f →
      slotDataSize (ringOf (world st.machine sub.session) k) n = .ok size → size ≤ out.length →
      lifespanOf (tables st sub.session) sub.topic = none →
      (Obtains codec st sub.session sub.topic k n size out ↔
        qosProfilesCompatible f.qos sub.qos = true) := by
  intro hall
  have hrun : (run (step plain) (pairOf 1 defaultSensor reliable) (start fun _ => false)).any (fun st =>
      decide (st.endpoints 1 = some ⟨false, 1, 5, reliable⟩ ∧ (tables st 1).subscriptions 5 = some 0 ∧
        st.frames (segment st 1 0) 0 = some ⟨0, 0, 5, defaultSensor, 0, false⟩ ∧
        slotDataSize (ringOf (world st.machine 1) 0) 0 = .ok 1 ∧ lifespanOf (tables st 1) 5 = none ∧
        (selected (tables st 1) 5 0).isNone = true ∧ qosAdmits (tables st 1) 5 = true)) = true := by
    decide +kernel
  obtain ⟨st, hst, hsub, hk, hf, hsize, hlife, hsel, hqos⟩ := exists_of_any hrun
  have hiff := hall plain _ st 1 _ 0 0 _ 1 [0] (reach_of_run hst fun _ _ _ => trivial) hsub rfl hk hf
    hsize (by simp) hlife
  have hob : Obtains plain st 1 5 0 0 1 [0] :=
    (obtains_iff hk hsize (by simp) (by simp [hlife, outlived])).mpr ⟨Option.isNone_iff_eq_none.mp hsel, hqos⟩
  exact absurd (hiff.mp hob) (by decide)

/-- In one session the two profiles are compared. -/
theorem own_publisher_checked :
    ∃ st : State, st.frames 0 0 = some ⟨0, 0, 5, defaultSensor, 0, false⟩ ∧
      (Obtains plain st 0 5 0 0 1 [0] ↔ qosProfilesCompatible defaultSensor reliable = true) := by
  have hrun : (run (step plain) (pairOf 0 defaultSensor reliable) (start fun _ => false)).any (fun st =>
      decide (st.endpoints 1 = some ⟨false, 0, 5, reliable⟩ ∧ (tables st 0).subscriptions 5 = some 0 ∧
        segment st 0 0 = 0 ∧ st.frames 0 0 = some ⟨0, 0, 5, defaultSensor, 0, false⟩ ∧
        slotDataSize (ringOf (world st.machine 0) 0) 0 = .ok 1 ∧ lifespanOf (tables st 0) 5 = none ∧
        qosAdmits (tables st 0) 5 = false)) = true := by
    decide +kernel
  obtain ⟨st, hst, hsub, hk, hseg, hf, hsize, hlife, hqos⟩ := exists_of_any hrun
  obtain ⟨k, hk', hall⟩ := pair_decides_iff (reach_of_run hst fun _ _ _ => trivial) hsub rfl
  cases hk.symm.trans hk'
  refine ⟨st, hf, (hall 0 ⟨0, 0, 5, defaultSensor, 0, false⟩ 1 [0] ?_ hsize (by simp)
    (by simp [hlife, outlived])).mpr ?_⟩
  · rw [hseg]
    exact hf
  · simp only [Offered, hqos, Bool.false_eq_true, and_false, false_iff]
    decide

end RmwAxon.QosPairs
