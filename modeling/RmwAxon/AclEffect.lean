import RmwAxon.AclSession
import RmwAxon.EndpointChange
import RmwAxon.HostFrame

namespace RmwAxon.AclEffect

open Registry Acl AclSession LocalPubSub Function
open Cells (slice)
open Endpoints (Endpoint sender receiver)
open EndpointChange (Unmoved destroy_absent destroy_released destroy_removed)
open HostFrame (publishWithGid_cases pruneTopic_segment stamped_segment)
open RingBuffer (Bytes Ring slotCount slotAt slotIndex slotDataSize slotAt_updateSlot)
open RingHistory (SameSlots)
open Session (World ringOf setRing publishOn)

theorem shown_eq_some {m : Ring} {s : Nat} {p : Bytes} : shown m s = some p ↔
    s < m.writeIndex ∧ m.writeIndex ≤ s + slotCount m ∧ (slotAt m s).seq = some s ∧
      (slotAt m s).len ≠ 0 ∧ slice (slotAt m s).data (slotAt m s).len = p := by
  unfold shown slotDataSize
  simp only
  split_ifs <;> simp_all <;> omega

def Hides (m' m : Ring) : Prop := ∀ s p, shown m' s = some p → shown m s = some p

theorem Hides.refl (m : Ring) : Hides m m := fun _ _ h => h

theorem hides_of_slots {m' m : Ring} (h : SameSlots m' m) : Hides m' m := by
  intro s p hs
  rw [shown_eq_some] at hs ⊢
  simpa only [slotAt, slotIndex, slotCount, h.geometry, h.writeIndex, h.slots] using hs

theorem borrowBuffer_hides (m : Ring) (loans : Loans) (n : Nat) : Hides (borrowBuffer m loans n).2.1 m := by
  rcases Loan.borrowBuffer_cases m loans n with he | he
  · rw [he]
    exact .refl m
  rw [he]
  intro s p hs
  rw [shown_eq_some, slotAt_updateSlot] at hs
  rw [shown_eq_some]
  obtain ⟨hlt, hle, hseq, hlen, hp⟩ := hs
  have hlt : s < m.writeIndex + 1 := hlt
  have hle : m.writeIndex + 1 ≤ s + slotCount m := hle
  split_ifs at hseq hlen hp with hi
  have hne : s ≠ m.writeIndex := by
    rintro rfl
    exact hi rfl
  exact ⟨by omega, by omega, hseq, hlen, hp⟩

structure Wrote (w w' : World) (g : Nat) : Prop where
  rings : ∀ i, i ≠ g → w'.rings i = w.rings i
  segments : ∀ h, (w'.handles h).segment = (w.handles h).segment
  publishers : w'.session.publishers = w.session.publishers
  subscriptions : w'.session.subscriptions = w.session.subscriptions

theorem setRing_wrote (w : World) (h : Nat) (m : Ring) : Wrote w (setRing w h m) (w.handles h).segment :=
  ⟨fun _ hi => update_of_ne hi .., fun _ => rfl, rfl, rfl⟩

theorem publishOn_wrote (w : World) (h now : Nat) (data : Bytes) (gid : Nat) :
    Wrote w (publishOn w h now data gid).2 (w.handles h).segment := by
  obtain ⟨hr, hs⟩ := SessionFrame.publishOn_frame w h now data gid
  refine ⟨fun i hi => by rw [hr, update_of_ne hi], fun k => ?_, by rw [hs], by rw [hs]⟩
  unfold publishOn
  split
  · rfl
  by_cases hk : k = h
  · rw [hk]
    simp
  · simp [hk]

theorem publishWithGid_wrote (w : World) (t now : Nat) (data : Bytes) (gid : Nat) :
    (Session.publishWithGid w t now data gid).2 = w ∨
    ∃ h, w.session.publishers t = some h ∧
      Wrote w (Session.publishWithGid w t now data gid).2 (w.handles h).segment := by
  rcases publishWithGid_cases w t now data gid with ⟨e, he⟩ | ⟨h, r, gids, hp, _, he⟩
  · exact .inl (by rw [he])
  refine .inr ⟨h, hp, ?_⟩
  rcases he with he | he <;> rw [he]
  · exact ⟨fun i hi => update_of_ne hi .., stamped_segment w t h now _ r gids, rfl, rfl⟩
  · refine ⟨fun i hi => update_of_ne hi .., fun k => ?_, rfl, rfl⟩
    rw [pruneTopic_segment, stamped_segment]

/-- The handle an operation of the session writes through, and the check it
has passed. -/
def writes (glob : Glob) (st : State) : Event → Nat → Prop
  | .publish t _ _ _ _, h => allows glob st t = true ∧ st.world.session.publishers t = some h
  | .store k _ _, h => k = h
  | .commit t _ _, h => st.world.session.publishers t = some h
  | .request serviceId _ _ _ _, h => allows glob st (serviceRequestTopic serviceId) = true ∧
      st.records.serviceRequestPubs serviceId = some h
  | .response serviceId _ _ _ _, h => allows glob st (serviceResponseTopic serviceId) = true ∧
      st.records.serviceResponsePubs serviceId = some h
  | .deliver i _ _, h => ∃ t, st.tasks[i]? = some (t, h)
  | _, _ => False

structure Frame (st st' : State) : Prop where
  acl : st'.acl = st.acl
  rules : st'.rules = st.rules
  nextHandle : st'.nextHandle = st.nextHandle
  segments : ∀ h, (st'.world.handles h).segment = (st.world.handles h).segment
  senders : ∀ route a, sender st'.records route = some a → sender st.records route = some a
  receivers : ∀ route a, receiver st'.records route = some a → receiver st.records route = some a
  tasks : ∀ task ∈ st'.tasks, task ∈ st.tasks ∨ ∃ serviceId,
    task.1 = serviceResponseTopic serviceId ∧ receiver st.records (.response serviceId) = some task.2

def Confined (glob : Glob) (st : State) (ev : Event) (st' : State) : Prop :=
  ∀ g, Hides (st'.world.rings g) (st.world.rings g) ∨
    ∃ h, writes glob st ev h ∧ (st.world.handles h).segment = g

variable {glob : Glob} {channelOf : Nat → Nat} {st st' : State} {ev : Event}

theorem Frame.refl (st : State) : Frame st st :=
  ⟨rfl, rfl, rfl, fun _ => rfl, fun _ _ h => h, fun _ _ h => h, fun _ h => .inl h⟩

theorem confined_of_eq (h : st'.world.rings = st.world.rings) : Confined glob st ev st' :=
  fun _ => .inl (h ▸ Hides.refl _)

theorem setWorld_frame {w : World} {g : Nat} (hw : Wrote st.world w g) : Frame st (setWorld st w) := by
  refine ⟨rfl, rfl, rfl, hw.segments, fun route a ha => ?_, fun route a ha => ?_, fun _ h => .inl h⟩
  · cases route with
    | topic t => exact (congrFun hw.publishers t).symm.trans ha
    | request s | response s => exact ha
  · cases route with
    | topic t => exact (congrFun hw.subscriptions t).symm.trans ha
    | request s | response s => exact ha

theorem confined_of_wrote {h : Nat} (hr : Wrote st.world st'.world (st.world.handles h).segment)
    (hh : writes glob st ev h) : Confined glob st ev st' := by
  intro g
  by_cases hg : g = (st.world.handles h).segment
  · exact .inr ⟨h, hh, hg.symm⟩
  · rw [hr.rings g hg]
    exact .inl (.refl _)

theorem publish_effect (t now : Nat) (data : Bytes) (gid : Nat) (inBudget : Bool) :
    Frame st (publishWithGid glob st t now data gid inBudget).2 ∧
      Confined glob st (.publish t now data gid inBudget)
        (publishWithGid glob st t now data gid inBudget).2 := by
  unfold publishWithGid
  split_ifs with hallow hbudget
  · exact ⟨.refl st, confined_of_eq rfl⟩
  · exact ⟨.refl st, confined_of_eq rfl⟩
  have hcases := publishWithGid_wrote st.world t now data gid
  rcases hr : Session.publishWithGid st.world t now data gid with ⟨result, w⟩
  rw [hr] at hcases
  have hstate : Frame st (setWorld st w) ∧
      Confined glob st (.publish t now data gid inBudget) (setWorld st w) := by
    rcases hcases with he | ⟨h, hp, hw⟩
    · have he : w = st.world := he
      rw [he]
      exact ⟨.refl st, confined_of_eq rfl⟩
    · exact ⟨setWorld_frame hw, confined_of_wrote hw ⟨by simpa using hallow, hp⟩⟩
  cases result <;> exact hstate

theorem borrow_effect (t maxSize : Nat) : Frame st (borrowLoaned st t maxSize).2 ∧
      Confined glob st (.borrow t maxSize) (borrowLoaned st t maxSize).2 := by
  unfold borrowLoaned
  cases hp : st.world.session.publishers t with
  | none => exact ⟨.refl st, confined_of_eq rfl⟩
  | some h =>
    refine ⟨⟨rfl, rfl, rfl, fun _ => rfl, fun route a ha => ?_, fun route a ha => ?_,
      fun _ ht => .inl ht⟩, fun g => .inl ?_⟩
    · cases route <;> exact ha
    · cases route <;> exact ha
    change Hides ((setRing st.world h _).rings g) (st.world.rings g)
    simp only [setRing, update_apply]
    split_ifs with hg
    · rw [hg]
      exact borrowBuffer_hides (ringOf st.world h) (st.loans h) maxSize
    · exact .refl _

theorem commit_effect (t ptr size : Nat) : Frame st (commitLoaned st t ptr size).2 ∧
      Confined glob st (.commit t ptr size) (commitLoaned st t ptr size).2 := by
  unfold commitLoaned
  cases hp : st.world.session.publishers t with
  | none => exact ⟨.refl st, confined_of_eq rfl⟩
  | some h =>
    have hw := setRing_wrote st.world h (commitBuffer (ringOf st.world h) (st.loans h) ptr size).2.1
    have hf := setWorld_frame hw
    exact ⟨⟨rfl, rfl, rfl, hf.segments, hf.senders, hf.receivers, hf.tasks⟩, confined_of_wrote hw hp⟩

theorem request_effect (serviceId : Nat) (clientGid : Gid) (now : Nat) (data : Bytes) (peers : Nat) :
    Frame st (sendRequestWithGid glob st serviceId clientGid now data peers).2 ∧
      Confined glob st (.request serviceId clientGid now data peers)
        (sendRequestWithGid glob st serviceId clientGid now data peers).2 := by
  unfold sendRequestWithGid
  split_ifs with hallow
  · exact ⟨.refl st, confined_of_eq rfl⟩
  cases hp : st.records.serviceRequestPubs serviceId with
  | none =>
    simp only [hp]
    exact ⟨⟨rfl, rfl, rfl, fun _ => rfl, fun _ _ h => h, fun _ _ h => h, fun _ h => .inl h⟩,
      confined_of_eq rfl⟩
  | some h =>
    simp only [hp, State.world]
    have hw := publishOn_wrote st.world h now (encodeServiceEnvelope 1 clientGid st.requestSequence data) 0
    rcases hr : publishOn st.records.world h now
      (encodeServiceEnvelope 1 clientGid st.requestSequence data) 0 with ⟨result, w⟩
    rw [State.world, hr] at hw
    have hf := setWorld_frame hw
    have hpass : writes glob st (.request serviceId clientGid now data peers) h :=
      ⟨by simpa using hallow, hp⟩
    cases result with
    | error e =>
      refine ⟨⟨rfl, rfl, rfl, hf.segments, hf.senders, hf.receivers, hf.tasks⟩, ?_⟩
      exact confined_of_wrote hw hpass
    | ok seq =>
      refine ⟨⟨rfl, rfl, rfl, hf.segments, hf.senders, hf.receivers, fun task ht => ?_⟩, ?_⟩
      · rcases List.mem_append.mp ht with ht | ht
        · exact .inl ht
        · unfold calls at ht
          split at ht
          · rename_i hq hsub
            rw [List.eq_of_mem_replicate ht]
            exact .inr ⟨serviceId, rfl, hsub⟩
          · cases ht
      · exact confined_of_wrote hw hpass

theorem response_effect (serviceId : Nat) (clientGid : Gid) (requestSequence : Int) (now : Nat)
    (data : Bytes) :
    Frame st (sendResponseWithInfo glob st serviceId clientGid requestSequence now data).2 ∧
      Confined glob st (.response serviceId clientGid requestSequence now data)
        (sendResponseWithInfo glob st serviceId clientGid requestSequence now data).2 := by
  unfold sendResponseWithInfo
  split_ifs with hallow
  · exact ⟨.refl st, confined_of_eq rfl⟩
  cases hp : st.records.serviceResponsePubs serviceId with
  | none => exact ⟨.refl st, confined_of_eq rfl⟩
  | some h =>
    simp only
    have hw := publishOn_wrote st.world h now (responseData clientGid requestSequence data) 0
    rcases hr : publishOn st.world h now (responseData clientGid requestSequence data) 0 with
      ⟨result, w⟩
    rw [hr] at hw
    have hpass : writes glob st (.response serviceId clientGid requestSequence now data) h :=
      ⟨by simpa using hallow, hp⟩
    cases result <;> exact ⟨setWorld_frame hw, confined_of_wrote hw hpass⟩

theorem deliver_effect (i now : Nat) (data : Bytes) :
    Frame st (deliver st i now data) ∧ Confined glob st (.deliver i now data) (deliver st i now data) := by
  unfold deliver
  cases ht : st.tasks[i]? with
  | none => exact ⟨.refl st, confined_of_eq rfl⟩
  | some task =>
    have hw := publishOn_wrote st.world task.2 now data 0
    exact ⟨setWorld_frame hw, confined_of_wrote hw ⟨task.1, ht⟩⟩

theorem destroy_kept (r : Records) (e : Endpoint) : Unmoved r (Endpoints.destroy r e).2 ∧
    (∀ route a, sender (Endpoints.destroy r e).2 route = some a → sender r route = some a) ∧
    ∀ route a, receiver (Endpoints.destroy r e).2 route = some a → receiver r route = some a := by
  cases hc : Endpoints.count r e with
  | none =>
    rw [destroy_absent hc]
    exact ⟨⟨rfl, rfl⟩, fun _ _ h => h, fun _ _ h => h⟩
  | some n =>
    by_cases hn : 1 < n
    · obtain ⟨r', hd, hrel⟩ := destroy_released hc hn
      rw [hd]
      exact ⟨hrel.unmoved, fun _ _ h => hrel.senders ▸ h, fun _ _ h => hrel.receivers ▸ h⟩
    · obtain ⟨r', hd, hrem⟩ := destroy_removed hc hn
      rw [hd]
      exact ⟨hrem.unmoved, hrem.senders, hrem.receivers⟩

theorem destroy_effect (e : Endpoint) : Frame st { st with records := (Endpoints.destroy st.records e).2 } ∧
      Confined glob st (.destroy e) { st with records := (Endpoints.destroy st.records e).2 } := by
  obtain ⟨⟨hr, hh⟩, hsend, hrecv⟩ := destroy_kept st.records e
  refine ⟨⟨rfl, rfl, rfl, fun h => ?_, hsend, hrecv, fun _ h => .inl h⟩, confined_of_eq hr⟩
  exact congrArg (fun f => (f h).segment) hh

end RmwAxon.AclEffect
