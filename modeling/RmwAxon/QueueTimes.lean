import RmwAxon.HostOnward

namespace RmwAxon.QueueTimes

open Compress Qos Session Segment SubscriberQueue QueueHistory Function Option SessionFrame
open Host HostFrame HostCreate HostRun HostInv HostChange HostOnward
open RingBuffer (Bytes)

structure Timed (q : Queue) (arrived : Nat → Option Nat) : Prop where
  stored : ∃ pushed, Stored q pushed
  stamps : ∀ s τ, q.timestamps s = some τ → arrived s = some τ

inductive QueueStep (old : Option Queue) (arrived arrived' : Nat → Option Nat) : Queue → Prop
  | same {q : Queue} : old = some q → arrived' = arrived → QueueStep old arrived arrived' q
  | opened (capacity startSeq : Nat) (keepAll : Bool) :
      QueueStep old arrived arrived' (withSeqAndMode capacity startSeq keepAll)
  | pushed {q : Queue} {now : Nat} {data : Bytes} : old = some q →
      (∀ s, (push q now data).1 = some s → arrived' = update arrived s (some now)) →
      ((push q now data).1 = none → arrived' = arrived) →
      QueueStep old arrived arrived' (push q now data).2
  | taken {q : Queue} {seq : Nat} {out : Bytes} : old = some q → arrived' = arrived →
      QueueStep old arrived arrived' (tryTake q seq out).2.2

variable {s seq t u i j : Nat} {q : Queue} {out : Bytes} {w : World} {codec : Codec}
    {st st' : State} {os : Os}
variable {now τ : Nat}

theorem evict_timestamps {capacity : Nat} {msgs : List (Nat × Bytes)} {ts : Timestamps}
    (h : (evict capacity msgs ts).2 s = some τ) : ts s = some τ := by
  induction msgs generalizing ts with
  | nil => exact h
  | cons m msgs ih =>
    rw [evict] at h
    split_ifs at h
    · have h := ih h
      rw [update_apply] at h
      split_ifs at h
      exact h
    · exact h

theorem tryTake_timestamps (h : (tryTake q seq out).2.2.timestamps s = some τ) : q.timestamps s = some τ := by
  rcases tryTake_cases q seq out with he | he | ⟨_, _, _, _, _, _, _, he⟩
  · rwa [he] at h
  · rw [he] at h
    cases h
  rw [he] at h
  simp only [removeRange] at h
  split_ifs at h
  exact h

theorem step_timed {old : Option Queue} {arrived arrived' : Nat → Option Nat}
    (h : ∀ p, old = some p → Timed p arrived) (hs : QueueStep old arrived arrived' q) :
    Timed q arrived' := by
  cases hs with
  | same ho ha =>
    rw [ha]
    exact h q ho
  | opened capacity startSeq keepAll =>
    exact ⟨⟨_, fresh_stored capacity startSeq keepAll⟩, by simp [withSeqAndMode]⟩
  | @pushed p now data ho hsome hnone =>
    obtain ⟨⟨log, hlog⟩, hst⟩ := h p ho
    refine ⟨⟨_, push_stored hlog now data⟩, fun s τ hτ => ?_⟩
    cases hr : refuses p with
    | true =>
      rw [push_refused hr] at hτ hnone
      rw [hnone rfl]
      exact hst s τ hτ
    | false =>
      rw [push_accepted hr] at hτ hsome
      rw [hsome _ rfl]
      simp only [update_apply] at hτ ⊢
      split_ifs at hτ ⊢
      · exact hτ
      · exact hst s τ (evict_timestamps hτ)
  | @taken p seq out ho ha =>
    obtain ⟨⟨log, hlog⟩, hst⟩ := h p ho
    rw [ha]
    exact ⟨⟨log, tryTake_stored hlog seq out⟩, fun s τ hτ => hst s τ (tryTake_timestamps hτ)⟩

theorem Timed.entry {arrived : Nat → Option Nat} (h : Timed q arrived) {data : Bytes}
    (hs : (s, data) ∈ q.messages) : timestampFor q s = arrived s := by
  obtain ⟨log, hlog⟩ := h.stored
  have hin : s ∈ numbers q := List.mem_map_of_mem hs
  obtain ⟨τ, hτ⟩ := isSome_iff_exists.mp ((hlog.keyed s).mpr hin)
  rw [timestampFor, hτ, h.stamps s τ hτ]

def queueOf (st : State) (i t : Nat) : Option Queue := (tables st i).remoteRecvQueues t

theorem publishWithGid_queues (w : World) (t now : Nat) (data : Bytes) (gid : Nat) :
    (Session.publishWithGid w t now data gid).2.session.remoteRecvQueues =
      w.session.remoteRecvQueues := by
  rcases publishWithGid_cases w t now data gid with ⟨e, he⟩ | ⟨h, r, gids, _, _, he | he⟩ <;>
    rw [he] <;> rfl

theorem receive_queues
    (h : (ReceiveBySeq.receive codec w now t seq out).2.2.session.remoteRecvQueues u = some q) :
    w.session.remoteRecvQueues u = some q ∨
      ∃ p, w.session.remoteRecvQueues u = some p ∧ q = (tryTake p seq out).2.2 := by
  rcases receive_cases codec w now t seq out with ⟨p, r, out', q', hp, hq, he⟩ | hr
  · simp only [he, setQueue, update_apply] at h
    split_ifs at h with hu
    · cases h
      rw [hu]
      unfold ReceiveBySeq.receiveQueued at hq
      dsimp only at hq
      split at hq
      · cases hq
        exact .inl hp
      split at hq
      · cases hq
      rename_i htake
      refine .inr ⟨p, hp, ?_⟩
      rw [htake]
      split_ifs at hq
      · cases hq
        rfl
      · cases hq
        rfl
      · split at hq <;> cases hq <;> rfl
    · exact .inl h
  · rw [hr.kept.queues] at h
    exact .inl h

theorem put_queue (hm : st'.machine = put st.machine i w) (h : queueOf st' j t = some q) :
    (j = i ∧ w.session.remoteRecvQueues t = some q) ∨ (j ≠ i ∧ queueOf st j t = some q) := by
  rw [queueOf, tables, hm, put_tables] at h
  split_ifs at h with hj
  · exact .inl ⟨hj, h⟩
  · exact .inr ⟨hj, h⟩

theorem joined_queue {s s' : Tables} {qos : QosProfile} {h : Nat} {b : Bool}
    (hj : Joined s qos h b t s') (hq : s'.remoteRecvQueues u = some q) :
    s.remoteRecvQueues u = some q ∨ ∃ capacity startSeq keepAll,
      q = withSeqAndMode capacity startSeq keepAll := by
  cases hj with
  | publisher => exact .inl hq
  | subscription =>
    simp only [addSubscription, openQueue] at hq
    split_ifs at hq
    · rw [update_apply] at hq
      split_ifs at hq
      · exact .inr ⟨_, _, _, (some.inj hq).symm⟩
      · exact .inl hq
    · exact .inl hq

theorem created_queue {r : Request} {b created : Bool} {qos : QosProfile} {x' : Machine}
    (hc : Created st r b qos created x') (hm : st'.machine = x') (hq : queueOf st' j u = some q) :
    queueOf st j u = some q ∨ ∃ capacity startSeq keepAll, q = withSeqAndMode capacity startSeq keepAll := by
  rw [queueOf, tables, hm] at hq
  cases hc with
  | failed hf => rcases hf with rfl | rfl <;> exact .inl hq
  | attached ha _ _ hw =>
    rw [attach_tables_put ha] at hq
    split_ifs at hq with hj
    · subst hj
      exact joined_queue hw hq
    · exact .inl hq

theorem applyDestroy_queue {e : Nat} {p : Endpoint}
    (hq : queueOf (applyDestroy st e p) j u = some q) : queueOf st j u = some q := by
  rcases put_queue (applyDestroy_machine st e p) hq with ⟨rfl, hw⟩ | ⟨_, hw⟩
  · split_ifs at hw
    · rwa [(destroyPublisher_frame ..).2] at hw
    · exact (destroySubscription_frame ..).2 _ _ hw
  · exact hw

theorem applyArrival_queue {payload : Bytes} (hq : queueOf (applyArrival codec st i t payload) j u = some q) :
    QueueStep (queueOf st j u) (st.arrivals j u) ((applyArrival codec st i t payload).arrivals j u) q := by
  cases hold : (tables st i).remoteRecvQueues t with
  | none =>
    have he : Host.arrive st.machine i t st.clock (compress codec payload) = (none, st.machine) := by
      simp only [tables] at hold
      simp only [Host.arrive, hold]
    simp only [queueOf, tables, applyArrival, he] at hq ⊢
    exact .same hq rfl
  | some p =>
    have he : Host.arrive st.machine i t st.clock (compress codec payload) =
        ((push p st.clock (compress codec payload)).1, put st.machine i
          (setQueue (world st.machine i) t (push p st.clock (compress codec payload)).2)) := by
      simp only [tables] at hold
      simp only [Host.arrive, hold]
      rfl
    have hnone (hn : (push p st.clock (compress codec payload)).1 = none) :
        (applyArrival codec st i t payload).arrivals = st.arrivals := by
      simp only [applyArrival, he, hn]
    have hsome (s : Nat) (hs : (push p st.clock (compress codec payload)).1 = some s) :
        (applyArrival codec st i t payload).arrivals = update st.arrivals i (update (st.arrivals i) t
            (update (st.arrivals i t) s (some st.clock))) := by
      simp only [applyArrival, he, hs]
    have hother (hne : j = i → u ≠ t) :
        (applyArrival codec st i t payload).arrivals j u = st.arrivals j u := by
      cases hr : (push p st.clock (compress codec payload)).1 with
      | none => rw [hnone hr]
      | some s =>
        rw [hsome s hr, update_apply]
        split_ifs with hj
        · rw [update_of_ne (hne hj), hj]
        · rfl
    rcases put_queue (congrArg Prod.snd he) hq with ⟨rfl, hw⟩ | ⟨hj, hw⟩
    · simp only [setQueue, update_apply] at hw
      split_ifs at hw with hu
      · cases hw
        subst hu
        refine .pushed hold (fun s hs => ?_) fun hn => ?_
        · rw [hsome s hs, update_self, update_self]
        · rw [hnone hn]
      · exact .same hw (hother fun _ => hu)
    · exact .same hw (hother fun h => absurd h hj)

theorem step_queue {ev : Event} (hx : AllTidy st.machine) (hs : step codec st ev = some st')
    (hq : queueOf st' j u = some q) :
    QueueStep (queueOf st j u) (st.arrivals j u) (st'.arrivals j u) q := by
  cases ev with
  | createPublisher | createSubscription =>
    obtain ⟨_, _, _, _, rfl, hc⟩ := step_created hx hs rfl
    rcases created_queue hc (addEndpoint_machine ..) hq with hq | ⟨_, _, _, rfl⟩
    · refine .same hq ?_
      rw [(addEndpoint_kept ..).arrivals]
    · exact .opened ..
  | destroy e =>
    obtain ⟨p, _, rfl⟩ := map_eq_some_iff.mp hs
    exact .same (applyDestroy_queue hq) rfl
  | publish e data gid =>
    obtain ⟨p, _, rfl⟩ := map_eq_some_iff.mp hs
    refine .same ?_ rfl
    have hm : (applyPublish st e p data gid).machine = put st.machine p.session _ := rfl
    rcases put_queue hm hq with ⟨rfl, hw⟩ | ⟨_, hw⟩
    · rwa [publishWithGid_queues] at hw
    · exact hw
  | borrow i t n =>
    obtain ⟨_, rfl⟩ := whenAlive_some hs
    rw [queueOf, tables, borrowLoaned_tables] at hq
    exact .same hq rfl
  | store i h ptr data =>
    obtain ⟨_, rfl⟩ := whenAlive_some hs
    rw [queueOf, tables, Host.storeLoaned, setRing_tables] at hq
    exact .same hq rfl
  | commit e ptr size =>
    obtain ⟨p, _, rfl⟩ := map_eq_some_iff.mp hs
    simp only [queueOf, tables, applyCommit, commitLoaned_tables] at hq
    exact .same hq rfl
  | arrive i t payload =>
    obtain ⟨_, rfl⟩ := whenAlive_some hs
    exact applyArrival_queue hq
  | receive i t seq out =>
    obtain ⟨_, rfl⟩ := whenAlive_some hs
    have hm : (applyReceive codec st i t seq out).machine = put st.machine i _ := rfl
    rcases put_queue hm hq with ⟨rfl, hw⟩ | ⟨_, hw⟩
    · rcases receive_queues hw with hw | ⟨p, hp, rfl⟩
      · exact .same hw rfl
      · exact .taken hp rfl
    · exact .same hw rfl
  | receiveNext i t requested out =>
    obtain ⟨_, rfl⟩ := whenAlive_some hs
    refine .same ?_ rfl
    have hm : (applyReceiveNext codec st i t requested out).machine = put st.machine i _ := rfl
    rcases put_queue hm hq with ⟨rfl, hw⟩ | ⟨_, hw⟩
    · rwa [(receiveNext_kept ..).queues] at hw
    · exact hw
  | tick | reap =>
    cases hs
    exact .same hq rfl
  | die i =>
    cases hs
    refine .same ?_ rfl
    simp only [queueOf, tables, applyDeath, die, update_apply] at hq
    split_ifs at hq
    · cases hq
    · exact hq

end RmwAxon.QueueTimes
