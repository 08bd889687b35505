import RmwAxon.PendingStreams

namespace RmwAxon.PendingRun

open PendingStreams Transition List
open AclSession (Gid SendError responseData)
open Acl (Glob)
open Registry (serviceResponseTopic)
open RingBuffer (Bytes)
open ServiceEnvelope (firstClient)

variable {glob : Glob} {channelOf : Nat → Nat} {st st' : State} {t : Nat} {gid : Gid} {seq : Int}
  {data : Bytes}

def carried (st : State) (stream : Nat) : Option (Gid × Int) := (st.requests[stream]?).map correlation

structure Inv (st : State) : Prop where
  carried : ∀ u, ∀ p ∈ listed st u, carried st p.stream = some (p.clientGid, p.requestSequence)
  sorted : ∀ u, ((listed st u).map (·.stream)).Pairwise (· < ·)
  apart : ∀ u v, u ≠ v → ∀ p ∈ listed st u, ∀ q ∈ listed st v, p.stream ≠ q.stream
  known : ∀ x ∈ st.completed, x.1 < st.requests.length
  gone : ∀ x ∈ st.completed, ∀ u, ∀ p ∈ listed st u, p.stream ≠ x.1
  once : (st.completed.map Prod.fst).Nodup

theorem Inv.below (h : Inv st) {u : Nat} {p : PendingServiceResponse} (hp : p ∈ listed st u) :
    p.stream < st.requests.length := by
  have hsome := h.carried u p hp
  simp only [PendingRun.carried, Option.map_eq_some_iff] at hsome
  obtain ⟨_, hget, _⟩ := hsome
  exact (List.getElem?_eq_some_iff.mp hget).1

theorem inv_of_sublist (h : Inv st) (hsub : ∀ u, (listed st' u).Sublist (listed st u))
    (hc : st'.completed = st.completed) (hr : st'.requests = st.requests) : Inv st' := by
  refine ⟨fun u p hp => ?_, fun u => ?_, fun u v huv p hp q hq => ?_, ?_, fun x hx u p hp => ?_, ?_⟩
  · rw [PendingRun.carried, hr]
    exact h.carried u p ((hsub u).subset hp)
  · exact (h.sorted u).sublist ((hsub u).map _)
  · exact h.apart u v huv p ((hsub u).subset hp) q ((hsub v).subset hq)
  · rw [hc, hr]
    exact h.known
  · rw [hc] at hx
    exact h.gone x hx u p ((hsub u).subset hp)
  · rw [hc]
    exact h.once

def newStream (st : State) (reqData : Bytes) : PendingServiceResponse :=
  ⟨(correlation reqData).1, (correlation reqData).2, st.requests.length⟩

theorem listed_arrive (st : State) (serviceId u : Nat) (reqData : Bytes) :
    listed (arrive st serviceId reqData) u =
      if u = serviceResponseTopic serviceId then listed st u ++ [newStream st reqData] else listed st u := by
  refine (listed_setPending st _ u _).trans ?_
  split_ifs with hu
  · rw [hu]
    rfl
  · rfl

theorem mem_listed_arrive {serviceId u : Nat} {reqData : Bytes} {p : PendingServiceResponse}
    (hp : p ∈ listed (arrive st serviceId reqData) u) :
    p ∈ listed st u ∨ u = serviceResponseTopic serviceId ∧ p = newStream st reqData := by
  rw [listed_arrive] at hp
  split_ifs at hp with hu
  · rcases mem_append.mp hp with hp | hp
    · exact .inl hp
    · exact .inr ⟨hu, mem_singleton.mp hp⟩
  · exact .inl hp

theorem inv_of_arrive (h : Inv st) (serviceId : Nat) (reqData : Bytes) :
    Inv (arrive st serviceId reqData) := by
  refine ⟨fun u p hp => ?_, fun u => ?_, fun u v huv p hp q hq => ?_, fun x hx => ?_, fun x hx u p hp => ?_,
    h.once⟩
  · rcases mem_listed_arrive hp with hp | ⟨_, rfl⟩
    · rw [← h.carried u p hp]
      exact congrArg (Option.map correlation) (getElem?_append_left (h.below hp))
    · simp [carried, arrive, newStream]
  · rw [listed_arrive]
    split_ifs with hu
    · rw [map_append, pairwise_append]
      refine ⟨h.sorted _, pairwise_singleton _ _, fun a ha b hb => ?_⟩
      obtain ⟨p, hp, rfl⟩ := mem_map.mp ha
      rw [map_singleton, mem_singleton] at hb
      exact hb ▸ h.below hp
    · exact h.sorted u
  · rcases mem_listed_arrive hp with hp | ⟨hu, rfl⟩
    · rcases mem_listed_arrive hq with hq | ⟨_, rfl⟩
      · exact h.apart u v huv p hp q hq
      · exact Nat.ne_of_lt (h.below hp)
    · rcases mem_listed_arrive hq with hq | ⟨hv, _⟩
      · exact Nat.ne_of_gt (h.below hq)
      · exact absurd (hu.trans hv.symm) huv
  · have := h.known x hx
    simp only [arrive, length_append]
    omega
  · rcases mem_listed_arrive hp with hp | ⟨_, rfl⟩
    · exact h.gone x hx u p hp
    · exact Nat.ne_of_gt (h.known x hx)

theorem openStreams_sublist (st : State) (t : Nat) : (openStreams st t).Sublist (listed st t) :=
  filter_sublist

section Completes

variable {earlier later : List PendingServiceResponse} {p : PendingServiceResponse}

theorem completes_mem (hc : Completes st st' t earlier p later data) : p ∈ listed st t :=
  (openStreams_sublist st t).subset (by simp [hc.opened])

theorem completes_sublist (hc : Completes st st' t earlier p later data) (u : Nat) :
    (listed st' u).Sublist (listed st u) := by
  by_cases hu : u = t
  · have hopen : (earlier ++ p :: later).Sublist (listed st t) := hc.opened ▸ openStreams_sublist st t
    rw [hu, hc.rest]
    exact ((sublist_cons_self p later).append_left earlier).trans hopen
  · rw [hc.others u hu]

theorem completes_gone (h : Inv st) (hc : Completes st st' t earlier p later data) {u : Nat}
    {q : PendingServiceResponse} (hq : q ∈ listed st' u) : q.stream ≠ p.stream := by
  by_cases hu : u = t
  · have hsorted := (h.sorted t).sublist ((openStreams_sublist st t).map _)
    rw [hc.opened, map_append, map_cons, pairwise_append, pairwise_cons] at hsorted
    obtain ⟨_, ⟨hafter, _⟩, hbefore⟩ := hsorted
    rw [hu, hc.rest] at hq
    rcases mem_append.mp hq with hq | hq
    · exact Nat.ne_of_lt (hbefore _ (mem_map_of_mem hq) _ (mem_cons_self ..))
    · exact Nat.ne_of_gt (hafter _ (mem_map_of_mem hq))
  · exact h.apart u t hu q ((completes_sublist hc u).subset hq) p (completes_mem hc)

theorem inv_of_completes (h : Inv st) (hc : Completes st st' t earlier p later data)
    (hr : st'.requests = st.requests) : Inv st' := by
  have hsub : ∀ u, (listed st' u).Sublist (listed st u) := completes_sublist hc
  have hkept : Inv { st' with completed := st.completed } := inv_of_sublist h hsub rfl hr
  have hnew : ∀ x ∈ st'.completed, x ∈ st.completed ∨ x = (p.stream, data) := by
    intro x hx
    rw [hc.completed] at hx
    exact (mem_append.mp hx).imp_right mem_singleton.mp
  refine ⟨hkept.carried, hkept.sorted, hkept.apart, fun x hx => ?_, fun x hx u q hq => ?_, ?_⟩
  · rcases hnew x hx with hx | rfl
    · exact hkept.known x hx
    · exact hr ▸ h.below (completes_mem hc)
  · rcases hnew x hx with hx | rfl
    · exact hkept.gone x hx u q hq
    · exact completes_gone h hc hq
  rw [hc.completed, map_append, nodup_append]
  refine ⟨h.once, nodup_singleton _, fun a ha b hb => ?_⟩
  obtain ⟨x, hx, rfl⟩ := mem_map.mp ha
  rw [map_singleton, mem_singleton] at hb
  exact hb ▸ (h.gone x hx t p (completes_mem hc)).symm

end Completes

theorem step_inv {e : Event} (h : Inv st) (hs : step glob channelOf st e = some st') : Inv st' := by
  rcases step_cases hs with ⟨serviceId, reqData, rfl⟩ | ⟨serviceId, gid, seq, now, data, _, rfl⟩ |
    ⟨hsub, hc, hr⟩
  · exact inv_of_arrive h serviceId reqData
  · rcases hresp : respond glob st serviceId gid seq now data with ⟨reply, st'⟩
    have hr := respond_requests hresp
    by_cases hsent : Sent st reply
    · rcases respond_sent hresp hsent with ⟨earlier, p, later, hc, _⟩ | ⟨hc, _⟩
      · exact inv_of_completes h hc hr
      · refine inv_of_sublist h (fun u => ?_) hc.completed hr
        by_cases hu : u = serviceResponseTopic serviceId
        · rw [hu, hc.rest]
          exact openStreams_sublist st _
        · rw [hc.others u hu]
    · obtain ⟨hl, hc⟩ := respond_unsent hresp hsent
      exact inv_of_sublist h (fun u => hl ▸ List.Sublist.refl _) hc hr
  · exact inv_of_sublist h hsub hc hr

theorem start_inv (session : AclSession.State) : Inv (start session) :=
  ⟨fun _ _ hp => absurd hp not_mem_nil, fun _ => List.Pairwise.nil,
    fun _ _ _ _ hp => absurd hp not_mem_nil, fun _ hx => absurd hx not_mem_nil,
    fun _ hx => absurd hx not_mem_nil, nodup_nil⟩

/-- Along every run of a session no stream is completed twice, the streams of a
service wait in the order of their requests, and only responses complete streams.
A response that cannot be sent leaves the streams alone. One to a client takes an
open stream whose request carried its client and sequence whenever there is one;
one without a client takes the oldest open stream. -/
theorem responses_complete_streams {session : AclSession.State}
    (h : Reach (step glob channelOf) anyStep (start session) st) :
    (st.completed.map Prod.fst).Nodup ∧ (∀ u, ((listed st u).map (·.stream)).Pairwise (· < ·)) ∧
      (∀ e st', step glob channelOf st e = some st' →
        (∀ serviceId gid seq now data, e ≠ .session (.response serviceId gid seq now data)) →
        st'.completed = st.completed) ∧
      ∀ serviceId gid seq now data reply st', respond glob st serviceId gid seq now data = (reply, st') →
        (¬ Sent st reply → listed st' = listed st ∧ st'.completed = st.completed) ∧
        (Sent st reply → addressed gid = true →
          (∃ earlier p later, carried st p.stream = some (gid, seq) ∧ Completes st st'
            (serviceResponseTopic serviceId) earlier p later (responseData gid seq data)) ∨
          (∀ p ∈ openStreams st (serviceResponseTopic serviceId), carried st p.stream ≠ some (gid, seq)) ∧
            CompletesNone st st' (serviceResponseTopic serviceId)) ∧
        (Sent st reply → addressed gid = false →
          (∃ p later, Completes st st' (serviceResponseTopic serviceId) [] p later
            (responseData gid seq data)) ∨
          openStreams st (serviceResponseTopic serviceId) = [] ∧
            CompletesNone st st' (serviceResponseTopic serviceId)) := by
  have hi : Inv st := h.invariant (start_inv session) fun _ _ _ hi _ hs => step_inv hi hs
  have hmem : ∀ {u p}, p ∈ openStreams st u → carried st p.stream = some (p.clientGid, p.requestSequence) :=
    fun hp => hi.carried _ _ ((openStreams_sublist st _).subset hp)
  refine ⟨hi.once, hi.sorted, fun e st' hs hne => ?_, fun serviceId gid seq now data reply st' heq =>
    ⟨respond_unsent heq, fun hsent ha => ?_, fun hsent ha => ?_⟩⟩
  · rcases step_cases hs with ⟨_, _, rfl⟩ | ⟨_, _, _, _, _, rfl, _⟩ | ⟨_, hc, _⟩
    · rfl
    · exact absurd rfl (hne _ _ _ _ _)
    · exact hc
  · rcases respond_sent heq hsent with ⟨earlier, p, later, hc, hfits, _⟩ | ⟨hc, hnone, _⟩
    · obtain ⟨hgid, hseq⟩ := hfits ha
      have hp : p ∈ openStreams st (serviceResponseTopic serviceId) := by simp [hc.opened]
      exact .inl ⟨earlier, p, later, by rw [hmem hp, hgid, hseq], hc⟩
    · refine .inr ⟨fun p hp hcarried => hnone ha p hp ?_, hc⟩
      rw [hmem hp, Option.some.injEq, Prod.mk.injEq] at hcarried
      exact hcarried
  · rcases respond_sent heq hsent with ⟨earlier, p, later, hc, _, hfirst⟩ | ⟨hc, _, hempty⟩
    · exact .inl ⟨p, later, hfirst ha ▸ hc⟩
    · exact .inr ⟨hempty ha, hc⟩

def everyName : Glob := ⟨fun _ => true, fun _ _ => true⟩

def serverSession : AclSession.State :=
  AclSession.start everyName none none (fun _ => RingBuffer.create ServiceEnvelope.twoFrames)
    (fun _ => ⟨0, fun _ => none, fun _ => none⟩) 7 true

def serviceChannels (segment : Nat) : Nat :=
  if segment = 0 then Registry.serviceRequestTopic 4 else serviceResponseTopic 4

/-- Three remote requests of one client to a new server. The first stream vanishes. -/
def threeRequests : List Event :=
  [.session (.create (.service 4 "/add" "AddTwoInts" Qos.defaultSensor (.ok (0, 0)) (.ok (1, 1)))),
    .arrive 4 (AclSession.encodeServiceEnvelope 1 firstClient 1 []),
    .arrive 4 (AclSession.encodeServiceEnvelope 1 firstClient 2 []),
    .arrive 4 (AclSession.encodeServiceEnvelope 1 firstClient 3 []), .close 0]

theorem third_request_answered :
    ∃ st n st', run (step everyName serviceChannels) threeRequests (start serverSession) = some st ∧
      respond everyName st 4 firstClient 3 0 [9] = (.ok n, st') ∧
      ∃ earlier p later, carried st p.stream = some (firstClient, 3) ∧
        Completes st st' (serviceResponseTopic 4) earlier p later (responseData firstClient 3 [9]) := by
  obtain ⟨st, hrun, hok, hquic, hopen⟩ := exists_of_any (p := fun st =>
      (respond everyName st 4 firstClient 3 0 [9]).1.isOk = true ∧
      st.session.world.session.quicTransport = true ∧
      ∃ p ∈ openStreams st (serviceResponseTopic 4), carried st p.stream = some (firstClient, 3))
    (o := run (step everyName serviceChannels) threeRequests (start serverSession)) (by decide +kernel)
  obtain ⟨_, _, _, hresp⟩ := responses_complete_streams (reach_of_run hrun fun _ _ _ => trivial)
  cases hreply : respond everyName st 4 firstClient 3 0 [9] with
  | mk reply st' =>
    rw [hreply] at hok
    cases reply with
    | error e => cases hok
    | ok n =>
      refine ⟨st, n, st', hrun, hreply, ?_⟩
      have hsent : Sent st (.ok n) := ⟨⟨n, rfl⟩, hquic⟩
      rcases (hresp 4 firstClient 3 0 [9] _ st' hreply).2.1 hsent (by decide) with hdone | ⟨hnone, _⟩
      · exact hdone
      · obtain ⟨p, hp, hcarried⟩ := hopen
        exact absurd hcarried (hnone p hp)

end RmwAxon.PendingRun
