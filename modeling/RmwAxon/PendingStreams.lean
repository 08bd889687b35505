import RmwAxon.ServiceEnvelope

namespace RmwAxon.PendingStreams

open ServiceEnvelope Function List Option
open AclSession (Gid SendError responseData sendResponseWithInfo)
open Acl (Glob)
open Registry (serviceResponseTopic)
open RingBuffer (Bytes)

structure PendingServiceResponse where
  clientGid : Gid
  requestSequence : Int
  stream : Nat
  deriving DecidableEq

/-- A session with the streams of its transport. A stream is closed once its
handler has timed out or vanished. The requests of the streams and the responses
sent on them are kept for the statements only. -/
structure State where
  session : AclSession.State
  pendingServiceResponses : Nat → Option (List PendingServiceResponse)
  closed : Nat → Bool
  requests : List Bytes
  completed : List (Nat × Bytes)

def start (session : AclSession.State) : State := ⟨session, fun _ => none, fun _ => false, [], []⟩

def correlation (reqData : Bytes) : Gid × Int :=
  ((decodeServiceEnvelope reqData).map fun e => (e.1.clientGid, e.1.requestSequence)).getD
    (Vector.replicate 16 0, 0)

def listed (st : State) (t : Nat) : List PendingServiceResponse := (st.pendingServiceResponses t).getD []

def setPending (st : State) (t : Nat) (senders : Option (List PendingServiceResponse)) : State :=
  { st with pendingServiceResponses := update st.pendingServiceResponses t senders }

/-- The bridge stores the stream of a request before it publishes the request. -/
def arrive (st : State) (serviceId : Nat) (reqData : Bytes) : State :=
  let t := serviceResponseTopic serviceId
  let c := correlation reqData
  { setPending st t (some (listed st t ++ [⟨c.1, c.2, st.requests.length⟩])) with
    requests := st.requests ++ [reqData] }

def addressed (gid : Gid) : Bool := gid.toList.any (· ≠ 0)

def openStreams (st : State) (t : Nat) : List PendingServiceResponse :=
  (listed st t).filter fun p => !st.closed p.stream

def selected (senders : List PendingServiceResponse) (gid : Gid) (seq : Int) : Option Nat :=
  if addressed gid then senders.findIdx? fun p => p.clientGid = gid ∧ p.requestSequence = seq
  else if senders.isEmpty then none
  else some 0

def tryCompletePendingResponse (st : State) (t : Nat) (gid : Gid) (seq : Int) (data : Bytes) : Bool × State :=
  match st.pendingServiceResponses t with
  | none => (false, st)
  | some _ =>
    let senders := openStreams st t
    match (selected senders gid seq).bind fun i => senders[i]?.map (i, ·) with
    | some (i, pending) =>
      (true, { setPending st t (some (senders.eraseIdx i)) with
        completed := st.completed ++ [(pending.stream, data)] })
    | none => (false, setPending st t (some senders))

def respond (glob : Glob) (st : State) (serviceId : Nat) (gid : Gid) (seq : Int) (now : Nat) (data : Bytes) :
    Except SendError Nat × State :=
  match sendResponseWithInfo glob st.session serviceId gid seq now data with
  | (.error e, s) => (.error e, { st with session := s })
  | (.ok n, s) =>
    (.ok n, if st.session.world.session.quicTransport then
        (tryCompletePendingResponse { st with session := s } (serviceResponseTopic serviceId) gid seq
          (responseData gid seq data)).2
      else { st with session := s })

def release (st : State) (serviceId : Nat) : State :=
  if st.session.records.serviceServerCounts serviceId = none ∨
      st.session.world.session.quicTransport = false then st
  else if (st.session.records.serviceServerCounts serviceId).any (1 < ·) then st
  else setPending st (serviceResponseTopic serviceId) none

inductive Event
  | arrive (serviceId : Nat) (reqData : Bytes)
  | close (stream : Nat)
  | session (e : AclSession.Event)

def step (glob : Glob) (channelOf : Nat → Nat) (st : State) : Event → Option State
  | .arrive serviceId reqData => some (arrive st serviceId reqData)
  | .close stream => some { st with closed := update st.closed stream true }
  | .session (.response serviceId gid seq now data) => some (respond glob st serviceId gid seq now data).2
  | .session (.destroy (.server serviceId)) =>
    (AclSession.step glob channelOf st.session (.destroy (.server serviceId))).map fun s =>
      { release st serviceId with session := s }
  | .session e => (AclSession.step glob channelOf st.session e).map fun s => { st with session := s }

variable {glob : Glob} {channelOf : Nat → Nat} {st st' : State} {t : Nat} {gid : Gid} {seq : Int}
  {data : Bytes}

theorem listed_setPending (st : State) (t u : Nat) (senders : Option (List PendingServiceResponse)) :
    listed (setPending st t senders) u = if u = t then senders.getD [] else listed st u := by
  simp only [listed, setPending, update_apply]
  split_ifs <;> rfl

def Fits (gid : Gid) (seq : Int) (earlier : List PendingServiceResponse)
    (p : PendingServiceResponse) : Prop :=
  (addressed gid = true → p.clientGid = gid ∧ p.requestSequence = seq) ∧
    (addressed gid = false → earlier = [])

theorem selected_cases (senders : List PendingServiceResponse) (gid : Gid) (seq : Int) :
    (∃ i earlier p later, (selected senders gid seq).bind (fun i => senders[i]?.map (i, ·)) = some (i, p) ∧
        senders = earlier ++ p :: later ∧ senders.eraseIdx i = earlier ++ later ∧ Fits gid seq earlier p) ∨
      (selected senders gid seq).bind (fun i => senders[i]?.map (i, ·)) = none ∧
        (addressed gid = true → ∀ p ∈ senders, ¬ (p.clientGid = gid ∧ p.requestSequence = seq)) ∧
        (addressed gid = false → senders = []) := by
  rw [selected]
  cases ha : addressed gid with
  | true =>
    cases hfind : senders.findIdx? fun p => p.clientGid = gid ∧ p.requestSequence = seq with
    | none =>
      refine .inr ⟨rfl, fun _ p hp hmatch => ?_, fun h => by cases h⟩
      have := findIdx?_eq_none_iff.mp hfind p hp
      simp [hmatch] at this
    | some i =>
      obtain ⟨hlt, hp, _⟩ := findIdx?_eq_some_iff_getElem.mp hfind
      refine .inl ⟨i, senders.take i, senders[i], senders.drop (i + 1), ?_, ?_, ?_, ?_, ?_⟩
      · simp [getElem?_eq_getElem hlt]
      · simp
      · exact eraseIdx_eq_take_drop_succ ..
      · exact fun _ => of_decide_eq_true hp
      · intro h
        rw [ha] at h
        cases h
  | false =>
    cases senders with
    | nil => exact .inr ⟨rfl, fun _ _ hp => absurd hp not_mem_nil, fun _ => rfl⟩
    | cons p later =>
      refine .inl ⟨0, [], p, later, rfl, rfl, rfl, ?_, fun _ => rfl⟩
      intro h
      rw [ha] at h
      cases h

structure Completes (st st' : State) (t : Nat) (earlier : List PendingServiceResponse)
    (p : PendingServiceResponse) (later : List PendingServiceResponse) (data : Bytes) : Prop where
  opened : openStreams st t = earlier ++ p :: later
  rest : listed st' t = earlier ++ later
  others : ∀ u, u ≠ t → listed st' u = listed st u
  completed : st'.completed = st.completed ++ [(p.stream, data)]

structure CompletesNone (st st' : State) (t : Nat) : Prop where
  rest : listed st' t = openStreams st t
  others : ∀ u, u ≠ t → listed st' u = listed st u
  completed : st'.completed = st.completed

theorem tryComplete_cases (st : State) (t : Nat) (gid : Gid) (seq : Int) (data : Bytes) :
    (∃ earlier p later, Completes st (tryCompletePendingResponse st t gid seq data).2 t earlier p later data ∧
        Fits gid seq earlier p) ∨
      CompletesNone st (tryCompletePendingResponse st t gid seq data).2 t ∧
        (addressed gid = true → ∀ p ∈ openStreams st t, ¬ (p.clientGid = gid ∧ p.requestSequence = seq)) ∧
        (addressed gid = false → openStreams st t = []) := by
  cases hpending : st.pendingServiceResponses t with
  | none =>
    have hlisted : listed st t = [] := by rw [listed, hpending]; rfl
    have hopen : openStreams st t = [] := by rw [openStreams, hlisted]; rfl
    have hsame : (tryCompletePendingResponse st t gid seq data).2 = st := by
      rw [tryCompletePendingResponse, hpending]
    rw [hsame]
    refine .inr ⟨⟨hlisted.trans hopen.symm, fun _ _ => rfl, rfl⟩, ?_, fun _ => hopen⟩
    intro _ p hp
    rw [hopen] at hp
    cases hp
  | some senders =>
    have hothers : ∀ senders' : Option (List PendingServiceResponse), ∀ u, u ≠ t →
        listed (setPending st t senders') u = listed st u :=
      fun senders' u hu => by rw [listed_setPending, if_neg hu]
    have hrest : ∀ senders' : List PendingServiceResponse,
        listed (setPending st t (some senders')) t = senders' :=
      fun senders' => by rw [listed_setPending, if_pos rfl]; rfl
    rcases selected_cases (openStreams st t) gid seq with
      ⟨i, earlier, p, later, hsel, hopen, herase, hfits⟩ | ⟨hsel, hnone, hempty⟩
    · refine .inl ⟨earlier, p, later, ?_, hfits⟩
      simp only [tryCompletePendingResponse, hpending, hsel, herase]
      exact ⟨hopen, hrest _, hothers _, rfl⟩
    · refine .inr ⟨?_, hnone, hempty⟩
      simp only [tryCompletePendingResponse, hpending, hsel]
      exact ⟨hrest _, hothers _, rfl⟩

section Respond

variable {serviceId now : Nat} {reply : Except SendError Nat}

def Sent (st : State) (reply : Except SendError Nat) : Prop :=
  (∃ n, reply = .ok n) ∧ st.session.world.session.quicTransport = true

variable (h : respond glob st serviceId gid seq now data = (reply, st'))
include h

theorem respond_requests : st'.requests = st.requests := by
  rw [respond] at h
  split at h
  · cases h
    rfl
  cases h
  split_ifs
  · simp only [tryCompletePendingResponse]
    split
    · rfl
    · split <;> rfl
  · rfl

theorem respond_unsent (hnot : ¬ Sent st reply) : listed st' = listed st ∧ st'.completed = st.completed := by
  rw [respond] at h
  split at h
  · cases h
    exact ⟨rfl, rfl⟩
  cases h
  have hquic : ¬ st.session.world.session.quicTransport = true := fun hquic => hnot ⟨⟨_, rfl⟩, hquic⟩
  rw [if_neg hquic]
  exact ⟨rfl, rfl⟩

theorem respond_sent (hsent : Sent st reply) :
    (∃ earlier p later, Completes st st' (serviceResponseTopic serviceId) earlier p later
        (responseData gid seq data) ∧ Fits gid seq earlier p) ∨
      CompletesNone st st' (serviceResponseTopic serviceId) ∧
        (addressed gid = true → ∀ p ∈ openStreams st (serviceResponseTopic serviceId),
          ¬ (p.clientGid = gid ∧ p.requestSequence = seq)) ∧
        (addressed gid = false → openStreams st (serviceResponseTopic serviceId) = []) := by
  obtain ⟨⟨n, rfl⟩, hquic⟩ := hsent
  rw [respond] at h
  split at h
  · cases h
  next s _ =>
    cases h
    rw [if_pos hquic]
    rcases tryComplete_cases { st with session := s } (serviceResponseTopic serviceId) gid seq
      (responseData gid seq data) with ⟨earlier, p, later, hc, hfits⟩ | ⟨hc, hrest⟩
    · exact .inl ⟨earlier, p, later, ⟨hc.opened, hc.rest, hc.others, hc.completed⟩, hfits⟩
    · exact .inr ⟨⟨hc.rest, hc.others, hc.completed⟩, hrest⟩

end Respond

theorem release_sublist (st : State) (serviceId u : Nat) :
    (listed (release st serviceId) u).Sublist (listed st u) := by
  rw [release]
  split_ifs
  · exact List.Sublist.refl _
  · exact List.Sublist.refl _
  rw [listed_setPending]
  split_ifs
  · exact nil_sublist _
  · exact List.Sublist.refl _

theorem step_cases {e : Event} (hs : step glob channelOf st e = some st') :
    (∃ serviceId reqData, st' = arrive st serviceId reqData) ∨
      (∃ serviceId gid seq now data, e = .session (.response serviceId gid seq now data) ∧
        st' = (respond glob st serviceId gid seq now data).2) ∨
      (∀ u, (listed st' u).Sublist (listed st u)) ∧ st'.completed = st.completed ∧
        st'.requests = st.requests := by
  cases e with
  | arrive serviceId reqData =>
    cases hs
    exact .inl ⟨serviceId, reqData, rfl⟩
  | close stream =>
    cases hs
    exact .inr (.inr ⟨fun _ => List.Sublist.refl _, rfl, rfl⟩)
  | session e =>
    cases e with
    | response serviceId gid seq now data =>
      cases hs
      exact .inr (.inl ⟨serviceId, gid, seq, now, data, rfl, rfl⟩)
    | destroy endpoint =>
      cases endpoint with
      | server serviceId =>
        rw [step, map_eq_some_iff] at hs
        obtain ⟨s, _, rfl⟩ := hs
        exact .inr (.inr ⟨release_sublist st serviceId, by rw [release]; split_ifs <;> exact ⟨rfl, rfl⟩⟩)
      | publisher | subscription | client =>
        simp only [step, map_eq_some_iff] at hs
        obtain ⟨s, _, rfl⟩ := hs
        exact .inr (.inr ⟨fun _ => List.Sublist.refl _, rfl, rfl⟩)
    | addAcl | create | publish | borrow | store | commit | request | deliver | elsewhere =>
      simp only [step, map_eq_some_iff] at hs
      obtain ⟨s, _, rfl⟩ := hs
      exact .inr (.inr ⟨fun _ => List.Sublist.refl _, rfl, rfl⟩)

end RmwAxon.PendingStreams
