import RmwAxon.MergeRounds
import RmwAxon.SyncBounds

namespace RmwAxon.SyncHandler

open MatchPass MergeRounds NodeTable PeerSync SyncBounds SyncIndex SyncWire List

variable {n : Nat}

structure Shm (n : Nat) where
  nodeTable : Table n
  generation : Nat

/-- What a call has changed stays changed when it ends early. -/
abbrev Call (n : Nat) := ExceptT Fault (StateM (Shm n))

def mergeRemoteNodesShm (now daemonOrigin : Nat) (nodes : List PeerNodeInfo) : Call n Unit := do
  if daemonOrigin = 0 then return
  modify fun shm =>
    { nodeTable := mergeRemoteNodes daemonOrigin now nodes shm.nodeTable
      generation := (shm.generation + 1) % 2 ^ 64 }

def mergePushed (now : Nat) : Option (Nat × List PeerNodeInfo) → Call n Unit
  | some (daemonId, nodes) => mergeRemoteNodesShm now daemonId nodes
  | none => pure ()

/-- The counts of a slot are used as ranges of its arrays. -/
def nodeInfo (e : NodeTableEntry) : Except Fault PeerNodeInfo :=
  if e.publishedTopics.length ≤ maxTopicsPerNode ∧ e.subscribedTopics.length ≤ maxTopicsPerNode then
    .ok (nodeEntryToInfo e (textOr e.nodeName []) (textOr e.nodeNamespace [47]))
  else .error .outOfRange

def isLocal (alive : Nat → Nat → Bool) (domainId : Nat) (e : NodeTableEntry) : Bool :=
  decide (e.state = .active ∧ e.domainId = domainId ∧ e.daemonOrigin = 0 ∧
    ¬ (0 < e.pid ∧ alive e.pid e.procStarttime = false))

def collectNodes (alive : Nat → Nat → Bool) (table : Table n) (domainId : Nat) :
    Except Fault (List PeerNodeInfo) :=
  ((List.finRange n).filter fun k => isLocal alive domainId (table k)).mapM fun k => nodeInfo (table k)

def handleSyncPayloadShm (alive : Nat → Nat → Bool) (now : Nat) (data : Bytes) : Call n Bytes := do
  if data = [] then return []
  let kind ← byteAt data 0
  if kind = msgSyncRequest then
    let reqDomain ← decodeSyncRequestAt data
    let pushed ← decodeSyncRequestPushAt data
    mergePushed now pushed
    let shm ← get
    let nodes ← collectNodes alive shm.nodeTable reqDomain
    return encodeSyncResponse reqDomain nodes
  else if kind = msgPing then return encodePong
  else throw (.error "unsupported daemon sync message")

theorem exists_of_mapM_error {α β ε : Type} {f : α → Except ε β} {xs : List α} {e : ε}
    (h : xs.mapM f = .error e) : ∃ x ∈ xs, f x = .error e := by
  induction xs with
  | nil => cases h
  | cons x xs ih =>
    rw [mapM_cons] at h
    cases hx : f x with
    | error e' =>
      rw [hx] at h
      cases h
      exact ⟨x, mem_cons_self, hx⟩
    | ok b =>
      cases hxs : xs.mapM f with
      | error e' =>
        rw [hx, hxs] at h
        cases h
        obtain ⟨y, hy, hfy⟩ := ih hxs
        exact ⟨y, mem_cons_of_mem x hy, hfy⟩
      | ok bs =>
        rw [hx, hxs] at h
        cases h

def afterPush (now : Nat) (pushed : Option (Nat × List PeerNodeInfo)) (shm : Shm n) : Shm n :=
  pushed.elim shm fun p =>
    if p.1 = 0 then shm
    else ⟨mergeRemoteNodes p.1 now p.2 shm.nodeTable, (shm.generation + 1) % 2 ^ 64⟩

section Run

variable {alive : Nat → Nat → Bool} {now : Nat} {data : Bytes} {shm : Shm n}

theorem mergePushed_run (pushed : Option (Nat × List PeerNodeInfo)) :
    (mergePushed now pushed).run.run shm = (.ok (), afterPush now pushed shm) := by
  cases pushed with
  | none => rfl
  | some p =>
    by_cases h : p.1 = 0
    · simp [mergePushed, mergeRemoteNodesShm, afterPush, h]
      rfl
    · simp [mergePushed, mergeRemoteNodesShm, afterPush, h]
      rfl

theorem bind_ok {α β : Type} {c : Call n α} {f : α → Call n β} {a : α} {shm' : Shm n}
    (h : c.run.run shm = (.ok a, shm')) : (c >>= f).run.run shm = (f a).run.run shm' := by
  rw [ExceptT.run_bind, StateT.run_bind, h]
  rfl

theorem bind_error {α β : Type} {c : Call n α} {f : α → Call n β} {e : Fault} {shm' : Shm n}
    (h : c.run.run shm = (.error e, shm')) : (c >>= f).run.run shm = (.error e, shm') := by
  rw [ExceptT.run_bind, StateT.run_bind, h]
  rfl

theorem lift_run {α : Type} {x : Except Fault α} {y : Except Fault α} (h : x = y) :
    (liftM x : Call n α).run.run shm = (y, shm) := by
  rw [h]
  rfl

section Request

variable (hkind : byteAt data 0 = .ok msgSyncRequest)

include hkind

theorem handle_request : (handleSyncPayloadShm alive now data).run.run shm = (do
      let reqDomain ← decodeSyncRequestAt data
      let pushed ← decodeSyncRequestPushAt data
      mergePushed now pushed
      let shm ← get
      let nodes ← collectNodes alive shm.nodeTable reqDomain
      return encodeSyncResponse reqDomain nodes : Call n Bytes).run.run shm := by
  have hne : data ≠ [] := by
    intro h
    rw [h] at hkind
    cases hkind
  rw [handleSyncPayloadShm, if_neg hne]
  refine (bind_ok (lift_run hkind)).trans ?_
  rw [if_pos rfl]

variable {reqDomain : Nat} (hd : decodeSyncRequestAt data = .ok reqDomain)

include hd

theorem handle_good_request {pushed : Option (Nat × List PeerNodeInfo)}
    (hp : decodeSyncRequestPushAt data = .ok pushed) :
    (handleSyncPayloadShm alive now data).run.run shm =
      ((collectNodes alive (afterPush now pushed shm).nodeTable reqDomain).map (encodeSyncResponse reqDomain),
        afterPush now pushed shm) := by
  rw [handle_request hkind]
  refine (bind_ok (lift_run hd)).trans ?_
  refine (bind_ok (lift_run hp)).trans ?_
  refine (bind_ok (mergePushed_run pushed)).trans ?_
  refine (bind_ok (a := afterPush now pushed shm) rfl).trans ?_
  cases collectNodes alive (afterPush now pushed shm).nodeTable reqDomain with
  | error e => exact bind_error (lift_run rfl)
  | ok nodes => exact bind_ok (lift_run rfl)

end Request

/-- An error of the handler is one of its decoders: nothing after them can fail, and
nothing before them has changed the memory. -/
theorem failed_sync_changes_nothing (alive : Nat → Nat → Bool) (now : Nat) (shm : Shm n) (data : Bytes) :
    (decodeSyncRequestAt data ≠ .error .outOfRange ∧ syncRequestDaemonIdAt data ≠ .error .outOfRange ∧
      decodeSyncRequestPushAt data ≠ .error .outOfRange ∧ decodeSyncResponseAt data ≠ .error .outOfRange) ∧
    ∀ message shm', (handleSyncPayloadShm alive now data).run.run shm = (.error (.error message), shm') →
      shm' = shm := by
  refine ⟨decoders_stay_inside data, fun message shm' h => ?_⟩
  cases hdata : data with
  | nil =>
    rw [hdata] at h
    cases h
  | cons kind rest =>
    have hbyte : byteAt data 0 = .ok kind := by rw [hdata]; rfl
    by_cases hreq : kind = msgSyncRequest
    · have hkind : byteAt data 0 = .ok msgSyncRequest := hreq ▸ hbyte
      cases hd : decodeSyncRequestAt data with
      | error e =>
        rw [handle_request hkind, bind_error (lift_run hd)] at h
        exact (Prod.mk.inj h).2.symm
      | ok reqDomain =>
        cases hp : decodeSyncRequestPushAt data with
        | error e =>
          rw [handle_request hkind, (bind_ok (lift_run hd)).trans (bind_error (lift_run hp))] at h
          exact (Prod.mk.inj h).2.symm
        | ok pushed =>
          rw [handle_good_request hkind hd hp] at h
          obtain ⟨herr, -⟩ := Prod.mk.inj h
          cases hc : collectNodes alive (afterPush now pushed shm).nodeTable reqDomain with
          | error e =>
            obtain ⟨k, -, hk⟩ := exists_of_mapM_error hc
            rw [nodeInfo] at hk
            split_ifs at hk
            cases hk
            rw [hc] at herr
            cases herr
          | ok nodes =>
            rw [hc] at herr
            cases herr
    · rw [handleSyncPayloadShm, if_neg (by simp [hdata]), bind_ok (lift_run hbyte), if_neg hreq] at h
      by_cases hping : kind = msgPing
      · rw [if_pos hping] at h
        cases h
      · rw [if_neg hping] at h
        exact (Prod.mk.inj h).2.symm

end Run

def cutPush : Bytes := (encodeSyncRequestWithNodes 3 9 [SyncCodec.talker]).dropLast

/-- A table with a local node of domain 3. -/
def oneLocal : Shm 2 :=
  ⟨fun k => if k = 0 then { fillEntry 0 5 SyncCodec.talker zeroEntry with nodeId := 1, pid := 71 }
    else zeroEntry, 4⟩

theorem cut_push_changes_nothing :
    ∃ message shm', (handleSyncPayloadShm (fun _ _ => true) 7 cutPush).run.run oneLocal =
      (.error (.error message), shm') ∧ shm' = oneLocal := by
  have hall := (failed_sync_changes_nothing (fun _ _ => true) 7 oneLocal cutPush).2
  have hrun : ((handleSyncPayloadShm (fun _ _ => true) 7 cutPush).run.run oneLocal).1 =
      .error (.error "truncated addrs") := by
    decide +kernel
  generalize (handleSyncPayloadShm (fun _ _ => true) 7 cutPush).run.run oneLocal = r at hall hrun
  have hr : r = (.error (.error "truncated addrs"), r.2) := Prod.ext hrun rfl
  exact ⟨"truncated addrs", r.2, hr, hall "truncated addrs" r.2 hr⟩

def InRange (alive : Nat → Nat → Bool) (domainId : Nat) (table : Table n) : Prop :=
  ∀ k, isLocal alive domainId (table k) = true →
    (table k).publishedTopics.length ≤ maxTopicsPerNode ∧ (table k).subscribedTopics.length ≤ maxTopicsPerNode

/-- A slot that is local after the rounds has not been written by them. -/
theorem rounds_local {origin now : Nat} (horigin : origin ≠ 0) {nodes : List PeerNodeInfo} {t u : Table n}
    (h : Rounds origin now nodes t u) {k : Fin n} (hk : (u k).daemonOrigin = 0) : SameNode (t k) (u k) := by
  induction h with
  | nil => exact .refl _
  | placed idx hplaced _ ih =>
    have hsame := ih hk
    obtain ⟨r, e, start, hr, rfl, _⟩ := hplaced
    by_cases hidx : k = idx
    · have horig := hsame.daemonOrigin.symm.trans hk
      rw [hidx, Function.update_self] at horig
      exact absurd horig horigin
    · rw [Function.update_of_ne hidx] at hsame
      exact (hr k).same.trans hsame
  | passed _ _ ih => exact ih hk

theorem mergeRemoteNodes_inRange {alive : Nat → Nat → Bool} {domainId : Nat} {table : Table n}
    (hr : InRange alive domainId table) (origin now : Nat) (nodes : List PeerNodeInfo) :
    InRange alive domainId (mergeRemoteNodes origin now nodes table) := by
  by_cases horigin : origin = 0
  · simpa [mergeRemoteNodes, horigin] using hr
  have hmerged : Merged _ origin now nodes table _ := mergeRemoteNodes_merged horigin nodes table
  obtain ⟨t, hthin, hrounds⟩ := hmerged
  intro k hk
  have hsame := rounds_local horigin hrounds (of_decide_eq_true hk).2.2.1
  rcases hthin k with ⟨_, e, ⟨port, start, rfl⟩, hpruned⟩ | ⟨_, hpruned⟩
  · -- a cleared slot is empty, not local
    have hstate := (hpruned.same.trans hsame).state.symm.trans (of_decide_eq_true hk).1
    cases hstate
  · have hnode := hpruned.same.trans hsame
    rw [hnode.field (isLocal alive domainId) fun _ => rfl] at hk
    rw [hnode.field (·.publishedTopics) fun _ => rfl, hnode.field (·.subscribedTopics) fun _ => rfl]
    exact hr k hk

theorem mapM_ok {α β ε : Type} {f : α → Except ε β} {g : α → β} {xs : List α}
    (h : ∀ x ∈ xs, f x = .ok (g x)) : xs.mapM f = .ok (xs.map g) := by
  induction xs with
  | nil => rfl
  | cons x xs ih =>
    rw [mapM_cons, h x mem_cons_self, ih fun y hy => h y (mem_cons_of_mem x hy)]
    rfl

theorem collectNodes_eq {alive : Nat → Nat → Bool} {domainId : Nat} {table : Table n}
    (hr : InRange alive domainId table) :
    collectNodes alive table domainId = .ok (collectDomainNodes alive table domainId) := by
  have hslot : ∀ k ∈ (finRange n).filter fun k => isLocal alive domainId (table k),
      nodeInfo (table k) = .ok (nodeEntryToInfo (table k) (textOr (table k).nodeName [])
        (textOr (table k).nodeNamespace [47])) :=
    fun k hk => if_pos (hr k (mem_filter.mp hk).2)
  rw [collectNodes, mapM_ok hslot, collectDomainNodes, ← filterMap_eq_map, filterMap_filter]
  congr 1
  refine filterMap_congr fun k _ => ?_
  by_cases h : isLocal alive domainId (table k) = true
  · have hkeep := of_decide_eq_true h
    rw [if_pos h, if_neg (by tauto)]
    rfl
  · have hskip := of_decide_eq_false (Bool.eq_false_iff.mpr h)
    rw [if_neg h, if_pos (by tauto)]

theorem afterPush_nodeTable (now : Nat) (pushed : Option (Nat × List PeerNodeInfo)) (shm : Shm n) :
    (afterPush now pushed shm).nodeTable =
      pushed.elim shm.nodeTable fun p => mergeRemoteNodes p.1 now p.2 shm.nodeTable := by
  cases pushed with
  | none => rfl
  | some p =>
    by_cases h : p.1 = 0
    · simp [afterPush, mergeRemoteNodes, h]
    · simp [afterPush, h]

/-- A request that is served has the answer and the table that `SyncWire` gives. -/
theorem handleSyncPayloadShm_eq {alive : Nat → Nat → Bool} {now reqDomain : Nat} {rest : Bytes} {shm : Shm n}
    {pushed : Option (Nat × List PeerNodeInfo)}
    (hd : decodeSyncRequest (msgSyncRequest :: rest) = .ok reqDomain)
    (hp : decodeSyncRequestPush (msgSyncRequest :: rest) = .ok pushed)
    (hr : InRange alive reqDomain shm.nodeTable) :
    ∃ out, (handleSyncPayloadShm alive now (msgSyncRequest :: rest)).run.run shm =
        (.ok out, afterPush now pushed shm) ∧
      handleSyncPayload alive now shm.nodeTable (msgSyncRequest :: rest) =
        .ok (out, (afterPush now pushed shm).nodeTable) := by
  have hd' : decodeSyncRequestAt (msgSyncRequest :: rest) = .ok reqDomain := by
    rw [decodeSyncRequestAt_eq, hd]
    rfl
  have hp' : decodeSyncRequestPushAt (msgSyncRequest :: rest) = .ok pushed := by
    rw [decodeSyncRequestPushAt_eq, hp]
    rfl
  have hr' : InRange alive reqDomain (afterPush now pushed shm).nodeTable := by
    rw [afterPush_nodeTable]
    cases pushed with
    | none => exact hr
    | some p => exact mergeRemoteNodes_inRange hr p.1 now p.2
  refine ⟨encodeSyncResponse reqDomain
    (collectDomainNodes alive (afterPush now pushed shm).nodeTable reqDomain),
    ?_, ?_⟩
  · rw [handle_good_request rfl hd' hp', collectNodes_eq hr']
    rfl
  · rw [handleSyncPayload, if_pos rfl, hd, hp, afterPush_nodeTable]
    rfl

theorem pushed_request_served : ∃ out, (handleSyncPayloadShm (fun _ _ => true) 7
    (encodeSyncRequestWithNodes 3 9 [SyncCodec.talker])).run.run oneLocal =
      (.ok out, afterPush 7 (some (9, [SyncCodec.talker])) oneLocal) :=
  (@handleSyncPayloadShm_eq 2 (fun _ _ => true) 7 3 (encodeSyncRequestWithNodes 3 9 [SyncCodec.talker]).tail
    oneLocal (some (9, [SyncCodec.talker])) (by decide +kernel) (by decide +kernel)
    (by unfold InRange; decide +kernel)).imp fun _ h => h.1

end RmwAxon.SyncHandler
