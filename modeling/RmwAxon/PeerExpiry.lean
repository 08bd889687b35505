import RmwAxon.PeerLiveness

namespace RmwAxon.PeerExpiry

open Function Option
open Departure DomainSync Loops MatchKeys Matching MatchPass MergeRounds NodeTable PeerLiveness Transition

variable {n : Nat} {table table' : Table n} {peer : Peer} {st st' : State n}

structure Inv (peer : Peer) (st : State n) : Prop where
  ids : DistinctIds st.table
  stamped : StampedAt peer.daemonId st.lastSync st.table

variable {e : NodeTableEntry} {now seen : Nat} {alive : Nat → Nat → Bool}

theorem isOccupied_congr {e' : NodeTableEntry} (h : SameNode e e') : isOccupied e' = isOccupied e := by
  rw [isOccupied, isOccupied, h.state]

theorem processTopicUpdates_inv (hd : DistinctIds table) (h : StampedAt peer.daemonId now table)
    (hp : processTopicUpdates table = some table') :
    DistinctIds table' ∧ StampedAt peer.daemonId now table' := by
  have hsame := processTopicUpdates_sameNodes hp
  exact ⟨hd.sameNodes hsame, h.of_fewer fun k _ => hsame k⟩

theorem processPendingRegistrations_inv (hd : DistinctIds table)
    (h : StampedAt peer.daemonId now table) (hp : processPendingRegistrations table = some table') :
    DistinctIds table' ∧ StampedAt peer.daemonId now table' := by
  have hseats := processPendingRegistrations_seats hp
  have hocc : ∀ k, isOccupied (table' k) = isOccupied (table k) := by
    intro k
    rw [isOccupied_congr (hseats k)]
    by_cases hpend : (table k).state = .pending
    · simp [isOccupied, seat, hpend]
    · rw [seat_of_not_pending hpend]
  refine ⟨hd.of_fewer fun k hk => ⟨hocc k ▸ hk, (hseats k).nodeId⟩, fun k hk ho => ?_⟩
  have hactive := h k (hocc k ▸ hk) ((hseats k).daemonOrigin ▸ ho)
  have hsame : SameNode (table k) (table' k) := by
    have hseat := hseats k
    rwa [seat_of_not_pending (by rw [hactive.1]; decide)] at hseat
  exact ⟨hsame.state.trans hactive.1, (hsame.field (·.pid) fun _ => rfl).trans hactive.2.1,
    (hsame.field (·.lastSeenSecs) fun _ => rfl).trans hactive.2.2⟩

theorem departed_keeps (hpeer : peer.daemonId ≠ 0) (h : StampedAt peer.daemonId seen table)
    (hage : now - seen ≤ 30) {k : Fin n} (hocc : isOccupied (table k) = true)
    (horigin : (table k).daemonOrigin = peer.daemonId) :
    SameNode (table k) (processDepartedNodes alive now table k) := by
  obtain ⟨hstate, hpid, hseen⟩ := h k hocc horigin
  obtain ⟨_, hpruned⟩ := processDepartedNodes_pruned alive now table k
  have hremote : (table k).daemonOrigin ≠ 0 := horigin ▸ hpeer
  have hyoung : ¬ (0 < (table k).lastSeenSecs ∧ 30 < now - (table k).lastSeenSecs) :=
    fun hold => Nat.not_lt.mpr hage (hseen ▸ hold.2)
  have hfirst : afterFirstTest alive now (table k) = table k := by
    simp [afterFirstTest, hstate, hpid, hremote, hyoung]
  have hsecond : afterSecondTest now (table k) = table k := by simp [afterSecondTest, hremote]
  rw [testDeparted, hfirst, hsecond] at hpruned
  exact hpruned.same

theorem departed_inv (hpeer : peer.daemonId ≠ 0) (hd : DistinctIds table)
    (h : StampedAt peer.daemonId seen table) (hage : now - seen ≤ 30) :
    DistinctIds (processDepartedNodes alive now table) ∧
      StampedAt peer.daemonId seen (processDepartedNodes alive now table) := by
  have hcases : ∀ k, isOccupied (processDepartedNodes alive now table k) = true →
      ∃ t, SameNode { table k with lastSeenSecs := t } (processDepartedNodes alive now table k) := by
    intro k hk
    obtain ⟨_, ⟨e, hblank, hpruned⟩ | ⟨t, hpruned⟩⟩ := DaemonRun.processDepartedNodes_cases table k
    · rw [hpruned.isOccupied, hblank.isOccupied] at hk
      cases hk
    · exact ⟨t, hpruned.same⟩
  have hocc : ∀ k, isOccupied (processDepartedNodes alive now table k) = true →
      isOccupied (table k) = true := by
    intro k hk
    obtain ⟨t, hsame⟩ := hcases k hk
    rw [isOccupied_congr hsame] at hk
    exact hk
  refine ⟨hd.of_fewer fun k hk => ⟨hocc k hk, ?_⟩, fun k hk ho => ?_⟩
  · obtain ⟨t, hsame⟩ := hcases k hk
    exact hsame.nodeId
  have ho' : (table k).daemonOrigin = peer.daemonId := by
    obtain ⟨t, hsame⟩ := hcases k hk
    exact hsame.daemonOrigin.symm.trans ho
  obtain ⟨hstate, hpid, hseen⟩ := h k (hocc k hk) ho'
  have hsame : SameNode (table k) (processDepartedNodes alive now table k) :=
    departed_keeps hpeer h hage (hocc k hk) ho'
  exact ⟨hsame.state.trans hstate, (hsame.field (·.pid) fun _ => rfl).trans hpid,
    (hsame.field (·.lastSeenSecs) fun _ => rfl).trans hseen⟩

/-- A session writes into a slot that is not the peer's: an empty one that it
registers under a new number, or the one that it holds. -/
def Apart (peer : Peer) (table : Table n) (k : Fin n) (w : DaemonRun.Write) : Prop :=
  (table k).daemonOrigin ≠ peer.daemonId ∧
    match w with
    | .register r => ∀ j, isOccupied (table j) = true → (table j).nodeId ≠ r.nodeId
    | _ => isOccupied (table k) = true

instance (peer : Peer) (table : Table n) (k : Fin n) (w : DaemonRun.Write) :
    Decidable (Apart peer table k w) := by
  unfold Apart
  split <;> infer_instance

theorem session_inv {k : Fin n} {w : DaemonRun.Write} (hd : DistinctIds table)
    (h : StampedAt peer.daemonId now table) (hapart : Apart peer table k w)
    (hw : DaemonRun.write (table k) w = some e) :
    DistinctIds (update table k e) ∧ StampedAt peer.daemonId now (update table k e) := by
  have hcases : e.daemonOrigin = (table k).daemonOrigin ∧
      ∀ j, isOccupied (table j) = true → (table j).nodeId = e.nodeId → j = k := by
    cases w with
    | register r =>
      simp only [DaemonRun.write] at hw
      split_ifs at hw
      cases hw
      exact ⟨rfl, fun j hj hid => absurd hid (hapart.2 j hj)⟩
    | advertisePublished t | advertiseSubscribed t | setNodeName name namespace_ | leave =>
      cases hw
      exact ⟨rfl, fun j hj hid => hd j k hj hapart.2 hid⟩
  refine ⟨hd.update hcases.2, fun j hj ho => ?_⟩
  rw [update_apply] at hj ho ⊢
  split_ifs at hj ho ⊢ with hjk
  · exact absurd (hcases.1.symm.trans ho) hapart.1
  · exact h j hj ho

theorem sweep_inv (ids : List Nat) (hd : DistinctIds table) (h : StampedAt peer.daemonId now table) :
    DistinctIds (ids.foldl removeStalePeer table) ∧
      StampedAt peer.daemonId now (ids.foldl removeStalePeer table) := by
  induction ids generalizing table with
  | nil => exact ⟨hd, h⟩
  | cons id ids ih =>
    refine ih (hd.thinned (removeStalePeer_thinned table id)) (h.of_fewer fun k hk => ?_)
    rcases removeStalePeer_thinned table id k with ⟨_, e, hblank, hpruned⟩ | ⟨_, hpruned⟩
    · rw [hpruned.isOccupied, hblank.isOccupied] at hk
      cases hk
    · exact hpruned.same

theorem syncDomains_inv (hn : n ≤ maxNodes) (hpeer : peer.daemonId ≠ 0) {domains : List Nat}
    (hd : DistinctIds table) (h : StampedAt peer.daemonId seen table)
    (hs : syncDomains peer now table domains = some table') :
    DistinctIds table' ∧ StampedAt peer.daemonId (if domains = [] then seen else now) table' := by
  induction domains generalizing table seen with
  | nil =>
    cases hs
    exact ⟨hd, h⟩
  | cons d domains ih =>
    obtain ⟨u, hu, hrest⟩ := foldlM_cons_eq_some.mp hs
    have hd' : DistinctIds (InlineMerge.inlineMerge peer.daemonId now (peer.graph d) table) :=
      hd.merged hn (inlineMerge_merged (peer.graph d) table)
    have hmerge : StampedAt peer.daemonId now (merge .requesting peer.daemonId now (peer.graph d) table) :=
      merge_stampedAt .requesting hn hpeer now hd fun hside => absurd hside (by decide)
    obtain ⟨hdu, hsu⟩ := processTopicUpdates_inv hd' hmerge hu
    obtain ⟨hd'', hs''⟩ := ih hdu hsu hrest
    refine ⟨hd'', ?_⟩
    rw [if_neg (List.cons_ne_nil d domains)]
    simpa using hs''

theorem handleHello_cases {x : Exchange} (h : handleHello peer x st = some st') :
    (∃ known, st' = { st with known := known }) ∨
      ∃ known domains table, syncDomains peer (secs st) st.table domains = some table ∧ st' = { st with
          table := table, known := known, lastSync := if domains = [] then st.lastSync else secs st } := by
  simp only [handleHello] at h
  split at h
  · exact .inl ⟨_, (some.inj h).symm⟩
  · obtain ⟨table, ht, h⟩ := bind_eq_some_iff.mp h
    exact .inr ⟨_, _, table, ht, (some.inj h).symm⟩

/-- The departure pass comes at most thirty seconds after the last merge of the
peer's graph, a graph that is pushed finds room, and the sessions keep apart from
the peer. -/
def timely (peer : Peer) (st : State n) : Event n → Prop
  | .session k w => Apart peer st.table k w
  | .departed _ => secs st - st.lastSync ≤ 30
  | .push domain => Room peer.daemonId (peer.graph domain) st.table
  | _ => True

instance (peer : Peer) (st : State n) (ev : Event n) : Decidable (timely peer st ev) := by
  unfold timely
  split <;> infer_instance

theorem step_inv (hn : n ≤ maxNodes) (hpeer : peer.daemonId ≠ 0) {ev : Event n} (h : Inv peer st)
    (hok : timely peer st ev) (hs : step peer st ev = some st') : Inv peer st' := by
  cases ev with
  | tick ms =>
    cases hs
    exact ⟨h.ids, h.stamped⟩
  | session k w =>
    obtain ⟨e, hw, rfl⟩ := map_eq_some_iff.mp hs
    obtain ⟨hd, hst⟩ := session_inv h.ids h.stamped hok hw
    exact ⟨hd, hst⟩
  | hello x =>
    rcases handleHello_cases hs with ⟨known, rfl⟩ | ⟨known, domains, t, ht, rfl⟩
    · exact ⟨h.ids, h.stamped⟩
    · obtain ⟨hd, hst⟩ := syncDomains_inv hn hpeer h.ids h.stamped ht
      exact ⟨hd, hst⟩
  | push domain =>
    cases hs
    exact ⟨h.ids.merged hn (mergeRemoteNodes_merged hpeer _ _),
      merge_stampedAt .receiving hn hpeer (secs st) h.ids fun _ => hok⟩
  | sweep =>
    cases hs
    obtain ⟨hd, hst⟩ := sweep_inv (stalePeers st.known st.clock) h.ids h.stamped
    exact ⟨hd, hst⟩
  | pendingRegistrations =>
    obtain ⟨t, ht, rfl⟩ := map_eq_some_iff.mp hs
    obtain ⟨hd, hst⟩ := processPendingRegistrations_inv h.ids h.stamped ht
    exact ⟨hd, hst⟩
  | topicUpdates =>
    obtain ⟨t, ht, rfl⟩ := map_eq_some_iff.mp hs
    obtain ⟨hd, hst⟩ := processTopicUpdates_inv h.ids h.stamped ht
    exact ⟨hd, hst⟩
  | departed alive =>
    cases hs
    obtain ⟨hd, hst⟩ := departed_inv hpeer h.ids h.stamped hok
    exact ⟨hd, hst⟩

structure Unacquainted (peer : Peer) (st : State n) : Prop where
  ids : DistinctIds st.table
  none : ∀ k, isOccupied (st.table k) = true → (st.table k).daemonOrigin ≠ peer.daemonId

/-- As long as the peer's graph is merged again every thirty seconds, the
departure pass takes none of its nodes. -/
theorem timely_run_expires_none (hn : n ≤ maxNodes) (hpeer : peer.daemonId ≠ 0) {start : State n}
    (hstart : Unacquainted peer start) (h : Reach (step peer) (timely peer) start st)
    {alive : Nat → Nat → Bool} (hok : timely peer st (.departed alive)) {k : Fin n}
    (hocc : isOccupied (st.table k) = true) (horigin : (st.table k).daemonOrigin = peer.daemonId) :
    SameNode (st.table k) (processDepartedNodes alive (secs st) st.table k) := by
  have hinv := h.invariant (I := Inv peer)
    ⟨hstart.ids, fun k hk ho => absurd ho (hstart.none k hk)⟩ fun _ _ _ => step_inv hn hpeer
  exact departed_keeps hpeer hinv.stamped hok hocc horigin

def localTalker : NodeTableEntry :=
  { zeroEntry with state := .active, pid := 71, nodeId := 1, lastSeenSecs := 1000 }

def aloneAt (clock : Nat) : State 2 := ⟨tableOf 2 [localTalker], [], clock, 0⟩

def steadyPeer : Peer := ⟨9, 44, 1, [0], fun d => if d = 0 then [remoteNode 5 0] else []⟩

theorem unacquainted_aloneAt : Unacquainted steadyPeer (aloneAt 1000000) := by
  refine ⟨?_, ?_⟩
  · unfold DistinctIds
    decide +kernel
  · decide +kernel

def heard : Event n := .hello ⟨true, []⟩

/-- A HELLO every ten seconds, and a graph pushed after twenty-five. -/
def refreshed : List (Event n) :=
  [heard, .tick 10000, heard, .departed everyProcess, .tick 10000, heard, .tick 5000, .push 0,
    .departed everyProcess, .tick 5000, heard, .tick 10000, heard, .departed everyProcess]

theorem refreshed_node_stays :
    ∃ (st : State 2) (k : Fin 2), Reach (step steadyPeer) (timely steadyPeer) (aloneAt 1000000) st ∧
      (st.table k).nodeId = 5 ∧ secs st = 1040 ∧
      SameNode (st.table k) (processDepartedNodes everyProcess (secs st) st.table k) := by
  have hrun : (guardedRun (step steadyPeer) (timely steadyPeer) refreshed (aloneAt 1000000)).any (fun st =>
      decide ((∃ k, isOccupied (st.table k) = true ∧ (st.table k).daemonOrigin = steadyPeer.daemonId ∧
        (st.table k).nodeId = 5) ∧ secs st = 1040 ∧
          timely steadyPeer st (.departed everyProcess))) = true := by
    decide +kernel
  obtain ⟨st, hst, ⟨k, hocc, horigin, hid⟩, hsecs, hok⟩ := exists_of_any hrun
  have hreach := reach_of_guardedRun hst
  exact ⟨st, k, hreach, hid, hsecs,
    timely_run_expires_none (by decide) (by decide) unacquainted_aloneAt hreach hok hocc horigin⟩

def steady (peer : Peer) (st : State n) : Event n → Prop
  | .tick ms => ∀ r ∈ st.known.lookup peer.daemonId, st.clock + ms ≤ r.lastHello + 10000
  | _ => True

instance (peer : Peer) (st : State n) (ev : Event n) : Decidable (steady peer st ev) := by
  unfold steady
  split <;> infer_instance

def onlyHeard : List (Event n) :=
  [heard, .tick 10000, heard, .tick 10000, heard, .tick 10000, heard, .tick 1000, heard]

/-- A peer that says every ten seconds that nothing is new is expired after
thirty. -/
theorem steady_peer_expired :
    ¬ ∀ (n : Nat) (peer : Peer) (start st : State n), peer.daemonId ≠ 0 → Unacquainted peer start →
      Reach (step peer) (steady peer) start st → ∀ alive k, isOccupied (st.table k) = true →
        (st.table k).daemonOrigin = peer.daemonId →
          isOccupied (processDepartedNodes alive (secs st) st.table k) = true := by
  intro hall
  have hrun : (guardedRun (step steadyPeer) (steady steadyPeer) onlyHeard (aloneAt 1000000)).any (fun st =>
      decide (∃ k, isOccupied (st.table k) = true ∧ (st.table k).daemonOrigin = steadyPeer.daemonId ∧
        isOccupied (processDepartedNodes everyProcess (secs st) st.table k) = false)) = true := by
    decide +kernel
  obtain ⟨st, hst, k, hocc, horigin, hgone⟩ := exists_of_any hrun
  have hkept := hall 2 steadyPeer (aloneAt 1000000) st (by decide) unacquainted_aloneAt
    (reach_of_guardedRun hst) everyProcess k hocc horigin
  rw [hgone] at hkept
  cases hkept

end RmwAxon.PeerExpiry
