import RmwAxon.Departure
import RmwAxon.MatchKeys
import RmwAxon.DomainSync
import Mathlib.Data.List.Sort

namespace RmwAxon.PeerLiveness

open DomainSync MatchKeys Matching MatchPass MergeRounds NodeTable Function
open PeerSync (PeerNodeInfo mergeRemoteNodes)
open InlineMerge (inlineMerge clearStale)

variable {n : Nat} {table table' : Table n}

/-- What the sync loop notes of a peer daemon. Times are in milliseconds. -/
structure PeerRecord where
  addr : Nat
  generation : Nat
  localDomains : List Nat
  lastHello : Nat
  deriving DecidableEq

abbrev KnownPeers := List (Nat × PeerRecord)

def removePeer (known : KnownPeers) (daemonId : Nat) : KnownPeers := known.filter (·.1 ≠ daemonId)

def insertPeer (known : KnownPeers) (daemonId : Nat) (r : PeerRecord) : KnownPeers :=
  (daemonId, r) :: removePeer known daemonId

/-- Whether the peer is new, has a new generation, or is to be looked at again
because the local domains have changed. -/
def recordPeerHello (known : KnownPeers) (daemonId peerAddr generation : Nat) (localDomains : List Nat)
    (now : Nat) : KnownPeers × Bool :=
  match known.lookup daemonId with
  | none => (insertPeer known daemonId ⟨peerAddr, generation, localDomains, now⟩, true)
  | some r =>
    if r.generation < generation then
      (insertPeer known daemonId ⟨peerAddr, generation, localDomains, now⟩, true)
    else if r.localDomains ≠ localDomains then
      (insertPeer known daemonId ⟨peerAddr, r.generation, localDomains, now⟩, true)
    else (insertPeer known daemonId ⟨peerAddr, r.generation, r.localDomains, now⟩, false)

def activeDomains (table : Table n) : List Nat :=
  (List.finRange n).foldl (fun domains k =>
    let e := table k
    if e.state ≠ .empty ∧ e.state ≠ .leaving ∧ e.daemonOrigin = 0 ∧ e.domainId ∉ domains then
      domains ++ [e.domainId]
    else domains) []

structure Peer where
  daemonId : Nat
  addr : Nat
  generation : Nat
  domains : List Nat
  graph : Nat → List PeerNodeInfo

structure State (n : Nat) where
  table : Table n
  known : KnownPeers
  clock : Nat
  lastSync : Nat

def secs (st : State n) : Nat := st.clock / 1000

/-- The domains of which the exchange went through are merged one by one. -/
def syncDomains (peer : Peer) (now : Nat) (table : Table n) (domains : List Nat) : Option (Table n) :=
  domains.foldlM (fun table d => processTopicUpdates (inlineMerge peer.daemonId now (peer.graph d) table))
    table

structure Exchange where
  connected : Bool
  failed : List Nat

def synced (x : Exchange) (domains : List Nat) : List Nat :=
  if x.connected then domains.filter (· ∉ x.failed) else []

/-- A HELLO of the peer. Only one that says something new leads to a sync. -/
def handleHello (peer : Peer) (x : Exchange) (st : State n) : Option (State n) :=
  let localDomains := (activeDomains st.table).insertionSort (· ≤ ·)
  let (known, changed) :=
    recordPeerHello st.known peer.daemonId peer.addr peer.generation localDomains st.clock
  let shared := peer.domains.filter (· ∈ localDomains)
  if changed = false ∨ shared = [] then some { st with known := known }
  else do
    let table ← syncDomains peer (secs st) st.table (synced x shared)
    some { st with
      table := table
      known := if synced x shared = shared then known else removePeer known peer.daemonId
      lastSync := if synced x shared = [] then st.lastSync else secs st }

def fromStalePeer (daemonId : Nat) (e : NodeTableEntry) : Bool :=
  decide ((e.state = .active ∨ e.state = .pending) ∧ e.daemonOrigin = daemonId ∧ e.pid = 0)

def removeStalePeer (table : Table n) (daemonId : Nat) : Table n :=
  let cleared : Table n := fun k =>
    if fromStalePeer daemonId (table k) = true then clearStale (table k) else table k
  (clearedNodeIds table cleared).foldl removeMatchesForNode cleared

theorem removeStalePeer_thinned (table : Table n) (daemonId : Nat) :
    Thinned (fromStalePeer daemonId) table (removeStalePeer table daemonId) :=
  thinned_of_cleared (fromStalePeer daemonId) clearStale (fun _ => ⟨_, _, rfl⟩)
    daemon_removeMatches_pruned rfl

def stalePeers (known : KnownPeers) (now : Nat) : List Nat :=
  (known.filter fun p => 10000 < now - p.2.lastHello).map Prod.fst

inductive Event (n : Nat)
  | tick (ms : Nat)
  | session (k : Fin n) (w : DaemonRun.Write)
  | hello (x : Exchange)
  | push (domain : Nat)
  | sweep
  | pendingRegistrations
  | topicUpdates
  | departed (alive : Nat → Nat → Bool)

def step (peer : Peer) (st : State n) : Event n → Option (State n)
  | .tick ms => some { st with clock := st.clock + ms }
  | .session k w => (DaemonRun.write (st.table k) w).map fun e => { st with table := update st.table k e }
  | .hello x => handleHello peer x st
  | .push domain => some { st with
      table := mergeRemoteNodes peer.daemonId (secs st) (peer.graph domain) st.table
      lastSync := secs st }
  | .sweep => some { st with
      table := (stalePeers st.known st.clock).foldl removeStalePeer st.table
      known := (stalePeers st.known st.clock).foldl removePeer st.known }
  | .pendingRegistrations =>
    (processPendingRegistrations st.table).map fun table => { st with table := table }
  | .topicUpdates => (processTopicUpdates st.table).map fun table => { st with table := table }
  | .departed alive => some { st with table := processDepartedNodes alive (secs st) st.table }

def StampedAt (origin now : Nat) (table : Table n) : Prop :=
  ∀ k, isOccupied (table k) = true → (table k).daemonOrigin = origin →
    (table k).state = .active ∧ (table k).pid = 0 ∧ (table k).lastSeenSecs = now

theorem StampedAt.of_fewer {origin now : Nat} (h : StampedAt origin now table)
    (hfewer : ∀ k, isOccupied (table' k) = true → SameNode (table k) (table' k)) :
    StampedAt origin now table' := by
  intro k hk ho
  have hsame := hfewer k hk
  rw [isOccupied, hsame.state] at hk
  rw [hsame.daemonOrigin] at ho
  obtain ⟨hstate, hpid, hseen⟩ := h k hk ho
  exact ⟨hsame.state.trans hstate, (hsame.field (·.pid) fun _ => rfl).trans hpid,
    (hsame.field (·.lastSeenSecs) fun _ => rfl).trans hseen⟩

section Merge

variable {origin now : Nat} {node : PeerNodeInfo} {nodes rest : List PeerNodeInfo}

def StampedFor (origin now : Nat) (done : Nat → Prop) (table : Table n) : Prop :=
  ∀ k, isOccupied (table k) = true → (table k).daemonOrigin = origin → done (table k).nodeId →
    (table k).state = .active ∧ (table k).pid = 0 ∧ (table k).lastSeenSecs = now

theorem StampedFor.placed (hn : n ≤ maxNodes) (hd : DistinctIds table) {done : Nat → Prop}
    (h : StampedFor origin now done table) {idx : Fin n}
    (hp : Placed origin now node idx table table') :
    StampedFor origin now (fun id => done id ∨ id = node.nodeId) table' := by
  obtain ⟨r, e, start, hr, rfl, hslot⟩ := hp
  intro k hk ho hdone
  rw [update_apply] at hk ho hdone ⊢
  split_ifs at hk ho hdone ⊢ with hidx
  · exact ⟨rfl, rfl, rfl⟩
  have hsame := (hr k).same
  rw [(hr k).isOccupied] at hk
  rw [hsame.daemonOrigin] at ho
  rw [hsame.nodeId] at hdone
  have hdone' : done (table k).nodeId := by
    refine hdone.resolve_right fun hid => ?_
    rcases hslot with ⟨hocc, hid', _⟩ | ⟨_, _, hnew⟩
    · exact hidx (hd k idx hk hocc (hid.trans hid'.symm))
    · exact hnew k (Nat.lt_of_lt_of_le k.isLt hn) hk hid
  obtain ⟨hstate, hpid, hseen⟩ := h k hk ho hdone'
  exact ⟨hsame.state.trans hstate, (hsame.field (·.pid) fun _ => rfl).trans hpid,
    (hsame.field (·.lastSeenSecs) fun _ => rfl).trans hseen⟩

theorem mergeNode_absent (hn : n ≤ maxNodes) (origin now : Nat) (table : Table n) (node : PeerNodeInfo) :
    (InlineMerge.mergeNode origin now table node = table ∧
        ∀ k, isOccupied (table k) = true → (table k).nodeId ≠ node.nodeId) ∨
      ∃ idx, Placed origin now node idx table (InlineMerge.mergeNode origin now table node) := by
  rcases mergeNode_cases origin now table node with ⟨hfull, heq⟩ | ⟨existing, idx, hfound, heq⟩
  · by_cases habsent : ∀ k, isOccupied (table k) = true → (table k).nodeId ≠ node.nodeId
    · exact .inl ⟨heq, habsent⟩
    · push Not at habsent
      obtain ⟨k, hocc, hid⟩ := habsent
      cases hfind : InlineMerge.findSlot table fun e => isOccupied e && decide (e.nodeId = node.nodeId) with
      | none =>
        have hk := findSlot_eq_none hfind k (Nat.lt_of_lt_of_le k.isLt hn)
        simp [hocc, hid] at hk
      | some idx =>
        have hk := findSlot_eq_some hfind
        simp only [Bool.and_eq_true, decide_eq_true_eq] at hk
        refine .inr ⟨idx, ?_⟩
        simp only [InlineMerge.mergeNode, hfind, Option.some_or]
        exact inline_placeNode_placed (.inl ⟨rfl, hk⟩)
  · exact .inr ⟨idx, heq ▸ inline_placeNode_placed hfound⟩

theorem inline_stamped (hn : n ≤ maxNodes) (hd : DistinctIds table) {done : Nat → Prop}
    (h : StampedFor origin now done table) :
    StampedFor origin now (fun id => done id ∨ id ∈ nodes.map PeerNodeInfo.nodeId)
      (nodes.foldl (InlineMerge.mergeNode origin now) table) := by
  induction nodes generalizing table done with
  | nil => simpa using h
  | cons node rest ih =>
    rw [List.foldl_cons]
    have hmid : DistinctIds (InlineMerge.mergeNode origin now table node) ∧
        StampedFor origin now (fun id => done id ∨ id = node.nodeId)
          (InlineMerge.mergeNode origin now table node) := by
      rcases mergeNode_absent hn origin now table node with ⟨heq, habsent⟩ | ⟨idx, hp⟩
      · rw [heq]
        refine ⟨hd, fun k hk ho hdone => h k hk ho (hdone.resolve_right (habsent k hk))⟩
      · exact ⟨hd.placed hn hp, h.placed hn hd hp⟩
    intro k hk ho hdone
    refine ih hmid.1 hmid.2 k hk ho ?_
    rw [List.map_cons, List.mem_cons] at hdone
    exact or_assoc.mpr hdone

def Room (origin : Nat) (nodes : List PeerNodeInfo) (table : Table n) : Prop :=
  nodes.length ≤ (free table).card ∨ ∀ node ∈ nodes, ∃ k, isOccupied (table k) = true ∧
    (table k).nodeId = node.nodeId ∧ (table k).daemonOrigin = origin

instance (origin : Nat) (nodes : List PeerNodeInfo) (table : Table n) :
    Decidable (Room origin nodes table) := inferInstanceAs (Decidable (_ ∨ _))

theorem Room.placed {idx : Fin n} (h : Room origin (node :: rest) table)
    (hp : Placed origin now node idx table table') : Room origin rest table' := by
  rcases h with hlen | hall
  · have hslots := card_free_placed hp
    rw [List.length_cons] at hlen
    exact .inl (by omega)
  refine .inr fun m hm => ?_
  obtain ⟨k, hocc, hid, ho⟩ := hall m (List.mem_cons_of_mem _ hm)
  by_cases hsame : (table k).nodeId = node.nodeId
  · obtain ⟨r, e, start, _, rfl, _⟩ := hp
    refine ⟨idx, ?_⟩
    rw [update_self]
    exact ⟨rfl, hsame.symm.trans hid, rfl⟩
  · have hpruned := (hp.other hocc hsame).2
    exact ⟨k, hpruned.isOccupied.trans hocc, hpruned.same.nodeId.trans hid,
      hpruned.same.daemonOrigin.trans ho⟩

theorem Room.thinned (h : Room origin nodes table) (hthin : Thinned (obsolete origin nodes) table table') :
    Room origin nodes table' := by
  rcases h with hlen | hall
  · exact .inl (hlen.trans (Finset.card_le_card (free_subset_thinned hthin)))
  refine .inr fun node hnode => ?_
  obtain ⟨k, hocc, hid, ho⟩ := hall node hnode
  rcases hthin k with ⟨hgone, _⟩ | ⟨_, hpruned⟩
  · have hlisted : (table k).nodeId ∈ nodes.map PeerNodeInfo.nodeId := hid ▸ List.mem_map_of_mem hnode
    simp [obsolete, PeerSync.staleFromOrigin, PeerSync.duplicateRemote, ho] at hgone
    exact absurd hlisted (by simpa using hgone.2)
  · exact ⟨k, hpruned.isOccupied.trans hocc, hpruned.same.nodeId.trans hid,
      hpruned.same.daemonOrigin.trans ho⟩

theorem Room.not_stuck (h : Room origin (node :: rest) table)
    (hnone : (findSlotByNodeId table node.nodeId).or (findFreeSlot table) = none) : False := by
  obtain ⟨hid, hfree⟩ := Option.or_eq_none_iff.mp hnone
  rcases h with hlen | hall
  · have hfull : Full table := fun k _ => by simpa using firstSlot_eq_none hfree k
    rw [free_eq_empty hfull] at hlen
    cases hlen
  · obtain ⟨k, hocc, hidk, _⟩ := hall node List.mem_cons_self
    have hk := firstSlot_eq_none hid k
    simp [hocc, hidk] at hk

theorem pushed_stamped (hn : n ≤ maxNodes) (hd : DistinctIds table) {done : Nat → Prop}
    (hroom : Room origin nodes table) (h : StampedFor origin now done table) :
    StampedFor origin now (fun id => done id ∨ id ∈ nodes.map PeerNodeInfo.nodeId)
      (PeerSync.mergeNodes origin now nodes table) := by
  induction nodes generalizing table done with
  | nil => simpa [PeerSync.mergeNodes] using h
  | cons node rest ih =>
    rcases mergeNodes_cases origin now node rest table with ⟨hnone, _⟩ | ⟨idx, _, hfound, heq⟩
    · exact (hroom.not_stuck hnone).elim
    have hp : Placed origin now node idx table _ := peer_placeNode_placed hfound
    rw [heq]
    intro k hk ho hdone
    refine ih (hd.placed hn hp) (hroom.placed hp) (h.placed hn hd hp) k hk ho ?_
    rw [List.map_cons, List.mem_cons] at hdone
    exact or_assoc.mpr hdone

/-- A merge of the daemon's graph stamps every slot that it leaves to the
daemon. -/
theorem merge_stampedAt (side : Side) (hn : n ≤ maxNodes) (horigin : origin ≠ 0) (now : Nat)
    (hd : DistinctIds table) (hroom : side = .receiving → Room origin nodes table) :
    StampedAt origin now (merge side origin now nodes table) := by
  have hnamed := merge_named side horigin now nodes table
  have hnone : ∀ t : Table n, StampedFor origin now (fun _ => False) t := fun t k _ _ hfalse => hfalse.elim
  cases side with
  | receiving =>
    have hthin : Thinned (obsolete origin nodes) table _ :=
      thinned_of_cleared _ (fun _ => zeroEntry) (fun _ => ⟨0, 0, rfl⟩) peer_removeMatches_pruned rfl
    rw [merge, mergeRemoteNodes, if_neg horigin] at hnamed ⊢
    exact fun k hk ho => pushed_stamped hn (hd.thinned hthin) ((hroom rfl).thinned hthin) (hnone _)
      k hk ho (.inr (hnamed k hk ho))
  | requesting =>
    have hthin : Thinned (stale origin nodes) table _ :=
      thinned_of_cleared _ clearStale (fun _ => ⟨_, _, rfl⟩) daemon_removeMatches_pruned rfl
    exact fun k hk ho => inline_stamped hn (hd.thinned hthin) (hnone _) k hk ho (.inr (hnamed k hk ho))

end Merge

end RmwAxon.PeerLiveness
