import RmwAxon.DomainSync

namespace RmwAxon.LocalSlots

open DomainSync MatchPass MergeRounds NodeTable List
open PeerSync (PeerNodeInfo PeerTopicInfo fillEntry peerNodeEndpointsMatch topicsMatch topicInfoToEntry)

variable {n : Nat} {table table' : Table n} {origin now : Nat} {node : PeerNodeInfo}
  {nodes rest : List PeerNodeInfo}

theorem topicsMatch_map (topics : List PeerTopicInfo) :
    topicsMatch ((topics.take maxTopicsPerNode).map topicInfoToEntry) topics = true := by
  rw [topicsMatch, Bool.and_eq_true, all_eq_true]
  refine ⟨by simp [Nat.min_comm], fun p hp => ?_⟩
  rw [zip_map_left, mem_map] at hp
  obtain ⟨q, hq, rfl⟩ := hp
  have hzip : ∀ (a b : List PeerTopicInfo) (q : PeerTopicInfo × PeerTopicInfo), a <+: b →
      q ∈ a.zip b → q.1 = q.2 := by
    intro a b q hab hq
    obtain ⟨c, rfl⟩ := hab
    obtain ⟨i, hi, rfl⟩ := getElem_of_mem hq
    rw [getElem_zip]
    rw [length_zip] at hi
    exact (getElem_append_left (by omega)).symm
  simp [hzip _ _ q ( take_prefix ..) hq]

theorem peerNodeEndpointsMatch_fillEntry (origin now : Nat) (node : PeerNodeInfo) (e : NodeTableEntry)
    (start : Nat) :
    peerNodeEndpointsMatch { fillEntry origin now node e with procStarttime := start } node = true := by
  have haddrs : (node.quicAddrs.take maxQuicAddrs).length = min node.quicAddrs.length maxQuicAddrs := by
    rw [length_take, Nat.min_comm]
  have htake : (node.quicAddrs.take maxQuicAddrs).take maxQuicAddrs = node.quicAddrs.take maxQuicAddrs := by
    rw [take_take, Nat.min_self]
  simp only [peerNodeEndpointsMatch, fillEntry, haddrs, htake, topicsMatch_map, ne_eq, not_true_eq_false,
    or_self, if_false, Bool.and_self]

theorem peerNodeEndpointsMatch_congr {e e' : NodeTableEntry} (h : SameNode e e') (node : PeerNodeInfo) :
    peerNodeEndpointsMatch e' node = peerNodeEndpointsMatch e node :=
  h.field (fun e => peerNodeEndpointsMatch e node) fun _ => rfl

def Agreeing (nodes : List PeerNodeInfo) (table : Table n) (x : Nat) : Prop :=
  ∀ j, isOccupied (table j) = true → (table j).nodeId = x →
    ∀ node ∈ nodes, node.nodeId = x → peerNodeEndpointsMatch (table j) node = true

def NamedOnce (nodes : List PeerNodeInfo) (x : Nat) : Prop :=
  ∀ node ∈ nodes, ∀ node' ∈ nodes, node.nodeId = x → node'.nodeId = x → node' = node

/-- The list says nothing new of the node x: its slot is not cleared, and it is
listed with the endpoints it has. -/
structure Unchanged (marked : NodeTableEntry → Bool) (nodes : List PeerNodeInfo) (table : Table n)
    (x : Nat) : Prop where
  stays : ∀ j, isOccupied (table j) = true → (table j).nodeId = x → marked (table j) = false
  agreeing : Agreeing nodes table x
  once : NamedOnce nodes x

theorem Agreeing.pruned {x : Nat} (h : Agreeing nodes table x) (lost : MatchEntry → Prop)
    (hp : ∀ k, isOccupied (table' k) = true → Pruned lost (table k) (table' k)) :
    Agreeing nodes table' x := by
  intro j hocc hid v hv hvx
  have hj := hp j hocc
  rw [peerNodeEndpointsMatch_congr hj.same]
  exact h j (hj.isOccupied ▸ hocc) (hj.same.nodeId ▸ hid) v hv hvx

theorem Agreeing.placed {x : Nat} (h : Agreeing nodes table x) (honce : NamedOnce nodes x)
    (hnode : node ∈ nodes) {idx : Fin n} (hp : Placed origin now node idx table table') :
    Agreeing nodes table' x := by
  obtain ⟨r, e, start, hr, rfl, _⟩ := hp
  intro j
  rw [Function.update_apply]
  split_ifs
  · intro _ hid v hv hvx
    rw [honce node hnode v hv hid hvx]
    exact peerNodeEndpointsMatch_fillEntry origin now node e start
  · exact h.pruned _ (fun k _ => hr k) j

theorem rounds_unnamed (hr : Rounds origin now rest table table') (hrest : rest ⊆ nodes) {k : Fin n}
    (hocc : isOccupied (table k) = true) (hid : (table k).nodeId ∉ nodes.map PeerNodeInfo.nodeId) :
    Pruned (fun m => ¬ (Agreeing nodes table m.nodeId ∧ NamedOnce nodes m.nodeId)) (table k) (table' k) := by
  induction hr with
  | nil => exact .refl _ _
  | @placed node rest t u v idx hp _ ih =>
    have hnode : node ∈ nodes := hrest mem_cons_self
    have hne : (t k).nodeId ≠ node.nodeId := fun heq => hid (heq ▸ mem_map_of_mem hnode)
    obtain ⟨_, hpruned⟩ := hp.other hocc hne
    refine (hpruned.mono ?_).trans ((ih (fun m hm => hrest (mem_cons_of_mem _ hm))
      (hpruned.isOccupied ▸ hocc) (hpruned.same.nodeId ▸ hid)).mono ?_)
    · rintro m ⟨hm, j, hj, hjid, hmatch⟩ ⟨hagree, _⟩
      rw [hagree j hj (hjid.trans hm.symm) node hnode hm.symm] at hmatch
      cases hmatch
    · exact fun m hm hboth => hm ⟨hboth.1.placed hboth.2 hnode hp, hboth.2⟩
  | passed _ _ ih => exact ih (fun m hm => hrest (mem_cons_of_mem _ hm)) hocc hid

theorem gone_local (side : Side) (horigin : origin ≠ 0) {e : NodeTableEntry} (hlocal : e.daemonOrigin = 0) :
    gone side origin nodes e = false := by
  have hstale : PeerSync.staleFromOrigin origin (nodes.map PeerNodeInfo.nodeId) e = false := by
    simp [PeerSync.staleFromOrigin, hlocal, horigin.symm]
  cases side with
  | receiving => simp [gone, obsolete, hstale, PeerSync.duplicateRemote, hlocal]
  | requesting => simp [gone, stale, hstale]

/-- A merge leaves the slot of a local node to it when the list does not name
its number. Of its matches only those to nodes that the list changes or that
have gone are lost, and when none is lost the slot is as it was. -/
theorem merge_keeps_local (side : Side) (horigin : origin ≠ 0) (now : Nat) (nodes : List PeerNodeInfo)
    (table : Table n) {k : Fin n} (hocc : isOccupied (table k) = true)
    (hlocal : (table k).daemonOrigin = 0)
    (hid : (table k).nodeId ∉ nodes.map PeerNodeInfo.nodeId) :
    Pruned (fun m => ¬ Unchanged (gone side origin nodes) nodes table m.nodeId) (table k)
      (merge side origin now nodes table k) := by
  obtain ⟨t, hthin, hrounds⟩ := merge_merged side horigin now nodes table
  have hkept : Pruned (ToGone (gone side origin nodes) table) (table k) (t k) := by
    rcases hthin k with ⟨hgone, _⟩ | ⟨_, hpruned⟩
    · rw [gone_local side horigin hlocal] at hgone
      cases hgone
    · exact hpruned
  have hafter := rounds_unnamed hrounds (List.Subset.refl nodes) (hkept.isOccupied ▸ hocc)
    (hkept.same.nodeId ▸ hid)
  refine (hkept.mono ?_).trans (hafter.mono ?_)
  · rintro m ⟨j, hgone, hj⟩ hunch
    have hocc : isOccupied (table j) = true := by
      cases side with
      | receiving | requesting => exact (Bool.and_eq_true_iff.mp hgone).1
    rw [hunch.stays j hocc hj] at hgone
    cases hgone
  · refine fun m hm hunch => hm ⟨?_, hunch.once⟩
    refine hunch.agreeing.pruned (ToGone (gone side origin nodes) table) fun j hj => ?_
    rcases hthin j with ⟨_, e, hblank, hpruned⟩ | ⟨_, hpruned⟩
    · rw [hpruned.isOccupied, hblank.isOccupied] at hj
      cases hj
    · exact hpruned

def matchedToRemote : Table 2 :=
  tableOf 2 [{ fillEntry 0 5 (remoteNode 1 3) zeroEntry with
      pid := 7, remoteMatches := [⟨5, 85, 7000, (10, 0, 0, 9)⟩] },
    fillEntry 9 5 (remoteNode 5 3) zeroEntry]

theorem local_node_kept :
    ∃ k, isOccupied (matchedToRemote k) = true ∧ (matchedToRemote k).daemonOrigin = 0 ∧
      (matchedToRemote k).nodeId ∉ [remoteNode 5 3].map PeerNodeInfo.nodeId ∧
      Pruned (fun m => ¬ Unchanged (gone .receiving 9 [remoteNode 5 3]) [remoteNode 5 3] matchedToRemote
        m.nodeId) (matchedToRemote k) (merge .receiving 9 6 [remoteNode 5 3] matchedToRemote k) := by
  have hlocal : ∃ k, isOccupied (matchedToRemote k) = true ∧ (matchedToRemote k).daemonOrigin = 0 ∧
      (matchedToRemote k).nodeId ∉ [remoteNode 5 3].map PeerNodeInfo.nodeId := by decide +kernel
  obtain ⟨k, hocc, hk, hid⟩ := hlocal
  exact ⟨k, hocc, hk, hid, merge_keeps_local .receiving (by decide) 6 _ matchedToRemote hocc hk hid⟩

/-- When the remote node has gone, so has the match. -/
theorem gone_node_unmatched :
    ¬ ∀ (side : Side) (n : Nat) (table : Table n) (origin now : Nat) (nodes : List PeerNodeInfo) (k : Fin n),
      (table k).daemonOrigin = 0 → merge side origin now nodes table k = table k := by
  intro h
  have hlost : ∃ k, (matchedToRemote k).daemonOrigin = 0 ∧
      (merge .receiving 9 6 [] matchedToRemote k).remoteMatches ≠ (matchedToRemote k).remoteMatches := by
    decide +kernel
  obtain ⟨k, hlocal, hne⟩ := hlost
  exact hne (by rw [h .receiving 2 matchedToRemote 9 6 [] k hlocal])

end RmwAxon.LocalSlots
