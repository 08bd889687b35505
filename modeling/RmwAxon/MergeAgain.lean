import RmwAxon.LocalSlots

namespace RmwAxon.MergeAgain

open DomainSync LocalSlots Matching MatchPass MergeRounds NodeTable Function List
open PeerSync (PeerNodeInfo fillEntry mergeNodes mergeRemoteNodes peerNodeEndpointsMatch)

variable {n : Nat} {t u : Table n} {origin now now' x : Nat} {node : PeerNodeInfo}
  {nodes rest : List PeerNodeInfo} {idx : Fin n}
variable {e e' : NodeTableEntry}

theorem obsolete_congr (h : SameNode e e') : obsolete origin nodes e' = obsolete origin nodes e :=
  h.field (obsolete origin nodes) fun _ => rfl

theorem thinned_current (h : Thinned (obsolete origin nodes) t u) (k : Fin n) :
    obsolete origin nodes (u k) = false := by
  rcases h k with ⟨_, e, hblank, hpruned⟩ | ⟨hkept, hpruned⟩
  · rw [obsolete, hpruned.isOccupied, hblank.isOccupied]
    rfl
  · rw [obsolete_congr hpruned.same, hkept]

theorem rounds_current (h : Rounds origin now rest t u) (hrest : rest ⊆ nodes)
    (ht : ∀ k, obsolete origin nodes (t k) = false) : ∀ k, obsolete origin nodes (u k) = false := by
  induction h with
  | nil => exact ht
  | passed _ _ ih => exact ih (fun m hm => hrest (mem_cons_of_mem _ hm)) ht
  | @placed node _ _ _ _ idx hplaced _ ih =>
    refine ih (fun m hm => hrest (mem_cons_of_mem _ hm)) fun k => ?_
    obtain ⟨r, e, start, hr, rfl, _⟩ := hplaced
    rw [update_apply]
    split_ifs
    · have hmem : ∃ m ∈ nodes, m.nodeId = node.nodeId := ⟨node, hrest mem_cons_self, rfl⟩
      simp [obsolete, PeerSync.staleFromOrigin, PeerSync.duplicateRemote, fillEntry, hmem]
    · rw [obsolete_congr (hr k).same, ht k]

/-- After a merge there is nothing that the same list makes obsolete. -/
theorem mergeRemoteNodes_current (horigin : origin ≠ 0) (k : Fin n) :
    obsolete origin nodes (mergeRemoteNodes origin now nodes t k) = false := by
  obtain ⟨s, hthin, hrounds⟩ := mergeRemoteNodes_merged horigin nodes t
  exact rounds_current hrounds (List.Subset.refl nodes) (thinned_current hthin) k

theorem mergeRemoteNodes_of_current (horigin : origin ≠ 0) (h : ∀ k, obsolete origin nodes (t k) = false) :
    mergeRemoteNodes origin now nodes t = mergeNodes origin now nodes t := by
  have hclear : PeerSync.clearObsolete origin (nodes.map PeerNodeInfo.nodeId) t = t := by
    funext k
    have hk := h k
    rw [obsolete] at hk
    rw [PeerSync.clearObsolete, hk]
    rfl
  have hnone : clearedNodeIds t t = [] := by simp [clearedNodeIds]
  rw [mergeRemoteNodes, if_neg horigin]
  simp only [hclear, hnone, foldl_nil]

def named (x : Nat) (e : NodeTableEntry) : Bool := isOccupied e && decide (e.nodeId = x)

theorem named_congr (h : SameNode e e') : named x e' = named x e :=
  h.field (named x) fun _ => rfl

theorem findSlot_congr (h : ∀ k, named x (u k) = named x (t k)) :
    findSlotByNodeId u x = findSlotByNodeId t x := by
  simp only [named] at h
  simp only [findSlotByNodeId, firstSlot, h]

theorem named_fillEntry (e : NodeTableEntry) (start : Nat) :
    named x { fillEntry origin now node e with procStarttime := start } = decide (node.nodeId = x) := rfl

theorem findSlot_placed_other (h : Placed origin now node idx t u) (hx : node.nodeId ≠ x) :
    findSlotByNodeId u x = findSlotByNodeId t x := by
  obtain ⟨r, e, start, hr, rfl, hslot⟩ := h
  refine findSlot_congr fun k => ?_
  rw [update_apply]
  split_ifs with hk
  · subst hk
    rw [named_fillEntry, decide_eq_false hx]
    rcases hslot with ⟨_, hid, _⟩ | ⟨hfree, _⟩
    · simp [named, hid, hx]
    · simp [named, hfree]
  · exact named_congr (hr k).same

theorem findSlot_placed (hfound : Found t node (findSlotByNodeId t node.nodeId) idx)
    (h : Placed origin now node idx t u) : findSlotByNodeId u node.nodeId = some idx := by
  obtain ⟨r, e, start, hr, rfl, _⟩ := h
  have hother : ∀ k, k ≠ idx → named node.nodeId (update r idx
      { fillEntry origin now node e with procStarttime := start } k) = named node.nodeId (t k) := by
    intro k hk
    rw [update_of_ne hk]
    exact named_congr (hr k).same
  rcases hfound with ⟨hexisting, hocc, hid⟩ | ⟨hnone, _⟩
  · rw [← hexisting]
    refine findSlot_congr fun k => ?_
    by_cases hk : k = idx
    · subst hk
      rw [update_self, named_fillEntry]
      simp [named, hocc, hid]
    · exact hother k hk
  · cases hslot : findSlotByNodeId (update r idx
        { fillEntry origin now node e with procStarttime := start }) node.nodeId with
    | none =>
      have hidx := firstSlot_eq_none hslot idx
      rw [update_self] at hidx
      simp [fillEntry, isOccupied] at hidx
    | some k =>
      by_contra hk
      have hk' : k ≠ idx := fun heq => hk (congrArg some heq)
      have hold : named node.nodeId (t k) = true := (hother k hk').symm.trans (firstSlot_eq_some hslot)
      exact absurd hold (by rw [named, firstSlot_eq_none hnone k]; decide)

/-- The slot has the node as the list describes it, matches apart. -/
def Settled (origin now : Nat) (node : PeerNodeInfo) (idx : Fin n) (t : Table n) : Prop :=
  findSlotByNodeId t node.nodeId = some idx ∧
    { fillEntry origin now node (MatchPass.node (t idx)) with procStarttime := 0 } = MatchPass.node (t idx)

theorem settled_placeNode (hfound : Found t node (findSlotByNodeId t node.nodeId) idx) :
    Settled origin now node idx
      (PeerSync.placeNode origin now node (findSlotByNodeId t node.nodeId) idx t) := by
  refine ⟨findSlot_placed hfound (peer_placeNode_placed hfound), ?_⟩
  rw [PeerSync.placeNode, update_self]
  rfl

theorem settled_rounds (h : Settled origin now node idx t) (hrounds : Rounds origin now rest t u)
    (hne : node.nodeId ∉ rest.map PeerNodeInfo.nodeId) : Settled origin now node idx u := by
  induction hrounds with
  | nil => exact h
  | passed _ _ ih => exact ih h fun hmem => hne (mem_cons_of_mem _ hmem)
  | @placed node' rest t u v i hplaced _ ih =>
    have hother : node'.nodeId ≠ node.nodeId := fun heq => hne (heq ▸ mem_cons_self)
    refine ih ⟨(findSlot_placed_other hplaced hother).trans h.1, ?_⟩ fun hmem =>
      hne (mem_cons_of_mem _ hmem)
    have hnamed := firstSlot_eq_some h.1
    simp only [Bool.and_eq_true, decide_eq_true_eq] at hnamed
    obtain ⟨_, hpruned⟩ := hplaced.other hnamed.1 fun heq => hother (heq.symm.trans hnamed.2)
    rw [show MatchPass.node (u idx) = MatchPass.node (t idx) from hpruned.same]
    exact h.2

def unseen (e : NodeTableEntry) : NodeTableEntry := { e with lastSeenSecs := 0 }

/-- The tables differ at most in when their nodes were last seen. -/
def Alike (t u : Table n) : Prop := ∀ k, unseen (u k) = unseen (t k)

theorem Alike.field (h : Alike t u) {β : Type} (f : NodeTableEntry → β) (hf : ∀ e, f (unseen e) = f e)
    (k : Fin n) : f (u k) = f (t k) := by
  rw [← hf (u k), h k, hf]

theorem Alike.findSlots (h : Alike t u) (x : Nat) :
    findSlotByNodeId u x = findSlotByNodeId t x ∧ findFreeSlot u = findFreeSlot t := by
  refine ⟨findSlot_congr (h.field (named x) fun _ => rfl), ?_⟩
  have hocc := h.field isOccupied fun _ => rfl
  simp only [findFreeSlot, firstSlot, hocc]

/-- A node that the list describes as it stands only has its time renewed. -/
theorem Alike.placeNode (h : Alike t u) (hset : Settled origin now node idx t) :
    Alike t (PeerSync.placeNode origin now' node (some idx) idx u) := by
  have hfill : { fillEntry origin now node (t idx) with procStarttime := 0 } = t idx :=
    congrArg (fun e => { e with
      remoteMatches := (t idx).remoteMatches, responseGen := (t idx).responseGen }) hset.2
  have hmatch : peerNodeEndpointsMatch (u idx) node = true := by
    rw [h.field (fun e => peerNodeEndpointsMatch e node) fun _ => rfl, ← hfill]
    exact peerNodeEndpointsMatch_fillEntry ..
  intro k
  simp only [PeerSync.placeNode, Option.any_some, hmatch, Bool.not_true, Bool.false_eq_true, if_false,
    Option.isNone_some, update_apply]
  split_ifs with hk
  · subst hk
    rw [← hfill]
    exact congrArg (fun e => { fillEntry origin 0 node e with procStarttime := 0 }) (h k)
  · exact h k

theorem mergeNodes_again (hids : (rest.map PeerNodeInfo.nodeId).Nodup)
    (h : Alike (mergeNodes origin now rest t) u) :
    Alike (mergeNodes origin now rest t) (mergeNodes origin now' rest u) := by
  induction rest generalizing t u with
  | nil => exact h
  | cons node rest ih =>
    obtain ⟨hne, hids⟩ := nodup_cons.mp hids
    obtain ⟨hexisting, hfree⟩ := h.findSlots node.nodeId
    rcases mergeNodes_cases origin now node rest t with ⟨hnone, _, heq⟩ | ⟨idx, _, hfound, heq⟩
    · rw [heq] at h hexisting hfree ⊢
      rw [mergeNodes, hexisting, hfree, hnone]
      exact h
    rw [heq] at h hexisting ⊢
    have hset : Settled origin now node idx (mergeNodes origin now rest _) :=
      settled_rounds (settled_placeNode hfound) (mergeNodes_rounds rest _) hne
    rw [hset.1] at hexisting
    rw [mergeNodes, hexisting]
    exact ih hids (h.placeNode hset)

/-- The same list merged again changes no more than when its nodes were last
seen. -/
theorem merge_again (horigin : origin ≠ 0) (hids : (nodes.map PeerNodeInfo.nodeId).Nodup) (t : Table n)
    (now now' : Nat) :
    Alike (mergeRemoteNodes origin now nodes t)
      (mergeRemoteNodes origin now' nodes (mergeRemoteNodes origin now nodes t)) := by
  rw [mergeRemoteNodes_of_current horigin (mergeRemoteNodes_current horigin)]
  rw [mergeRemoteNodes, if_neg horigin]
  exact mergeNodes_again hids fun _ => rfl

theorem new_node_merged_again :
    Alike (mergeRemoteNodes 9 6 [remoteNode 5 3] (emptyTable 2))
      (mergeRemoteNodes 9 7 [remoteNode 5 3] (mergeRemoteNodes 9 6 [remoteNode 5 3] (emptyTable 2))) :=
  merge_again (by decide) (by decide) _ 6 7

end RmwAxon.MergeAgain
