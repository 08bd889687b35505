import RmwAxon.MergeAgree

namespace RmwAxon.MergePlayed

open DomainSync Matching MatchKeys MatchPass MergeAgree MergeRounds MergeSim NodeTable Function List Option
open PeerSync (PeerNodeInfo mergeNodes peerNodeEndpointsMatch placeNode)
open InlineMerge (mergeNode)

variable {n : Nat} {t : Table n} {origin now : Nat} {node : PeerNodeInfo} {nodes : List PeerNodeInfo}

def without (dead : Nat → Bool) (e : NodeTableEntry) : List MatchEntry :=
  e.remoteMatches.filter fun m => !(decide (e.state = .active) && dead m.nodeId)

theorem compactMatches_without {e : NodeTableEntry} (hlen : e.remoteMatches.length ≤ maxMatches) (id : Nat) :
    (if e.state ≠ .active then e
      else compactMatches (fun m => decide (m.nodeId ≠ id)) e.remoteMatches.length e).remoteMatches =
      without (fun x => decide (x = id)) e := by
  by_cases hstate : e.state = .active
  · rw [if_neg (by simp [hstate]), TopicUpdates.compactMatches_remoteMatches, take_of_length_le hlen, without]
    simp [hstate]
  · rw [if_pos hstate, without]
    simp [hstate]

structure Withdraws (remove : Table n → Nat → Table n) : Prop where
  pruned : ∀ t id k, Pruned (fun m => m.nodeId = id) (t k) (remove t id k)
  left : ∀ t, Short t → ∀ id k, (remove t id k).remoteMatches = without (fun x => decide (x = id)) (t k)

theorem peer_withdraws : Withdraws (n := n) PeerSync.removeMatchesForNode where
  pruned := peer_removeMatches_pruned
  left := fun t ht id k => by rw [peer_removeMatches_eq (ht k), compactMatches_without (ht k)]

theorem daemon_withdraws : Withdraws (n := n) removeMatchesForNode where
  pruned := daemon_removeMatches_pruned
  left := fun t ht id k => by rw [daemon_removeMatches_eq, compactMatches_without (ht k)]

variable {remove : Table n → Nat → Table n}

theorem Withdraws.list (h : Withdraws remove) (hshort : Short t) (ids : List Nat) (k : Fin n) :
    (ids.foldl remove t k).remoteMatches = without (fun x => decide (x ∈ ids)) (t k) := by
  induction ids generalizing t with
  | nil => simp [without]
  | cons id ids ih =>
    have hone := h.pruned t id
    have hshort' : Short (remove t id) := fun j => (hone j).fewer.length_le.trans (hshort j)
    rw [foldl_cons, ih hshort', without, h.left t hshort, (hone k).same.state, without, without,
      List.filter_filter]
    refine filter_congr fun m _ => ?_
    cases decide ((t k).state = .active) with
    | false => rfl
    | true => simp [Bool.and_comm]

def moved (t : Table n) (node : PeerNodeInfo) : Bool :=
  (findSlotByNodeId t node.nodeId).any fun k => !peerNodeEndpointsMatch (t k) node

theorem moved_iff (hd : DistinctIds t) : moved t node = true ↔ ∃ k, isOccupied (t k) = true ∧
    (t k).nodeId = node.nodeId ∧ peerNodeEndpointsMatch (t k) node = false := by
  rw [moved, Option.any_eq_true]
  constructor
  · rintro ⟨k, hk, hdiff⟩
    have hslot := firstSlot_eq_some hk
    simp only [Bool.and_eq_true, decide_eq_true_eq] at hslot
    exact ⟨k, hslot.1, hslot.2, by simpa using hdiff⟩
  · rintro ⟨k, hocc, hid, hdiff⟩
    cases hfound : findSlotByNodeId t node.nodeId with
    | none => exact absurd hid (isNone_findSlotByNodeId.mp (by rw [hfound]; rfl) k hocc)
    | some j =>
      have hslot := firstSlot_eq_some hfound
      simp only [Bool.and_eq_true, decide_eq_true_eq] at hslot
      rw [hd j k hslot.1 hocc (hslot.2.trans hid.symm)]
      exact ⟨k, rfl, by simp [hdiff]⟩

structure Put (origin : Nat) (node : PeerNodeInfo) (idx : Fin n) (t t' : Table n) : Prop where
  placed : ∃ now, Placed origin now node idx t t'
  kept : ∀ k, isOccupied (t k) = true → (t' k).remoteMatches =
    without (fun x => moved t node && decide (x = node.nodeId)) (t k)
  fresh : isOccupied (t idx) = false → (t' idx).remoteMatches = []

/-- A list is merged node by node. A newcomer for which there is no slot is
passed over. -/
inductive Played (origin : Nat) : List PeerNodeInfo → Table n → Table n → Prop
  | nil (t : Table n) : Played origin [] t t
  | put {node : PeerNodeInfo} {rest : List PeerNodeInfo} {t u v : Table n} (idx : Fin n) :
      Put origin node idx t u → Played origin rest u v → Played origin (node :: rest) t v
  | passed {node : PeerNodeInfo} {rest : List PeerNodeInfo} {t v : Table n} :
      Full t → findSlotByNodeId t node.nodeId = none → Played origin rest t v →
      Played origin (node :: rest) t v

theorem unlinked_without (h : Withdraws remove) (hshort : Short t) (node : PeerNodeInfo) (k : Fin n) :
    ((if moved t node = true then remove t node.nodeId else t) k).remoteMatches =
      without (fun x => moved t node && decide (x = node.nodeId)) (t k) := by
  split_ifs with hmoved
  · rw [h.left t hshort, hmoved]
    simp only [Bool.true_and]
  · rw [Bool.not_eq_true] at hmoved
    simp [hmoved, without]

theorem put_of_found {idx : Fin n} (hfound : Found t node (findSlotByNodeId t node.nodeId) idx)
    {r : Table n} (hr : ∀ k, (r k).remoteMatches =
      without (fun x => moved t node && decide (x = node.nodeId)) (t k)) {e : NodeTableEntry}
    (hplaced : Placed origin now node idx t (update r idx e))
    (he : e.remoteMatches =
      if (findSlotByNodeId t node.nodeId).isNone = true then [] else (r idx).remoteMatches) :
    Put origin node idx t (update r idx e) where
  placed := ⟨now, hplaced⟩
  kept := by
    intro k hk
    rw [update_apply]
    split_ifs with hidx
    · subst hidx
      rcases hfound with ⟨hsome, _⟩ | ⟨_, hempty, _⟩
      · rw [he, hsome]
        exact hr k
      · rw [hk] at hempty
        cases hempty
    · exact hr k
  fresh := by
    intro hempty
    rw [update_self, he]
    rcases hfound with ⟨_, hocc, _⟩ | ⟨hnone, _⟩
    · rw [hempty] at hocc
      cases hocc
    · rw [hnone]
      rfl

section Step

variable {idx : Fin n} (hshort : Short t) (hfound : Found t node (findSlotByNodeId t node.nodeId) idx)
include hshort hfound

theorem peer_placeNode_put :
    Put origin node idx t (placeNode origin now node (findSlotByNodeId t node.nodeId) idx t) := by
  refine put_of_found hfound (unlinked_without peer_withdraws hshort node) (peer_placeNode_placed hfound) ?_
  show (if (findSlotByNodeId t node.nodeId).isNone = true then zeroEntry else _).remoteMatches = _
  exact apply_ite NodeTableEntry.remoteMatches ..

theorem inline_placeNode_put : Put origin node idx t
      (InlineMerge.placeNode origin now node (findSlotByNodeId t node.nodeId) idx t) := by
  refine put_of_found hfound (unlinked_without daemon_withdraws hshort node)
    (inline_placeNode_placed hfound) ?_
  exact apply_ite NodeTableEntry.remoteMatches ..

end Step

theorem mergeNodes_played (hn : n ≤ maxNodes) (hshort : Short t)
    (hids : (nodes.map PeerNodeInfo.nodeId).Nodup) :
    Played origin (reached t (free t).card nodes) t (mergeNodes origin now nodes t) := by
  induction nodes generalizing t with
  | nil => exact .nil t
  | cons node rest ih =>
    rw [map_cons, nodup_cons] at hids
    rcases mergeNodes_cases origin now node rest t with ⟨hnone, hfull, heq⟩ | ⟨idx, _, hfound, heq⟩
    · rw [heq, reached_full hfull (or_eq_none_iff.mp hnone).1]
      exact .nil t
    have hplaced : Placed origin now node idx t _ := peer_placeNode_placed hfound
    rw [heq, placed_reached hplaced hn hids.1]
    exact .put idx (peer_placeNode_put hshort hfound)
      (ih (hplaced.lasting (short_lasting [node]) mem_cons_self hshort) hids.2)

theorem mergeNode_played (hn : n ≤ maxNodes) (hshort : Short t) (nodes : List PeerNodeInfo) :
    Played origin nodes t (nodes.foldl (mergeNode origin now) t) := by
  induction nodes generalizing t with
  | nil => exact .nil t
  | cons node rest ih =>
    have hself : Sim t t := fun _ => rfl
    rw [foldl_cons, hself.mergeNode_eq hn]
    rcases mergeNodes_cases origin now node rest t with ⟨hnone, hfull, _⟩ | ⟨idx, hsome, hfound, _⟩
    · rw [hnone, elim_none]
      exact .passed hfull (or_eq_none_iff.mp hnone).1 (ih hshort)
    have hplaced : Placed origin now node idx t _ := inline_placeNode_placed hfound
    rw [hsome, elim_some]
    exact .put idx (inline_placeNode_put hshort hfound)
      (ih (hplaced.lasting (short_lasting [node]) mem_cons_self hshort))

end RmwAxon.MergePlayed
